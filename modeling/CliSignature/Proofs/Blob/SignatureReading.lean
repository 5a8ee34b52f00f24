import CliSignature.Proofs.Blob.ListReading

/-!
Readings of signatures that stand on their own recognize the relations of the grammar that have their
names, if the reading of the types inside recognizes the language of types.
-/

namespace CliSignature.Read

open Grammar Lexeme

variable {held : Nat} {base : Arena} {type : Read (Option NodeId)} {language : ItemLanguage Tree}

/-- What a method or a property agrees with, where `wrap` says which of the two it is. -/
def AgreeingMethod (wrap : MethodSignature → Signature) (arena : Arena) (method : MethodSignature)
    (tree : SignatureTree) : Prop :=
  arena.StoresSignature (wrap method) tree

/-- Reads the number of generic parameters, if the convention says that there is one. -/
def genericCount (convention : CallingConvention) : Read UInt32 :=
  if convention.isGeneric then scan Compressed.readUnsigned else pure 0

/-- A method is its convention, its number of generic parameters and its body, one after the other. -/
theorem method_eq (type : Read (Option NodeId)) :
    method type = (do
      let convention ← start .method
      let generic ← genericCount convention
      methodBody type convention generic) := by
  refine congrArg (start .method >>= ·) (funext fun convention => ?_)
  unfold genericCount
  split <;> rfl

namespace Recognizes

theorem start (form : Signature.Form) :
    Recognizes held base (start form)
      (fun items convention => Starts form convention ∧ items = [.byte convention.bits])
      (fun _ => (· = ·)) := by
  refine ((scan Scan.recognizes_byte).bind (fun byte items convention => Starts form ⟨byte⟩ ∧
    items = [] ∧ convention = ⟨byte⟩) fun later byte byte' hLater hByte => ?_).congr ?_
  · obtain rfl : byte = byte' := hByte
    by_cases hStart : Starts form ⟨byte⟩
    · have hKind : (CallingConvention.mk byte).kind?.map Signature.Form.ofKind = some form := hStart
      simp only [hKind, ↓reduceIte, hStart, true_and]
      exact pure _ fun _ _ => rfl
    · have hKind : (CallingConvention.mk byte).kind?.map Signature.Form.ofKind ≠ some form := hStart
      simp only [hKind, ↓reduceIte, hStart, false_and]
      exact throw
  · intro items convention
    constructor
    · rintro ⟨first, second, byte, rfl, rfl, hStart, rfl, rfl⟩
      exact ⟨hStart, rfl⟩
    · rintro ⟨hStart, rfl⟩
      exact ⟨[.byte convention.bits], [], convention.bits, rfl, rfl, hStart, rfl, rfl⟩

/-- What follows the convention and the number of generic parameters, as the result and the
parameters. -/
theorem methodBody (hType : Recognizes held base type language Arena.Stores)
    (hMarks : MarksSentinel language) (hStarts : ∀ items tree, language items tree → items ≠ [])
    {form : Signature.Form} {wrap : MethodSignature → Signature}
    (hLabel : ∀ m, (wrap m).label =
      ⟨form, m.convention, m.genericCount, m.params.length, m.varargs.map List.length⟩)
    (hChildren : ∀ m, (wrap m).children = m.result :: m.allParams.map some)
    (convention : CallingConvention) (generic : UInt32) :
    Recognizes held base (methodBody type convention generic)
      (fun items tree => ∃ resultItems paramItems result fixed rest,
        items = .number (fixed ++ rest.getD []).length :: (resultItems ++ paramItems) ∧
        tree = ⟨⟨form, convention, generic, fixed.length, rest.map List.length⟩,
          result :: (fixed ++ rest.getD [])⟩ ∧
        language resultItems result ∧ Params language paramItems (fixed, rest))
      (AgreeingMethod wrap) := by
  refine (count (fun n => hType.map₂ (fun later hLater => (hType.later hLater).params hMarks n)
    (fun result params => (⟨⟨form, convention, generic, params.1.length, params.2.map List.length⟩,
      result :: (params.1 ++ params.2.getD [])⟩ : SignatureTree))
    fun early late slot result ids params hLate hResult hParams final hFinal => ?_) ?_).congr ?_
  · have hLater := hParams.mono hFinal
    refine ⟨?_, ?_⟩
    · rw [hLabel, hLater.lengths.1, hLater.lengths.2]
    · rw [hChildren]
      exact .cons (hResult.mono (hFinal.trans hLate)) hLater.stores
  · rintro n items tree ⟨first, second, result, params, rfl, rfl, hResult, hParams, rfl⟩
    have hLength := hParams.length_le hStarts
    simp only [List.length_append] at hLength ⊢
    omega
  · intro items tree
    constructor
    · rintro ⟨n, body, rfl, first, second, result, ⟨fixed, rest⟩, rfl, rfl, hResult, hParams, rfl⟩
      exact ⟨first, second, result, fixed, rest, rfl, rfl, hResult, hParams⟩
    · rintro ⟨first, second, result, fixed, rest, rfl, rfl, hResult, hParams⟩
      exact ⟨_, _, rfl, first, second, result, (fixed, rest), rfl, rfl, hResult, hParams, rfl⟩

theorem genericCount (convention : CallingConvention) :
    Recognizes held base (genericCount convention) (Grammar.genericCount .method convention)
      (fun _ => (· = ·)) := by
  unfold Read.genericCount
  split
  case isTrue hFlag =>
    exact (scan Compressed.recognizes_unsigned).congr fun items count => by
      simp [Grammar.genericCount, hFlag]
  case isFalse hFlag =>
    exact (pure (0 : UInt32) fun _ _ => rfl).congr fun items count => by
      simp [Grammar.genericCount, hFlag]

theorem method (hType : Recognizes held base type language Arena.Stores)
    (hMarks : MarksSentinel language) (hStarts : ∀ items tree, language items tree → items ≠ [])
    (wrap : MethodSignature → Signature)
    (hLabel : ∀ m, (wrap m).label =
      ⟨.method, m.convention, m.genericCount, m.params.length, m.varargs.map List.length⟩)
    (hChildren : ∀ m, (wrap m).children = m.result :: m.allParams.map some) :
    Recognizes held base (method type) (Method language .method) (AgreeingMethod wrap) := by
  rw [method_eq]
  refine ((start .method).bind (fun convention items tree => ∃ genericItems rest generic,
    items = genericItems ++ rest ∧ Grammar.genericCount .method convention genericItems generic ∧
    ∃ resultItems paramItems result fixed varargs,
      rest = .number (fixed ++ varargs.getD []).length :: (resultItems ++ paramItems) ∧
      tree = ⟨⟨.method, convention, generic, fixed.length, varargs.map List.length⟩,
        result :: (fixed ++ varargs.getD [])⟩ ∧
      language resultItems result ∧ Params language paramItems (fixed, varargs))
    fun later convention convention' hLater hConvention => ?_).congr ?_
  · obtain rfl : convention = convention' := hConvention
    refine (genericCount convention).bind _ fun final generic generic' hFinal hCount => ?_
    obtain rfl : generic = generic' := hCount
    exact (hType.later (hFinal.trans hLater)).methodBody hMarks hStarts hLabel hChildren convention
      generic
  · intro items tree
    constructor
    · rintro ⟨_, _, convention, rfl, ⟨hStart, rfl⟩, genericItems, _, generic, rfl, hCount,
        resultItems, paramItems, result, fixed, varargs, rfl, rfl, hResult, hParams⟩
      exact .mk hStart hCount hResult hParams
    · rintro ⟨hStart, hCount, hResult, hParams⟩
      exact ⟨[_], _, _, rfl, ⟨hStart, rfl⟩, _, _, _, rfl, hCount, _, _, _, _, _, rfl, rfl, hResult,
        hParams⟩

theorem property (hType : Recognizes held base type language Arena.Stores)
    (hMarks : MarksSentinel language) (hStarts : ∀ items tree, language items tree → items ≠ []) :
    Recognizes held base (property type) (Method language .property) (AgreeingMethod .property) := by
  refine ((start .property).bind (fun convention items tree =>
    ∃ resultItems paramItems result fixed varargs,
      items = .number (fixed ++ varargs.getD []).length :: (resultItems ++ paramItems) ∧
      tree = ⟨⟨.property, convention, 0, fixed.length, varargs.map List.length⟩,
        result :: (fixed ++ varargs.getD [])⟩ ∧
      language resultItems result ∧ Params language paramItems (fixed, varargs))
    fun later convention convention' hLater hConvention => ?_).congr ?_
  · obtain rfl : convention = convention' := hConvention
    exact (hType.later hLater).methodBody hMarks hStarts (fun _ => rfl) (fun _ => rfl) convention 0
  · intro items tree
    constructor
    · rintro ⟨_, _, convention, rfl, ⟨hStart, rfl⟩, resultItems, paramItems, result, fixed, varargs,
        rfl, rfl, hResult, hParams⟩
      exact .mk hStart (genericCount_property convention) hResult hParams
    · rintro ⟨hStart, hCount, hResult, hParams⟩
      simp only [Grammar.genericCount, reduceCtorEq, false_and, ↓reduceIte] at hCount
      obtain ⟨rfl, rfl⟩ := hCount
      exact ⟨[_], _, _, rfl, ⟨hStart, rfl⟩, _, _, _, _, _, rfl, rfl, hResult, hParams⟩

/-- Lists of types behind a convention. -/
theorem listOf (hType : Recognizes held base type language Arena.Stores)
    (hStarts : ∀ items tree, language items tree → items ≠ []) (form : Signature.Form)
    (role : ListRole) {wrap : CallingConvention → List NodeId → Signature}
    (hLabel : ∀ convention ids, (wrap convention ids).label =
      ⟨form, convention, 0, ids.length, none⟩)
    (hChildren : ∀ convention ids, (wrap convention ids).children = ids.map some) :
    Recognizes held base
      (do let convention ← Read.start form; let ids ← Read.list type role
          Pure.pure (wrap convention ids))
      (fun items tree => ∃ first second convention trees, items = first ++ second ∧
        tree = ⟨⟨form, convention, 0, trees.length, none⟩, trees⟩ ∧
        (Starts form convention ∧ first = [.byte convention.bits]) ∧
        Grammar.list language second trees)
      Arena.StoresSignature := by
  refine (start form).map₂ (fun later hLater => (hType.later hLater).list hStarts role)
    (fun convention trees =>
      (⟨⟨form, convention, 0, trees.length, none⟩, trees⟩ : SignatureTree))
    fun _ _ convention convention' ids trees hLate hConvention hIds final hFinal => ?_
  obtain rfl : convention = convention' := hConvention
  refine ⟨?_, ?_⟩
  · rw [hLabel, hIds.length_eq]
  · rw [hChildren]
    exact stores_map_some (hIds.imp fun _ _ hTree => hTree.mono hFinal)

theorem signatureOf (hType : Recognizes held base type language Arena.Stores)
    (hMarks : MarksSentinel language) (hStarts : ∀ items tree, language items tree → items ≠ [])
    (form : Signature.Form) :
    Recognizes held base (signatureOf type form) (SignatureOf language form)
      Arena.StoresSignature := by
  cases form with
  | method =>
      refine ((hType.method hMarks hStarts .method (fun _ => rfl) (fun _ => rfl)).map id
        fun later m tree _ hMethod final hFinal => ?_).congr fun items tree => ?_
      · exact hMethod.mono hFinal
      · constructor
        · rintro ⟨_, rfl, hMethod⟩
          exact .method hMethod
        · rintro (hMethod | hMethod)
          exact ⟨tree, rfl, hMethod⟩
  | property =>
      refine ((hType.property hMarks hStarts).map id
        fun later m tree _ hMethod final hFinal => ?_).congr fun items tree => ?_
      · exact hMethod.mono hFinal
      · constructor
        · rintro ⟨_, rfl, hMethod⟩
          exact .property hMethod
        · rintro (hMethod | hMethod)
          exact ⟨tree, rfl, hMethod⟩
  | field =>
      refine ((start .field).map₂ (fun later hLater => hType.later hLater)
        (fun convention tree => ⟨⟨.field, convention, 0, 0, none⟩, [tree]⟩)
        fun _ _ convention convention' slot tree hLate hConvention hSlot final hFinal => ?_).congr ?_
      · obtain rfl : convention = convention' := hConvention
        exact ⟨rfl, .cons (hSlot.mono hFinal) .nil⟩
      · intro items tree
        constructor
        · rintro ⟨_, second, convention, child, rfl, rfl, ⟨hStart, rfl⟩, hChild⟩
          exact .field hStart hChild
        · rintro (_ | _ | ⟨hStart, hChild⟩)
          exact ⟨[_], _, _, _, rfl, rfl, ⟨hStart, rfl⟩, hChild⟩
  | locals =>
      refine (hType.listOf hStarts .locals .localVariable (fun _ _ => rfl) (fun _ _ => rfl)).congr
        fun items tree => ?_
      constructor
      · rintro ⟨_, second, convention, trees, rfl, rfl, ⟨hStart, rfl⟩, hTypes⟩
        exact .locals hStart hTypes
      · rintro (_ | _ | _ | ⟨hStart, hTypes⟩)
        exact ⟨[_], _, _, _, rfl, rfl, ⟨hStart, rfl⟩, hTypes⟩
  | methodSpec =>
      refine (hType.listOf hStarts .methodSpec .methodArgument (fun _ _ => rfl) (fun _ _ => rfl)).congr
        fun items tree => ?_
      constructor
      · rintro ⟨_, second, convention, trees, rfl, rfl, ⟨hStart, rfl⟩, hTypes⟩
        exact .methodSpec hStart hTypes
      · rintro (_ | _ | _ | _ | ⟨hStart, hTypes⟩)
        exact ⟨[_], _, _, _, rfl, rfl, ⟨hStart, rfl⟩, hTypes⟩

/-- The first byte tells the form. -/
theorem anySignature (hType : Recognizes held base type language Arena.Stores)
    (hMarks : MarksSentinel language) (hStarts : ∀ items tree, language items tree → items ≠ []) :
    Recognizes held base (anySignature type) (fun items tree => ∃ form, SignatureOf language form items tree)
      Arena.StoresSignature where
  sound := by
    intro before after signature hHeld hBase hRead
    obtain ⟨byte, middle, hPeek, hRead⟩ := bind_eq_ok_iff.mp hRead
    obtain ⟨tail, hTail, rfl⟩ := scan_peek_eq_ok_iff.mp hPeek
    cases hKind : (CallingConvention.mk byte).kind? with
    | none =>
        simp only [hKind] at hRead
        cases hRead
    | some kind =>
        simp only [hKind] at hRead
        obtain ⟨lexemes, tree, hWord, hRest⟩ :=
          (hType.signatureOf hMarks hStarts (.ofKind kind)).sound hHeld hBase hRead
        exact ⟨lexemes, tree, ⟨_, hWord⟩, hRest⟩
  complete := by
    rintro before lexemes tree rest hHeld hBase ⟨form, hWord⟩ hRest
    obtain ⟨signature, after, hRead, hAgrees, hMove, hAfter⟩ :=
      (hType.signatureOf hMarks hStarts form).complete hHeld hBase hWord hRest
    obtain ⟨convention, others, hItems, hStart⟩ := hWord.starts
    obtain ⟨lexeme, after', rfl, hItem, -⟩ := items_eq_cons hItems
    obtain rfl := item_eq_byte hItem
    obtain ⟨kind, hKind, rfl⟩ := Option.map_eq_some_iff.mp hStart
    refine ⟨signature, after, bind_eq_ok_iff.mpr ⟨convention.bits, before, ?_, ?_⟩, hAgrees, hMove,
      hAfter⟩
    · exact scan_peek_eq_ok_iff.mpr ⟨_, hRest, rfl⟩
    · simpa only [hKind] using hRead

end Recognizes

end CliSignature.Read
