import CliSignature.Proofs.Blob.Recognition

/-!
Readings of lists and of parameters recognize the relations of the grammar that have their names, if
the reading of the types inside recognizes the language of types.
-/

namespace CliSignature.Read

open Grammar Lexeme

variable {held : Nat} {base : Arena} {type : Read (Option NodeId)} {language : ItemLanguage Tree}

theorem scan_peek_eq_ok_iff {before after : Reader} {byte : UInt8} :
    scan Scan.peek before = .ok byte after ↔
      ∃ tail, before.cursor.rest = byte :: tail ∧ before = after := by
  cases hRest : before.cursor.rest with
  | nil => simp [scan, Scan.peek, hRest]
  | cons first tail => simp [scan, Scan.peek, hRest]

theorem scan_skip_eq_ok_iff {before after : Reader} :
    scan Scan.skip before = .ok () after ↔
      ∃ byte tail, before.cursor.rest = byte :: tail ∧
        { before with cursor := ⟨tail, before.cursor.offset + 1⟩ } = after := by
  cases hRest : before.cursor.rest with
  | nil => simp [scan, Scan.skip, Scan.byte, bind, EStateM.bind, hRest]
  | cons first tail => simp [scan, Scan.skip, Scan.byte, bind, EStateM.bind, hRest, pure, EStateM.pure]

/-- A count is a number and a comparison, one after the other. -/
theorem count_bind {α : Type} (next : Nat → Read α) :
    count >>= next = scan Compressed.readUnsigned >>= fun n => (do
      let remaining ← scan Scan.remaining
      if remaining < n.toNat then throw DecodeError.outOfBounds else next n.toNat) := by
  simp only [count, bind_assoc]
  refine congrArg (scan Compressed.readUnsigned >>= ·) (funext fun n => ?_)
  refine congrArg (scan Scan.remaining >>= ·) (funext fun remaining => ?_)
  split <;> rfl

/-- What a list of parameters agrees with: trees on both sides of the sentinel, if there is one. -/
def AgreeingParams (arena : Arena) (ids : List NodeId × Option (List NodeId))
    (trees : List Tree × Option (List Tree)) : Prop :=
  List.Forall₂ (fun id tree => arena.Stores (some id) tree) ids.1 trees.1 ∧
    Option.Rel (List.Forall₂ fun id tree => arena.Stores (some id) tree) ids.2 trees.2

theorem AgreeingParams.mono {larger smaller : Arena} (hExtends : larger.Extends smaller)
    {ids : List NodeId × Option (List NodeId)} {trees : List Tree × Option (List Tree)}
    (hAgrees : AgreeingParams smaller ids trees) : AgreeingParams larger ids trees := by
  obtain ⟨fixed, rest⟩ := ids
  obtain ⟨fixedTrees, restTrees⟩ := trees
  obtain ⟨hFixed, hRest⟩ := hAgrees
  refine ⟨hFixed.imp fun _ _ hTree => hTree.mono hExtends, ?_⟩
  cases hRest with
  | none => exact .none
  | some hRest => exact .some (hRest.imp fun _ _ hTree => hTree.mono hExtends)

/-- A list of types in their places. -/
theorem stores_map_some {arena : Arena} {ids : List NodeId} {trees : List Tree}
    (hIds : List.Forall₂ (fun id tree => arena.Stores (some id) tree) ids trees) :
    List.Forall₂ arena.Stores (ids.map some) trees :=
  List.forall₂_map_left_iff.mpr hIds

/-- The parameters on both sides of the sentinel, in their places. -/
theorem AgreeingParams.stores {arena : Arena} {ids : List NodeId × Option (List NodeId)}
    {trees : List Tree × Option (List Tree)} (hAgrees : AgreeingParams arena ids trees) :
    List.Forall₂ arena.Stores ((ids.1 ++ ids.2.getD []).map some) (trees.1 ++ trees.2.getD []) := by
  obtain ⟨fixed, rest⟩ := ids
  obtain ⟨fixedTrees, restTrees⟩ := trees
  obtain ⟨hFixed, hRest⟩ := hAgrees
  refine stores_map_some (List.rel_append hFixed ?_)
  cases hRest with
  | none => exact .nil
  | some hRest => exact hRest

theorem AgreeingParams.lengths {arena : Arena} {ids : List NodeId × Option (List NodeId)}
    {trees : List Tree × Option (List Tree)} (hAgrees : AgreeingParams arena ids trees) :
    ids.1.length = trees.1.length ∧ ids.2.map List.length = trees.2.map List.length := by
  obtain ⟨fixed, rest⟩ := ids
  obtain ⟨fixedTrees, restTrees⟩ := trees
  obtain ⟨hFixed, hRest⟩ := hAgrees
  refine ⟨hFixed.length_eq, ?_⟩
  cases hRest with
  | none => rfl
  | some hRest => exact congrArg some hRest.length_eq

namespace Recognizes

theorem element (hType : Recognizes held base type language Arena.Stores) (role : ListRole) :
    Recognizes held base (element type role) (Grammar.element language)
      (fun arena id tree => arena.Stores (some id) tree) := by
  refine (hType.bind (fun tree items said => tree ≠ .absent ∧ items = [] ∧ said = tree)
    fun later slot tree hLater hSlot => ?_).congr ?_
  · cases hSlot with
    | absent => exact (fail fun before => ⟨_, before, rfl⟩).congr (by simp)
    | @node id node trees hNode hLength hChildren =>
        refine (pure (.node node.label trees) fun arena hArena => ?_).congr (by simp)
        exact Arena.Stores.mono hArena (.node hNode hLength hChildren)
  · intro items tree
    constructor
    · rintro ⟨first, second, said, rfl, hWord, hPresent, rfl, rfl⟩
      exact ⟨by simpa using hWord, hPresent⟩
    · rintro ⟨hWord, hPresent⟩
      exact ⟨items, [], tree, by simp, hWord, hPresent, rfl, rfl⟩

/-- A sequence of readings, each of which recognizes one thing. -/
theorem cons {α β : Type} {one : Read α} {others : Read (List α)} {languageOne : ItemLanguage β}
    {languageOthers : ItemLanguage (List β)} {Agrees : Arena → α → β → Prop}
    (hMono : ∀ {larger smaller : Arena} {value : α} {meaning : β}, larger.Extends smaller →
      Agrees smaller value meaning → Agrees larger value meaning)
    (hOne : Recognizes held base one languageOne Agrees)
    (hOthers : ∀ later : Arena, later.Extends base →
      Recognizes held later others languageOthers fun arena => List.Forall₂ (Agrees arena)) :
    Recognizes held base (do let first ← one; let rest ← others; Pure.pure (first :: rest))
      (fun items meanings => ∃ first rest meaning others, items = first ++ rest ∧
        meanings = meaning :: others ∧ languageOne first meaning ∧ languageOthers rest others)
      (fun arena => List.Forall₂ (Agrees arena)) :=
  hOne.map₂ hOthers List.cons fun _ _ _ _ _ _ hLate hValue hValues _ hFinal =>
    .cons (hMono (hFinal.trans hLate) hValue) (hValues.imp fun _ _ => hMono hFinal)

theorem elements (hType : Recognizes held base type language Arena.Stores) (role : ListRole) (n : Nat) :
    Recognizes held base (elements type role n)
      (fun items trees => Sequence (Grammar.element language) items trees ∧ trees.length = n)
      (fun arena => List.Forall₂ fun id tree => arena.Stores (some id) tree) := by
  induction n generalizing base with
  | zero => exact (pure [] fun _ _ => .nil).congr fun items trees => sequence_zero_iff.symm
  | succ n ih =>
      exact (cons (fun hLarger hTree => hTree.mono hLarger) (hType.element role)
        fun later hLater => ih (hType.later hLater)).congr fun items trees => sequence_succ_iff.symm

/-- A count in front of things that take at least one item each. The bytes that are left can not be
fewer than what the count says, so the early refusal never refuses a word. -/
theorem count {γ δ : Type} {next : Nat → Read γ} {languageNext : Nat → ItemLanguage δ}
    {Agrees : Arena → γ → δ → Prop}
    (hNext : ∀ n, Recognizes held base (next n) (languageNext n) Agrees)
    (hEnough : ∀ n items meaning, languageNext n items meaning → n ≤ items.length) :
    Recognizes held base (do let n ← count; next n)
      (fun items meaning => ∃ n rest, items = .number n :: rest ∧ languageNext n rest meaning) Agrees where
  sound := by
    intro before after result hHeld hBase hRead
    obtain ⟨n, middle, hCount, hRead⟩ := bind_eq_ok_iff.mp hRead
    obtain ⟨value, middle', hUnsigned, hCount⟩ := bind_eq_ok_iff.mp hCount
    obtain ⟨remaining, middle'', hRemaining, hCount⟩ := bind_eq_ok_iff.mp hCount
    obtain ⟨rfl, rfl⟩ : middle'.cursor.remaining = remaining ∧ middle' = middle'' := by
      simpa [Read.scan, Scan.remaining] using hRemaining
    split at hCount
    case isTrue => cases hCount
    case isFalse =>
      obtain ⟨rfl, rfl⟩ := pure_eq_ok_iff.mp hCount
      obtain ⟨lexemes, _, hWord, rfl, hMove⟩ :=
        (scan Compressed.recognizes_unsigned).sound hHeld hBase hUnsigned
      obtain ⟨lexemes', meaning, hWord', hAgrees, hMove'⟩ :=
        (hNext value.toNat).sound (hMove.held.trans hHeld) (hMove.arena.trans hBase) hRead
      refine ⟨lexemes ++ lexemes', meaning, ⟨value.toNat, items lexemes', ?_, hWord'⟩, hAgrees,
        hMove.trans hMove'⟩
      rw [items_append, hWord]
      rfl
  complete := by
    rintro before lexemes meaning rest hHeld hBase ⟨n, others, hItems, hWord⟩ hRest
    obtain ⟨lexeme, after, rfl, hItem, rfl⟩ := items_eq_cons hItems
    obtain ⟨width, hHolds, rfl⟩ := item_eq_number hItem
    have hValue := Compressed.Width.toNat_ofNat hHolds
    rw [spell_cons, List.append_assoc] at hRest
    have hNumber : Grammar.unsigned (items [.number width n hHolds]) (UInt32.ofNat n) := by
      simp [Grammar.unsigned, hItem, hValue]
    obtain ⟨value, middle, hUnsigned, rfl, hMove, hMiddle⟩ :=
      (scan Compressed.recognizes_unsigned).complete hHeld hBase hNumber (by simpa using hRest)
    obtain ⟨result, final, hRead, hAgrees, hMove', hFinal⟩ :=
      (hNext n).complete (hMove.held.trans hHeld) (hMove.arena.trans hBase) hWord hMiddle
    have hLength : n ≤ middle.cursor.remaining := by
      have hItemsLe := hEnough n _ meaning hWord
      have hSpell := length_items_le after
      rw [Cursor.remaining, hMiddle, List.length_append]
      omega
    have hCount : Read.count before = .ok n middle := by
      refine bind_eq_ok_iff.mpr ⟨_, _, hUnsigned, bind_eq_ok_iff.mpr ⟨_, middle, rfl, ?_⟩⟩
      rw [hValue, if_neg (by omega)]
      rfl
    exact ⟨result, final, bind_eq_ok_iff.mpr ⟨n, middle, hCount, hRead⟩, hAgrees,
      hMove.trans hMove', hFinal⟩

theorem list (hType : Recognizes held base type language Arena.Stores)
    (hStarts : ∀ items tree, language items tree → items ≠ []) (role : ListRole) :
    Recognizes held base (list type role) (Grammar.list language)
      (fun arena => List.Forall₂ fun id tree => arena.Stores (some id) tree) := by
  refine (count (fun n => hType.elements role n) ?_).congr fun items trees => ?_
  · rintro n items trees ⟨hWord, rfl⟩
    exact hWord.length_le fun items tree hElement => hStarts items tree hElement.1
  · constructor
    · rintro ⟨n, rest, rfl, hWord, rfl⟩
      exact ⟨rest, rfl, hWord⟩
    · rintro ⟨rest, rfl, hWord⟩
      exact ⟨trees.length, rest, rfl, hWord, rfl⟩

/-- A look at the next byte decides between two readings. -/
theorem ifSentinel {γ δ : Type} {marked unmarked : Read γ} {languageMarked languageUnmarked : ItemLanguage δ}
    {Agrees : Arena → γ → δ → Prop}
    (hMarked : Recognizes held base marked languageMarked Agrees)
    (hUnmarked : Recognizes held base unmarked languageUnmarked Agrees)
    (hStarts : ∀ items meaning, languageUnmarked items meaning →
      ∃ first rest, items = .byte first :: rest) :
    Recognizes held base
      (do if ← atSentinel then Read.scan Scan.skip; marked else unmarked)
      (fun items meaning =>
        (∃ rest, items = .byte Production.sentinel.elementType :: rest ∧ languageMarked rest meaning) ∨
        (Unmarked items ∧ languageUnmarked items meaning)) Agrees where
  sound := by
    intro before after result hHeld hBase hRead
    obtain ⟨found, middle, hPeek, hRead⟩ := bind_eq_ok_iff.mp hRead
    obtain ⟨next, middle', hNext, hPeek⟩ := bind_eq_ok_iff.mp hPeek
    obtain ⟨rfl, rfl⟩ := pure_eq_ok_iff.mp hPeek
    obtain ⟨tail, hTail, rfl⟩ := scan_peek_eq_ok_iff.mp hNext
    split at hRead
    case isTrue hFound =>
      obtain ⟨_, middle'', hSkip, hRead⟩ := bind_eq_ok_iff.mp hRead
      obtain ⟨byte, tail', hTail', rfl⟩ := scan_skip_eq_ok_iff.mp hSkip
      obtain ⟨rfl, rfl⟩ := List.cons.inj (hTail.symm.trans hTail')
      have hMove : before.Advances [.byte next]
          { before with cursor := ⟨tail, before.cursor.offset + 1⟩ } := ⟨hTail, rfl, rfl, .refl _⟩
      obtain ⟨lexemes, meaning, hWord, hAgrees, hMove'⟩ :=
        hMarked.sound (hMove.held.trans hHeld) (hMove.arena.trans hBase) hRead
      have hSentinel : next = Production.sentinel.elementType := by simpa using hFound
      refine ⟨[.byte next] ++ lexemes, meaning, .inl ⟨items lexemes, ?_, hWord⟩, hAgrees,
        hMove.trans hMove'⟩
      rw [hSentinel]
      rfl
    case isFalse hFound =>
      obtain ⟨lexemes, meaning, hWord, hAgrees, hMove⟩ := hUnmarked.sound hHeld hBase hRead
      obtain ⟨first, rest, hItems⟩ := hStarts _ _ hWord
      obtain ⟨lexeme, others, rfl, hItem, rfl⟩ := items_eq_cons hItems
      obtain rfl := item_eq_byte hItem
      have hFirst : next = first := by
        have hRest := hMove.rest
        rw [hTail, spell_cons] at hRest
        exact (List.cons.inj hRest).1
      subst hFirst
      exact ⟨_, meaning, .inr ⟨⟨next, _, hItems, by simpa using hFound⟩, hWord⟩, hAgrees, hMove⟩
  complete := by
    rintro before lexemes meaning rest hHeld hBase
      (⟨others, hItems, hWord⟩ | ⟨⟨first, others, hItems, hFirst⟩, hWord⟩) hRest
    · obtain ⟨lexeme, after, rfl, hItem, rfl⟩ := items_eq_cons hItems
      obtain rfl := item_eq_byte hItem
      let middle : Reader :=
        { before with cursor := ⟨spell after ++ rest, before.cursor.offset + 1⟩ }
      have hMove : before.Advances [.byte Production.sentinel.elementType] middle :=
        ⟨by simpa using hRest, rfl, rfl, .refl _⟩
      obtain ⟨result, final, hRead, hAgrees, hMove', hFinal⟩ :=
        @hMarked.complete middle _ _ rest hHeld hBase hWord rfl
      refine ⟨result, final, ?_, hAgrees, hMove.trans hMove', hFinal⟩
      refine bind_eq_ok_iff.mpr ⟨true, before, ?_, ?_⟩
      · exact bind_eq_ok_iff.mpr ⟨_, before, scan_peek_eq_ok_iff.mpr ⟨_, hRest, rfl⟩, rfl⟩
      · exact bind_eq_ok_iff.mpr ⟨(), middle, scan_skip_eq_ok_iff.mpr ⟨_, _, hRest, rfl⟩, hRead⟩
    · obtain ⟨result, final, hRead, hAgrees, hMove, hFinal⟩ :=
        hUnmarked.complete hHeld hBase hWord hRest
      obtain ⟨lexeme, after, rfl, hItem, rfl⟩ := items_eq_cons hItems
      obtain rfl := item_eq_byte hItem
      refine ⟨result, final, ?_, hAgrees, hMove, hFinal⟩
      refine bind_eq_ok_iff.mpr ⟨false, before, ?_, hRead⟩
      refine bind_eq_ok_iff.mpr ⟨_, before, scan_peek_eq_ok_iff.mpr ⟨_, hRest, rfl⟩, ?_⟩
      simp [hFirst, Pure.pure, EStateM.pure]

theorem varargs (hType : Recognizes held base type language Arena.Stores)
    (hMarks : MarksSentinel language) (n : Nat) :
    Recognizes held base (varargs type n)
      (fun items trees => Sequence (parameter language) items trees ∧ trees.length = n)
      (fun arena => List.Forall₂ fun id tree => arena.Stores (some id) tree) := by
  induction n generalizing base with
  | zero => exact (pure [] fun _ _ => .nil).congr fun items trees => sequence_zero_iff.symm
  | succ n ih =>
      have hElements := cons (fun hLarger hTree => hTree.mono hLarger) (hType.element .parameter)
        fun later hLater => ih (hType.later hLater)
      refine (ifSentinel throw hElements ?_).congr fun items trees => ?_
      · rintro items trees ⟨first, rest, tree, others, rfl, -, hFirst, -⟩
        obtain ⟨byte, tail, rfl, -⟩ := hMarks _ _ hFirst.1 hFirst.2
        exact ⟨byte, tail ++ rest, rfl⟩
      · rw [sequence_succ_iff]
        constructor
        · rintro (⟨_, _, hFalse⟩ | ⟨hItems, first, rest, tree, others, rfl, rfl, hFirst, hRest⟩)
          · exact hFalse.elim
          · have hTree := (hMarks.unmarked_iff hFirst rest).mp hItems
            exact ⟨first, rest, tree, others, rfl, rfl, ⟨hFirst, hTree⟩, hRest⟩
        · rintro ⟨first, rest, tree, others, rfl, rfl, ⟨hFirst, hTree⟩, hRest⟩
          exact .inr ⟨(hMarks.unmarked_iff hFirst rest).mpr hTree, first, rest, tree, others, rfl, rfl,
            hFirst, hRest⟩

theorem params (hType : Recognizes held base type language Arena.Stores)
    (hMarks : MarksSentinel language) (n : Nat) :
    Recognizes held base (params type n)
      (fun items trees => Params language items trees ∧
        (trees.1 ++ trees.2.getD []).length = n) AgreeingParams := by
  induction n generalizing base with
  | zero =>
      refine (pure ([], none) fun _ _ => ⟨.nil, .none⟩).congr fun items trees => ?_
      constructor
      · rintro ⟨rfl, rfl⟩
        exact ⟨.plain .nil, rfl⟩
      · rintro ⟨hWord, hLength⟩
        cases hWord with
        | plain hFixed =>
            obtain rfl : _ = [] := by simpa using hLength
            exact ⟨sequence_nil_iff.mp hFixed, rfl⟩
        | vararg hFixed hRest hNonempty => simp_all
  | succ n ih =>
      have hMarked : Recognizes held base (do let rest ← Read.varargs type (n + 1); Pure.pure ([], some rest))
          (fun items trees => ∃ rest, trees = ([], some rest) ∧
            Sequence (parameter language) items rest ∧ rest.length = n + 1) AgreeingParams := by
        refine (hType.varargs hMarks (n + 1)).map (fun rest => ([], some rest))
          fun later ids rest _ hIds final hFinal => ?_
        exact ⟨.nil, .some (hIds.imp fun _ _ hTree => hTree.mono hFinal)⟩
      have hUnmarked : Recognizes held base
          (do
            let first ← Read.element type .parameter
            let others ← Read.params type n
            Pure.pure (first :: others.1, others.2))
          (fun items trees => ∃ first second tree others, items = first ++ second ∧
            trees = (tree :: others.1, others.2) ∧ Grammar.element language first tree ∧
            Params language second others ∧ (others.1 ++ others.2.getD []).length = n)
          AgreeingParams :=
        (hType.element .parameter).map₂ (fun later hLater => ih (hType.later hLater))
          (fun tree others => (tree :: others.1, others.2))
          fun _ _ _ _ _ _ hLate hTree hOthers _ hFinal =>
            ⟨.cons (hTree.mono (hFinal.trans hLate)) (hOthers.mono hFinal).1, (hOthers.mono hFinal).2⟩
      refine (ifSentinel hMarked hUnmarked ?_).congr fun items trees => ?_
      · rintro items trees ⟨first, second, tree, others, rfl, -, hFirst, -⟩
        obtain ⟨byte, tail, rfl, -⟩ := hMarks _ _ hFirst.1 hFirst.2
        exact ⟨byte, tail ++ second, rfl⟩
      · constructor
        · rintro (⟨second, rfl, rest, rfl, hRest, hLength⟩ |
            ⟨hItems, first, second, tree, others, rfl, rfl, hFirst, hParams, rfl⟩)
          · refine ⟨params_nil_iff.mpr (.inr ⟨second, rest, rfl, rfl, hRest, ?_⟩), by simpa using hLength⟩
            rintro rfl
            simp at hLength
          · have hTree := (hMarks.unmarked_iff hFirst second).mp hItems
            exact ⟨params_cons_iff.mpr ⟨first, second, rfl, ⟨hFirst, hTree⟩, hParams⟩, by simp⟩
        · obtain ⟨fixed, rest⟩ := trees
          rintro ⟨hParams, hLength⟩
          cases fixed with
          | nil =>
              rcases params_nil_iff.mp hParams with ⟨rfl, rfl⟩ | ⟨second, others, rfl, rfl, hRest, -⟩
              · simp at hLength
              · exact .inl ⟨second, rfl, others, rfl, hRest, by simpa using hLength⟩
          | cons tree others =>
              obtain ⟨first, second, rfl, ⟨hFirst, hTree⟩, hSecond⟩ := params_cons_iff.mp hParams
              exact .inr ⟨(hMarks.unmarked_iff hFirst second).mpr hTree, first, second, tree,
                (others, rest), rfl, rfl, hFirst, hSecond, by simpa using hLength⟩

end Recognizes

end CliSignature.Read
