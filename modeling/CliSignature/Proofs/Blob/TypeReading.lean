import CliSignature.Proofs.Blob.SignatureReading

/-!
The reader recognizes the grammar. What follows the byte of a production is recognized if the types
inside are, so that by induction on the levels of nesting the reading of types recognizes the language
of types.
-/

namespace CliSignature.Read

open Grammar Lexeme

variable {held : Nat} {base : Arena} {type : Read (Option NodeId)} {language : ItemLanguage Tree}

/-- What a node that is not added yet agrees with: its label and the trees of its children. -/
def AgreeingNode (arena : Arena) (node : Node) (said : Node.Label × List Tree) : Prop :=
  node.label = said.1 ∧ List.Forall₂ arena.Stores node.children said.2

/-- Reads the number of values and then the values, of which an array has at most one for each
dimension. -/
def dimensions {α : Type} (value : Read α) (rank : UInt32) (error : Nat → DecodeError) :
    Read (List α) := do
  let n ← scan Compressed.readUnsigned
  if rank < n then throw (error n.toNat) else replicate value n.toNat

/-- A shape is its rank, its sizes and its lower bounds, one after the other. -/
theorem shape_eq (limits : Limits) :
    shape limits = (do
      let rank ← scan Compressed.readUnsigned
      if limits.arrayRank < rank.toNat then throw (.rankLimit rank.toNat limits.arrayRank)
      else do
        let sizes ← dimensions (scan Compressed.readUnsigned) rank (.tooManySizes · rank.toNat)
        let lowerBounds ← dimensions (scan Compressed.readSigned) rank (.tooManyLowerBounds · rank.toNat)
        pure ⟨rank, sizes, lowerBounds⟩) := by
  unfold shape dimensions
  refine congrArg (scan Compressed.readUnsigned >>= ·) (funext fun rank => ?_)
  dsimp only
  split
  · rfl
  · rw [bind_assoc]
    refine congrArg (scan Compressed.readUnsigned >>= ·) (funext fun n => ?_)
    split
    · rfl
    · refine congrArg (replicate (scan Compressed.readUnsigned) n.toNat >>= ·) (funext fun sizes => ?_)
      rw [bind_assoc]
      refine congrArg (scan Compressed.readUnsigned >>= ·) (funext fun n => ?_)
      split <;> rfl

namespace Recognizes

theorem replicate {α : Type} {value : Read α} {one : ItemLanguage α}
    (hValue : ∀ later : Arena, later.Extends base → Recognizes held later value one fun _ => (· = ·))
    (n : Nat) :
    Recognizes held base (replicate value n)
      (fun items values => Sequence one items values ∧ values.length = n) (fun _ => (· = ·)) := by
  induction n generalizing base with
  | zero => exact (pure [] fun _ _ => rfl).congr fun items values => sequence_zero_iff.symm
  | succ n ih =>
      refine ((hValue base (.refl base)).map₂
        (fun later hLater => ih fun final hFinal => hValue final (hFinal.trans hLater)) List.cons
        fun _ _ first first' rest rest' _ hFirst hRest _ _ => ?_).congr
          fun items values => sequence_succ_iff.symm
      obtain rfl : first = first' := hFirst
      exact congrArg (first :: ·) hRest

theorem dimensions {α : Type} {value : Read α} {one : ItemLanguage α}
    (hValue : ∀ later : Arena, later.Extends base → Recognizes held later value one fun _ => (· = ·))
    (rank : UInt32) (error : Nat → DecodeError) :
    Recognizes held base (dimensions value rank error)
      (fun items values => values.length ≤ rank.toNat ∧
        ∃ rest, items = .number values.length :: rest ∧ Sequence one rest values)
      (fun _ => (· = ·)) := by
  refine ((scan Compressed.recognizes_unsigned).bind (fun n items values => n ≤ rank ∧
    Sequence one items values ∧ values.length = n.toNat) fun later n n' hLater hCount => ?_).congr ?_
  · obtain rfl : n = n' := hCount
    split
    case isTrue hAbove =>
      exact throw.congr fun items values => by simp [UInt32.not_le.mpr hAbove]
    case isFalse hWithin =>
      exact (replicate (fun final hFinal => hValue final (hFinal.trans hLater)) n.toNat).congr
        fun items values => by simp [UInt32.not_lt.mp hWithin]
  · intro items values
    constructor
    · rintro ⟨_, rest, n, rfl, rfl, hWithin, hWord, hLength⟩
      exact ⟨hLength ▸ UInt32.le_iff_toNat_le.mp hWithin, rest, by simp [hLength], hWord⟩
    · rintro ⟨hWithin, rest, rfl, hWord⟩
      have hLt := rank.toNat_lt
      have hCount : (UInt32.ofNat values.length).toNat = values.length := by
        rw [UInt32.toNat_ofNat']
        omega
      exact ⟨[.number values.length], rest, UInt32.ofNat values.length, rfl, by simp [unsigned, hCount],
        by rw [UInt32.le_iff_toNat_le, hCount]; exact hWithin, hWord, hCount.symm⟩

theorem shape (limits : Limits) :
    Recognizes held base (shape limits) (Shape limits) (fun _ => (· = ·)) := by
  rw [shape_eq]
  refine ((scan Compressed.recognizes_unsigned).bind (fun rank items shape =>
    rank.toNat ≤ limits.arrayRank ∧ ∃ first second sizes bounds, items = first ++ second ∧
      shape = ⟨rank, sizes, bounds⟩ ∧
      (sizes.length ≤ rank.toNat ∧
        ∃ rest, first = .number sizes.length :: rest ∧ Sequence unsigned rest sizes) ∧
      (bounds.length ≤ rank.toNat ∧
        ∃ rest, second = .number bounds.length :: rest ∧ Sequence signed rest bounds))
    fun later rank rank' hLater hRank => ?_).congr ?_
  · obtain rfl : rank = rank' := hRank
    split
    case isTrue hAbove =>
      exact throw.congr fun items shape => by simp [Nat.not_le.mpr hAbove]
    case isFalse hWithin =>
      refine ((dimensions (fun _ _ => scan Compressed.recognizes_unsigned) rank _).map₂
        (fun _ _ => dimensions (fun _ _ => scan Compressed.recognizes_signed) rank _)
        (fun sizes bounds => (⟨rank, sizes, bounds⟩ : ArrayShape))
        fun _ _ sizes sizes' bounds bounds' _ hSizes hBounds _ _ => ?_).congr
        fun items shape => by simp [Nat.not_lt.mp hWithin]
      obtain rfl : sizes = sizes' := hSizes
      obtain rfl : bounds = bounds' := hBounds
      rfl
  · intro items shape
    constructor
    · rintro ⟨_, _, rank, rfl, rfl, hRank, _, _, sizes, bounds, rfl, rfl,
        ⟨hSizesFit, sizeItems, rfl, hSizes⟩, hBoundsFit, boundItems, rfl, hBounds⟩
      exact @Shape.mk limits ⟨rank, sizes, bounds⟩ sizeItems boundItems hRank ⟨hSizesFit, hBoundsFit⟩
        hSizes hBounds
    · rintro ⟨hRank, hFits, hSizes, hBounds⟩
      exact ⟨[_], _, _, rfl, rfl, hRank, _ :: _, _, _, _, rfl, rfl, ⟨hFits.1, _, rfl, hSizes⟩, hFits.2,
        _, rfl, hBounds⟩

/-- What follows the byte of a production is its payload. -/
theorem production (hType : Recognizes held base type language Arena.Stores)
    (hMarks : MarksSentinel language) (hStarts : ∀ items tree, language items tree → items ≠ [])
    (limits : Limits) (found : Production) :
    Recognizes held base (production type limits found)
      (fun items said => Payload language limits found items said.1 said.2) AgreeingNode := by
  have hChild {later final : Arena} {slot : Option NodeId} {tree : Tree} (hSlot : later.Stores slot tree)
      (hFinal : final.Extends later) : List.Forall₂ final.Stores [slot] [tree] :=
    .cons (hSlot.mono hFinal) .nil
  cases found with
  | named kind =>
      refine ((scan Compressed.recognizes_token).map (fun token => (Node.Label.named kind token, []))
        fun later token token' _ hToken final _ => ?_).congr fun items said => payload_named_iff.symm
      obtain rfl : token = token' := hToken
      exact ⟨rfl, .nil⟩
  | genericParam owner =>
      refine ((scan Compressed.recognizes_unsigned).map
        (fun number => (Node.Label.genericParam owner number, []))
        fun later number number' _ hNumber final _ => ?_).congr
          fun items said => payload_genericParam_iff.symm
      obtain rfl : number = number' := hNumber
      exact ⟨rfl, .nil⟩
  | sentinel =>
      exact (pure (Node.Label.sentinel, []) fun _ _ => ⟨rfl, .nil⟩).congr
        fun items said => payload_sentinel_iff.symm
  | functionPointer =>
      refine ((hType.method hMarks hStarts .method (fun _ => rfl) (fun _ => rfl)).map
        (fun tree => (Node.Label.functionPointer tree.label, tree.children))
        fun later m tree _ hMethod final hFinal => ?_).congr
          fun items said => payload_functionPointer_iff.symm
      obtain ⟨hLabel, hChildren⟩ := hMethod.mono hFinal
      exact ⟨congrArg _ hLabel, hChildren⟩
  | genericInst =>
      refine (hType.map₂ (fun later hLater => (hType.later hLater).list hStarts .genericArgument)
        (fun definition args => (Node.Label.genericInst args.length, definition :: args))
        fun _ _ slot tree ids trees hLate hSlot hIds final hFinal => ?_).congr
          fun items said => payload_genericInst_iff.symm
      refine ⟨congrArg _ hIds.length_eq, .cons (hSlot.mono (hFinal.trans hLate)) ?_⟩
      exact stores_map_some (hIds.imp fun _ _ hTree => hTree.mono hFinal)
  | wrapper kind =>
      exact (hType.map (fun tree => (Node.Label.wrapper kind, [tree]))
        fun later slot tree _ hSlot final hFinal => ⟨rfl, hChild hSlot hFinal⟩).congr
          fun items said => payload_wrapper_iff.symm
  | array =>
      refine (hType.map₂ (fun _ _ => shape limits)
        (fun tree shape => (Node.Label.array shape, [tree]))
        fun _ _ slot tree value value' hLate hSlot hShape final hFinal => ?_).congr
          fun items said => payload_array_iff.symm
      obtain rfl : value = value' := hShape
      exact ⟨rfl, hChild hSlot (hFinal.trans hLate)⟩
  | modified required =>
      refine ((scan Compressed.recognizes_token).map₂ (fun later hLater => hType.later hLater)
        (fun token tree => (Node.Label.modified required token, [tree]))
        fun _ _ token token' slot tree _ hToken hSlot final hFinal => ?_).congr
          fun items said => payload_modified_iff.symm
      obtain rfl : token = token' := hToken
      exact ⟨rfl, hChild hSlot hFinal⟩
  | valueArray =>
      refine (hType.map₂ (fun _ _ => scan Compressed.recognizes_unsigned)
        (fun tree size => (Node.Label.valueArray size, [tree]))
        fun _ _ slot tree size size' hLate hSlot hSize final hFinal => ?_).congr
          fun items said => payload_valueArray_iff.symm
      obtain rfl : size = size' := hSize
      exact ⟨rfl, hChild hSlot (hFinal.trans hLate)⟩
  | moduleQualified =>
      refine ((scan Compressed.recognizes_unsigned).map₂ (fun later hLater => hType.later hLater)
        (fun index tree => (Node.Label.moduleQualified index, [tree]))
        fun _ _ index index' slot tree _ hIndex hSlot final hFinal => ?_).congr
          fun items said => payload_moduleQualified_iff.symm
      obtain rfl : index = index' := hIndex
      exact ⟨rfl, hChild hSlot hFinal⟩

/-- The first byte of a type tells which type it is. -/
theorem typeBody (hType : Recognizes held base type language Arena.Stores)
    (hMarks : MarksSentinel language) (hStarts : ∀ items tree, language items tree → items ≠ [])
    (context : ReadContext) (hCore : context.core.StoredIn base) :
    Recognizes held base (typeBody type context) (TypeBody language context.limits) Arena.Stores := by
  refine ((scan Scan.recognizes_opening).bind (fun start items tree =>
    match start with
    | none => items = [] ∧ tree = .absent
    | some opened => TypeBody language context.limits (.byte opened :: items) tree)
    fun later byte start hLater hOpens => ?_).congr ?_
  · rcases hOpens with ⟨⟨hPrimitive, hProduction⟩, rfl⟩ | ⟨hSomething, rfl⟩
    · simp only [CoreTypes.ofElementType?, hPrimitive, hProduction, Option.map_none]
      exact pure Tree.absent fun _ _ => Arena.Stores.absent
    cases hPrimitive : Primitive.ofElementType? byte with
    | some code =>
        obtain rfl := Primitive.elementType_of_ofElementType? hPrimitive
        simp only [CoreTypes.ofElementType?, hPrimitive, Option.map_some]
        exact (pure (Tree.node (.primitive code) []) fun final hFinal =>
          (hCore.mono (hFinal.trans hLater)).stores code).congr
            fun items tree => typeBody_primitive_iff.symm
    | none =>
        cases hProduction : Production.ofElementType? byte with
        | none => exact absurd ⟨hPrimitive, hProduction⟩ hSomething
        | some found =>
            obtain rfl := Production.elementType_of_ofElementType? hProduction
            simp only [CoreTypes.ofElementType?, hPrimitive, Option.map_none]
            refine (((hType.later hLater).production hMarks hStarts context.limits found).bind
              (fun said items tree => items = [] ∧ tree = .node said.1 said.2)
              fun final node said hFinal hNode => ?_).congr ?_
            · obtain ⟨hLabel, hChildren⟩ := hNode
              refine ((add hChildren).map (fun tree => tree)
                fun _ _ _ _ hTree _ hEnd => hTree.mono hEnd).congr fun items tree => ?_
              simp [hLabel]
            · intro items tree
              rw [typeBody_production_iff]
              constructor
              · rintro ⟨first, _, ⟨label, children⟩, rfl, hPayload, rfl, rfl⟩
                exact ⟨label, children, rfl, by simpa using hPayload⟩
              · rintro ⟨label, children, rfl, hPayload⟩
                exact ⟨items, [], (label, children), by simp, hPayload, rfl, rfl⟩
  · intro items tree
    constructor
    · rintro ⟨_, second, start, rfl, ⟨rfl, rfl⟩ | ⟨byte, hSomething, rfl, rfl⟩, hWord⟩
      · obtain ⟨rfl, rfl⟩ := hWord
        exact .absent
      · exact hWord
    · intro hWord
      cases hWord with
      | primitive code =>
          exact ⟨[_], [], some code.elementType, rfl, .inr ⟨_, not_startsNothing_primitive code, rfl, rfl⟩,
            .primitive code⟩
      | absent => exact ⟨[.absent], [], none, rfl, .inl ⟨rfl, rfl⟩, rfl, rfl⟩
      | @production production items label children hPayload =>
          exact ⟨[_], items, some production.elementType, rfl,
            .inr ⟨_, not_startsNothing_production production, rfl, rfl⟩, .production hPayload⟩

/-- By induction on the levels. Only arenas that hold the shared nodes are read into. -/
theorem typeWithin (context : ReadContext) (levels : Nat) (hCore : context.core.StoredIn base) :
    Recognizes held base (typeWithin context levels) (Grammar.typeWithin context.limits levels)
      Arena.Stores := by
  induction levels with
  | zero => exact fail fun before => ⟨_, _, rfl⟩
  | succ levels ih =>
      exact ih.typeBody (marksSentinel_typeWithin _ levels) (ne_nil_of_typeWithin _ levels) context hCore

/-- Levels that earlier failures have kept are not left for this reading. -/
theorem typeFrom (context : ReadContext) (hCore : context.core.StoredIn base) :
    Recognizes held base (typeFrom context)
      (Grammar.typeWithin context.limits (context.limits.decodeDepth - held)) Arena.Stores where
  sound := by
    rintro before after slot rfl
    exact (typeWithin context _ hCore).sound rfl
  complete := by
    rintro before lexemes tree rest rfl
    exact (typeWithin context _ hCore).complete rfl

theorem signatureFrom (context : ReadContext) (hCore : context.core.StoredIn base)
    (form : Signature.Form) :
    Recognizes held base (signatureFrom context form)
      (SignatureOf (Grammar.typeWithin context.limits (context.limits.decodeDepth - held)) form)
      Arena.StoresSignature :=
  (typeFrom context hCore).signatureOf (marksSentinel_typeWithin _ _) (ne_nil_of_typeWithin _ _) form

theorem anySignatureFrom (context : ReadContext) (hCore : context.core.StoredIn base) :
    Recognizes held base (anySignatureFrom context)
      (fun items tree => ∃ form,
        SignatureOf (Grammar.typeWithin context.limits (context.limits.decodeDepth - held)) form items tree)
      Arena.StoresSignature :=
  (typeFrom context hCore).anySignature (marksSentinel_typeWithin _ _) (ne_nil_of_typeWithin _ _)

end Recognizes

end CliSignature.Read
