import CliSignature.Proofs.Blob.RoundTrip

/-!
What becomes of the parameters of a method or a property that is written and read again. The writer
writes a sentinel wherever there is a list behind it, the reader looks for one only as long as there are
parameters to read. A sentinel with nothing behind it is therefore written and left unread.
-/

namespace CliSignature

open Grammar Lexeme

/-- The signatures that have parameters. -/
inductive Parametric where
  | method
  | property
deriving DecidableEq, Repr

namespace Parametric

def form : Parametric → Signature.Form
  | method => .method
  | property => .property

def wrap : Parametric → MethodSignature → Signature
  | method => .method
  | property => .property

/-- Whether the number of generic parameters is written. -/
def CountsGenerics (kind : Parametric) (convention : CallingConvention) : Prop :=
  kind = .method ∧ convention.isGeneric = true

instance (kind : Parametric) (convention : CallingConvention) :
    Decidable (kind.CountsGenerics convention) :=
  inferInstanceAs (Decidable (_ ∧ _))

variable {kind : Parametric} {m : MethodSignature}

@[simp] theorem children_wrap : (kind.wrap m).children = m.result :: m.allParams.map some := by
  cases kind <;> rfl

@[simp] theorem label_wrap : (kind.wrap m).label =
    ⟨kind.form, m.convention, m.genericCount, m.params.length, m.varargs.map List.length⟩ := by
  cases kind <;> rfl

theorem exists_wrap {signature : Signature} (hForm : signature.label.form = kind.form) :
    ∃ m, signature = kind.wrap m := by
  cases kind <;> cases signature <;> simp_all [wrap, form, Signature.label]

/-- The first type of a method or a property is not counted, all others are. -/
theorem listed_eq {label : Signature.Label} (hForm : label.form = kind.form) (result : Tree)
    (params : List Tree) : SignatureTree.listed ⟨label, result :: params⟩ = params := by
  cases kind <;> simp [SignatureTree.listed, hForm, form]

theorem signature_wrap (type : Option NodeId → Emission) :
    Emission.signature type (kind.wrap m) = Emission.convention m.convention
      >> (if kind.CountsGenerics m.convention then Emission.unsigned m.genericCount else Emission.done)
      >> Emission.methodBody type m := by
  cases kind with
  | method => simp [wrap, CountsGenerics, Emission.signature, Emission.method]
  | property =>
      simp only [wrap, CountsGenerics, Emission.signature, reduceCtorEq, false_and, if_false,
        Emission.done_andThen]

end Parametric

namespace MethodSignature

variable {kind : Parametric} {m : MethodSignature} {limits : Limits} {core : CoreTypes}
  {arena base : Arena} {output : List UInt8}

/-- What can be read of a signature that was written: without a number of generic parameters that is not
written, and without a sentinel behind which there is nothing. -/
def legible (kind : Parametric) (m : MethodSignature) : MethodSignature :=
  { m with
    genericCount := if kind.CountsGenerics m.convention then m.genericCount else 0
    varargs := if m.varargs = some [] then none else m.varargs }

/-- What is written behind the last parameter: a sentinel with nothing behind it. -/
def unread (m : MethodSignature) : List UInt8 :=
  if m.varargs = some [] then [Production.sentinel.elementType] else []

theorem legible_eq_self_iff :
    m.legible kind = m ↔
      (m.genericCount ≠ 0 → kind.CountsGenerics m.convention) ∧ m.varargs ≠ some [] := by
  obtain ⟨convention, generic, result, params, varargs⟩ := m
  by_cases hCounts : kind.CountsGenerics convention <;> by_cases hNothing : varargs = some [] <;>
    simp [legible, hCounts, hNothing, eq_comm]

/-- What is lost is seen from the label. -/
theorem legible_eq_self_of_label (hLabel : (kind.wrap (m.legible kind)).label = (kind.wrap m).label) :
    m.legible kind = m := by
  simp only [Parametric.label_wrap, Signature.Label.mk.injEq] at hLabel
  obtain ⟨-, -, hGeneric, -, hVarargs⟩ := hLabel
  refine legible_eq_self_iff.mpr ⟨fun hNonzero => ?_, fun hNothing => ?_⟩
  · by_contra hUncounted
    exact hNonzero (by simpa [legible, hUncounted] using hGeneric.symm)
  · simp [legible, hNothing] at hVarargs

@[simp] theorem allParams_legible : (m.legible kind).allParams = m.allParams := by
  obtain ⟨convention, generic, result, params, varargs⟩ := m
  by_cases hNothing : varargs = some [] <;> simp [legible, allParams, hNothing]

/-- The body is written as what can be read of it, with the unread sentinel behind. -/
theorem methodBody_legible (type : Option NodeId → Emission) :
    Emission.methodBody type m =
      (Emission.methodBody type (m.legible kind) >> Emission.ofBytes m.unread : Emission) := by
  simp only [Emission.methodBody, paramCount, allParams_legible, Emission.andThen_assoc]
  by_cases hNothing : m.varargs = some []
  · simp only [legible, unread, hNothing, if_true, Emission.varargs, Emission.types, Emission.each,
      allParams, Option.getD_some, List.append_nil, Emission.andThen_done, Emission.done_andThen]
  · have hDone : (Emission.ofBytes [] : Emission) = Emission.done := rfl
    simp only [legible, unread, hNothing, if_false, hDone, Emission.andThen_done]

theorem signature_legible (type : Option NodeId → Emission) :
    Emission.signature type (kind.wrap m) =
      (Emission.signature type (kind.wrap (m.legible kind)) >> Emission.ofBytes m.unread : Emission) := by
  have hGeneric : (if kind.CountsGenerics m.convention then Emission.unsigned m.genericCount
        else Emission.done) =
      if kind.CountsGenerics (m.legible kind).convention then
        Emission.unsigned (m.legible kind).genericCount else Emission.done := by
    by_cases hCounts : kind.CountsGenerics m.convention <;> simp [legible, hCounts]
  rw [Parametric.signature_wrap, Parametric.signature_wrap, Emission.andThen_assoc,
    Emission.andThen_assoc, ← methodBody_legible, hGeneric]
  rfl

/-- What can be read of a signature is readable, if its parameters are and its convention is of the right
kind. -/
theorem readable_legible {tree : SignatureTree}
    (hTree : arena.UnfoldsSignature (kind.wrap (m.legible kind)) tree)
    (hStart : Starts kind.form m.convention)
    (hParams : ∀ id ∈ m.allParams, ∃ node, arena.get? id = some node ∧ node ≠ .sentinel)
    (hReadable : ∀ child ∈ tree.children, child.Readable limits) : tree.Readable limits := by
  obtain ⟨label, children⟩ := tree
  obtain ⟨hLabel, hChildren⟩ := hTree
  rw [Parametric.label_wrap] at hLabel
  rw [Parametric.children_wrap, allParams_legible] at hChildren
  subst hLabel
  obtain ⟨result, params, -, hParamTrees, rfl⟩ := List.forall₂_cons_left_iff.mp hChildren
  have hEach : ∀ child ∈ params, child ≠ .absent ∧ child ≠ .sentinel := by
    refine forall_of_forall₂ (List.forall₂_map_left_iff.mp hParamTrees) fun id hMem child hChild => ?_
    obtain ⟨node, hNode, hOther⟩ := hParams id hMem
    constructor
    · rintro rfl
      simp [Arena.unfolds_absent_iff, Arena.resolve?_of_get? hNode] at hChild
    · rintro rfl
      obtain ⟨_, found, hFound, hSentinel, -⟩ := Arena.unfolds_node_iff.mp hChild
      obtain ⟨-, rfl⟩ : id = _ ∧ node = found := by
        simpa [Arena.resolve?_of_get? hNode] using hFound
      cases node <;> simp_all [Node.label]
  refine ⟨⟨hStart, fun hNonzero => ?_, ?_, ?_, fun _ => ?_⟩, hReadable⟩
  · by_cases hCounts : kind.CountsGenerics m.convention
    · obtain ⟨rfl, hGeneric⟩ := hCounts
      exact ⟨rfl, hGeneric⟩
    · simp [legible, hCounts] at hNonzero
  · by_cases hNothing : m.varargs = some [] <;> simp [legible, hNothing]
  · rw [Parametric.listed_eq rfl]
    exact fun child hMem => (hEach child hMem).1
  · rw [Parametric.listed_eq rfl]
    exact fun child hMem => (hEach child hMem).2

/-- Reading a signature that was written gives what can be read of it, whatever stands behind it, and
leaves a sentinel with nothing behind it unread. -/
theorem read_of_encode (hCore : core.StoredIn base)
    (hEncode : arena.encodeSignature limits (kind.wrap m) = .ok output)
    (hStart : Starts kind.form m.convention)
    (hParams : ∀ id ∈ m.allParams, ∃ node, arena.get? id = some node ∧ node ≠ .sentinel)
    (hReadable : ∀ slot ∈ (kind.wrap m).children, ∀ tree, arena.Unfolds slot tree →
      tree.Readable limits) :
    ∃ tree consumed, arena.UnfoldsSignature (kind.wrap (m.legible kind)) tree ∧
      output = consumed ++ m.unread ∧ ∀ rest, ∃ m' after,
        Read.signatureFrom ⟨limits, core⟩ kind.form (.start base (output ++ rest)) =
          .ok (kind.wrap m') after ∧
        after.cursor = ⟨m.unread ++ rest, consumed.length⟩ ∧
        after.arena.UnfoldsSignature (kind.wrap m') tree := by
  obtain ⟨hSucceeds, rfl⟩ :=
    (@Decoded.encode_eq_ok_iff arena limits (.signature (kind.wrap m)) output).mp hEncode
  have hSplit : (Decoded.signature (kind.wrap m)).emission arena limits = (Emission.signature
      (.typeWithin arena limits limits.decodeDepth) (kind.wrap (m.legible kind)) >>
        Emission.ofBytes m.unread : Emission) := signature_legible _
  rw [hSplit, Emission.failure_andThen] at hSucceeds
  obtain ⟨tree, hTree⟩ := Emission.exists_unfoldsSignature limits.decodeDepth hSucceeds.1
  have hChildren : (kind.wrap (m.legible kind)).children = (kind.wrap m).children := by
    rw [Parametric.children_wrap, Parametric.children_wrap, allParams_legible]
    rfl
  have hTreeReadable : tree.Readable limits :=
    readable_legible hTree hStart hParams (forall_of_forall₂ hTree.2 (hChildren ▸ hReadable))
  obtain ⟨lexemes, hWord, -, hEmission⟩ :=
    (Emission.emits_signatureWithin limits.decodeDepth hTree hTreeReadable).sound hSucceeds.1
  have hBytes : ((Decoded.signature (kind.wrap m)).emission arena limits).bytes =
      spell lexemes ++ m.unread := by
    rw [hSplit, hEmission]
    rfl
  have hForm : tree.label.form = kind.form := by
    rw [← hTree.1, Parametric.label_wrap]
  refine ⟨tree, spell lexemes, hTree, hBytes, fun rest => ?_⟩
  rw [hBytes, List.append_assoc]
  obtain ⟨found, after, hRead, hStores, hMove, hRest⟩ :=
    @(Read.Recognizes.signatureFrom ⟨limits, core⟩ hCore kind.form).complete
      (.start base (spell lexemes ++ (m.unread ++ rest))) lexemes tree (m.unread ++ rest) rfl (.refl _)
      (hForm ▸ hWord) rfl
  obtain ⟨m', rfl⟩ := @Parametric.exists_wrap kind found (by rw [hStores.1, hForm])
  exact ⟨m', after, hRead, by rw [← hRest, ← hMove.of_start.2], hStores.unfolds⟩

/-- Whether all of a signature comes back when what was written is read again, whatever stands behind it:
the reader consumes the output and nothing else, and finds the same convention, the same number of generic
parameters, a sentinel at the same place or none, and the same trees. -/
def Survives (kind : Parametric) (limits : Limits) (core : CoreTypes) (arena base : Arena)
    (m : MethodSignature) (output : List UInt8) : Prop :=
  ∃ tree, arena.UnfoldsSignature (kind.wrap m) tree ∧ ∀ rest, ∃ m' after,
    Read.signatureFrom ⟨limits, core⟩ kind.form (.start base (output ++ rest)) =
      .ok (kind.wrap m') after ∧
    after.cursor = ⟨rest, output.length⟩ ∧ after.arena.UnfoldsSignature (kind.wrap m') tree

/-- A signature that was written comes back as a whole if and only if there is no sentinel with nothing
behind it and no number of generic parameters that is not written. -/
theorem survives_iff (hCore : core.StoredIn base)
    (hEncode : arena.encodeSignature limits (kind.wrap m) = .ok output)
    (hStart : Starts kind.form m.convention)
    (hParams : ∀ id ∈ m.allParams, ∃ node, arena.get? id = some node ∧ node ≠ .sentinel)
    (hReadable : ∀ slot ∈ (kind.wrap m).children, ∀ tree, arena.Unfolds slot tree →
      tree.Readable limits) :
    m.Survives kind limits core arena base output ↔
      (m.genericCount ≠ 0 → kind.CountsGenerics m.convention) ∧ m.varargs ≠ some [] := by
  obtain ⟨tree, consumed, hTree, hOutput, hReads⟩ :=
    read_of_encode hCore hEncode hStart hParams hReadable
  rw [← legible_eq_self_iff]
  constructor
  · rintro ⟨whole, hWhole, hSurvives⟩
    obtain ⟨m', after, hRead, -, hSaid⟩ := hReads []
    obtain ⟨other, after', hRead', -, hSaid'⟩ := hSurvives []
    obtain ⟨hSame, -⟩ := EStateM.Result.ok.inj (hRead.symm.trans hRead')
    refine legible_eq_self_of_label ?_
    calc (kind.wrap (m.legible kind)).label = (kind.wrap m').label := hTree.1.trans hSaid.1.symm
      _ = (kind.wrap other).label := by rw [hSame]
      _ = (kind.wrap m).label := hSaid'.1.trans hWhole.1.symm
  · intro hLegible
    have hNothing : m.unread = [] := if_neg (legible_eq_self_iff.mp hLegible).2
    rw [hLegible] at hTree
    rw [hNothing, List.append_nil] at hOutput
    refine ⟨tree, hTree, fun rest => ?_⟩
    obtain ⟨m', after, hRead, hCursor, hSaid⟩ := hReads rest
    exact ⟨m', after, hRead, by rw [hCursor, hNothing, hOutput]; rfl, hSaid⟩

/-- One parameter before the sentinel and one behind it. -/
theorem survives_iff_string :
    (⟨.ofKind .vararg, 0, none, [(CoreTypes.create ⟨0⟩ ⟨0⟩ .empty .empty).1.node .int32],
        some [(CoreTypes.create ⟨0⟩ ⟨0⟩ .empty .empty).1.node .string]⟩ : MethodSignature).Survives .method
      .standard (CoreTypes.create ⟨0⟩ ⟨0⟩ .empty .empty).1 (CoreTypes.create ⟨0⟩ ⟨0⟩ .empty .empty).2.1
      (CoreTypes.create ⟨0⟩ ⟨0⟩ .empty .empty).2.1 [0x05, 0x02, 0x00, 0x08, 0x41, 0x0E] := by
  have hCore := (CoreTypes.create_storedIn ⟨0⟩ ⟨0⟩ .empty .empty).1
  refine (survives_iff hCore ?_ ?_ ?_ ?_).mpr ⟨by simp, by simp⟩
  · rfl
  · rfl
  · intro id hMem
    obtain rfl | rfl := List.mem_pair.mp hMem
    · exact ⟨_, hCore .int32, nofun⟩
    · exact ⟨_, hCore .string, nofun⟩
  · intro slot hMem tree hTree
    rcases List.mem_cons.mp hMem with rfl | hMem
    · rw [hTree.unique (.absent rfl)]
      exact .absent
    · obtain rfl | rfl := List.mem_pair.mp hMem
      · exact hCore.readable hTree
      · exact hCore.readable hTree

/-- The smallest method that does not come back: the sentinel behind its only parameter is left unread. -/
theorem not_survives_of_nothing_behind :
    (CoreTypes.create ⟨0⟩ ⟨0⟩ .empty .empty).1.StoredIn (CoreTypes.create ⟨0⟩ ⟨0⟩ .empty .empty).2.1 ∧
      (CoreTypes.create ⟨0⟩ ⟨0⟩ .empty .empty).2.1.encodeSignature .standard
        (.method ⟨.ofKind .vararg, 0, none, [(CoreTypes.create ⟨0⟩ ⟨0⟩ .empty .empty).1.node .int32],
          some []⟩) = .ok [0x05, 0x01, 0x00, 0x08, 0x41] ∧
      ¬ (⟨.ofKind .vararg, 0, none, [(CoreTypes.create ⟨0⟩ ⟨0⟩ .empty .empty).1.node .int32],
          some []⟩ : MethodSignature).Survives .method .standard
        (CoreTypes.create ⟨0⟩ ⟨0⟩ .empty .empty).1 (CoreTypes.create ⟨0⟩ ⟨0⟩ .empty .empty).2.1
        (CoreTypes.create ⟨0⟩ ⟨0⟩ .empty .empty).2.1 [0x05, 0x01, 0x00, 0x08, 0x41] := by
  refine ⟨(CoreTypes.create_storedIn ⟨0⟩ ⟨0⟩ .empty .empty).1, rfl, ?_⟩
  rintro ⟨tree, -, hSurvives⟩
  obtain ⟨m, after, hRead, hCursor, -⟩ := hSurvives []
  have hUnread : ∃ found before, Read.signatureFrom
      ⟨.standard, (CoreTypes.create ⟨0⟩ ⟨0⟩ .empty .empty).1⟩ .method
      (.start (CoreTypes.create ⟨0⟩ ⟨0⟩ .empty .empty).2.1 [0x05, 0x01, 0x00, 0x08, 0x41]) =
        .ok found before ∧ before.cursor = ⟨[0x41], 4⟩ := ⟨_, _, rfl, rfl⟩
  obtain ⟨found, before, hFound, hBefore⟩ := hUnread
  obtain ⟨-, rfl⟩ := EStateM.Result.ok.inj (hFound.symm.trans hRead)
  rw [hBefore] at hCursor
  exact absurd hCursor (by decide)

end MethodSignature

end CliSignature
