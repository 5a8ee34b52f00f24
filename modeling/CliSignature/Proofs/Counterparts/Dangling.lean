import CliSignature.Path
import CliSignature.Proofs.Counterparts.Observation
import CliSignature.Proofs.Structural.Consistency
import CliSignature.Proofs.Structural.Lockstep

/-!
Dangling handles. A handle that refers to nothing is an absent type, so a place that may be empty may hold
such a handle as well. All queries agree on the two, in lockstep, but for one: the hash of a function
pointer counts the handles that are named there, whatever they refer to.
-/

namespace CliSignature

namespace Arena

/-- The same slot of two arenas, except that it may be empty in one of them where it holds a handle to
nothing in the other. -/
inductive SameButDangling (A B : Arena) : Option NodeId → Option NodeId → Prop where
  | same (slot : Option NodeId) : SameButDangling A B slot slot
  | emptied {id : NodeId} (hNone : A.get? id = none) : SameButDangling A B (some id) none
  | filled {id : NodeId} (hNone : B.get? id = none) : SameButDangling A B none (some id)

/-- Arenas of the same size that differ at most in places for types, where one holds a handle to nothing
and the other is empty. The lists of a node have no empty places, so they are the same. -/
structure AgreesUpToDangling (A B : Arena) : Prop where
  size : A.size = B.size
  nodes : ∀ id left right, A.get? id = some left → B.get? id = some right →
    left.Corresponds (A.SameButDangling B) right

namespace AgreesUpToDangling

variable {A B : Arena} {a b : Option NodeId}

theorem get?_eq_none_iff (hAgrees : A.AgreesUpToDangling B) (id : NodeId) :
    A.get? id = none ↔ B.get? id = none := by
  have hSize : A.nodes.size = B.nodes.size := hAgrees.size
  rw [get?, get?, Array.getElem?_eq_none_iff, Array.getElem?_eq_none_iff, hSize]

/-- In the same slot both arenas hold nothing, or nodes behind the same handle. -/
theorem view (hAgrees : A.AgreesUpToDangling B) (hSame : A.SameButDangling B a b) :
    (A.resolve? a = none ∧ B.resolve? b = none) ∨
      ∃ id left right, A.resolve? a = some (id, left) ∧ B.resolve? b = some (id, right) ∧
        left.Corresponds (A.SameButDangling B) right := by
  cases hSame with
  | emptied hNone => exact .inl ⟨resolve?_of_get?_eq_none hNone, rfl⟩
  | filled hNone => exact .inl ⟨rfl, resolve?_of_get?_eq_none hNone⟩
  | same =>
      cases a with
      | none => exact .inl ⟨rfl, rfl⟩
      | some id =>
          cases hLeft : A.get? id with
          | none =>
              have hRight := (hAgrees.get?_eq_none_iff id).mp hLeft
              exact .inl ⟨resolve?_of_get?_eq_none hLeft, resolve?_of_get?_eq_none hRight⟩
          | some left =>
              cases hRight : B.get? id with
              | none => cases hLeft.symm.trans ((hAgrees.get?_eq_none_iff id).mpr hRight)
              | some right =>
                  exact .inr ⟨id, left, right, resolve?_of_get? hLeft, resolve?_of_get? hRight,
                    hAgrees.nodes id left right hLeft hRight⟩

theorem counterparts (hAgrees : A.AgreesUpToDangling B) : A.Counterparts B (A.SameButDangling B) where
  self := .same
  looksAlike hSame := by
    rcases hAgrees.view hSame with ⟨hFirst, hSecond⟩ | ⟨id, left, right, hLeft, hRight, hNodes⟩
    · exact .absent hFirst hSecond
    · exact .nodes hLeft hRight hNodes

/-- By induction on the visits. The child links lead to the same terminal. -/
theorem leafWithin_eq (hAgrees : A.AgreesUpToDangling B) (visits : Nat) (hSame : A.SameButDangling B a b) :
    a.bind (A.leafWithin visits) = b.bind (B.leafWithin visits) := by
  induction visits generalizing a b with
  | zero => cases a <;> cases b <;> rfl
  | succ visits ih =>
      rcases hAgrees.view hSame with ⟨hFirst, hSecond⟩ | ⟨id, left, right, hLeft, hRight, hNodes⟩
      · rw [bind_leafWithin_of_absent hFirst, bind_leafWithin_of_absent hSecond]
      · obtain ⟨rfl, hGetLeft⟩ := resolve?_eq_some hLeft
        obtain ⟨rfl, hGetRight⟩ := resolve?_eq_some hRight
        rw [Option.bind_some, Option.bind_some, leafWithin_succ hGetLeft, leafWithin_succ hGetRight,
          hNodes.isTerminal_eq]
        split
        case isTrue => rfl
        case isFalse hInside =>
          exact ih (hNodes.child? (hNodes.isTerminal_eq.trans (Bool.eq_false_iff.mpr hInside)))

theorem leaf?_eq (hAgrees : A.AgreesUpToDangling B) (id : NodeId) : A.leaf? id = B.leaf? id := by
  rw [leaf?, leaf?, hAgrees.size]
  exact hAgrees.leafWithin_eq (B.size + 1) (.same (some id))

end AgreesUpToDangling

end Arena

namespace Comparing

variable {A B : Arena} {limits : Limits} {slots slots' : Option NodeId → Option NodeId → Comparing Bool}
  {R : Option NodeId → Option NodeId → Prop} {a a' b b' : Option NodeId}

theorem children_congr (hSlots : ∀ a a' b b', R a a' → R b b' → slots a b = slots' a' b')
    {as as' bs bs' : List (Option NodeId)} (hFirst : List.Forall₂ R as as') (hSecond : List.Forall₂ R bs bs') :
    children slots as bs = children slots' as' bs' := by
  induction hFirst generalizing bs bs' with
  | nil => cases hSecond <;> rfl
  | cons hHead _ ih =>
      cases hSecond with
      | nil => rfl
      | cons hOther hOthers => simp only [children, hSlots _ _ _ _ hHead hOther, ih hOthers]

theorem nodes_congr (hSlots : ∀ a a' b b', R a a' → R b b' → slots a b = slots' a' b')
    {left left' right right' : Node} (hLeft : left.Corresponds R left') (hRight : right.Corresponds R right') :
    nodes slots left right = nodes slots' left' right' := by
  simp only [nodes, hLeft.label_eq, hRight.label_eq, children_congr hSlots hLeft.children hRight.children]

/-- At a glance both arenas show the same, and the same pair where that is not enough. -/
inductive Glance.Corresponds (R : Option NodeId → Option NodeId → Prop) : Glance → Glance → Prop where
  | settled (equal : Bool) : Corresponds R (.settled equal) (.settled equal)
  | undecided (pair : NodeId × NodeId) {left left' right right' : Node} (hLeft : left.Corresponds R left')
      (hRight : right.Corresponds R right') :
      Corresponds R (.undecided pair left right) (.undecided pair left' right')

theorem glance_corresponds (hAgrees : A.AgreesUpToDangling B) (walk : PairWalk)
    (hFirst : A.SameButDangling B a a') (hSecond : A.SameButDangling B b b') :
    (glance A walk a b).Corresponds (A.SameButDangling B) (glance B walk a' b') := by
  unfold glance
  rcases hAgrees.view hFirst with ⟨hA, hB⟩ | ⟨x, left, left', hA, hB, hLeft⟩ <;>
    rcases hAgrees.view hSecond with ⟨hA', hB'⟩ | ⟨y, right, right', hA', hB', hRight⟩ <;>
    simp only [hA, hB, hA', hB']
  case inl.inl | inl.inr | inr.inl => exact .settled _
  case inr.inr =>
    split
    case isTrue => exact .settled true
    case isFalse => exact .undecided (x, y) hLeft hRight

/-- By induction on the levels. Comparisons of the same slots pass through the same states. -/
theorem within_eq_of_agrees (hAgrees : A.AgreesUpToDangling B) (levels : Nat) (a a' b b' : Option NodeId)
    (hFirst : A.SameButDangling B a a') (hSecond : A.SameButDangling B b b') :
    within A limits levels a b = within B limits levels a' b' := by
  induction levels generalizing a a' b b' with
  | zero =>
      funext walk
      have hGlance := glance_corresponds hAgrees walk hFirst hSecond
      generalize hLeft : glance A walk a b = left at hGlance
      generalize hRight : glance B walk a' b' = right at hGlance
      cases hGlance with
      | settled equal => rw [within_of_settled hLeft, within_of_settled hRight]
      | undecided pair => rw [within_zero hLeft, within_zero hRight]
  | succ levels ih =>
      funext walk
      have hGlance := glance_corresponds hAgrees walk hFirst hSecond
      generalize hLeft : glance A walk a b = left at hGlance
      generalize hRight : glance B walk a' b' = right at hGlance
      cases hGlance with
      | settled equal => rw [within_of_settled hLeft, within_of_settled hRight]
      | undecided pair hNodes hOthers =>
          rw [within_succ hLeft, within_succ hRight, into, into, nodes_congr ih hNodes hOthers]

end Comparing

namespace Arena

variable {A B : Arena}

theorem AgreesUpToDangling.atAGlance_eq (hAgrees : A.AgreesUpToDangling B) {a b : Option NodeId}
    (hSame : A.SameButDangling B a b) : Hashing.atAGlance A a = Hashing.atAGlance B b := by
  rcases hAgrees.view hSame with ⟨hA, hB⟩ | ⟨id, left, right, hA, hB, hNodes⟩ <;>
    simp only [Hashing.atAGlance, hA, hB]
  exact Hashing.truncated_eq hNodes.tag_eq

/-- Every function pointer below a slot of the first arena is the same in the second. -/
def KeepsPointers (A B : Arena) (slot : Option NodeId) : Prop :=
  ∀ id signature, A.Below id slot → A.get? id = some (.functionPointer signature) →
    B.get? id = some (.functionPointer signature)

theorem KeepsPointers.child {id : NodeId} {node : Node} {child : Option NodeId}
    (hKeeps : A.KeepsPointers B (some id)) (hNode : A.get? id = some node) (hMem : child ∈ node.children) :
    A.KeepsPointers B child := by
  rintro other signature ⟨top, rfl, hPath⟩
  exact hKeeps other signature ⟨id, rfl, .tail hPath ⟨node, hNode, hMem⟩⟩

/-- The same slot of both arenas hashes alike, if the same function pointers are met below it. -/
theorem AgreesUpToDangling.hashesAlike (hAgrees : A.AgreesUpToDangling B) (a b : Option NodeId)
    (hSame : A.SameButDangling B a b ∧ A.KeepsPointers B a) :
    A.HashesAlike B Eq (fun a b => A.SameButDangling B a b ∧ A.KeepsPointers B a) a b := by
  obtain ⟨hSame, hKeeps⟩ := hSame
  rcases hAgrees.view hSame with ⟨hFirst, hSecond⟩ | ⟨id, left, right, hLeft, hRight, hNodes⟩
  · exact .absent hFirst hSecond
  · obtain ⟨rfl, hNode⟩ := resolve?_eq_some hLeft
    obtain ⟨-, hOther⟩ := resolve?_eq_some hRight
    have hPointer (signature signature' : Signature) (hPointer : left = .functionPointer signature)
        (hPointer' : right = .functionPointer signature') :
        ListCorresponds (A.SameButDangling B) signature.references signature'.references := by
      subst hPointer hPointer'
      cases (hKeeps id signature ⟨id, rfl, .refl⟩ hNode).symm.trans hOther
      exact List.forall₂_same.mpr fun reference _ => .same (some reference)
    have hParts : List.Forall₂ (fun piece piece' => piece ∈ left.hashParts ∧
        HashPart.Corresponds (A.SameButDangling B) piece piece') left.hashParts right.hashParts :=
      (List.forall₂_and_left _ _).mpr ⟨fun _ hMem => hMem, hNodes.hashParts hPointer⟩
    refine .nodes hLeft hRight rfl hNodes.tag_eq (hParts.imp ?_)
    rintro piece piece' ⟨hMem, hPieces⟩
    cases hPieces with
    | word value => exact .word value
    | child hSame => exact .child ⟨hSame, hKeeps.child hNode (Node.mem_children_of_hashParts hMem)⟩

end Arena

/-- Hashings of the same slots pass through the same states, if the same function pointers are met. -/
theorem Hashing.within_eq_of_agrees {A B : Arena} {limits : Limits} (hAgrees : A.AgreesUpToDangling B)
    (levels : Nat) (a b : Option NodeId) (hSame : A.SameButDangling B a b) (hKeeps : A.KeepsPointers B a) :
    within A limits levels a = within B limits levels b := by
  funext walk
  have hUnique : Relator.BiUnique (Eq : NodeId → NodeId → Prop) :=
    ⟨fun _ _ _ hFirst hSecond => hFirst.trans hSecond.symm, fun _ _ _ hFirst hSecond => hFirst.symm.trans hSecond⟩
  have hSelf : walk.Corresponds Eq walk :=
    ⟨List.forall₂_same.mpr fun _ _ => ⟨rfl, rfl⟩, List.forall₂_same.mpr fun _ _ => rfl, rfl⟩
  obtain ⟨hFound, hAfter⟩ :=
    within_inStep hUnique hAgrees.hashesAlike levels a b ⟨hSame, hKeeps⟩ walk walk hSelf
  exact Prod.ext hFound hAfter.eq

namespace Arena

/-- A pointer to a method without parameters. -/
def barePointer (result : Option NodeId) : Node :=
  .functionPointer (.method ⟨.ofKind .managed, 0, result, [], none⟩)

/-- The arena of a bare pointer alone, in which any handle but the first is one to nothing. -/
def pointerAlone (result : Option NodeId) : Arena :=
  ⟨#[barePointer result]⟩

theorem get?_pointerAlone {result : Option NodeId} {id : NodeId} {node : Node}
    (hNode : (pointerAlone result).get? id = some node) : node = barePointer result := by
  obtain ⟨_, hHeld⟩ := Array.getElem?_eq_some_iff.mp hNode
  exact hHeld.symm.trans (by simp [pointerAlone])

theorem pointerAlone_agrees (id : NodeId) (hOther : 0 < id.index) :
    (pointerAlone (some id)).AgreesUpToDangling (pointerAlone none) where
  size := rfl
  nodes other left right hLeft hRight := by
    have hNone : (pointerAlone (some id)).get? id = none := Array.getElem?_eq_none_iff.mpr hOther
    rw [get?_pointerAlone hLeft, get?_pointerAlone hRight]
    exact .functionPointer (.method (.mk _ _ (.emptied hNone) .nil .none))

/-- Of a bare pointer with a handle to nothing, and one without, the first has a piece more to hash. -/
theorem structuralHash_pointerAlone_ne {limits : Limits} (hDepth : limits.formatDepth ≠ 0)
    (hSteps : limits.resolutionSteps ≠ 0) :
    (pointerAlone (some ⟨1⟩)).structuralHash limits (some ⟨0⟩) ≠
      (pointerAlone none).structuralHash limits (some ⟨0⟩) := by
  obtain ⟨levels, hLevels⟩ := Nat.exists_eq_succ_of_ne_zero hDepth
  have hRoom : HashWalk.start.steps < limits.resolutionSteps := Nat.pos_of_ne_zero hSteps
  have hHash (result : Option NodeId) :
      (pointerAlone result).structuralHash limits (some ⟨0⟩) =
        (Hashing.parts (Hashing.within (pointerAlone result) limits levels) (barePointer result).tagDigest true
          (barePointer result).hashParts (HashWalk.start.enter ⟨0⟩)).1.value := by
    rw [structuralHash, hLevels, Hashing.within_of_undecided rfl hRoom List.not_mem_nil, Hashing.into_fst]
    rfl
  have hAbsent : Hashing.glance (pointerAlone (some ⟨1⟩)) (HashWalk.start.enter ⟨0⟩) (some ⟨1⟩) =
      .settled .absent := rfl
  have hNamed : (barePointer (some ⟨1⟩)).hashParts = [.word 0, .word 1, .child (some ⟨1⟩)] := rfl
  have hEmpty : (barePointer none).hashParts = [.word 0, .word 0] := rfl
  rw [hHash, hHash, hNamed, hEmpty, Hashing.parts_word, Hashing.parts_word, Hashing.parts_child,
    Hashing.within_of_settled hAbsent, Hashing.parts_word, Hashing.parts_word]
  change (NodeHash.mk _ _).value ≠ (NodeHash.mk _ _).value
  decide

/-- Under any limits, no query but the hash tells a handle to nothing from an empty place, and the hash
does so only where function pointers below a type differ. In some arenas it does, unless the limits keep
it from looking into any node. -/
theorem agreesUpToDangling_queries (limits : Limits) :
    (∀ A B : Arena, A.AgreesUpToDangling B →
      (∀ types id, A.Indistinguishable B types limits id id) ∧
      (∀ id, A.leaf? id = B.leaf? id) ∧
      (∀ a b, A.structurallyEqual limits a b = B.structurallyEqual limits a b) ∧
      (∀ slot, A.KeepsPointers B slot → A.structuralHash limits slot = B.structuralHash limits slot)) ∧
    ((∀ A B : Arena, A.AgreesUpToDangling B → ∀ slot,
        A.structuralHash limits slot = B.structuralHash limits slot) ↔
      limits.formatDepth = 0 ∨ limits.resolutionSteps = 0) := by
  refine ⟨fun A B hAgrees => ⟨fun types id => ?_, hAgrees.leaf?_eq, fun a b => ?_, fun slot hKeeps => ?_⟩,
    fun hAll => ?_, fun hLimits A B hAgrees slot => ?_⟩
  · exact hAgrees.counterparts.indistinguishable hAgrees.size types limits (.same (some id))
  · rw [structurallyEqual, structurallyEqual,
      Comparing.within_eq_of_agrees hAgrees limits.formatDepth a a b b (.same a) (.same b)]
  · rw [structuralHash, structuralHash,
      Hashing.within_eq_of_agrees hAgrees limits.formatDepth slot slot (.same slot) hKeeps]
  · by_contra hLooks
    obtain ⟨hDepth, hSteps⟩ := not_or.mp hLooks
    exact structuralHash_pointerAlone_ne hDepth hSteps
      (hAll _ _ (pointerAlone_agrees ⟨1⟩ Nat.one_pos) (some ⟨0⟩))
  · have hCut : limits.formatDepth = 0 ∨ limits.resolutionSteps ≤ HashWalk.start.steps :=
      hLimits.imp_right Nat.le_zero.mpr
    rw [structuralHash, structuralHash, Hashing.within_cut rfl hCut, Hashing.within_cut rfl hCut,
      hAgrees.atAGlance_eq (.same slot)]

/-- Under the standard limits the hash tells a handle to nothing from an empty place. -/
theorem not_structuralHash_eq_of_agrees :
    ¬ ∀ A B : Arena, A.AgreesUpToDangling B → ∀ limits slot,
      A.structuralHash limits slot = B.structuralHash limits slot :=
  fun hAll => structuralHash_pointerAlone_ne (by decide) (by decide)
    (hAll _ _ (pointerAlone_agrees ⟨1⟩ Nat.one_pos) .standard (some ⟨0⟩))

end Arena

end CliSignature
