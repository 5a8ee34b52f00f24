import CliSignature.Proofs.Counterparts.Basic
import CliSignature.Proofs.Structural.Steps
import CliSignature.Proofs.Structural.TreeHash
import Mathlib.Logic.Relator

/-!
Hashings in lockstep. A hashing looks at handles only to find out whether it has met one before. So the
hashes of two slots are the same, under any limits, if what is below them is made of the same pieces and the
handles in one arena correspond one to one to those in the other.
-/

namespace CliSignature

namespace HashPart

/-- Pieces that are the same word, or related slots. -/
inductive Corresponds (R : Option NodeId → Option NodeId → Prop) : HashPart → HashPart → Prop where
  | word (value : UInt64) : Corresponds R (.word value) (.word value)
  | child {a b : Option NodeId} (hSame : R a b) : Corresponds R (.child a) (.child b)

variable {R : Option NodeId → Option NodeId → Prop}

theorem forall₂_words {α : Type} (word : α → UInt64) (values : List α) :
    List.Forall₂ (Corresponds R) (values.map fun value => .word (word value))
      (values.map fun value => .word (word value)) :=
  List.forall₂_same.mpr (List.forall_mem_map.mpr fun value _ => .word (word value))

theorem forall₂_ofList {ids ids' : List NodeId} (hIds : ListCorresponds R ids ids') :
    List.Forall₂ (Corresponds R) (ofList ids) (ofList ids') :=
  List.forall₂_map_left_iff.mpr (List.forall₂_map_right_iff.mpr (hIds.imp fun _ _ hSame => .child hSame))

end HashPart

section Nodes

variable {R : Option NodeId → Option NodeId → Prop} {left right : Node}

theorem Node.Corresponds.tag_eq (hNodes : left.Corresponds R right) : left.tag = right.tag := by
  rw [← Node.tag_label, ← Node.tag_label, hNodes.label_eq]

/-- The hashes of corresponding nodes are made of corresponding pieces, but for those of function pointers,
which depend on how many places are empty. -/
theorem Node.Corresponds.hashParts (hNodes : left.Corresponds R right)
    (hPointer : ∀ signature signature', left = .functionPointer signature → right = .functionPointer signature' →
      ListCorresponds R signature.references signature'.references) :
    List.Forall₂ (HashPart.Corresponds R) left.hashParts right.hashParts := by
  cases hNodes with
  | named | primitive | genericParam => exact .cons (.word _) .nil
  | sentinel => exact .nil
  | @functionPointer signature signature' hSignature =>
      have hReferences := hPointer _ _ rfl rfl
      have hConvention : signature.convention = signature'.convention := by
        rw [← signature.convention_label, ← signature'.convention_label, hSignature.label_eq]
      simp only [Node.hashParts, hConvention, hReferences.length_eq]
      exact .cons (.word _) (.cons (.word _) (HashPart.forall₂_ofList hReferences))
  | genericInst hDefinition hArgs =>
      simp only [Node.hashParts, hArgs.length_eq]
      exact .cons (.child hDefinition) (.cons (.word _) (HashPart.forall₂_ofList hArgs))
  | wrapper _ hChild => exact .cons (.child hChild) .nil
  | array shape hChild =>
      exact List.rel_append
        (List.rel_append (.cons (.word _) (.cons (.word _) (HashPart.forall₂_words _ _)))
          (.cons (.word _) (HashPart.forall₂_words _ _)))
        (.cons (.child hChild) .nil)
  | modified _ _ hChild | valueArray _ hChild | moduleQualified _ hChild =>
      exact .cons (.word _) (.cons (.child hChild) .nil)

end Nodes

namespace Arena

/-- Two slots hash alike from above: both are absent, or both hold nodes of one sort whose hashes are made of
corresponding pieces. Their handles are related by `S`, the slots in the pieces by `R`. -/
inductive HashesAlike (A B : Arena) (S : NodeId → NodeId → Prop) (R : Option NodeId → Option NodeId → Prop) :
    Option NodeId → Option NodeId → Prop where
  | absent {a b : Option NodeId} (hFirst : A.resolve? a = none) (hSecond : B.resolve? b = none) :
      HashesAlike A B S R a b
  | nodes {a b : Option NodeId} {x y : NodeId} {left right : Node}
      (hLeft : A.resolve? a = some (x, left)) (hRight : B.resolve? b = some (y, right)) (hIds : S x y)
      (hTag : left.tag = right.tag)
      (hParts : List.Forall₂ (HashPart.Corresponds R) left.hashParts right.hashParts) : HashesAlike A B S R a b

end Arena

section Lists

variable {S : NodeId → NodeId → Prop} (hUnique : Relator.BiUnique S) {x y : NodeId} (hIds : S x y)

include hUnique hIds

theorem lookup_eq_of_forall₂ {entries entries' : List (NodeId × UInt64)}
    (hEntries : List.Forall₂ (fun entry entry' => S entry.1 entry'.1 ∧ entry.2 = entry'.2) entries entries') :
    entries.lookup x = entries'.lookup y := by
  induction hEntries with
  | nil => rfl
  | @cons entry entry' _ _ hHead _ ih =>
      obtain ⟨id, value⟩ := entry
      obtain ⟨id', value'⟩ := entry'
      obtain ⟨hEntry, rfl⟩ : S id id' ∧ value = value' := hHead
      have hFound : (x == id) = (y == id') := by
        rw [Bool.eq_iff_iff, beq_iff_eq, beq_iff_eq]
        exact Relator.rel_eq hUnique hIds hEntry
      rw [List.lookup_cons, List.lookup_cons, hFound, ih]

theorem forall₂_erase {ids ids' : List NodeId} (hList : List.Forall₂ S ids ids') :
    List.Forall₂ S (ids.erase x) (ids'.erase y) := by
  induction hList with
  | nil => exact .nil
  | @cons first second _ _ hHead hTail ih =>
      have hFound : first = x ↔ second = y := Relator.rel_eq hUnique hHead hIds
      by_cases hFirst : first = x
      · rw [hFirst, hFound.mp hFirst, List.erase_cons_head, List.erase_cons_head]
        exact hTail
      · rw [List.erase_cons_tail (by simpa using hFirst), List.erase_cons_tail (by simpa using mt hFound.mpr hFirst)]
        exact .cons hHead ih

end Lists

/-- Walks that differ in nothing but the handles they have met, which are related by `S`. -/
structure HashWalk.Corresponds (S : NodeId → NodeId → Prop) (walk walk' : HashWalk) : Prop where
  finished : List.Forall₂ (fun entry entry' => S entry.1 entry'.1 ∧ entry.2 = entry'.2) walk.finished walk'.finished
  active : List.Forall₂ S walk.active walk'.active
  steps : walk.steps = walk'.steps

namespace HashWalk.Corresponds

variable {S : NodeId → NodeId → Prop} {walk walk' : HashWalk} {x y : NodeId}

theorem start : HashWalk.start.Corresponds S .start :=
  ⟨.nil, .nil, rfl⟩

theorem enter (hWalks : walk.Corresponds S walk') (hIds : S x y) : (walk.enter x).Corresponds S (walk'.enter y) where
  finished := hWalks.finished
  active := .cons hIds hWalks.active
  steps := congrArg (· + 1) hWalks.steps

theorem leave (hUnique : Relator.BiUnique S) (hWalks : walk.Corresponds S walk') (hIds : S x y) (hash : NodeHash) :
    (walk.leave x hash).Corresponds S (walk'.leave y hash) where
  finished := by
    unfold HashWalk.leave
    split
    case isTrue => exact .cons ⟨hIds, rfl⟩ hWalks.finished
    case isFalse => exact hWalks.finished
  active := forall₂_erase hUnique hIds hWalks.active
  steps := hWalks.steps

/-- Walks with the same handles are the same. -/
theorem eq (hWalks : walk.Corresponds Eq walk') : walk = walk' := by
  obtain ⟨finished, active, steps⟩ := walk
  obtain ⟨finished', active', steps'⟩ := walk'
  obtain ⟨hFinished, hActive, rfl⟩ := hWalks
  have hEntries : List.Forall₂ Eq finished finished' :=
    hFinished.imp fun entry entry' hEntry => Prod.ext hEntry.1 hEntry.2
  rw [List.forall₂_eq_eq_eq] at hEntries
  have hIds : List.Forall₂ Eq active active' := hActive
  rw [List.forall₂_eq_eq_eq] at hIds
  rw [hEntries, hIds]

end HashWalk.Corresponds

namespace Hashing

variable {A B : Arena} {limits : Limits} {S : NodeId → NodeId → Prop} {R : Option NodeId → Option NodeId → Prop}
  {a b : Option NodeId}

/-- Hashings that find the same, and after which the walks still correspond. -/
def InStep (S : NodeId → NodeId → Prop) (hashing hashing' : Hashing NodeHash) : Prop :=
  ∀ walk walk', walk.Corresponds S walk' →
    (hashing walk).1 = (hashing' walk').1 ∧ (hashing walk).2.Corresponds S (hashing' walk').2

theorem parts_inStep {hash hash' : Option NodeId → Hashing NodeHash}
    (hHash : ∀ a b, R a b → InStep S (hash a) (hash' b)) {pieces pieces' : List HashPart}
    (hPieces : List.Forall₂ (HashPart.Corresponds R) pieces pieces') (digest : Digest) (complete : Bool) :
    InStep S (parts hash digest complete pieces) (parts hash' digest complete pieces') := by
  induction hPieces generalizing digest complete with
  | nil => exact fun walk walk' hWalks => ⟨rfl, hWalks⟩
  | cons hHead _ ih =>
      cases hHead with
      | word value => exact ih (digest.add value) complete
      | child hSame =>
          intro walk walk' hWalks
          obtain ⟨hFound, hAfter⟩ := hHash _ _ hSame walk walk' hWalks
          rw [parts_child, parts_child, hFound]
          exact ih _ _ _ _ hAfter

theorem into_inStep (hUnique : Relator.BiUnique S) {hash hash' : Option NodeId → Hashing NodeHash}
    (hHash : ∀ a b, R a b → InStep S (hash a) (hash' b)) {x y : NodeId} (hIds : S x y) {left right : Node}
    (hTag : left.tag = right.tag) (hParts : List.Forall₂ (HashPart.Corresponds R) left.hashParts right.hashParts) :
    InStep S (into hash x left) (into hash' y right) := by
  intro walk walk' hWalks
  have hDigest : left.tagDigest = right.tagDigest := by rw [Node.tagDigest, Node.tagDigest, hTag]
  obtain ⟨hFound, hAfter⟩ := parts_inStep hHash hParts left.tagDigest true _ _ (hWalks.enter hIds)
  rw [into_run, into_run, ← hDigest, hFound]
  exact ⟨rfl, hAfter.leave hUnique hIds _⟩

/-- At a glance both arenas show the same hash, or nodes that have not been met yet. -/
inductive Glance.Corresponds (S : NodeId → NodeId → Prop) (R : Option NodeId → Option NodeId → Prop) :
    Glance → Glance → Prop where
  | settled (hash : NodeHash) : Corresponds S R (.settled hash) (.settled hash)
  | undecided {x y : NodeId} {left right : Node} (hIds : S x y) (hTag : left.tag = right.tag)
      (hParts : List.Forall₂ (HashPart.Corresponds R) left.hashParts right.hashParts) :
      Corresponds S R (.undecided x left) (.undecided y right)

theorem glance_corresponds (hUnique : Relator.BiUnique S) (hAlike : A.HashesAlike B S R a b) {walk walk' : HashWalk}
    (hWalks : walk.Corresponds S walk') : (glance A walk a).Corresponds S R (glance B walk' b) := by
  unfold glance
  cases hAlike with
  | absent hFirst hSecond =>
      rw [hFirst, hSecond]
      exact .settled .absent
  | nodes hLeft hRight hIds hTag hParts =>
      simp only [hLeft, hRight, lookup_eq_of_forall₂ hUnique hIds hWalks.finished]
      split
      case h_1 value _ => exact .settled ⟨value, true⟩
      case h_2 => exact .undecided hIds hTag hParts

theorem truncated_eq {left right : Node} (hTag : left.tag = right.tag) :
    NodeHash.truncated left = .truncated right := by
  rw [NodeHash.truncated, NodeHash.truncated, Node.tagDigest, Node.tagDigest, hTag]

/-- By induction on the levels. Two hashings of related slots meet related handles in the same order, and so
they are cut at the same places. -/
theorem within_inStep (hUnique : Relator.BiUnique S) (hAlike : ∀ a b, R a b → A.HashesAlike B S R a b)
    (levels : Nat) (a b : Option NodeId) (hSame : R a b) :
    InStep S (within A limits levels a) (within B limits levels b) := by
  induction levels generalizing a b with
  | zero =>
      intro walk walk' hWalks
      have hGlance := glance_corresponds hUnique (hAlike a b hSame) hWalks
      generalize hLeft : glance A walk a = left at hGlance
      generalize hRight : glance B walk' b = right at hGlance
      cases hGlance with
      | settled hash =>
          rw [within_of_settled hLeft, within_of_settled hRight]
          exact ⟨rfl, hWalks⟩
      | undecided hIds hTag hParts =>
          rw [within_zero hLeft, within_zero hRight, truncated_eq hTag]
          exact ⟨rfl, hWalks⟩
  | succ levels ih =>
      intro walk walk' hWalks
      have hGlance := glance_corresponds hUnique (hAlike a b hSame) hWalks
      generalize hLeft : glance A walk a = left at hGlance
      generalize hRight : glance B walk' b = right at hGlance
      cases hGlance with
      | settled hash =>
          rw [within_of_settled hLeft, within_of_settled hRight]
          exact ⟨rfl, hWalks⟩
      | @undecided x y left right hIds hTag hParts =>
          have hActive : x ∈ walk.active ↔ y ∈ walk'.active := List.rel_mem hUnique hIds hWalks.active
          rw [within_succ hLeft, within_succ hRight, ← hWalks.steps]
          by_cases hCut : limits.resolutionSteps ≤ walk.steps ∨ x ∈ walk.active
          · rw [if_pos hCut, if_pos (hCut.imp_right hActive.mp), truncated_eq hTag]
            exact ⟨rfl, hWalks⟩
          · rw [if_neg hCut, if_neg (mt (Or.imp_right hActive.mpr) hCut)]
            exact into_inStep hUnique ih hIds hTag hParts walk walk' hWalks

end Hashing

/-- Related slots have the same hash, whatever the limits are. -/
theorem Arena.structuralHash_eq_of_hashesAlike {A B : Arena} {S : NodeId → NodeId → Prop}
    {R : Option NodeId → Option NodeId → Prop} (hUnique : Relator.BiUnique S)
    (hAlike : ∀ a b, R a b → A.HashesAlike B S R a b) (limits : Limits) {a b : Option NodeId} (hSame : R a b) :
    A.structuralHash limits a = B.structuralHash limits b :=
  congrArg NodeHash.value (Hashing.within_inStep hUnique hAlike limits.formatDepth a b hSame _ _ .start).1

end CliSignature
