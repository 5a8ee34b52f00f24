import CliSignature.Proofs.Structural.Decision
import CliSignature.Proofs.Structural.Lockstep

/-!
Renamed types. Where the handles below two slots correspond one to one, and the nodes behind them differ in
nothing but these handles, both structural queries see no difference. The hash is the same under any limits;
the comparison needs levels for the height, and a step for each pair of handles that differ.
-/

namespace CliSignature.Arena

variable {A B arena : Arena} {S : NodeId → NodeId → Prop} {a b : Option NodeId}

/-- Handles that correspond one to one and refer to nodes that differ in nothing but such handles. -/
structure Renames (A B : Arena) (S : NodeId → NodeId → Prop) : Prop where
  biUnique : Relator.BiUnique S
  nodes : ∀ x y, S x y → ∃ left right, A.get? x = some left ∧ B.get? y = some right ∧
    left.Corresponds (Option.Rel S) right

namespace Renames

/-- Slots that correspond are empty, or their handles refer to corresponding nodes. -/
theorem view (hRenames : A.Renames B S) (hSame : Option.Rel S a b) :
    (A.resolve? a = none ∧ B.resolve? b = none) ∨
      ∃ x y left right, A.resolve? a = some (x, left) ∧ B.resolve? b = some (y, right) ∧ S x y ∧
        left.Corresponds (Option.Rel S) right := by
  cases hSame with
  | none => exact .inl ⟨rfl, rfl⟩
  | @some x y hIds =>
      obtain ⟨left, right, hLeft, hRight, hNodes⟩ := hRenames.nodes x y hIds
      exact .inr ⟨x, y, left, right, resolve?_of_get? hLeft, resolve?_of_get? hRight, hIds, hNodes⟩

theorem hashesAlike (hRenames : A.Renames B S) (a b : Option NodeId) (hSame : Option.Rel S a b) :
    A.HashesAlike B S (Option.Rel S) a b := by
  rcases hRenames.view hSame with ⟨hFirst, hSecond⟩ | ⟨x, y, left, right, hLeft, hRight, hIds, hNodes⟩
  · exact .absent hFirst hSecond
  · refine .nodes hLeft hRight hIds hNodes.tag_eq (hNodes.hashParts ?_)
    rintro signature signature' rfl rfl
    have hReferences : List.Forall₂ S signature.references signature'.references := by
      rw [signature.references_eq, signature'.references_eq]
      exact List.rel_filterMap (fun _ _ => id) hNodes.children
    exact hReferences.imp fun _ _ => .some

/-- The hash does not depend on handles. -/
theorem structuralHash_eq (hRenames : A.Renames B S) (limits : Limits) (hSame : Option.Rel S a b) :
    A.structuralHash limits a = B.structuralHash limits b :=
  structuralHash_eq_of_hashesAlike hRenames.biUnique hRenames.hashesAlike limits hSame

theorem bisimilar (hRenames : arena.Renames arena S) (hSame : Option.Rel S a b) : arena.Bisimilar a b := by
  refine ⟨Option.Rel S, fun a b hSame => ?_, hSame⟩
  rcases hRenames.view hSame with ⟨hFirst, hSecond⟩ | ⟨x, y, left, right, hLeft, hRight, -, hNodes⟩
  · exact .absent hFirst hSecond
  · exact .nodes hLeft hRight hNodes.label_eq hNodes.children

/-- What stands at the same place below two slots corresponds if they do. -/
theorem opposite (hRenames : arena.Renames arena S) (hSame : Option.Rel S a b) {c d : Option NodeId}
    (hPlace : arena.Opposite a b c d) : Option.Rel S c d := by
  induction hPlace with
  | top => exact hSame
  | child _ hLeft hRight hPlace ih =>
      rcases hRenames.view ih with ⟨hFirst, -⟩ | ⟨x, y, left, right, hHeld, hHeld', -, hNodes⟩
      · cases hFirst.symm.trans hLeft
      · cases hHeld.symm.trans hLeft
        cases hHeld'.symm.trans hRight
        exact List.forall₂_zip hNodes.children hPlace

/-- Corresponding slots are found equal, if there are levels for the height of their tree and steps for the
handles that differ. -/
theorem structurallyEqual (hRenames : arena.Renames arena S) {limits : Limits} (hSame : Option.Rel S a b)
    {tree : Tree} (hTree : arena.Unfolds a tree) (hHeight : tree.height 0 ≤ limits.formatDepth)
    (hSteps : Set.encard { pair : NodeId × NodeId | S pair.1 pair.2 ∧ pair.1 ≠ pair.2 } ≤ limits.resolutionSteps) :
    arena.structurallyEqual limits a b = true := by
  have hOther : arena.Unfolds b tree := (hRenames.bisimilar hSame).unfolds hTree
  have hPairs : arena.differingPairs a b ⊆ { pair | S pair.1 pair.2 ∧ pair.1 ≠ pair.2 } := by
    rintro ⟨x, y⟩ ⟨hDiffer, -, -, hPlace⟩
    cases hRenames.opposite hSame hPlace with
    | some hIds => exact ⟨hIds, hDiffer⟩
  have hBound : (arena.differingPairs a b).encard ≤ limits.resolutionSteps :=
    (Set.encard_le_encard hPairs).trans hSteps
  exact (Comparing.within_equal hBound .top hTree hOther hHeight (by simp [PairWalk.start]) .start
    ⟨rfl, .start⟩).2

end Renames

end CliSignature.Arena
