import CliSignature.Proofs.Acyclicity
import CliSignature.Proofs.Structural.Walks

/-!
What a comparison decides. Slots that are found equal are bisimilar under any limits. Slots with the same
tree are found equal if the levels suffice for the height of the tree and the steps for the pairs of
different nodes that stand at the same places below the two slots.
-/

namespace CliSignature

variable {arena : Arena} {limits : Limits}

namespace Arena

/-- Two slots stand at the same place below `a` and below `b`. -/
inductive Opposite (arena : Arena) (a b : Option NodeId) : Option NodeId → Option NodeId → Prop where
  | top : Opposite arena a b a b
  | child {c d e f : Option NodeId} {x y : NodeId} {left right : Node}
      (hAbove : Opposite arena a b c d) (hLeft : arena.resolve? c = some (x, left))
      (hRight : arena.resolve? d = some (y, right))
      (hPlace : (e, f) ∈ left.children.zip right.children) : Opposite arena a b e f

/-- The pairs of different nodes at the same places below `a` and below `b`. Handles that refer to
nothing do not count. -/
def differingPairs (arena : Arena) (a b : Option NodeId) : Set (NodeId × NodeId) :=
  { pair | pair.1 ≠ pair.2 ∧ arena.contains pair.1 = true ∧ arena.contains pair.2 = true ∧
      arena.Opposite a b (some pair.1) (some pair.2) }

end Arena

/-- The pairs that were looked into, of which `active` are not left yet. They are among `pairs`. -/
structure PairWalk.Tracks (pairs : Set (NodeId × NodeId)) (active : List (NodeId × NodeId))
    (walk : PairWalk) : Prop where
  active_eq : walk.active = active
  visits : Visits (· ∈ pairs) active walk.proven walk.steps

namespace PairWalk.Tracks

variable {pairs : Set (NodeId × NodeId)} {active : List (NodeId × NodeId)} {walk : PairWalk}
  {pair : NodeId × NodeId}

theorem enter (hWalk : walk.Tracks pairs active) (hPair : pair ∈ pairs) (hActive : pair ∉ active)
    (hNew : pair ∉ walk.proven) : (walk.enter pair).Tracks pairs (pair :: active) where
  active_eq := congrArg (List.cons pair) hWalk.active_eq
  visits := hWalk.visits.enter hPair hActive hNew

theorem leave (hWalk : walk.Tracks pairs (pair :: active)) : (walk.leave pair true).Tracks pairs active where
  active_eq := by rw [PairWalk.leave, hWalk.active_eq, List.erase_cons_head]
  visits := hWalk.visits.leave

end PairWalk.Tracks

namespace Comparing

variable {slots : Option NodeId → Option NodeId → Comparing Bool}

/-- Slots with the same tree are not told apart at a glance. -/
theorem equal_of_glance {walk : PairWalk} {a b : Option NodeId} {tree : Tree} {equal : Bool}
    (hFirst : arena.Unfolds a tree) (hSecond : arena.Unfolds b tree)
    (hGlance : glance arena walk a b = .settled equal) : equal = true := by
  cases equal with
  | true => rfl
  | false =>
      have hAbsent : arena.resolve? a = none ↔ arena.resolve? b = none := by
        rw [← Arena.unfolds_absent_iff, ← Arena.unfolds_absent_iff]
        exact (Arena.Bisimilar.of_unfolds hFirst hSecond).sameTree .absent
      rcases of_glance_false hGlance with ⟨hNone, hHeld⟩ | ⟨hHeld, hNone⟩
      · exact (hHeld (hAbsent.mp hNone)).elim
      · exact (hHeld (hAbsent.mpr hNone)).elim

/-- Slots with the same tree that are not settled hold nodes with the same label, and the same trees
below. -/
theorem sides_of_glance {walk : PairWalk} {a b : Option NodeId} {tree : Tree} {pair : NodeId × NodeId}
    {left right : Node} (hFirst : arena.Unfolds a tree) (hSecond : arena.Unfolds b tree)
    (hGlance : glance arena walk a b = .undecided pair left right) :
    ∃ trees, tree = .node left.label trees ∧ left.label = right.label ∧
      List.Forall₂ (fun e f => ∃ child ∈ trees, arena.Unfolds e child ∧ arena.Unfolds f child)
        left.children right.children := by
  obtain ⟨hLeft, hRight⟩ := resolve?_of_glance hGlance
  cases tree with
  | absent => simp [Arena.unfolds_absent_iff, hLeft] at hFirst
  | node label trees =>
      obtain ⟨_, _, hNode, rfl, hTrees⟩ := Arena.unfolds_node_iff.mp hFirst
      obtain ⟨rfl, rfl⟩ := Prod.mk.inj (Option.some.inj (hLeft.symm.trans hNode))
      obtain ⟨_, _, hNode, hLabel, hOthers⟩ := Arena.unfolds_node_iff.mp hSecond
      obtain ⟨rfl, rfl⟩ := Prod.mk.inj (Option.some.inj (hRight.symm.trans hNode))
      have hListed : List.Forall₂ (fun e child => child ∈ trees ∧ arena.Unfolds e child)
          left.children trees :=
        forall₂_imp_of_mem (fun _ _ hMem hTree => ⟨hMem, hTree⟩) (fun _ hMem => hMem) hTrees
      exact ⟨trees, rfl, hLabel.symm, forall₂_of_common hListed.flip hOthers.flip
        fun child _ _ hListed hOther => ⟨child, hListed.1, hListed.2, hOther⟩⟩

/-- Children are found equal if they are one by one. -/
theorem children_equal {Invariant : PairWalk → Prop} {as bs : List (Option NodeId)}
    (hSlots : List.Forall₂ (fun a b => Keeps Invariant (slots a b) (· = true)) as bs) :
    Keeps Invariant (children slots as bs) (· = true) := by
  induction hSlots with
  | nil => exact .pure rfl
  | cons hHead _ ih =>
      refine hHead.bind fun equal hEqual => ?_
      rw [hEqual]
      exact ih

/-- A new pair with equal labels is found equal if its children are, and is remembered from then on. -/
theorem into_equal {pairs : Set (NodeId × NodeId)} {active : List (NodeId × NodeId)} {walk : PairWalk}
    {pair : NodeId × NodeId} {left right : Node} (hLabel : left.label = right.label)
    (hSlots : List.Forall₂ (fun e f => Keeps (PairWalk.Tracks pairs (pair :: active)) (slots e f) (· = true))
      left.children right.children) (hEnter : (walk.enter pair).Tracks pairs (pair :: active)) :
    (into slots pair left right walk).2.Tracks pairs active ∧ (into slots pair left right walk).1 = true := by
  have hNodes : Keeps (PairWalk.Tracks pairs (pair :: active)) (nodes slots left right) (· = true) := by
    rw [nodes, if_pos hLabel]
    exact children_equal hSlots
  obtain ⟨hAfter, hEqual⟩ := hNodes _ hEnter
  rw [into_run, hEqual]
  exact ⟨hAfter.leave, rfl⟩

/-- By induction on the levels. The pairs that are being looked into have higher trees than those below
them, so no pair is met again inside itself. -/
theorem within_equal {a b c d : Option NodeId} {tree : Tree} {levels : Nat}
    {active : List (NodeId × NodeId)} (hPairs : (arena.differingPairs a b).encard ≤ limits.resolutionSteps)
    (hPlace : arena.Opposite a b c d) (hFirst : arena.Unfolds c tree) (hSecond : arena.Unfolds d tree)
    (hHeight : tree.height 0 ≤ levels)
    (hAbove : ∀ pair ∈ active, ∀ other, arena.Unfolds (some pair.1) other →
      tree.height 0 < other.height 0) :
    Keeps (PairWalk.Tracks (arena.differingPairs a b) active) (within arena limits levels c d)
      (· = true) := by
  induction levels using Nat.strongRecOn generalizing c d tree active with
  | _ levels ih =>
      intro walk hWalk
      cases hGlance : glance arena walk c d with
      | settled equal =>
          rw [within_of_settled hGlance]
          exact ⟨hWalk, equal_of_glance hFirst hSecond hGlance⟩
      | undecided pair left right =>
          obtain ⟨trees, rfl, hLabel, hChildren⟩ := sides_of_glance hFirst hSecond hGlance
          obtain ⟨below, rfl⟩ : ∃ below, levels = below + 1 :=
            Nat.exists_eq_succ_of_ne_zero
              (Nat.lt_of_lt_of_le (Tree.height_node_pos 0 left.label trees) hHeight).ne'
          obtain ⟨x, y⟩ := pair
          obtain ⟨hLeft, hRight⟩ := resolve?_of_glance hGlance
          obtain ⟨rfl, hHeldLeft⟩ := Arena.resolve?_eq_some hLeft
          obtain ⟨rfl, hHeldRight⟩ := Arena.resolve?_eq_some hRight
          obtain ⟨hDiffer, hNew⟩ := new_of_glance hGlance
          have hPair : (x, y) ∈ arena.differingPairs a b :=
            ⟨hDiffer, Arena.contains_iff.mpr ⟨_, hHeldLeft⟩, Arena.contains_iff.mpr ⟨_, hHeldRight⟩,
              hPlace⟩
          have hActive : (x, y) ∉ active := fun hMem =>
            Nat.lt_irrefl _ (hAbove (x, y) hMem _ hFirst)
          have hEnter := hWalk.enter hPair hActive hNew
          have hSteps : walk.steps < limits.resolutionSteps :=
            ENat.natCast_le_natCast.mp (hEnter.visits.steps_le.trans hPairs)
          have hSlots : List.Forall₂ (fun e f =>
              Keeps (PairWalk.Tracks (arena.differingPairs a b) ((x, y) :: active))
                (within arena limits below e f) (· = true)) left.children right.children := by
            refine List.forall₂_iff_zip.mpr ⟨hChildren.length_eq, fun {e f} hZip => ?_⟩
            obtain ⟨child, hMem, hChildFirst, hChildSecond⟩ := List.forall₂_zip hChildren hZip
            have hLower : child.height 0 < (Tree.node left.label trees).height 0 :=
              Tree.height_lt_of_mem hMem
            refine ih below (Nat.lt_succ_self below) (.child hPlace hLeft hRight hZip) hChildFirst
              hChildSecond (Tree.height_node_le_iff.mp hHeight child hMem) fun other hOther tree hTree => ?_
            rcases List.mem_cons.mp hOther with rfl | hOther
            · rw [hTree.unique hFirst]
              exact hLower
            · exact hLower.trans (hAbove other hOther tree hTree)
          rw [within_of_undecided hGlance hSteps (by rwa [hWalk.active_eq])]
          exact into_equal hLabel hSlots hEnter

end Comparing

namespace Arena

variable (arena : Arena) (limits : Limits) (a b : Option NodeId)

/-- Slots that are found equal are bisimilar, and if nothing below one of them refers back to itself,
they have the same tree. Slots with the same tree are found equal if the limits suffice for the height of
the tree and for the pairs of different nodes at the same places. -/
theorem structurallyEqual_decides :
    (arena.structurallyEqual limits a b = true →
      arena.Bisimilar a b ∧
        (arena.AcyclicBelow a ∨ arena.AcyclicBelow b →
          ∃ tree, arena.Unfolds a tree ∧ arena.Unfolds b tree)) ∧
      ∀ tree, arena.Unfolds a tree → arena.Unfolds b tree → tree.height 0 ≤ limits.formatDepth →
        (arena.differingPairs a b).encard ≤ limits.resolutionSteps →
        arena.structurallyEqual limits a b = true := by
  constructor
  · intro hEqual
    have hSame := bisimilar_of_structurallyEqual hEqual
    refine ⟨hSame, ?_⟩
    rintro (hAcyclic | hAcyclic)
    · obtain ⟨tree, hTree⟩ := hAcyclic.exists_unfolds
      exact ⟨tree, hTree, hSame.unfolds hTree⟩
    · obtain ⟨tree, hTree⟩ := hAcyclic.exists_unfolds
      exact ⟨tree, hSame.symm.unfolds hTree, hTree⟩
  · intro tree hFirst hSecond hHeight hPairs
    exact (Comparing.within_equal hPairs .top hFirst hSecond hHeight (by simp [PairWalk.start]) .start
      ⟨rfl, .start⟩).2

/-- Two pointers that point to themselves are bisimilar, but the second visit ends the comparison. -/
example :
    Arena.structurallyEqual ⟨#[.wrapper .pointer (some ⟨0⟩), .wrapper .pointer (some ⟨1⟩)]⟩ .standard
      (some ⟨0⟩) (some ⟨1⟩) = false := by
  decide

end Arena

end CliSignature
