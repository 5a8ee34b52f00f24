import CliSignature.Proofs.Unfolding

/-!
Slots that say the same. Signatures that refer back to themselves have no tree, so the same trees are
not enough to tell them apart. Bisimilar slots look the same however far one looks into them; where there
is a tree, this is to have the same tree.
-/

namespace CliSignature

namespace Arena

variable {arena : Arena} {R : Option NodeId → Option NodeId → Prop}

/-- Two slots look the same from above: both are absent, or both hold nodes that have the same label and
whose children are related one by one. -/
inductive LooksSame (arena : Arena) (R : Option NodeId → Option NodeId → Prop) :
    Option NodeId → Option NodeId → Prop where
  | absent {a b : Option NodeId} (hFirst : arena.resolve? a = none) (hSecond : arena.resolve? b = none) :
      LooksSame arena R a b
  | nodes {a b : Option NodeId} {x y : NodeId} {left right : Node}
      (hLeft : arena.resolve? a = some (x, left)) (hRight : arena.resolve? b = some (y, right))
      (hLabel : left.label = right.label)
      (hChildren : List.Forall₂ R left.children right.children) :
      LooksSame arena R a b

/-- Related slots look the same, and so do those that are found by following the relation down. -/
def IsBisimulation (arena : Arena) (R : Option NodeId → Option NodeId → Prop) : Prop :=
  ∀ a b, R a b → arena.LooksSame R a b

/-- Some bisimulation relates the slots. -/
def Bisimilar (arena : Arena) (a b : Option NodeId) : Prop :=
  ∃ R, arena.IsBisimulation R ∧ R a b

/-- Both slots have a tree, the same one, or neither has. -/
def SameTree (arena : Arena) (a b : Option NodeId) : Prop :=
  ∀ tree, arena.Unfolds a tree ↔ arena.Unfolds b tree

theorem LooksSame.imp {R' : Option NodeId → Option NodeId → Prop} (hImp : ∀ a b, R a b → R' a b)
    {a b : Option NodeId} (hSame : arena.LooksSame R a b) : arena.LooksSame R' a b := by
  cases hSame with
  | absent hFirst hSecond => exact .absent hFirst hSecond
  | nodes hLeft hRight hLabel hChildren =>
      exact .nodes hLeft hRight hLabel (hChildren.imp hImp)

namespace Bisimilar

variable {a b : Option NodeId}

/-- Bisimilarity is the largest bisimulation. -/
theorem looksSame (hSame : arena.Bisimilar a b) : arena.LooksSame arena.Bisimilar a b := by
  obtain ⟨R, hR, hRelated⟩ := hSame
  exact (hR a b hRelated).imp fun _ _ hChild => ⟨R, hR, hChild⟩

/-- Slots that look the same, with bisimilar children, are bisimilar. -/
theorem of_looksSame (hSame : arena.LooksSame arena.Bisimilar a b) : arena.Bisimilar a b := by
  refine ⟨fun x y => arena.Bisimilar x y ∨ x = a ∧ y = b, ?_, .inr ⟨rfl, rfl⟩⟩
  rintro x y (hRelated | ⟨rfl, rfl⟩)
  · exact hRelated.looksSame.imp fun _ _ => .inl
  · exact hSame.imp fun _ _ => .inl

theorem refl (slot : Option NodeId) : arena.Bisimilar slot slot := by
  refine ⟨Eq, ?_, rfl⟩
  rintro a _ rfl
  cases hNode : arena.resolve? a with
  | none => exact .absent hNode hNode
  | some entry => exact .nodes hNode hNode rfl (List.forall₂_refl _)

theorem symm (hSame : arena.Bisimilar a b) : arena.Bisimilar b a := by
  obtain ⟨R, hR, hRelated⟩ := hSame
  refine ⟨fun x y => R y x, fun x y hSwapped => ?_, hRelated⟩
  cases hR y x hSwapped with
  | absent hFirst hSecond => exact .absent hSecond hFirst
  | nodes hLeft hRight hLabel hChildren =>
      exact .nodes hRight hLeft hLabel.symm hChildren.flip

/-- By induction on the tree. -/
theorem unfolds {tree : Tree} (hTree : arena.Unfolds a tree) (hSame : arena.Bisimilar a b) :
    arena.Unfolds b tree := by
  induction hTree using Unfolds.induct generalizing b with
  | absent a hNone =>
      cases hSame.looksSame with
      | absent _ hSecond => exact .absent hSecond
      | nodes hLeft => simp [hNone] at hLeft
  | node a id node trees hNode hTrees =>
      cases hSame.looksSame with
      | absent hFirst => simp [hNode] at hFirst
      | @nodes x y left right hLeft hRight hLabel hChildren =>
          obtain ⟨rfl, rfl⟩ : id = x ∧ node = left := by simpa [hNode] using hLeft
          rw [hLabel]
          exact .of_forall₂ hRight (forall₂_of_common hChildren hTrees
            fun _ _ _ hChild hTree => hTree.2 hChild)

theorem sameTree (hSame : arena.Bisimilar a b) : arena.SameTree a b :=
  fun _ => ⟨fun hTree => hSame.unfolds hTree, fun hTree => hSame.symm.unfolds hTree⟩

/-- Slots with the same tree are bisimilar: to have a tree in common is a bisimulation. -/
theorem of_unfolds {tree : Tree} (hFirst : arena.Unfolds a tree) (hSecond : arena.Unfolds b tree) :
    arena.Bisimilar a b := by
  refine ⟨fun x y => ∃ tree, arena.Unfolds x tree ∧ arena.Unfolds y tree, ?_, tree, hFirst, hSecond⟩
  rintro x y ⟨tree, hFirst, hSecond⟩
  cases tree with
  | absent => exact .absent (unfolds_absent_iff.mp hFirst) (unfolds_absent_iff.mp hSecond)
  | node label trees =>
      obtain ⟨i, left, hLeft, rfl, hTrees⟩ := unfolds_node_iff.mp hFirst
      obtain ⟨j, right, hRight, hLabel, hOthers⟩ := unfolds_node_iff.mp hSecond
      exact .nodes hLeft hRight hLabel.symm (forall₂_of_common hTrees.flip hOthers.flip
        fun tree _ _ hFirst hSecond => ⟨tree, hFirst, hSecond⟩)

end Bisimilar

end Arena

end CliSignature
