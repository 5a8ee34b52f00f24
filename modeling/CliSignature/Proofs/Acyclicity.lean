import CliSignature.Proofs.Unfolding
import Mathlib.Data.Fintype.EquivFin

/-!
Signatures that have a tree. They are those in which no node refers back to itself. How deep a tree nests
is its height, in which an absent type may count as a level or not.
-/

namespace CliSignature

namespace Tree

/-- The types right below the top of a tree. -/
def children : Tree → List Tree
  | .absent => []
  | .node _ children => children

mutual

/-- The number of levels of a tree, where an absent type takes the given number of levels. -/
def height (absent : Nat) : Tree → Nat
  | .absent => absent
  | .node _ children => heights absent children + 1

/-- The number of levels of the highest of several trees. -/
def heights (absent : Nat) : List Tree → Nat
  | [] => 0
  | tree :: trees => max (height absent tree) (heights absent trees)

end

theorem heights_le_iff {absent n : Nat} {trees : List Tree} :
    heights absent trees ≤ n ↔ ∀ tree ∈ trees, tree.height absent ≤ n := by
  induction trees with
  | nil => simp [heights]
  | cons tree trees ih => simp [heights, ih]

theorem height_node_le_iff {absent n : Nat} {label : Node.Label} {children : List Tree} :
    (Tree.node label children).height absent ≤ n + 1 ↔ ∀ child ∈ children, child.height absent ≤ n := by
  rw [height, Nat.succ_le_succ_iff, heights_le_iff]

theorem height_node_pos (absent : Nat) (label : Node.Label) (children : List Tree) :
    0 < (Tree.node label children).height absent := by
  rw [height]
  exact Nat.succ_pos _

/-- The height is no larger where an absent type counts less. -/
theorem height_le_of_height_le {absent more n : Nat} (hMore : absent ≤ more) {tree : Tree}
    (hHeight : tree.height more ≤ n) : tree.height absent ≤ n := by
  induction n generalizing tree with
  | zero =>
      cases tree with
      | absent => exact Nat.le_trans hMore hHeight
      | node label children => exact absurd hHeight (Nat.not_le.mpr (height_node_pos more label children))
  | succ n ih =>
      cases tree with
      | absent => exact Nat.le_trans hMore hHeight
      | node label children =>
          exact height_node_le_iff.mpr fun child hMem => ih (height_node_le_iff.mp hHeight child hMem)

/-- What is below the top of a tree has fewer levels. -/
theorem height_lt_of_mem {absent : Nat} {label : Node.Label} {children : List Tree} {child : Tree}
    (hMem : child ∈ children) : child.height absent < (Tree.node label children).height absent := by
  rw [height]
  exact Nat.lt_succ_of_le (heights_le_iff.mp (Nat.le_refl _) child hMem)

end Tree

namespace Arena

variable {arena : Arena}

/-- The slot leads to the handle, in any number of steps from nodes to their children. -/
def Below (arena : Arena) (id : NodeId) (slot : Option NodeId) : Prop :=
  ∃ top, slot = some top ∧ Relation.ReflTransGen arena.Refers id top

/-- No node that the slot leads to refers back to itself. -/
def AcyclicBelow (arena : Arena) (slot : Option NodeId) : Prop :=
  ∀ id, arena.Below id slot → ¬ Relation.TransGen arena.Refers id id

/-- What is below a slot is the node of the slot or below one of its children. -/
theorem Below.cases {id top : NodeId} {node : Node} (hNode : arena.get? top = some node)
    (hBelow : arena.Below id (some top)) :
    id = top ∨ ∃ child ∈ node.children, arena.Below id child := by
  obtain ⟨_, ⟨⟩, hPath⟩ := hBelow
  rcases Relation.ReflTransGen.cases_tail hPath with hSame | ⟨child, hPath, other, hOther, hMem⟩
  · exact .inl hSame.symm
  · obtain rfl := Option.some.inj (hNode.symm.trans hOther)
    exact .inr ⟨some child, hMem, child, rfl, hPath⟩

theorem Below.child {id child : NodeId} {node : Node} {slot : Option NodeId} (hBelow : arena.Below id slot)
    (hNode : arena.get? id = some node) (hMem : some child ∈ node.children) : arena.Below child slot := by
  obtain ⟨top, rfl, hPath⟩ := hBelow
  exact ⟨top, rfl, .head ⟨node, hNode, hMem⟩ hPath⟩

/-- A node that refers back to itself is below one of its own children. -/
theorem below_child_of_cycle {id : NodeId} {node : Node} (hNode : arena.get? id = some node)
    (hCycle : Relation.TransGen arena.Refers id id) : ∃ child ∈ node.children, arena.Below id child := by
  obtain ⟨child, hPath, other, hOther, hMem⟩ := Relation.TransGen.tail'_iff.mp hCycle
  obtain rfl := Option.some.inj (hNode.symm.trans hOther)
  exact ⟨some child, hMem, child, rfl, hPath⟩

/-- By induction on the tree. No node with a tree is part of a ring. -/
theorem Unfolds.acyclicBelow {slot : Option NodeId} {tree : Tree} (hTree : arena.Unfolds slot tree) :
    arena.AcyclicBelow slot := by
  induction hTree using Unfolds.induct with
  | absent slot hNone =>
      rintro id ⟨top, rfl, hPath⟩ hCycle
      have hTop : ¬ ∃ child, arena.Refers child top := by
        rintro ⟨child, node, hNode, -⟩
        rw [resolve?_of_get? hNode] at hNone
        cases hNone
      rcases Relation.ReflTransGen.cases_tail hPath with rfl | ⟨child, -, hRefers⟩
      · obtain ⟨child, -, hRefers⟩ := Relation.TransGen.tail'_iff.mp hCycle
        exact hTop ⟨child, hRefers⟩
      · exact hTop ⟨child, hRefers⟩
  | node slot id node trees hNode hTrees =>
      have hBelow : ∀ child ∈ node.children, arena.AcyclicBelow child :=
        ((List.forall₂_and_left _ _).mp (hTrees.imp fun _ _ ⟨hTree, hChild⟩ => ⟨hChild, hTree⟩)).1
      obtain ⟨rfl, hHeld⟩ := resolve?_eq_some hNode
      intro other hOther hCycle
      rcases hOther.cases hHeld with rfl | ⟨child, hMem, hChild⟩
      · obtain ⟨child, hMem, hChild⟩ := below_child_of_cycle hHeld hCycle
        exact hBelow child hMem _ hChild hCycle
      · exact hBelow child hMem other hChild hCycle

/-- The handles below a slot that refer to a node. -/
abbrev HeldBelow (arena : Arena) (slot : Option NodeId) : Type :=
  { id : NodeId // arena.contains id = true ∧ arena.Below id slot }

instance (slot : Option NodeId) : Finite (arena.HeldBelow slot) :=
  Finite.of_injective
    (fun held => (⟨held.val.index, of_decide_eq_true held.property.1⟩ : Fin arena.size))
    fun _ _ hIndex => Subtype.ext (congrArg NodeId.mk (Fin.mk.inj hIndex))

/-- Where no node refers back to itself, one can only go down finitely often. -/
theorem AcyclicBelow.wellFounded {slot : Option NodeId} (hAcyclic : arena.AcyclicBelow slot) :
    WellFounded fun child parent : arena.HeldBelow slot => arena.Refers child.val parent.val := by
  let below : arena.HeldBelow slot → arena.HeldBelow slot → Prop :=
    fun child parent => Relation.TransGen arena.Refers child.val parent.val
  have hTrans : IsTrans _ below := ⟨fun _ _ _ => Relation.TransGen.trans⟩
  have hIrrefl : Std.Irrefl below := ⟨fun held => hAcyclic held.val held.property.2⟩
  exact Subrelation.wf (fun hRefers => .single hRefers) (Finite.wellFounded_of_trans_of_irrefl below)

/-- By induction along the references. -/
theorem AcyclicBelow.exists_unfolds {slot : Option NodeId} (hAcyclic : arena.AcyclicBelow slot) :
    ∃ tree, arena.Unfolds slot tree := by
  have hHeld : ∀ held : arena.HeldBelow slot, ∃ tree, arena.Unfolds (some held.val) tree := by
    intro held
    induction held using hAcyclic.wellFounded.induction with
    | _ held ih =>
        obtain ⟨id, hContains, top, rfl, hPath⟩ := held
        obtain ⟨node, hNode⟩ := contains_iff.mp hContains
        obtain ⟨trees, hTrees⟩ : ∃ trees, List.Forall₂ arena.Unfolds node.children trees := by
          refine exists_forall₂ fun child hMem => ?_
          cases hChild : arena.resolve? child with
          | none => exact ⟨.absent, .absent hChild⟩
          | some entry =>
              obtain ⟨rfl, hEntry⟩ := resolve?_eq_some hChild
              have hRefers : arena.Refers entry.1 id := ⟨node, hNode, hMem⟩
              exact ih ⟨entry.1, contains_iff.mpr ⟨_, hEntry⟩, top, rfl, .head hRefers hPath⟩ hRefers
        exact ⟨_, .of_forall₂ (resolve?_of_get? hNode) hTrees⟩
  cases hNode : arena.resolve? slot with
  | none => exact ⟨.absent, .absent hNode⟩
  | some entry =>
      obtain ⟨rfl, hEntry⟩ := resolve?_eq_some hNode
      exact hHeld ⟨entry.1, contains_iff.mpr ⟨_, hEntry⟩, entry.1, rfl, .refl⟩

/-- A slot has a tree exactly if no node below it refers back to itself. -/
theorem exists_unfolds_iff {slot : Option NodeId} :
    (∃ tree, arena.Unfolds slot tree) ↔ arena.AcyclicBelow slot :=
  ⟨fun ⟨_, hTree⟩ => hTree.acyclicBelow, AcyclicBelow.exists_unfolds⟩

end Arena

end CliSignature
