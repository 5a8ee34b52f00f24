import CliSignature.Path
import Mathlib.Data.List.Perm.Subperm

/-!
Paths of child links that end. Nothing on such a path occurs twice, so it is no longer than the arena,
and the visits that a walk is given suffice for it. A walk that is given more visits finds no more.
-/

namespace CliSignature.Arena

variable {arena : Arena}

/-- There are no more handles that refer to nodes than there are nodes. -/
theorem length_le_size_of_nodup {ids : List NodeId} (hNodup : ids.Nodup)
    (hHeld : ∀ id ∈ ids, arena.contains id = true) : ids.length ≤ arena.size := by
  have hSubset : ids ⊆ (List.range arena.size).map NodeId.mk := fun id hMem =>
    List.mem_map.mpr ⟨id.index, List.mem_range.mpr (of_decide_eq_true (hHeld id hMem)), rfl⟩
  simpa using (hNodup.subperm hSubset).length_le

/-- The nodes along the child links from a slot, which end at a terminal, at an absent child or at a
handle that refers to nothing. -/
inductive ChildPath (arena : Arena) : Option NodeId → List (NodeId × Node) → Prop where
  | absent {slot : Option NodeId} (hNone : arena.resolve? slot = none) : ChildPath arena slot []
  | node {slot : Option NodeId} {id : NodeId} {node : Node} {rest : List (NodeId × Node)}
      (hNode : arena.resolve? slot = some (id, node)) (hRest : ChildPath arena node.child? rest) :
      ChildPath arena slot ((id, node) :: rest)

namespace ChildPath

variable {slot : Option NodeId} {path other : List (NodeId × Node)}

theorem unique (hPath : arena.ChildPath slot path) (hOther : arena.ChildPath slot other) :
    path = other := by
  induction hPath generalizing other with
  | absent hNone =>
      cases hOther with
      | absent => rfl
      | node hNode => cases hNone.symm.trans hNode
  | node hNode _ ih =>
      cases hOther with
      | absent hNone => cases hNode.symm.trans hNone
      | node hSame hRest =>
          cases hNode.symm.trans hSame
          rw [ih hRest]

theorem get?_of_mem (hPath : arena.ChildPath slot path) {entry : NodeId × Node} (hMem : entry ∈ path) :
    arena.get? entry.1 = some entry.2 := by
  induction hPath with
  | absent => cases hMem
  | node hNode _ ih =>
      cases hMem with
      | head => exact (resolve?_eq_some hNode).2
      | tail _ hMem => exact ih hMem

/-- From a node on the path the links go on as the path does. -/
theorem exists_of_mem (hPath : arena.ChildPath slot path) {entry : NodeId × Node} (hMem : entry ∈ path) :
    ∃ rest, arena.ChildPath (some entry.1) rest ∧ rest.length ≤ path.length := by
  induction hPath with
  | absent => cases hMem
  | node hNode hRest ih =>
      cases hMem with
      | head => exact ⟨_, .node (resolve?_of_get? (resolve?_eq_some hNode).2) hRest, Nat.le_refl _⟩
      | tail _ hMem =>
          obtain ⟨rest, hRest, hLength⟩ := ih hMem
          exact ⟨rest, hRest, Nat.le_succ_of_le hLength⟩

/-- A node that occurred again would have two paths of different lengths. -/
theorem nodup (hPath : arena.ChildPath slot path) : (path.map Prod.fst).Nodup := by
  induction hPath with
  | absent => exact .nil
  | @node slot id node rest hNode hRest ih =>
      refine List.nodup_cons.mpr ⟨fun hMem => ?_, ih⟩
      obtain ⟨entry, hEntry, rfl⟩ := List.mem_map.mp hMem
      obtain ⟨again, hAgain, hLength⟩ := hRest.exists_of_mem hEntry
      obtain ⟨rfl, hHeld⟩ := resolve?_eq_some hNode
      have hSame := hAgain.unique (.node (resolve?_of_get? hHeld) hRest)
      rw [hSame, List.length_cons] at hLength
      exact Nat.not_succ_le_self _ hLength

theorem length_le (hPath : arena.ChildPath slot path) : path.length ≤ arena.size := by
  rw [← List.length_map Prod.fst]
  refine length_le_size_of_nodup hPath.nodup fun id hMem => ?_
  obtain ⟨entry, hEntry, rfl⟩ := List.mem_map.mp hMem
  exact contains_iff.mpr ⟨_, hPath.get?_of_mem hEntry⟩

end ChildPath

/-- The terminal that a path ends in, if it does not end in an absent child or in a handle that refers
to nothing. -/
def pathTerminal? (path : List (NodeId × Node)) : Option NodeId :=
  path.getLast?.bind fun (id, node) => if node.isTerminal then some id else none

/-- By induction on the path. -/
theorem ChildPath.bind_leafWithin {slot : Option NodeId} {path : List (NodeId × Node)}
    (hPath : arena.ChildPath slot path) {visits : Nat} (hVisits : path.length ≤ visits) :
    slot.bind (arena.leafWithin visits) = pathTerminal? path := by
  induction hPath generalizing visits with
  | absent hNone => exact bind_leafWithin_of_absent hNone visits
  | @node slot id node rest hNode hRest ih =>
      obtain ⟨others, rfl⟩ : ∃ others, visits = others + 1 := ⟨visits - 1, by simp at hVisits; omega⟩
      obtain ⟨rfl, hHeld⟩ := resolve?_eq_some hNode
      rw [Option.bind_some, leafWithin_succ hHeld, ih (Nat.le_of_succ_le_succ hVisits)]
      cases hRest with
      | absent =>
          split
          case isTrue hTerminal => simp [pathTerminal?, hTerminal]
          case isFalse hInside => simp [pathTerminal?, hInside]
      | node hChild =>
          rw [if_neg fun hTerminal => ?_, pathTerminal?, pathTerminal?, List.getLast?_cons_cons]
          rw [Node.child?_of_isTerminal hTerminal] at hChild
          cases hChild

/-- By induction on the visits. Where a terminal is reached there is a path. -/
theorem exists_childPath_of_leafWithin {visits : Nat} {id leaf : NodeId}
    (hLeaf : arena.leafWithin visits id = some leaf) : ∃ path, arena.ChildPath (some id) path := by
  induction visits generalizing id with
  | zero => cases hLeaf
  | succ visits ih =>
      cases hNode : arena.get? id with
      | none => exact ⟨[], .absent (resolve?_of_get?_eq_none hNode)⟩
      | some node =>
          rw [leafWithin_succ hNode] at hLeaf
          obtain ⟨rest, hRest⟩ : ∃ rest, arena.ChildPath node.child? rest := by
            cases hChild : node.child? with
            | none => exact ⟨[], .absent rfl⟩
            | some child =>
                have hInside : ¬ node.isTerminal = true := fun hTerminal => by
                  cases (Node.child?_of_isTerminal hTerminal).symm.trans hChild
                rw [if_neg hInside, hChild] at hLeaf
                exact ih hLeaf
          exact ⟨_, .node (resolve?_of_get? hNode) hRest⟩

/-- As many visits as the arena has nodes find what any number of visits finds. -/
theorem bind_leafWithin_eq_of_size_le {visits : Nat} (hVisits : arena.size ≤ visits)
    (slot : Option NodeId) :
    slot.bind (arena.leafWithin visits) = slot.bind (arena.leafWithin arena.size) := by
  by_cases hEnds : ∃ path, arena.ChildPath slot path
  · obtain ⟨path, hPath⟩ := hEnds
    rw [hPath.bind_leafWithin (Nat.le_trans hPath.length_le hVisits), hPath.bind_leafWithin hPath.length_le]
  · have hNone (visits : Nat) : slot.bind (arena.leafWithin visits) = none := by
      cases slot with
      | none => rfl
      | some id =>
          exact Option.eq_none_iff_forall_ne_some.mpr fun leaf hLeaf =>
            hEnds (exists_childPath_of_leafWithin hLeaf)
    rw [hNone, hNone]

/-- What is not terminal leads to the same terminal as its child. -/
theorem leaf?_eq_bind_child {id : NodeId} {node : Node} (hNode : arena.get? id = some node)
    (hInside : node.isTerminal = false) : arena.leaf? id = node.child?.bind arena.leaf? := by
  rw [leaf?, leafWithin_succ hNode, hInside]
  exact (bind_leafWithin_eq_of_size_le (Nat.le_succ _) node.child?).symm

theorem terminal_of_isTerminal {id : NodeId} {node : Node} (hNode : arena.get? id = some node)
    (hTerminal : node.isTerminal = true) :
    ((some id).bind arena.leaf?).bind arena.get? = some node := by
  rw [Option.bind_some, leaf?, leafWithin_succ hNode, if_pos hTerminal, Option.bind_some, hNode]

theorem terminal_of_absent {slot : Option NodeId} (hNone : arena.resolve? slot = none) :
    (slot.bind arena.leaf?).bind arena.get? = none := by
  have hLeaf : slot.bind arena.leaf? = none := bind_leafWithin_of_absent hNone (arena.size + 1)
  rw [hLeaf, Option.bind_none]

end CliSignature.Arena
