import CliSignature.Proofs.ChildPath
import Mathlib.Logic.Function.Iterate
import Mathlib.Logic.Relation

/-!
Where chains of child links end. The search for the terminal and the chain itself do not remember where they
were; they make no more visits than the arena has nodes, or one more. This cuts only what never ends: links
that end pass no node twice, so there are visits enough for all of them.
-/

namespace CliSignature

/-! ### Links -/

namespace Links

variable {next : NodeId → Option NodeId} {id other last : NodeId}

/-- The links lead from the first handle to the second, in any number of steps. -/
def Lead (next : NodeId → Option NodeId) : NodeId → NodeId → Prop :=
  Relation.ReflTransGen fun id other => next id = some other

/-- From the handle on, there is always another link. -/
def NeverEnd (next : NodeId → Option NodeId) (id : NodeId) : Prop :=
  ∃ ids : Nat → NodeId, ids 0 = id ∧ ∀ n, next (ids n) = some (ids (n + 1))

theorem Lead.eq_of_end (hLead : Lead next id last) (hEnd : next id = none) : last = id := by
  rcases Relation.ReflTransGen.cases_head hLead with rfl | ⟨_, hNext, -⟩
  · rfl
  · cases hEnd.symm.trans hNext

/-- Links end at one handle only. -/
theorem Lead.unique (hLead : Lead next id last) (hEnd : next last = none) (hOther : Lead next id other)
    (hOtherEnd : next other = none) : last = other := by
  have hUnique : Relator.RightUnique fun id other => next id = some other :=
    fun _ _ _ hFirst hSecond => Option.some.inj (hFirst.symm.trans hSecond)
  rcases Relation.ReflTransGen.total_of_right_unique hUnique hLead hOther with hBehind | hBehind
  · exact (eq_of_end hBehind hEnd).symm
  · exact eq_of_end hBehind hOtherEnd

theorem NeverEnd.exists_next (hNever : NeverEnd next id) :
    ∃ other, next id = some other ∧ NeverEnd next other := by
  obtain ⟨ids, rfl, hLinks⟩ := hNever
  exact ⟨ids 1, hLinks 0, fun n => ids (n + 1), rfl, fun n => hLinks (n + 1)⟩

/-- Where a property holds from which a link leads on to where it holds again, links never end. -/
theorem NeverEnd.of_invariant {P : NodeId → Prop} (hNext : ∀ id, P id → ∃ other, next id = some other ∧ P other)
    (hStart : P id) : NeverEnd next id := by
  choose! other hLink hKept using hNext
  have hEach (n : Nat) : P (other^[n] id) := by
    induction n with
    | zero => exact hStart
    | succ n ih =>
        rw [Function.iterate_succ_apply']
        exact hKept _ ih
  refine ⟨fun n => other^[n] id, rfl, fun n => ?_⟩
  simp only [Function.iterate_succ_apply']
  exact hLink _ (hEach n)

theorem NeverEnd.of_lead (hNever : NeverEnd next id) (hLead : Lead next id other) : NeverEnd next other := by
  induction hLead with
  | refl => exact hNever
  | tail _ hNext ih =>
      obtain ⟨there, hThere, hRest⟩ := ih.exists_next
      obtain rfl := Option.some.inj (hThere.symm.trans hNext)
      exact hRest

/-- Links end somewhere, or they never end, but not both. -/
theorem neverEnd_iff : NeverEnd next id ↔ ¬ ∃ last, Lead next id last ∧ next last = none := by
  constructor
  · rintro hNever ⟨last, hLead, hEnd⟩
    obtain ⟨other, hNext, -⟩ := (hNever.of_lead hLead).exists_next
    cases hEnd.symm.trans hNext
  · intro hEndless
    refine NeverEnd.of_invariant (P := Lead next id) (fun other hLead => ?_) .refl
    cases hNext : next other with
    | none => exact absurd ⟨other, hLead, hNext⟩ hEndless
    | some there => exact ⟨there, rfl, hLead.tail hNext⟩

theorem exists_end_of_not_neverEnd (hEnds : ¬ NeverEnd next id) : ∃ last, Lead next id last ∧ next last = none :=
  not_not.mp (mt neverEnd_iff.mpr hEnds)

end Links

/-! ### Child links -/

namespace Arena

open Links (Lead NeverEnd)

variable {arena : Arena} {id : NodeId}

theorem child?_of_get? {node : Node} (hNode : arena.get? id = some node) : arena.child? id = node.child? := by
  rw [child?, hNode, Option.bind_some]

theorem exists_get?_of_child? {child : NodeId} (hChild : arena.child? id = some child) :
    ∃ node, arena.get? id = some node ∧ node.child? = some child :=
  Option.bind_eq_some_iff.mp hChild

theorem isTerminal_eq_false_of_child? {node : Node} {child : NodeId} (hChild : node.child? = some child) :
    node.isTerminal = false := by
  refine Bool.eq_false_iff.mpr fun hTerminal => ?_
  cases (Node.child?_of_isTerminal hTerminal).symm.trans hChild

/-- Links that end make a path. -/
theorem exists_childPath_of_lead {last : NodeId} (hLead : Lead arena.child? id last)
    (hEnd : arena.child? last = none) : ∃ path, arena.ChildPath (some id) path := by
  induction hLead using Relation.ReflTransGen.head_induction_on with
  | refl =>
      cases hNode : arena.get? last with
      | none => exact ⟨[], .absent (resolve?_of_get?_eq_none hNode)⟩
      | some node =>
          have hRest : arena.ChildPath node.child? [] := .absent (by rw [← child?_of_get? hNode, hEnd]; rfl)
          exact ⟨_, .node (resolve?_of_get? hNode) hRest⟩
  | head hChild _ ih =>
      obtain ⟨path, hPath⟩ := ih
      obtain ⟨node, hNode, hChild⟩ := exists_get?_of_child? hChild
      rw [← hChild] at hPath
      exact ⟨_, .node (resolve?_of_get? hNode) hPath⟩

theorem ChildPath.not_neverEnd {slot : Option NodeId} {path : List (NodeId × Node)}
    (hPath : arena.ChildPath slot path) {id : NodeId} (hSlot : slot = some id) : ¬ NeverEnd arena.child? id := by
  induction hPath generalizing id with
  | absent hNone =>
      subst hSlot
      intro hNever
      obtain ⟨child, hChild, -⟩ := hNever.exists_next
      obtain ⟨node, hNode, -⟩ := exists_get?_of_child? hChild
      cases hNone.symm.trans (resolve?_of_get? hNode)
  | node hNode _ ih =>
      obtain ⟨rfl, hHeld⟩ := resolve?_eq_some hNode
      cases hSlot
      intro hNever
      obtain ⟨child, hChild, hRest⟩ := hNever.exists_next
      exact ih ((child?_of_get? hHeld).symm.trans hChild) hRest

/-- The links from a handle have a path unless they never end. -/
theorem exists_childPath_iff : (∃ path, arena.ChildPath (some id) path) ↔ ¬ NeverEnd arena.child? id := by
  constructor
  · rintro ⟨path, hPath⟩
    exact hPath.not_neverEnd rfl
  · intro hEnds
    obtain ⟨last, hLead, hEnd⟩ := Links.exists_end_of_not_neverEnd hEnds
    exact exists_childPath_of_lead hLead hEnd

/-! ### The terminal -/

/-- By induction on the visits. A search finds what the links lead to. -/
theorem lead_of_leafWithin {visits : Nat} {leaf : NodeId} (hLeaf : arena.leafWithin visits id = some leaf) :
    Lead arena.child? id leaf ∧ ∃ node, arena.get? leaf = some node ∧ node.isTerminal = true := by
  induction visits generalizing id with
  | zero => cases hLeaf
  | succ visits ih =>
      cases hNode : arena.get? id with
      | none => simp [leafWithin, hNode] at hLeaf
      | some node =>
          rw [leafWithin_succ hNode] at hLeaf
          split at hLeaf
          case isTrue hTerminal =>
            cases hLeaf
            exact ⟨.refl, node, hNode, hTerminal⟩
          case isFalse =>
            obtain ⟨child, hChild, hLeaf⟩ := Option.bind_eq_some_iff.mp hLeaf
            obtain ⟨hLead, hTerminal⟩ := ih hLeaf
            exact ⟨.head ((child?_of_get? hNode).trans hChild) hLead, hTerminal⟩

theorem leaf?_of_child? {child : NodeId} (hChild : arena.child? id = some child) :
    arena.leaf? id = arena.leaf? child := by
  obtain ⟨node, hNode, hChild⟩ := exists_get?_of_child? hChild
  rw [leaf?_eq_bind_child hNode (isTerminal_eq_false_of_child? hChild), hChild, Option.bind_some]

/-- All handles that the links lead to have the same terminal. -/
theorem leaf?_of_lead {other : NodeId} (hLead : Lead arena.child? id other) :
    arena.leaf? id = arena.leaf? other := by
  induction hLead with
  | refl => rfl
  | tail _ hChild ih => exact ih.trans (leaf?_of_child? hChild)

theorem leaf?_of_isTerminal {node : Node} (hNode : arena.get? id = some node) (hTerminal : node.isTerminal = true) :
    arena.leaf? id = some id := by
  rw [leaf?, leafWithin_succ hNode, if_pos hTerminal]

/-- The search finds a terminal exactly if the links lead to it, however many they are. -/
theorem leaf?_eq_some_iff {leaf : NodeId} :
    arena.leaf? id = some leaf ↔
      Lead arena.child? id leaf ∧ ∃ node, arena.get? leaf = some node ∧ node.isTerminal = true := by
  constructor
  · exact lead_of_leafWithin
  · rintro ⟨hLead, node, hNode, hTerminal⟩
    rw [leaf?_of_lead hLead, leaf?_of_isTerminal hNode hTerminal]

/-- Whether a handle refers to nothing, or to a node that is no terminal but has no child. -/
def IsGap (arena : Arena) (id : NodeId) : Prop :=
  ∀ node, arena.get? id = some node → node.isTerminal = false ∧ node.child? = none

theorem IsGap.child?_eq_none (hGap : arena.IsGap id) : arena.child? id = none := by
  cases hNode : arena.get? id with
  | none => rw [child?, hNode, Option.bind_none]
  | some node => rw [child?_of_get? hNode, (hGap node hNode).2]

/-- The search finds nothing exactly if the links end in a gap or never. -/
theorem leaf?_eq_none_iff :
    arena.leaf? id = none ↔ (∃ last, Lead arena.child? id last ∧ arena.IsGap last) ∨ NeverEnd arena.child? id := by
  constructor
  · intro hNone
    by_cases hNever : NeverEnd arena.child? id
    · exact .inr hNever
    · obtain ⟨last, hLead, hEnd⟩ := Links.exists_end_of_not_neverEnd hNever
      refine .inl ⟨last, hLead, fun node hNode => ⟨Bool.eq_false_iff.mpr fun hTerminal => ?_, ?_⟩⟩
      · cases hNone.symm.trans (leaf?_eq_some_iff.mpr ⟨hLead, node, hNode, hTerminal⟩)
      · rw [← child?_of_get? hNode, hEnd]
  · intro hLost
    refine Option.eq_none_iff_forall_ne_some.mpr fun leaf hLeaf => ?_
    obtain ⟨hLead, node, hNode, hTerminal⟩ := leaf?_eq_some_iff.mp hLeaf
    have hEnd : arena.child? leaf = none := (child?_of_get? hNode).trans (Node.child?_of_isTerminal hTerminal)
    rcases hLost with ⟨last, hLost, hGap⟩ | hNever
    · obtain rfl := hLead.unique hEnd hLost hGap.child?_eq_none
      rw [(hGap node hNode).1] at hTerminal
      cases hTerminal
    · exact Links.neverEnd_iff.mp hNever ⟨leaf, hLead, hEnd⟩

/-! ### The chain -/

/-- By induction on the path. -/
theorem ChildPath.chainWithin_eq {slot : Option NodeId} {path : List (NodeId × Node)}
    (hPath : arena.ChildPath slot path) {visits : Nat} (hVisits : path.length ≤ visits) :
    arena.chainWithin visits slot = path := by
  induction hPath generalizing visits with
  | absent hNone => cases visits <;> simp [chainWithin, hNone]
  | node hNode _ ih =>
      obtain ⟨others, rfl⟩ : ∃ others, visits = others + 1 := ⟨visits - 1, by simp at hVisits; omega⟩
      obtain ⟨rfl, hHeld⟩ := resolve?_eq_some hNode
      rw [chainWithin_succ hHeld, ih (Nat.le_of_succ_le_succ hVisits)]

/-- Links that never end fill all visits, and never with a terminal. -/
theorem chainWithin_of_neverEnd (hNever : NeverEnd arena.child? id) (visits : Nat) :
    (arena.chainWithin visits (some id)).length = visits ∧
      ∀ entry ∈ arena.chainWithin visits (some id), entry.2.isTerminal = false := by
  induction visits generalizing id with
  | zero => simp [chainWithin]
  | succ visits ih =>
      obtain ⟨child, hChild, hRest⟩ := hNever.exists_next
      obtain ⟨node, hNode, hChild⟩ := exists_get?_of_child? hChild
      obtain ⟨hLength, hInside⟩ := ih hRest
      rw [chainWithin_succ hNode, hChild]
      exact ⟨congrArg (· + 1) hLength,
        List.forall_mem_cons.mpr ⟨isTerminal_eq_false_of_child? hChild, hInside⟩⟩

theorem pathTerminal?_eq_none {path : List (NodeId × Node)}
    (hInside : ∀ entry ∈ path, entry.2.isTerminal = false) : pathTerminal? path = none := by
  refine Option.bind_eq_none_iff.mpr fun entry hEntry => if_neg ?_
  exact Bool.eq_false_iff.mp (hInside entry (List.mem_of_getLast? hEntry))

theorem leaf?_eq_pathTerminal?_chain (arena : Arena) (id : NodeId) :
    arena.leaf? id = pathTerminal? (arena.chain id) := by
  by_cases hNever : NeverEnd arena.child? id
  · rw [leaf?_eq_none_iff.mpr (.inr hNever), chain,
      pathTerminal?_eq_none (chainWithin_of_neverEnd hNever arena.size).2]
  · obtain ⟨path, hPath⟩ := exists_childPath_iff.mpr hNever
    rw [chain, hPath.chainWithin_eq hPath.length_le]
    exact hPath.bind_leafWithin (Nat.le_succ_of_le hPath.length_le)

/-- The bounds on visits cut no links that end. The terminal is found exactly if the links lead to it, and
none is exactly if they end in a gap or never. The chain has the nodes along links that end, each of them
once, and as many as the arena if the links never end. The terminal is the last node of the chain, if that is
one. -/
theorem leaf?_and_chain_exact (arena : Arena) (id : NodeId) :
    (∀ leaf, arena.leaf? id = some leaf ↔
      Lead arena.child? id leaf ∧ ∃ node, arena.get? leaf = some node ∧ node.isTerminal = true) ∧
    (arena.leaf? id = none ↔
      (∃ last, Lead arena.child? id last ∧ arena.IsGap last) ∨ NeverEnd arena.child? id) ∧
    ((∃ path, arena.ChildPath (some id) path) ↔ ¬ NeverEnd arena.child? id) ∧
    (∀ path, arena.ChildPath (some id) path → arena.chain id = path ∧ (path.map Prod.fst).Nodup) ∧
    (NeverEnd arena.child? id → (arena.chain id).length = arena.size) ∧
    arena.leaf? id = pathTerminal? (arena.chain id) :=
  ⟨fun _ => leaf?_eq_some_iff, leaf?_eq_none_iff, exists_childPath_iff,
    fun _ hPath => ⟨hPath.chainWithin_eq hPath.length_le, hPath.nodup⟩,
    fun hNever => (chainWithin_of_neverEnd hNever arena.size).1, leaf?_eq_pathTerminal?_chain arena id⟩

end Arena

end CliSignature
