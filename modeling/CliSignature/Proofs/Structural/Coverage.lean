import CliSignature.Proofs.Structural.Walks

/-!
When a hash covers everything below its node. It does if the levels suffice for what is nested below
it and the steps for all nodes, since each node is looked into at most once.
-/

namespace CliSignature

variable {arena : Arena} {limits : Limits}

/-- What is nested below a slot needs no more than the given number of levels. -/
def Arena.FitsIn (arena : Arena) : Nat → Option NodeId → Prop
  | 0, slot => arena.resolve? slot = none
  | levels + 1, slot =>
    ∀ id node, arena.resolve? slot = some (id, node) → ∀ child ∈ node.children, arena.FitsIn levels child

/-- A tree that is not too high fits. -/
theorem Arena.Unfolds.fitsIn {slot : Option NodeId} {tree : Tree} (hTree : arena.Unfolds slot tree) {levels : Nat}
    (hHeight : tree.height 0 ≤ levels) : arena.FitsIn levels slot := by
  induction levels generalizing slot tree with
  | zero =>
      cases tree with
      | absent => exact unfolds_absent_iff.mp hTree
      | node label trees => exact absurd hHeight (Nat.not_le.mpr (Tree.height_node_pos 0 label trees))
  | succ levels ih =>
      intro id node hNode child hMem
      obtain ⟨trees, rfl, hTrees⟩ := hTree.exists_trees hNode
      obtain ⟨below, hBelow, hChild⟩ := exists_of_forall₂ hTrees hMem
      exact ih hChild (Tree.height_node_le_iff.mp hHeight below hBelow)

/-- The handles below a slot that refer to a node. -/
def Arena.nodesBelow (arena : Arena) (slot : Option NodeId) : Set NodeId :=
  { id | arena.contains id = true ∧ arena.Below id slot }

/-- There are no more of them than nodes. -/
theorem Arena.encard_nodesBelow_le (slot : Option NodeId) : (arena.nodesBelow slot).encard ≤ arena.size := by
  have hSubset : arena.nodesBelow slot ⊆ NodeId.mk '' (Finset.range arena.size : Set Nat) :=
    fun id hMem => ⟨id.index, by simpa using of_decide_eq_true hMem.1, rfl⟩
  calc (arena.nodesBelow slot).encard ≤ (NodeId.mk '' (Finset.range arena.size : Set Nat)).encard :=
        Set.encard_le_encard hSubset
    _ ≤ (Finset.range arena.size : Set Nat).encard := Set.encard_image_le _ _
    _ = arena.size := by rw [Set.encard_coe_eq_coe_finsetCard, Finset.card_range]

/-- Only children of a node are hashed with it. -/
theorem Node.mem_children_of_hashParts {node : Node} {slot : Option NodeId}
    (hPart : .child slot ∈ node.hashParts) : slot ∈ node.children := by
  cases node with
  | functionPointer signature =>
      obtain ⟨id, hId, rfl⟩ : ∃ id ∈ signature.references, some id = slot := by
        simpa [hashParts, HashPart.count, HashPart.ofList] using hPart
      rw [signature.references_eq] at hId
      simpa [children] using hId
  | named | primitive | genericParam | sentinel =>
      simp [hashParts] at hPart
  | genericInst | wrapper | array | modified | valueArray | moduleQualified =>
      simpa [hashParts, children, HashPart.count, HashPart.ofList, eq_comm] using hPart

/-- The nodes that were looked into, of which `active` are not left yet. They are among `nodes`. -/
structure HashWalk.Tracks (nodes : Set NodeId) (active : List NodeId) (walk : HashWalk) : Prop where
  active_eq : walk.active = active
  visits : Visits (· ∈ nodes) active (walk.finished.map Prod.fst) walk.steps

namespace HashWalk.Tracks

variable {nodes : Set NodeId} {active : List NodeId} {walk : HashWalk} {id : NodeId}

theorem enter (hWalk : walk.Tracks nodes active) (hNode : id ∈ nodes)
    (hActive : id ∉ active) (hNew : walk.finished.lookup id = none) :
    (walk.enter id).Tracks nodes (id :: active) where
  active_eq := congrArg (List.cons id) hWalk.active_eq
  visits := hWalk.visits.enter hNode hActive fun hMem => by
    obtain ⟨entry, hEntry, rfl⟩ := List.mem_map.mp hMem
    simpa using List.lookup_eq_none_iff.mp hNew entry hEntry

theorem leave {found : NodeHash} (hWalk : walk.Tracks nodes (id :: active))
    (hComplete : found.complete = true) : (walk.leave id found).Tracks nodes active where
  active_eq := by rw [HashWalk.leave, hWalk.active_eq, List.erase_cons_head]
  visits := by
    have hFinished : (walk.leave id found).finished.map Prod.fst = id :: walk.finished.map Prod.fst := by
      simp [HashWalk.leave, hComplete]
    rw [hFinished]
    exact hWalk.visits.leave

end HashWalk.Tracks

namespace Hashing

variable {hash : Option NodeId → Hashing NodeHash}

theorem complete_of_glance {walk : HashWalk} {slot : Option NodeId} {found : NodeHash}
    (hGlance : glance arena walk slot = .settled found) : found.complete = true := by
  unfold glance at hGlance
  split at hGlance
  case h_1 =>
    cases hGlance
    rfl
  case h_2 =>
    split at hGlance
    case h_1 =>
      cases hGlance
      rfl
    case h_2 => cases hGlance

theorem parts_covers {Invariant : HashWalk → Prop} {pieces : List HashPart}
    (hHash : ∀ slot, .child slot ∈ pieces → Keeps Invariant (hash slot) (·.complete = true))
    (digest : Digest) : Keeps Invariant (parts hash digest true pieces) (·.complete = true) := by
  induction pieces generalizing digest with
  | nil => exact Keeps.pure rfl
  | cons piece pieces ih =>
      have hRest := ih fun slot hMem => hHash slot (List.mem_cons_of_mem _ hMem)
      cases piece with
      | word value => exact hRest (digest.add value)
      | child slot =>
          refine (hHash slot (List.mem_cons_self ..)).bind fun child hChild => ?_
          rw [hChild]
          exact hRest (digest.add child.value)

/-- By induction on the levels. No node is met again below itself, so neither the nodes that are being
looked into nor the number of steps stands in the way. -/
theorem within_covers {top : Option NodeId} (hAcyclic : arena.AcyclicBelow top)
    (hNodes : (arena.nodesBelow top).encard ≤ limits.resolutionSteps) {levels : Nat} {slot : Option NodeId}
    {active : List NodeId} (hFits : arena.FitsIn levels slot) (hTop : ∀ id ∈ slot, arena.Below id top)
    (hAbove : ∀ id ∈ slot, ∀ other ∈ active, Relation.TransGen arena.Refers id other) :
    Keeps (HashWalk.Tracks (arena.nodesBelow top) active) (within arena limits levels slot)
      (·.complete = true) := by
  induction levels generalizing slot active with
  | zero =>
      intro walk hWalk
      have hGlance : glance arena walk slot = .settled .absent := by
        simp only [glance, show arena.resolve? slot = none from hFits]
      rw [within_of_settled hGlance]
      exact ⟨hWalk, rfl⟩
  | succ levels ih =>
      intro walk hWalk
      cases hGlance : glance arena walk slot with
      | settled found =>
          rw [within_of_settled hGlance]
          exact ⟨hWalk, complete_of_glance hGlance⟩
      | undecided id node =>
          obtain ⟨hSlot, hNew⟩ := resolve?_of_glance hGlance
          obtain ⟨rfl, hNode⟩ := Arena.resolve?_eq_some hSlot
          have hBelow := hTop id rfl
          have hActive : id ∉ active := fun hMem => hAcyclic id hBelow (hAbove id rfl id hMem)
          have hEnter := hWalk.enter ⟨Arena.contains_iff.mpr ⟨node, hNode⟩, hBelow⟩ hActive hNew
          have hSteps : walk.steps < limits.resolutionSteps :=
            ENat.natCast_le_natCast.mp (hEnter.visits.steps_le.trans hNodes)
          have hChild : ∀ child, .child child ∈ node.hashParts →
              Keeps (HashWalk.Tracks (arena.nodesBelow top) (id :: active)) (within arena limits levels child)
                (·.complete = true) := by
            intro child hPart
            have hMem := Node.mem_children_of_hashParts hPart
            apply ih (hFits id node hSlot child hMem)
            · rintro x rfl
              exact hBelow.child hNode hMem
            · rintro x rfl other hOther
              have hRefers : arena.Refers x id := ⟨node, hNode, hMem⟩
              rcases List.mem_cons.mp hOther with rfl | hOther
              · exact .single hRefers
              · exact .trans (.single hRefers) (hAbove id rfl other hOther)
          obtain ⟨hAfter, hComplete⟩ := parts_covers hChild node.tagDigest (walk.enter id) hEnter
          rw [within_of_undecided hGlance hSteps (by rwa [hWalk.active_eq]), into_run]
          exact ⟨hAfter.leave hComplete, hComplete⟩

end Hashing

namespace Arena

variable {slot : Option NodeId}

/-- A hash covers everything below a slot in which nothing refers back to itself, if the levels suffice for
what is nested below the slot and the steps for the nodes that are. -/
theorem hashedInFull_of_below (hAcyclic : arena.AcyclicBelow slot)
    (hFits : arena.FitsIn limits.formatDepth slot)
    (hNodes : (arena.nodesBelow slot).encard ≤ limits.resolutionSteps) : arena.HashedInFull limits slot := by
  have hStart : HashWalk.start.Tracks (arena.nodesBelow slot) [] := ⟨rfl, .start⟩
  have hTop : ∀ id ∈ slot, arena.Below id slot := fun id hSlot => ⟨id, hSlot, .refl⟩
  exact (Hashing.within_covers hAcyclic hNodes hFits hTop (by simp) .start hStart).2

/-- A hash covers everything below a slot, if the levels suffice for what is nested below it and the
steps for all nodes of the arena. -/
theorem hashedInFull_of_fitsIn (hAcyclic : arena.Acyclic) (hSize : arena.size ≤ limits.resolutionSteps)
    (hFits : arena.FitsIn limits.formatDepth slot) : arena.HashedInFull limits slot :=
  hashedInFull_of_below (fun id _ => hAcyclic id) hFits
    ((encard_nodesBelow_le slot).trans (by exact_mod_cast hSize))

end Arena

end CliSignature
