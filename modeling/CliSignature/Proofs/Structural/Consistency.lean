import CliSignature.Proofs.Structural.Coverage
import CliSignature.Proofs.Structural.Truncation

/-!
When equal signatures have equal hashes. They have if both hashes cover everything below their nodes.
Without this they need not, unless the limits are so small that neither walk looks below the first node.
-/

namespace CliSignature

variable {arena : Arena} {limits : Limits}

namespace Arena

/-- What a comparison sees without looking into nodes: two absent types, or one handle. -/
def SameSlot (arena : Arena) (a b : Option NodeId) : Prop :=
  (arena.resolve? a = none ∧ arena.resolve? b = none) ∨ a = b

/-- In a node of a closed arena, an absent type is an empty place. -/
theorem eq_of_sameSlot {as bs : List (Option NodeId)}
    (hFirst : ∀ id, some id ∈ as → arena.contains id = true)
    (hSecond : ∀ id, some id ∈ bs → arena.contains id = true)
    (hSame : List.Forall₂ arena.SameSlot as bs) : as = bs := by
  have hEmpty {slot : Option NodeId} {slots : List (Option NodeId)} (hMem : slot ∈ slots)
      (hContains : ∀ id, some id ∈ slots → arena.contains id = true)
      (hNone : arena.resolve? slot = none) : slot = none := by
    cases slot with
    | none => rfl
    | some id =>
        obtain ⟨node, hNode⟩ := contains_iff.mp (hContains id hMem)
        rw [resolve?_of_get? hNode] at hNone
        cases hNone
  induction hSame with
  | nil => rfl
  | @cons a b as bs hHead _ ih =>
      have hTail : as = bs := ih (fun id hMem => hFirst id (List.mem_cons_of_mem _ hMem))
        fun id hMem => hSecond id (List.mem_cons_of_mem _ hMem)
      rcases hHead with ⟨hNone, hNone'⟩ | rfl
      · rw [hTail, hEmpty (List.mem_cons_self ..) hFirst hNone,
          hEmpty (List.mem_cons_self ..) hSecond hNone']
      · rw [hTail]

end Arena

/-- The hash of a node is made of its label and its children alone. -/
theorem Node.hashParts_congr {left right : Node} (hLabel : left.label = right.label)
    (hChildren : left.children = right.children) : left.hashParts = right.hashParts := by
  cases left <;> cases right <;> simp only [label, reduceCtorEq] at hLabel <;>
    simp_all [children, hashParts]
  case functionPointer.functionPointer first second =>
    rw [Signature.references_eq, Signature.references_eq, hChildren, ← Signature.convention_label, hLabel,
      Signature.convention_label]
    simp
  case genericInst.genericInst =>
    obtain ⟨rfl, hArgs⟩ := hChildren
    rw [List.map_injective_iff.mpr (fun _ _ hSome => Option.some.inj hSome) hArgs]

namespace Comparing

/-- Where no pair is proven, only the same slots are settled to be equal. -/
theorem sameSlot_of_glance {walk : PairWalk} (hProven : walk.proven = []) {a b : Option NodeId}
    (hGlance : glance arena walk a b = .settled true) : arena.SameSlot a b := by
  unfold glance at hGlance
  split at hGlance
  case h_1 hFirst hSecond => exact .inl ⟨hFirst, hSecond⟩
  case h_2 x left y right hFirst hSecond =>
    obtain ⟨rfl, -⟩ := Arena.resolve?_eq_some hFirst
    obtain ⟨rfl, -⟩ := Arena.resolve?_eq_some hSecond
    split at hGlance
    case isTrue hKnown =>
      rw [hProven] at hKnown
      exact .inr (congrArg some (hKnown.resolve_right (List.not_mem_nil)))
    case isFalse => cases hGlance
  case h_3 => cases hGlance

/-- Where no levels or no steps are left, a comparison goes by the slots. -/
theorem within_cut {levels : Nat} {walk : PairWalk} (hProven : walk.proven = [])
    (hCut : levels = 0 ∨ limits.resolutionSteps ≤ walk.steps) (a b : Option NodeId) :
    Keeps (· = walk) (within arena limits levels a b) (· = true → arena.SameSlot a b) := by
  rintro _ rfl
  cases hGlance : glance arena _ a b with
  | settled equal =>
      rw [within_of_settled hGlance]
      refine ⟨rfl, ?_⟩
      rintro rfl
      exact sameSlot_of_glance hProven hGlance
  | undecided pair left right =>
      rw [within_of_exhausted hGlance hCut]
      exact ⟨rfl, nofun⟩

/-- Under limits that keep the walk from looking below its first node, slots are found equal only if
they are the same, or if their nodes agree but for what is the same. -/
theorem agree_of_structurallyEqual (hLimits : limits.formatDepth ≤ 1 ∨ limits.resolutionSteps ≤ 1)
    {a b : Option NodeId} (hEqual : arena.structurallyEqual limits a b = true) :
    arena.SameSlot a b ∨ ∃ x left y right, arena.resolve? a = some (x, left) ∧
      arena.resolve? b = some (y, right) ∧ left.label = right.label ∧
      List.Forall₂ arena.SameSlot left.children right.children := by
  unfold Arena.structurallyEqual at hEqual
  by_cases hCut : limits.formatDepth = 0 ∨ limits.resolutionSteps ≤ 0
  · exact .inl ((within_cut rfl hCut a b .start rfl).2 hEqual)
  · cases hGlance : glance arena .start a b with
    | settled equal =>
        rw [within_of_settled hGlance] at hEqual
        obtain rfl : equal = true := hEqual
        exact .inl (sameSlot_of_glance rfl hGlance)
    | undecided pair left right =>
        obtain ⟨hFirst, hSecond⟩ := resolve?_of_glance hGlance
        obtain ⟨levels, hLevels⟩ : ∃ levels, limits.formatDepth = levels + 1 :=
          Nat.exists_eq_succ_of_ne_zero fun hZero => hCut (.inl hZero)
        have hSteps : 0 < limits.resolutionSteps := Nat.pos_of_ne_zero fun hZero => hCut (.inr (by omega))
        rw [hLevels, within_of_undecided hGlance hSteps (by simp [PairWalk.start]), into_fst,
          nodes] at hEqual
        split at hEqual
        case isFalse => cases hEqual
        case isTrue hLabel =>
          have hBelow : levels = 0 ∨ limits.resolutionSteps ≤ (PairWalk.start.enter pair).steps := by
            rcases hLimits with hDepth | hSteps
            · exact .inl (by omega)
            · exact .inr hSteps
          have hChildren := (children_keeps (within_cut rfl hBelow) _ _ _ rfl).2 hEqual
          exact .inr ⟨_, left, _, right, hFirst, hSecond, hLabel, hChildren⟩

end Comparing

namespace Hashing

variable {hash : Option NodeId → Hashing NodeHash}

/-- The hash of a slot whose node is not looked into. -/
def atAGlance (arena : Arena) (slot : Option NodeId) : NodeHash :=
  match arena.resolve? slot with
  | none => .absent
  | some (_, node) => .truncated node

/-- Where no levels or no steps are left, a hash goes by the sort of the node. -/
theorem within_cut {levels : Nat} {walk : HashWalk} (hFinished : walk.finished = [])
    (hCut : levels = 0 ∨ limits.resolutionSteps ≤ walk.steps) (slot : Option NodeId) :
    within arena limits levels slot walk = (atAGlance arena slot, walk) := by
  cases hNode : arena.resolve? slot with
  | none =>
      have hGlance : glance arena walk slot = .settled .absent := by simp only [glance, hNode]
      rw [within_of_settled hGlance, atAGlance, hNode]
  | some entry =>
      have hGlance : glance arena walk slot = .undecided entry.1 entry.2 := by
        simp only [glance, hNode, hFinished, List.lookup_nil]
      rw [within_of_exhausted hGlance hCut, atAGlance, hNode]

/-- What is mixed in depends on the walk only through the hashes of the children. -/
theorem parts_congr {found : Option NodeId → NodeHash} {walk walk' : HashWalk}
    (hFirst : ∀ slot, hash slot walk = (found slot, walk))
    (hSecond : ∀ slot, hash slot walk' = (found slot, walk')) (pieces : List HashPart) (digest : Digest)
    (complete : Bool) :
    (parts hash digest complete pieces walk).1 = (parts hash digest complete pieces walk').1 := by
  induction pieces generalizing digest complete with
  | nil => rfl
  | cons piece pieces ih =>
      cases piece with
      | word value => exact ih (digest.add value) complete
      | child slot =>
          rw [parts_child, parts_child, hFirst, hSecond]
          exact ih _ _

/-- Under such limits, nodes with the same label and the same children have the same hash. -/
theorem structuralHash_congr (hLimits : limits.formatDepth ≤ 1 ∨ limits.resolutionSteps ≤ 1)
    {a b : Option NodeId} {x y : NodeId} {left right : Node}
    (hFirst : arena.resolve? a = some (x, left)) (hSecond : arena.resolve? b = some (y, right))
    (hLabel : left.label = right.label) (hChildren : left.children = right.children) :
    arena.structuralHash limits a = arena.structuralHash limits b := by
  have hTag : left.tagDigest = right.tagDigest := by
    rw [Node.tagDigest, Node.tagDigest, ← Node.tag_label, ← Node.tag_label, hLabel]
  unfold Arena.structuralHash
  by_cases hCut : limits.formatDepth = 0 ∨ limits.resolutionSteps ≤ 0
  · rw [within_cut rfl hCut, within_cut rfl hCut]
    simp [atAGlance, hFirst, hSecond, NodeHash.truncated, hTag]
  · have hGlance {slot : Option NodeId} {id : NodeId} {node : Node}
        (hNode : arena.resolve? slot = some (id, node)) :
        glance arena .start slot = .undecided id node := by
      simp only [glance, hNode, HashWalk.start, List.lookup_nil]
    obtain ⟨levels, hLevels⟩ : ∃ levels, limits.formatDepth = levels + 1 :=
      Nat.exists_eq_succ_of_ne_zero fun hZero => hCut (.inl hZero)
    have hSteps : 0 < limits.resolutionSteps := Nat.pos_of_ne_zero fun hZero => hCut (.inr (by omega))
    have hBelow (id : NodeId) : levels = 0 ∨ limits.resolutionSteps ≤ (HashWalk.start.enter id).steps := by
      rcases hLimits with hDepth | hSteps
      · exact .inl (by omega)
      · exact .inr hSteps
    rw [hLevels, within_of_undecided (hGlance hFirst) hSteps (by simp [HashWalk.start]),
      within_of_undecided (hGlance hSecond) hSteps (by simp [HashWalk.start]), into_fst, into_fst,
      Node.hashParts_congr hLabel hChildren, hTag]
    exact congrArg NodeHash.value
      (parts_congr (within_cut rfl (hBelow x)) (within_cut rfl (hBelow y)) _ _ _)

end Hashing

namespace Arena

/-- Under limits that keep both walks from looking below their first nodes, equal types have equal
hashes. -/
theorem structuralHash_eq_of_small (hLimits : limits.formatDepth ≤ 1 ∨ limits.resolutionSteps ≤ 1)
    (hClosed : arena.Closed) {a b : Option NodeId} (hEqual : arena.structurallyEqual limits a b = true) :
    arena.structuralHash limits a = arena.structuralHash limits b := by
  rcases Comparing.agree_of_structurallyEqual hLimits hEqual with
    (⟨hFirst, hSecond⟩ | rfl) | ⟨x, left, y, right, hFirst, hSecond, hLabel, hChildren⟩
  · have hAbsent {slot : Option NodeId} (hNone : arena.resolve? slot = none) :
        arena.structuralHash limits slot = NodeHash.absent.value := by
      have hGlance : Hashing.glance arena .start slot = .settled .absent := by
        simp only [Hashing.glance, hNone]
      rw [structuralHash, Hashing.within_of_settled hGlance]
    rw [hAbsent hFirst, hAbsent hSecond]
  · rfl
  · obtain ⟨-, hLeft⟩ := resolve?_eq_some hFirst
    obtain ⟨-, hRight⟩ := resolve?_eq_some hSecond
    exact Hashing.structuralHash_congr hLimits hFirst hSecond hLabel
      (eq_of_sameSlot (hClosed x left hLeft) (hClosed y right hRight) hChildren)

/-- Equal types have equal hashes wherever both hashes cover everything below, and this is so if the
limits suffice for what is nested and for all nodes. Without this condition they have equal hashes in
all arenas if and only if the limits keep the walks from looking below their first nodes: under any
other limits there are equal types, in an arena without cycles and without dangling handles, whose
hashes differ. -/
theorem structuralHash_consistent_iff (limits : Limits) :
    (∀ arena : Arena, arena.Closed → ∀ a b, arena.structurallyEqual limits a b = true →
      arena.HashedInFull limits a → arena.HashedInFull limits b →
      arena.structuralHash limits a = arena.structuralHash limits b) ∧
    (∀ arena : Arena, arena.Acyclic → arena.size ≤ limits.resolutionSteps → ∀ slot,
      arena.FitsIn limits.formatDepth slot → arena.HashedInFull limits slot) ∧
    ((∀ arena : Arena, arena.Closed → arena.Acyclic → ∀ a b, arena.structurallyEqual limits a b = true →
        arena.structuralHash limits a = arena.structuralHash limits b) ↔
      limits.formatDepth ≤ 1 ∨ limits.resolutionSteps ≤ 1) := by
  refine ⟨fun arena hClosed a b hEqual hFirst hSecond => ?_,
    fun arena hAcyclic hSize slot hFits => hashedInFull_of_fitsIn hAcyclic hSize hFits,
    fun hConsistent => ?_,
    fun hLimits arena hClosed _ a b hEqual => structuralHash_eq_of_small hLimits hClosed hEqual⟩
  · exact structuralHash_eq_of_sameTree hClosed (sameTree_of_structurallyEqual hEqual) hFirst hSecond
  · by_contra hLarge
    rw [not_or, Nat.not_le, Nat.not_le] at hLarge
    obtain ⟨d, hDepth⟩ : ∃ d, limits.formatDepth = d + 2 := ⟨limits.formatDepth - 2, by omega⟩
    obtain ⟨n, hSteps⟩ : ∃ n, limits.resolutionSteps = n + 2 := ⟨limits.resolutionSteps - 2, by omega⟩
    exact Hashing.structuralHash_fan_ne hDepth hSteps (hConsistent (fan n) (closed_fan n) (acyclic_fan n) _ _
      (Comparing.structurallyEqual_fan hDepth hSteps))

/-- With two steps, the second of two copies is not looked into. -/
theorem not_structuralHash_consistent :
    ¬ ∀ (limits : Limits) (arena : Arena), arena.Closed → arena.Acyclic → ∀ a b,
      arena.structurallyEqual limits a b = true →
      arena.structuralHash limits a = arena.structuralHash limits b := by
  intro hConsistent
  have hEqual : (fan 0).structurallyEqual { resolutionSteps := 2 } (some ⟨2⟩) (some ⟨3⟩) = true := by
    decide
  have hHash := hConsistent { resolutionSteps := 2 } (fan 0) (closed_fan 0) (acyclic_fan 0) _ _ hEqual
  exact absurd hHash (by decide)

end Arena

end CliSignature
