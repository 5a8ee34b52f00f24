import CliSignature.Proofs.Structural.Mixing
import CliSignature.Proofs.Structural.Walks
import Mathlib.Data.List.Nodup

/-!
What happens where a walk is cut. A comparison does not look into a pair of identical handles, while a
hash has to look into each node once, so the two are cut at different places. Slots can be found equal
and still have different hashes as soon as the limits let a walk look below its first node.
-/

namespace CliSignature

namespace Arena

/-- The node that the arenas below have many copies of. -/
def leaf : Node := .genericParam .type 0

/-- The handles of the first copies. -/
def copies (n : Nat) : List NodeId :=
  (List.range n).map NodeId.mk

/-- An instantiation with one argument more than there are copies before `last`. -/
def spread (n : Nat) (last : NodeId) : Node :=
  .genericInst none (copies (n + 1) ++ [last])

/-- Copies of a leaf and two instantiations that differ in the last argument: it is the first copy
again, or the only copy that the other arguments leave out. -/
def fan (n : Nat) : Arena :=
  ⟨(List.replicate (n + 2) leaf ++ [spread n ⟨0⟩, spread n ⟨n + 1⟩]).toArray⟩

theorem get?_fan_leaf {n : Nat} {id : NodeId} (hLeaf : id.index < n + 2) :
    (fan n).get? id = some leaf := by
  simp [fan, get?, List.getElem?_append_left, hLeaf]

theorem get?_fan_first (n : Nat) : (fan n).get? ⟨n + 2⟩ = some (spread n ⟨0⟩) := by
  simp [fan, get?]

theorem get?_fan_second (n : Nat) : (fan n).get? ⟨n + 3⟩ = some (spread n ⟨n + 1⟩) := by
  simp [fan, get?]

/-- Each handle in the fan refers to one of the copies, from behind them. -/
theorem lt_of_refers_fan {n : Nat} {child parent : NodeId} (hRefers : (fan n).Refers child parent) :
    child.index < n + 2 ∧ n + 2 ≤ parent.index := by
  obtain ⟨node, hNode, hChild⟩ := hRefers
  obtain ⟨i⟩ := parent
  have hSpread (last : NodeId) (hLast : last.index < n + 2)
      (hMem : some child ∈ (spread n last).children) : child.index < n + 2 := by
    have hArg : child ∈ copies (n + 1) ∨ child = last := by
      simpa [spread, Node.children] using hMem
    rcases hArg with hCopy | rfl
    · obtain ⟨j, hj, rfl⟩ := List.mem_map.mp hCopy
      exact Nat.lt_succ_of_lt (List.mem_range.mp hj)
    · exact hLast
  rcases Nat.lt_or_ge i (n + 2) with hLeaf | hAbove
  · rw [get?_fan_leaf hLeaf] at hNode
    obtain rfl := Option.some.inj hNode
    simp [leaf, Node.children] at hChild
  · refine ⟨?_, hAbove⟩
    have hBelow : i < n + 4 := by
      have hContains : (fan n).contains ⟨i⟩ = true := contains_iff.mpr ⟨node, hNode⟩
      simpa [contains, size, fan] using hContains
    obtain rfl | rfl : i = n + 2 ∨ i = n + 3 := by omega
    · rw [get?_fan_first] at hNode
      obtain rfl := Option.some.inj hNode
      exact hSpread ⟨0⟩ (Nat.succ_pos _) hChild
    · rw [get?_fan_second] at hNode
      obtain rfl := Option.some.inj hNode
      exact hSpread ⟨n + 1⟩ (Nat.lt_succ_self _) hChild

theorem closed_fan (n : Nat) : (fan n).Closed := by
  intro id node hNode child hChild
  obtain ⟨hLt, -⟩ := lt_of_refers_fan ⟨node, hNode, hChild⟩
  exact contains_iff.mpr ⟨leaf, get?_fan_leaf hLt⟩

theorem acyclic_fan (n : Nat) : (fan n).Acyclic :=
  acyclic_of_lt fun _ _ hRefers => by
    obtain ⟨hChild, hParent⟩ := lt_of_refers_fan hRefers
    omega

end Arena

namespace Comparing

variable {arena : Arena} {limits : Limits} {slots : Option NodeId → Option NodeId → Comparing Bool}

/-- Identical children in front do not matter. -/
theorem children_append {walk : PairWalk} (hSelf : ∀ slot, slots slot slot walk = (true, walk))
    (same as bs : List (Option NodeId)) :
    children slots (same ++ as) (same ++ bs) walk = children slots as bs walk := by
  induction same with
  | nil => rfl
  | cons slot same ih =>
      rw [List.cons_append, List.cons_append, children_cons, hSelf]
      exact ih

/-- Copies of the leaf are found equal, wherever there is room for one more step. -/
theorem within_copies {n levels : Nat} {walk : PairWalk} {x y : NodeId} (hx : x.index < n + 2)
    (hy : y.index < n + 2) (hSteps : walk.steps < limits.resolutionSteps)
    (hActive : (x, y) ∉ walk.active) :
    (within (.fan n) limits (levels + 1) (some x) (some y) walk).1 = true := by
  have hLeft := Arena.resolve?_of_get? (Arena.get?_fan_leaf hx)
  have hRight := Arena.resolve?_of_get? (Arena.get?_fan_leaf hy)
  by_cases hKnown : x = y ∨ (x, y) ∈ walk.proven
  · have hGlance : glance (.fan n) walk (some x) (some y) = .settled true := by
      simp only [glance, hLeft, hRight, hKnown, ↓reduceIte]
    rw [within_of_settled hGlance]
  · have hGlance : glance (.fan n) walk (some x) (some y) = .undecided (x, y) Arena.leaf Arena.leaf := by
      simp only [glance, hLeft, hRight, hKnown, ↓reduceIte]
    rw [within_of_undecided hGlance hSteps hActive]
    rfl

/-- The two instantiations of the fan are found equal. -/
theorem structurallyEqual_fan {n d : Nat} (hDepth : limits.formatDepth = d + 2)
    (hSteps : limits.resolutionSteps = n + 2) :
    (Arena.fan n).structurallyEqual limits (some ⟨n + 2⟩) (some ⟨n + 3⟩) = true := by
  have hLeft := Arena.resolve?_of_get? (Arena.get?_fan_first n)
  have hRight := Arena.resolve?_of_get? (Arena.get?_fan_second n)
  have hGlance : glance (.fan n) .start (some ⟨n + 2⟩) (some ⟨n + 3⟩) =
      .undecided (⟨n + 2⟩, ⟨n + 3⟩) (Arena.spread n ⟨0⟩) (Arena.spread n ⟨n + 1⟩) := by
    simp [glance, hLeft, hRight, PairWalk.start]
  have hLabel : (Arena.spread n ⟨0⟩).label = (Arena.spread n ⟨n + 1⟩).label := by
    simp [Arena.spread, Node.label]
  have hChildren (last : NodeId) : (Arena.spread n last).children =
      (none :: (Arena.copies (n + 1)).map some) ++ [some last] := by
    simp [Arena.spread, Node.children]
  let walk : PairWalk := PairWalk.start.enter (⟨n + 2⟩, ⟨n + 3⟩)
  have hLast : (within (.fan n) limits (d + 1) (some ⟨0⟩) (some ⟨n + 1⟩) walk).1 = true :=
    within_copies (Nat.succ_pos _) (Nat.lt_succ_self _)
      (by simp [walk, PairWalk.start, PairWalk.enter, hSteps])
      (by simp [walk, PairWalk.start, PairWalk.enter])
  rw [Arena.structurallyEqual, hDepth,
    within_of_undecided hGlance (by simp [PairWalk.start, hSteps]) (by simp [PairWalk.start]), into_fst,
    nodes, if_pos hLabel, hChildren, hChildren,
    children_append fun slot => within_of_settled (glance_self walk slot) (d + 1), children_cons, hLast]
  rfl

end Comparing

namespace Hashing

variable {arena : Arena} {limits : Limits} {hash : Option NodeId → Hashing NodeHash}

/-- The hash of a copy of the leaf that was looked into. -/
def leafHash : UInt64 := (Arena.leaf.tagDigest.add 0).state

/-- The walk after looking into some copies of the leaf, one after the other. -/
def afterCopies (walk : HashWalk) (ids : List NodeId) : HashWalk :=
  { walk with
    finished := ids.reverse.map (·, leafHash) ++ walk.finished
    steps := walk.steps + ids.length }

theorem lookup_map_append {ids : List NodeId} {id : NodeId} {value : UInt64}
    {others : List (NodeId × UInt64)} :
    (ids.map (·, value) ++ others).lookup id = if id ∈ ids then some value else others.lookup id := by
  induction ids with
  | nil => simp
  | cons first ids ih =>
      rw [List.map_cons, List.cons_append, List.lookup_cons]
      by_cases hSame : id = first
      · simp [hSame]
      · have hSkip : (id == first) = false := beq_eq_false_iff_ne.mpr hSame
        rw [hSkip]
        simpa [hSame] using ih

theorem lookup_afterCopies (walk : HashWalk) (ids : List NodeId) (id : NodeId) :
    (afterCopies walk ids).finished.lookup id =
      if id ∈ ids then some leafHash else walk.finished.lookup id := by
  simp only [afterCopies, lookup_map_append, List.mem_reverse]

theorem into_leaf {walk : HashWalk} (id : NodeId) :
    into hash id Arena.leaf walk = (⟨leafHash, true⟩, afterCopies walk [id]) := by
  have hParts : parts hash Arena.leaf.tagDigest true Arena.leaf.hashParts (walk.enter id) =
      (⟨leafHash, true⟩, walk.enter id) := rfl
  rw [into_run, hParts]
  simp [HashWalk.leave, HashWalk.enter, afterCopies]

/-- Copies that were not looked into before take one step each. -/
theorem parts_copies {n levels : Nat} {ids : List NodeId} {walk : HashWalk} {digest : Digest}
    {rest : List HashPart} (hNodup : ids.Nodup) (hCopies : ∀ id ∈ ids, id.index < n + 2)
    (hNew : ∀ id ∈ ids, walk.finished.lookup id = none ∧ id ∉ walk.active)
    (hSteps : walk.steps + ids.length ≤ limits.resolutionSteps) :
    parts (within (.fan n) limits (levels + 1)) digest true (HashPart.ofList ids ++ rest) walk =
      parts (within (.fan n) limits (levels + 1)) (ids.foldl (fun digest _ => digest.add leafHash) digest)
        true rest (afterCopies walk ids) := by
  induction ids generalizing walk digest with
  | nil => rfl
  | cons id ids ih =>
      obtain ⟨hOther, hNodup⟩ := List.nodup_cons.mp hNodup
      obtain ⟨hLookup, hActive⟩ := hNew id (by simp)
      have hNode := Arena.resolve?_of_get? (Arena.get?_fan_leaf (hCopies id (by simp)))
      have hGlance : glance (.fan n) walk (some id) = .undecided id Arena.leaf := by
        simp only [glance, hNode, hLookup]
      have hHash : within (.fan n) limits (levels + 1) (some id) walk =
          (⟨leafHash, true⟩, afterCopies walk [id]) := by
        rw [within_of_undecided hGlance (by simp at hSteps; omega) hActive, into_leaf]
      have hAfter : afterCopies (afterCopies walk [id]) ids = afterCopies walk (id :: ids) := by
        simp [afterCopies, Nat.add_assoc, Nat.add_comm 1]
      have hPieces : HashPart.ofList (id :: ids) ++ rest =
          .child (some id) :: (HashPart.ofList ids ++ rest) := rfl
      rw [hPieces, parts_child, hHash, ← hAfter]
      refine ih hNodup (fun other hMem => hCopies other (by simp [hMem])) (fun other hMem => ?_) ?_
      · have hDiffers : other ∉ [id] := by
          simp only [List.mem_singleton]
          rintro rfl
          exact hOther hMem
        obtain ⟨hOtherLookup, hOtherActive⟩ := hNew other (by simp [hMem])
        exact ⟨by rw [lookup_afterCopies, if_neg hDiffers, hOtherLookup], hOtherActive⟩
      · simp only [afterCopies, List.length_cons, List.length_nil] at hSteps ⊢
        omega

/-- The walk that is left for the last argument of an instantiation in the fan. -/
def beforeLast (n : Nat) (root : NodeId) : HashWalk :=
  afterCopies (HashWalk.start.enter root) (Arena.copies (n + 1))

/-- The digest to which the last argument of an instantiation in the fan is added. -/
def digestBeforeLast (n : Nat) : Digest :=
  (Arena.copies (n + 1)).foldl (fun digest _ => digest.add leafHash)
    (((Arena.spread n ⟨0⟩).tagDigest.add NodeHash.absent.value).add (UInt64.ofNat (n + 2)))

/-- All arguments but the last take one step each, and the root takes one too. -/
theorem structuralHash_fan {n d : Nat} (hDepth : limits.formatDepth = d + 2)
    (hSteps : limits.resolutionSteps = n + 2) {root last : NodeId} (hAbove : n + 2 ≤ root.index)
    (hRoot : (Arena.fan n).get? root = some (Arena.spread n last)) :
    (Arena.fan n).structuralHash limits (some root) =
      ((digestBeforeLast n).add
        (within (.fan n) limits (d + 1) (some last) (beforeLast n root)).1.value).state := by
  have hGlance : glance (.fan n) .start (some root) = .undecided root (Arena.spread n last) := by
    simp only [glance, Arena.resolve?_of_get? hRoot, HashWalk.start, List.lookup_nil]
  have hAbsent : within (.fan n) limits (d + 1) none (HashWalk.start.enter root) =
      (.absent, HashWalk.start.enter root) := within_of_settled rfl _
  have hParts : (Arena.spread n last).hashParts = .child none :: .word (UInt64.ofNat (n + 2)) ::
      (HashPart.ofList (Arena.copies (n + 1)) ++ [.child (some last)]) := by
    have hCount : (Arena.copies (n + 1) ++ [last]).length = n + 2 := by simp [Arena.copies]
    simp only [Arena.spread, Node.hashParts, hCount]
    simp [HashPart.count, HashPart.ofList]
  have hCopies : ∀ id ∈ Arena.copies (n + 1), id.index < n + 2 := by
    intro id hMem
    obtain ⟨i, hi, rfl⟩ := List.mem_map.mp hMem
    exact Nat.lt_succ_of_lt (List.mem_range.mp hi)
  have hNodup : (Arena.copies (n + 1)).Nodup :=
    List.Nodup.map (fun i j hEqual => by simpa using hEqual) List.nodup_range
  rw [Arena.structuralHash, hDepth,
    within_of_undecided hGlance (by simp [HashWalk.start, hSteps]) (by simp [HashWalk.start]), into_fst,
    hParts, parts_child, hAbsent]
  rw [parts_word]
  change (parts _ _ true _ (HashWalk.start.enter root)).1.value = _
  rw [parts_copies hNodup hCopies]
  · rfl
  · intro id hMem
    have hBelow := hCopies id hMem
    refine ⟨rfl, ?_⟩
    simp only [HashWalk.start, HashWalk.enter, List.mem_singleton]
    rintro rfl
    omega
  · simp [HashWalk.start, HashWalk.enter, Arena.copies, hSteps]
    omega

/-- The two instantiations of the fan have different hashes. The first copy was looked into before, the
last one was not, and no steps are left for it. -/
theorem structuralHash_fan_ne {n d : Nat} (hDepth : limits.formatDepth = d + 2)
    (hSteps : limits.resolutionSteps = n + 2) :
    (Arena.fan n).structuralHash limits (some ⟨n + 2⟩) ≠
      (Arena.fan n).structuralHash limits (some ⟨n + 3⟩) := by
  have hKnown : within (.fan n) limits (d + 1) (some ⟨0⟩) (beforeLast n ⟨n + 2⟩) =
      (⟨leafHash, true⟩, beforeLast n ⟨n + 2⟩) := by
    refine within_of_settled ?_ _
    have hNode := Arena.resolve?_of_get? (@Arena.get?_fan_leaf n ⟨0⟩ (Nat.succ_pos _))
    have hLookup : (beforeLast n ⟨n + 2⟩).finished.lookup ⟨0⟩ = some leafHash :=
      (lookup_afterCopies _ _ _).trans (if_pos (by simp [Arena.copies]))
    simp only [glance, hNode, hLookup]
  have hExhausted : within (.fan n) limits (d + 1) (some ⟨n + 1⟩) (beforeLast n ⟨n + 3⟩) =
      (.truncated Arena.leaf, beforeLast n ⟨n + 3⟩) := by
    have hNode := Arena.resolve?_of_get? (@Arena.get?_fan_leaf n ⟨n + 1⟩ (Nat.lt_succ_self _))
    have hLookup : (beforeLast n ⟨n + 3⟩).finished.lookup ⟨n + 1⟩ = none :=
      (lookup_afterCopies _ _ _).trans (if_neg (by simp [Arena.copies]))
    have hGlance : glance (.fan n) (beforeLast n ⟨n + 3⟩) (some ⟨n + 1⟩) =
        .undecided ⟨n + 1⟩ Arena.leaf := by
      simp only [glance, hNode, hLookup]
    refine within_of_exhausted hGlance (.inr ?_)
    simp [beforeLast, afterCopies, HashWalk.start, HashWalk.enter, Arena.copies, hSteps]
    omega
  rw [structuralHash_fan hDepth hSteps (Nat.le_refl _) (Arena.get?_fan_first n),
    structuralHash_fan hDepth hSteps (Nat.le_succ _) (Arena.get?_fan_second n), hKnown, hExhausted]
  intro hEqual
  have hWords : leafHash = (NodeHash.truncated Arena.leaf).value := Digest.mix_injective _ hEqual
  exact absurd hWords (by decide)

-- With two steps, the last argument of the second instantiation is not covered.
example : ¬ (Arena.fan 0).HashedInFull { resolutionSteps := 2 } (some ⟨3⟩) := by decide

end Hashing

end CliSignature
