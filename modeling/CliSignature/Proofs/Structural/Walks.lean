import CliSignature.Proofs.Bisimilarity
import CliSignature.Proofs.Structural.Steps
import CliSignature.Proofs.Structural.TreeHash
import Mathlib.Data.List.Nodup
import Mathlib.Data.Set.Card

/-!
What the two walks may rely on. A pair that was found equal is bisimilar, and a hash that is remembered
is the hash of a tree. Each step of a walk keeps this, so it holds wherever the walk is cut.
-/

namespace CliSignature

variable {arena : Arena} {limits : Limits}

/-- A step that keeps an invariant of the walk and whose result can be relied on. -/
def Keeps {σ α : Type} (Invariant : σ → Prop) (step : StateM σ α) (Result : α → Prop) : Prop :=
  ∀ walk, Invariant walk → Invariant (step walk).2 ∧ Result (step walk).1

namespace Keeps

variable {σ α β : Type} {Invariant : σ → Prop}

theorem pure {value : α} {Result : α → Prop} (hResult : Result value) :
    Keeps Invariant (Pure.pure value) Result :=
  fun _ hWalk => ⟨hWalk, hResult⟩

theorem bind {first : StateM σ α} {next : α → StateM σ β} {Result : α → Prop} {ResultNext : β → Prop}
    (hFirst : Keeps Invariant first Result)
    (hNext : ∀ value, Result value → Keeps Invariant (next value) ResultNext) :
    Keeps Invariant (first >>= next) ResultNext := by
  intro walk hWalk
  obtain ⟨hMiddle, hResult⟩ := hFirst walk hWalk
  exact hNext _ hResult _ hMiddle

theorem modify (change : σ → σ) (hChange : ∀ walk, Invariant walk → Invariant (change walk)) :
    Keeps Invariant (modify change) fun _ => True :=
  fun walk hWalk => ⟨hChange walk hWalk, trivial⟩

theorem imp {step : StateM σ α} {Result Result' : α → Prop} (hStep : Keeps Invariant step Result)
    (hImp : ∀ value, Result value → Result' value) : Keeps Invariant step Result' := by
  intro walk hWalk
  obtain ⟨hKept, hResult⟩ := hStep walk hWalk
  exact ⟨hKept, hImp _ hResult⟩

end Keeps

/-- What was looked into so far, one step for each: `active` is not left yet, `finished` is. Nothing was
looked into twice. -/
structure Visits {α : Type} (Key : α → Prop) (active finished : List α) (steps : Nat) : Prop where
  nodup : (active ++ finished).Nodup
  keys : ∀ key ∈ active ++ finished, Key key
  steps_eq : steps = (active ++ finished).length

namespace Visits

variable {α : Type} {Key : α → Prop} {active finished : List α} {steps : Nat} {key : α}

theorem start : Visits Key [] [] 0 :=
  ⟨.nil, by simp, rfl⟩

theorem enter (hVisits : Visits Key active finished steps) (hKey : Key key) (hActive : key ∉ active)
    (hNew : key ∉ finished) : Visits Key (key :: active) finished (steps + 1) where
  nodup := List.nodup_cons.mpr
    ⟨fun hMem => (List.mem_append.mp hMem).elim hActive hNew, hVisits.nodup⟩
  keys other hMem := by
    rcases List.mem_cons.mp hMem with rfl | hMem
    · exact hKey
    · exact hVisits.keys other hMem
  steps_eq := congrArg Nat.succ hVisits.steps_eq

theorem leave (hVisits : Visits Key (key :: active) finished steps) :
    Visits Key active (key :: finished) steps := by
  have hPerm : (active ++ key :: finished).Perm (key :: active ++ finished) := List.perm_middle
  exact ⟨hPerm.nodup_iff.mpr hVisits.nodup,
    fun other hMem => hVisits.keys other (hPerm.mem_iff.mp hMem),
    hVisits.steps_eq.trans hPerm.length_eq.symm⟩

/-- There are no more steps than there is to look into. -/
theorem steps_le {keys : Set α} (hVisits : Visits (· ∈ keys) active finished steps) :
    (steps : ℕ∞) ≤ keys.encard := by
  classical
  have hCard : (active ++ finished).toFinset.card = steps := by
    rw [List.toFinset_card_of_nodup hVisits.nodup, hVisits.steps_eq]
  have hSubset : ((active ++ finished).toFinset : Set α) ⊆ keys :=
    fun other hMem => hVisits.keys other (List.mem_toFinset.mp hMem)
  calc (steps : ℕ∞) = ((active ++ finished).toFinset : Set α).encard := by
        rw [Set.encard_coe_eq_coe_finsetCard, hCard]
    _ ≤ keys.encard := Set.encard_le_encard hSubset

end Visits

/-- The pairs that were found equal are bisimilar. -/
def PairWalk.Sound (arena : Arena) (walk : PairWalk) : Prop :=
  ∀ pair ∈ walk.proven, arena.Bisimilar (some pair.1) (some pair.2)

namespace Comparing

variable {slots : Option NodeId → Option NodeId → Comparing Bool}

/-- What is settled at a glance is bisimilar. -/
theorem bisimilar_of_glance {walk : PairWalk} (hWalk : walk.Sound arena) {a b : Option NodeId}
    (hGlance : glance arena walk a b = .settled true) : arena.Bisimilar a b := by
  unfold glance at hGlance
  split at hGlance
  case h_1 hFirst hSecond => exact .of_looksSame (.absent hFirst hSecond)
  case h_2 x left y right hFirst hSecond =>
    obtain ⟨rfl, -⟩ := Arena.resolve?_eq_some hFirst
    obtain ⟨rfl, -⟩ := Arena.resolve?_eq_some hSecond
    split at hGlance
    case isTrue hKnown =>
      rcases hKnown with rfl | hProven
      · exact .refl _
      · exact hWalk _ hProven
    case isFalse => cases hGlance
  case h_3 => cases hGlance

/-- Children that are found equal are related one by one, if slots that are found equal are. -/
theorem children_keeps {Invariant : PairWalk → Prop} {R : Option NodeId → Option NodeId → Prop}
    (hSlots : ∀ a b, Keeps Invariant (slots a b) (· = true → R a b)) (as bs : List (Option NodeId)) :
    Keeps Invariant (children slots as bs) (· = true → List.Forall₂ R as bs) := by
  induction as generalizing bs with
  | nil =>
      cases bs with
      | nil => exact .pure fun _ => .nil
      | cons b bs => exact .pure nofun
  | cons a as ih =>
      cases bs with
      | nil => exact .pure nofun
      | cons b bs =>
          refine (hSlots a b).bind fun equal hHead => ?_
          cases equal with
          | false => exact .pure nofun
          | true => exact (ih bs).imp fun rest hTail hRest => .cons (hHead rfl) (hTail hRest)

/-- A pair is only found equal if its labels are equal and its children are bisimilar. -/
theorem into_sound
    (hSlots : ∀ a b, Keeps (PairWalk.Sound arena) (slots a b) (· = true → arena.Bisimilar a b))
    {x y : NodeId} {left right : Node} (hLeft : arena.resolve? (some x) = some (x, left))
    (hRight : arena.resolve? (some y) = some (y, right)) :
    Keeps (PairWalk.Sound arena) (into slots (x, y) left right)
      (· = true → arena.Bisimilar (some x) (some y)) := by
  have hNodes : Keeps (PairWalk.Sound arena) (nodes slots left right)
      (· = true → arena.Bisimilar (some x) (some y)) := by
    unfold nodes
    split
    case isTrue hLabel =>
      exact (children_keeps hSlots _ _).imp fun equal hChildren hEqual =>
        .of_looksSame (.nodes hLeft hRight hLabel (hChildren hEqual))
    case isFalse => exact .pure nofun
  refine (Keeps.modify (fun walk => walk.enter (x, y)) fun _ hWalk => hWalk).bind
    fun _ _ => hNodes.bind fun equal hEqual => ?_
  refine (Keeps.modify (fun walk => PairWalk.leave walk (x, y) equal) fun walk hWalk => ?_).bind
    fun _ _ => Keeps.pure hEqual
  cases equal with
  | false => exact hWalk
  | true =>
      intro pair hMem
      rcases List.mem_cons.mp hMem with rfl | hMem
      · exact hEqual rfl
      · exact hWalk pair hMem

/-- By induction on the levels. Slots that are found equal are bisimilar. -/
theorem within_sound (levels : Nat) (a b : Option NodeId) :
    Keeps (PairWalk.Sound arena) (within arena limits levels a b)
      (· = true → arena.Bisimilar a b) := by
  induction levels using Nat.strongRecOn generalizing a b with
  | _ levels ih =>
      intro walk hWalk
      cases hGlance : glance arena walk a b with
      | settled equal =>
          rw [within_of_settled hGlance]
          refine ⟨hWalk, ?_⟩
          rintro rfl
          exact bisimilar_of_glance hWalk hGlance
      | undecided pair left right =>
          rcases within_cases hGlance levels with hCut | ⟨below, rfl, hInto⟩
          · rw [hCut]
            exact ⟨hWalk, nofun⟩
          · obtain ⟨hLeft, hRight⟩ := resolve?_of_glance hGlance
            obtain ⟨x, y⟩ := pair
            obtain ⟨rfl, -⟩ := Arena.resolve?_eq_some hLeft
            obtain ⟨rfl, -⟩ := Arena.resolve?_eq_some hRight
            rw [hInto]
            exact into_sound (ih below (Nat.lt_succ_self below)) hLeft hRight walk hWalk

end Comparing

/-- The hashes that are remembered are those of outlines. -/
def HashWalk.Faithful (arena : Arena) (walk : HashWalk) : Prop :=
  ∀ id value, walk.finished.lookup id = some value →
    ∃ outline, arena.Outlines (some id) outline ∧ value = outline.hash

namespace Hashing

variable {hash : Option NodeId → Hashing NodeHash}

/-- A hash that covers everything below a slot is that of the outline of the slot. -/
def HashesOutline (arena : Arena) (slot : Option NodeId) (found : NodeHash) : Prop :=
  found.complete = true → ∃ outline, arena.Outlines slot outline ∧ found.value = outline.hash

/-- What is settled at a glance is the hash of an outline. -/
theorem hashesOutline_of_glance {walk : HashWalk} (hWalk : walk.Faithful arena) {slot : Option NodeId}
    {found : NodeHash} (hGlance : glance arena walk slot = .settled found) :
    HashesOutline arena slot found := by
  intro _
  unfold glance at hGlance
  split at hGlance
  case h_1 hNone =>
    cases hGlance
    obtain ⟨outline, hOutline⟩ := Arena.exists_outlines_of_absent hNone
    exact ⟨outline, hOutline, (hOutline.hash_of_absent hNone).symm⟩
  case h_2 id node hNode =>
    obtain ⟨rfl, -⟩ := Arena.resolve?_eq_some hNode
    split at hGlance
    case h_1 value hKnown =>
      cases hGlance
      exact hWalk id value hKnown
    case h_2 => cases hGlance

/-- If all children are covered, each part comes to a word and the words are mixed in their order. -/
theorem parts_faithful (hHash : ∀ slot, Keeps (HashWalk.Faithful arena) (hash slot) (HashesOutline arena slot))
    (pieces : List HashPart) (digest : Digest) (complete : Bool) :
    Keeps (HashWalk.Faithful arena) (parts hash digest complete pieces) fun found =>
      found.complete = true → complete = true ∧ ∃ words,
        List.Forall₂ arena.PartHash pieces words ∧ found.value = (words.foldl Digest.add digest).state := by
  induction pieces generalizing digest complete with
  | nil => exact Keeps.pure fun hComplete => ⟨hComplete, [], .nil, rfl⟩
  | cons piece pieces ih =>
      cases piece with
      | word value =>
          refine (ih (digest.add value) complete).imp fun found hFound hComplete => ?_
          obtain ⟨hBefore, words, hWords, hValue⟩ := hFound hComplete
          exact ⟨hBefore, value :: words, .cons (.word value) hWords, hValue⟩
      | child slot =>
          refine (hHash slot).bind fun child hChild => ?_
          refine (ih (digest.add child.value) (complete && child.complete)).imp
            fun found hFound hComplete => ?_
          obtain ⟨hBefore, words, hWords, hValue⟩ := hFound hComplete
          obtain ⟨hComplete, hCovered⟩ := Bool.and_eq_true_iff.mp hBefore
          obtain ⟨outline, hOutline, hHashed⟩ := hChild hCovered
          exact ⟨hComplete, outline.hash :: words, .cons (.child hOutline) hWords, by
            rw [List.foldl_cons, ← hHashed]
            exact hValue⟩

/-- A node's hash covers everything below the node if those of its children do. -/
theorem into_faithful
    (hHash : ∀ slot, Keeps (HashWalk.Faithful arena) (hash slot) (HashesOutline arena slot))
    {id : NodeId} {node : Node} (hNode : arena.get? id = some node) :
    Keeps (HashWalk.Faithful arena) (into hash id node) (HashesOutline arena (some id)) := by
  have hParts : Keeps (HashWalk.Faithful arena) (parts hash node.tagDigest true node.hashParts)
      (HashesOutline arena (some id)) := by
    refine (parts_faithful hHash _ _ _).imp fun found hFound hComplete => ?_
    obtain ⟨-, words, hWords, hValue⟩ := hFound hComplete
    obtain ⟨outlines, hOutlines, rfl⟩ := Arena.words_of_hashParts hWords
    refine ⟨_, .of_forall₂ hNode hOutlines, ?_⟩
    rw [hValue, Outline.hash_node, Node.tag_label]
    rfl
  refine (Keeps.modify (fun walk => walk.enter id) fun _ hWalk => hWalk).bind
    fun _ _ => hParts.bind fun found hFound => ?_
  refine (Keeps.modify (fun walk => HashWalk.leave walk id found) fun walk hWalk => ?_).bind
    fun _ _ => Keeps.pure hFound
  intro key value hKnown
  cases hComplete : found.complete with
  | false => exact hWalk key value (by simpa [HashWalk.leave, hComplete] using hKnown)
  | true =>
      simp only [HashWalk.leave, hComplete, ↓reduceIte, List.lookup_cons] at hKnown
      by_cases hSame : key = id
      · subst hSame
        obtain rfl : found.value = value := by simpa using hKnown
        exact hFound hComplete
      · have hSkip : (key == id) = false := beq_eq_false_iff_ne.mpr hSame
        exact hWalk key value (by simpa only [hSkip] using hKnown)

/-- By induction on the levels. A hash that covers everything is that of an outline. -/
theorem within_faithful (levels : Nat) (slot : Option NodeId) :
    Keeps (HashWalk.Faithful arena) (within arena limits levels slot) (HashesOutline arena slot) := by
  induction levels using Nat.strongRecOn generalizing slot with
  | _ levels ih =>
      intro walk hWalk
      cases hGlance : glance arena walk slot with
      | settled found =>
          rw [within_of_settled hGlance]
          exact ⟨hWalk, hashesOutline_of_glance hWalk hGlance⟩
      | undecided id node =>
          rcases within_cases hGlance levels with hCut | ⟨below, rfl, hInto⟩
          · rw [hCut]
            exact ⟨hWalk, nofun⟩
          · obtain ⟨rfl, hNode⟩ := Arena.resolve?_eq_some (resolve?_of_glance hGlance).1
            rw [hInto]
            exact into_faithful (ih below (Nat.lt_succ_self below)) hNode walk hWalk

end Hashing

namespace Arena

/-- Whether the hash of a slot covers everything below it. -/
def HashedInFull (arena : Arena) (limits : Limits) (slot : Option NodeId) : Prop :=
  (Hashing.within arena limits limits.formatDepth slot .start).1.complete = true

instance (arena : Arena) (limits : Limits) (slot : Option NodeId) :
    Decidable (arena.HashedInFull limits slot) :=
  inferInstanceAs (Decidable (_ = true))

/-- Slots that are found equal are bisimilar. -/
theorem bisimilar_of_structurallyEqual {a b : Option NodeId}
    (hEqual : arena.structurallyEqual limits a b = true) : arena.Bisimilar a b :=
  (Comparing.within_sound limits.formatDepth a b .start (by simp [PairWalk.Sound, PairWalk.start])).2
    hEqual

/-- Slots that are found equal have the same trees. -/
theorem sameTree_of_structurallyEqual {a b : Option NodeId}
    (hEqual : arena.structurallyEqual limits a b = true) : arena.SameTree a b :=
  (bisimilar_of_structurallyEqual hEqual).sameTree

/-- A hash that covers everything below a slot is that of its outline. -/
theorem structuralHash_eq_hash {slot : Option NodeId} (hFull : arena.HashedInFull limits slot) :
    ∃ outline, arena.Outlines slot outline ∧ arena.structuralHash limits slot = outline.hash :=
  (Hashing.within_faithful limits.formatDepth slot .start
    (by simp [HashWalk.Faithful, HashWalk.start])).2 hFull

/-- Slots that are found equal have the same hash, if both hashes cover everything below. The limits
of the three walks need not be the same. -/
theorem structuralHash_eq_of_sameTree {limits' : Limits} (hClosed : arena.Closed) {a b : Option NodeId}
    (hSame : arena.SameTree a b) (hFirst : arena.HashedInFull limits a)
    (hSecond : arena.HashedInFull limits' b) :
    arena.structuralHash limits a = arena.structuralHash limits' b := by
  obtain ⟨outline, hOutline, hHash⟩ := structuralHash_eq_hash hFirst
  obtain ⟨other, hOther, hHash'⟩ := structuralHash_eq_hash hSecond
  obtain ⟨tree, hTree⟩ := hOutline.exists_unfolds
  rw [hHash, hHash', hOutline.hash_eq hTree (hClosed.pointersHeld a),
    hOther.hash_eq ((hSame tree).mp hTree) (hClosed.pointersHeld b)]

end Arena

end CliSignature
