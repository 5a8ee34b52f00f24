import CliSignature.Proofs.Structural.FieldOrder
import CliSignature.Proofs.Structural.Ledger
import CliSignature.Proofs.Structural.Steps

/-!
The books of comparisons and of hashings. Either walk is taken here with a journal of what it enters and leaves.
The journal shows that a comparison enters no pair twice, since it stops at the first pair that differs and keeps all
others. A hashing may enter a node again that was cut short, so only its steps bound how often it enters nodes.
-/

namespace CliSignature

open WalkEvent (Bars BarsAll entries)

variable {arena : Arena} {limits : Limits}

def PairWalk.ledger (walk : PairWalk) : Ledger (NodeId × NodeId) :=
  ⟨walk.active, walk.proven, walk.steps⟩

def HashWalk.ledger (walk : HashWalk) : Ledger NodeId :=
  ⟨walk.active, walk.finished.map Prod.fst, walk.steps⟩

theorem HashWalk.ledger_leave (walk : HashWalk) (id : NodeId) (found : NodeHash) :
    (walk.leave id found).ledger = walk.ledger.leave id found.complete := by
  unfold leave ledger Ledger.leave
  cases found.complete <;> rfl

theorem HashWalk.not_mem_kept {walk : HashWalk} {id : NodeId} (hNew : walk.finished.lookup id = none) :
    id ∉ walk.ledger.kept := by
  intro hMem
  obtain ⟨entry, hEntry, rfl⟩ := List.mem_map.mp hMem
  simpa using List.lookup_eq_none_iff.mp hNew entry hEntry

namespace Comparing

/-- A comparison in progress, with a journal. -/
abbrev Recorded := StateM (Journal PairWalk (NodeId × NodeId))

namespace Recorded

/-- Goes through checks in their order, up to the first that fails. -/
def inTurn (slots : Option NodeId → Option NodeId → Recorded Bool) : List Check → Recorded Bool
  | [] => pure true
  | .fields agree :: rest => if agree then inTurn slots rest else pure false
  | .types a b :: rest => do
    if ← slots a b then inTurn slots rest else pure false

/-- The book of a comparison, with a journal. -/
def book : Book (Journal PairWalk (NodeId × NodeId)) PairWalk (NodeId × NodeId) Bool :=
  Journal.book PairWalk.book id

/-- Compares two slots with the given number of levels left, and two nodes in the given order. -/
def within (order : Node → Node → List Check) (arena : Arena) (limits : Limits) :
    Nat → Option NodeId → Option NodeId → Recorded Bool :=
  withBook book (fun slots left right => inTurn slots (order left right)) arena limits

variable {order : Node → Node → List Check} {slots : Option NodeId → Option NodeId → Recorded Bool}
  {plain : Option NodeId → Option NodeId → Comparing Bool} {journal : Journal PairWalk (NodeId × NodeId)}
  {a b : Option NodeId} {pair : NodeId × NodeId} {left right : Node} {checks : List Check} {R : Bool → Prop}

theorem inTurn_types (a b : Option NodeId) (rest : List Check) (journal : Journal PairWalk (NodeId × NodeId)) :
    inTurn slots (.types a b :: rest) journal =
      if (slots a b journal).1 then inTurn slots rest (slots a b journal).2 else (false, (slots a b journal).2) := by
  have hRun : inTurn slots (.types a b :: rest) journal =
      (if (slots a b journal).1 then inTurn slots rest else pure false) (slots a b journal).2 := rfl
  rw [hRun]
  split <;> rfl

/-! ### The same answers -/

/-- Fields that all agree leave the places to be compared. -/
theorem follows_children (hTrue : R true) (hSlots : ∀ a b, Journal.Follows R (slots a b) (plain a b))
    (hAgree : Check.allAgree checks = true) :
    Journal.Follows R (inTurn slots checks)
      (children plain ((Check.places checks).map Prod.fst) ((Check.places checks).map Prod.snd)) := by
  induction checks with
  | nil => exact .pure true
  | cons check rest ih =>
      cases check with
      | fields agree =>
          obtain ⟨rfl, hRest⟩ : agree = true ∧ Check.allAgree rest = true := by simpa using hAgree
          exact ih hRest
      | types a b =>
          intro journal
          obtain ⟨hEqual, hWalk⟩ := hSlots a b journal
          rw [Check.places_types, List.map_cons, List.map_cons, children_cons, inTurn_types, hEqual]
          cases hHead : (plain a b journal.walk).1 with
          | false => exact ⟨rfl, fun hFalse => hWalk (by rwa [hHead])⟩
          | true =>
              have hRest := ih (by simpa using hAgree) (slots a b journal).2
              rwa [hWalk (by rwa [hHead])] at hRest

/-- A field that does not agree makes the nodes differ, whatever the types before it. -/
theorem inTurn_of_disagree (hDisagree : Check.allAgree checks = false) (journal : Journal PairWalk (NodeId × NodeId)) :
    (inTurn slots checks journal).1 = false := by
  induction checks generalizing journal with
  | nil => cases hDisagree
  | cons check rest ih =>
      cases check with
      | fields agree =>
          cases agree with
          | false => rfl
          | true => exact ih hDisagree journal
      | types a b =>
          rw [inTurn_types]
          split
          case isTrue => exact ih (by simpa using hDisagree) _
          case isFalse => rfl

theorem follows_nodes_checks (hSlots : ∀ a b, Journal.Follows (· = true) (slots a b) (plain a b))
    (left right : Node) :
    Journal.Follows (· = true) (inTurn slots (left.checks right)) (nodes plain left right) := by
  unfold nodes
  split
  case isTrue hLabel =>
    have hLength := Node.children_length_of_label hLabel
    have hChildren := follows_children (R := (· = true)) rfl hSlots (Node.allAgree_checks.mpr hLabel)
    rwa [Node.places_checks hLabel, List.map_fst_zip (Nat.le_of_eq hLength),
      List.map_snd_zip (Nat.le_of_eq hLength.symm)] at hChildren
  case isFalse hLabel =>
    have hDisagree : Check.allAgree (left.checks right) = false :=
      Bool.eq_false_iff.mpr (hLabel ∘ Node.allAgree_checks.mp)
    intro journal
    refine ⟨inTurn_of_disagree hDisagree journal, fun hTrue => ?_⟩
    cases hTrue

theorem follows_nodes_labelFirst (hSlots : ∀ a b, Journal.Follows (fun _ => True) (slots a b) (plain a b))
    (left right : Node) :
    Journal.Follows (fun _ => True) (inTurn slots (left.labelFirst right)) (nodes plain left right) := by
  unfold nodes
  split
  case isTrue hLabel =>
    have hLength := Node.children_length_of_label hLabel
    have hAgree : Check.allAgree (left.labelFirst right) = true := by simp [Node.labelFirst, hLabel]
    have hChildren := follows_children trivial hSlots hAgree
    rwa [Node.labelFirst, Check.places_fields, Check.places_inPairs, List.map_fst_zip (Nat.le_of_eq hLength),
      List.map_snd_zip (Nat.le_of_eq hLength.symm)] at hChildren
  case isFalse hLabel =>
    rw [Node.labelFirst, inTurn, if_neg (by simpa using hLabel)]
    exact .pure false

/-- By induction on the levels, if nodes follow as far as their children do. -/
theorem within_follows
    (hNodes : ∀ {slots : Option NodeId → Option NodeId → Recorded Bool}
      {plain : Option NodeId → Option NodeId → Comparing Bool},
      (∀ a b, Journal.Follows R (slots a b) (plain a b)) → ∀ left right,
        Journal.Follows R (inTurn slots (order left right)) (nodes plain left right))
    (levels : Nat) (a b : Option NodeId) :
    Journal.Follows R (within order arena limits levels a b) (Comparing.within arena limits levels a b) := by
  induction levels using Nat.strongRecOn generalizing a b with
  | _ levels ih =>
      intro journal
      cases hGlance : glance arena journal.walk a b with
      | settled equal =>
          rw [within, withBook_of_settled hGlance, Comparing.within_of_settled hGlance]
          exact ⟨rfl, fun _ => rfl⟩
      | undecided pair left right =>
          cases levels with
          | zero =>
              rw [within, withBook_zero hGlance, Comparing.within_zero hGlance]
              exact ⟨rfl, fun _ => rfl⟩
          | succ levels =>
              by_cases hCut : limits.resolutionSteps ≤ journal.walk.steps ∨ pair ∈ journal.walk.active
              · rw [within, (withBook_succ hGlance levels).trans (if_pos hCut), Comparing.within_succ hGlance,
                  if_pos hCut]
                exact ⟨rfl, fun _ => rfl⟩
              · rw [within, (withBook_succ hGlance levels).trans (if_neg hCut), Comparing.within_succ hGlance,
                  if_neg hCut]
                exact Journal.Follows.visit (hNodes (ih levels (Nat.lt_succ_self levels)) left right) journal

/-! ### What the journal shows -/

/-- Nothing is entered any more once a pair was found to differ, and then the whole is found to differ. -/
structure Concluded (events : List (WalkEvent (NodeId × NodeId))) (equal : Bool) : Prop where
  stops : events.Pairwise BarsAll
  all_equal : equal = true → ∀ pair, .left pair false ∉ events

theorem Concluded.nil (equal : Bool) : Concluded [] equal :=
  ⟨.nil, fun _ _ => List.not_mem_nil⟩

theorem Concluded.append {first second : List (WalkEvent (NodeId × NodeId))} {equal : Bool}
    (hFirst : Concluded first true) (hSecond : Concluded second equal) : Concluded (first ++ second) equal where
  stops := by
    refine List.pairwise_append.mpr ⟨hFirst.stops, hSecond.stops, ?_⟩
    rintro event hMem _ _ pair _ rfl
    exact (hFirst.all_equal rfl pair hMem).elim
  all_equal hEqual pair hMem := by
    rcases List.mem_append.mp hMem with hMem | hMem
    · exact hFirst.all_equal rfl pair hMem
    · exact hSecond.all_equal hEqual pair hMem

theorem Concluded.visit {inner : List (WalkEvent (NodeId × NodeId))} {equal : Bool} (hInner : Concluded inner equal)
    (pair : NodeId × NodeId) : Concluded (.entered pair :: (inner ++ [.left pair equal])) equal where
  stops := by
    refine List.pairwise_cons.mpr ⟨?_, List.pairwise_append.mpr ⟨hInner.stops, List.pairwise_singleton _ _, ?_⟩⟩
    · intro event _ key other hLeft
      cases hLeft
    · rintro event _ last hLast key other _ rfl
      simp at hLast
  all_equal hEqual key hMem := by
    have hCases : .left key false ∈ inner ∨ (key = pair ∧ equal = false) := by simpa [eq_comm] using hMem
    rcases hCases with hMem | ⟨-, rfl⟩
    · exact hInner.all_equal hEqual key hMem
    · cases hEqual

theorem inTurn_logs
    (hSlots : ∀ a b journal, Journal.Logs PairWalk.ledger limits.resolutionSteps (slots a b) Concluded journal)
    (checks : List Check) (journal : Journal PairWalk (NodeId × NodeId)) :
    Journal.Logs PairWalk.ledger limits.resolutionSteps (inTurn slots checks) Concluded journal := by
  induction checks generalizing journal with
  | nil => exact .idle rfl (.nil true)
  | cons check rest ih =>
      cases check with
      | fields agree =>
          cases agree with
          | false => exact .idle rfl (.nil false)
          | true => exact ih journal
      | types a b =>
          have hHead := hSlots a b journal
          cases hEqual : (slots a b journal).1 with
          | false =>
              -- The first pair that differs is the last one that is compared.
              have hStop : Journal.Logs PairWalk.ledger limits.resolutionSteps (pure false)
                  (fun events equal => events = [] ∧ equal = false) (slots a b journal).2 := .idle rfl ⟨rfl, rfl⟩
              refine hHead.trans ((inTurn_types a b rest journal).trans (if_neg (by simp [hEqual]))) hStop ?_
              rintro events _ _ hEvents ⟨rfl, rfl⟩
              rwa [List.append_nil, ← hEqual]
          | true =>
              refine hHead.trans ((inTurn_types a b rest journal).trans (if_pos hEqual)) (ih _) ?_
              intro events others equal hEvents hOthers
              rw [hEqual] at hEvents
              exact hEvents.append hOthers

/-- By induction on the levels. A pair is only entered if it is neither active nor found equal, and if there are steps
left. -/
theorem within_logs (levels : Nat) (a b : Option NodeId) (journal : Journal PairWalk (NodeId × NodeId)) :
    Journal.Logs PairWalk.ledger limits.resolutionSteps (within order arena limits levels a b) Concluded journal := by
  induction levels using Nat.strongRecOn generalizing a b journal with
  | _ levels ih =>
      cases hGlance : glance arena journal.walk a b with
      | settled equal => exact .idle (withBook_of_settled hGlance levels) (.nil equal)
      | undecided pair left right =>
          cases levels with
          | zero => exact .idle (withBook_zero hGlance) (.nil false)
          | succ levels =>
              by_cases hCut : limits.resolutionSteps ≤ journal.walk.steps ∨ pair ∈ journal.walk.active
              · exact .idle ((withBook_succ hGlance levels).trans (if_pos hCut)) (.nil false)
              · obtain ⟨hSteps, hActive⟩ := not_or.mp hCut
                have hNodes := inTurn_logs (ih levels (Nat.lt_succ_self levels)) (order left right)
                refine .congr ((withBook_succ hGlance levels).trans (if_neg hCut)) ?_
                refine (Journal.Logs.visit (fun _ => rfl) (fun _ _ => rfl) (Nat.not_le.mp hSteps) hActive
                  (new_of_glance hGlance).2 (hNodes _)).imp ?_
                rintro _ equal ⟨inner, hInner, rfl⟩
                exact hInner.visit pair

end Recorded

end Comparing

namespace Hashing

/-- A hashing in progress, with a journal. -/
abbrev Recorded := StateM (Journal HashWalk NodeId)

namespace Recorded

/-- The book of a hashing, with a journal. -/
def book : Book (Journal HashWalk NodeId) HashWalk NodeId NodeHash :=
  Journal.book HashWalk.book NodeHash.complete

/-- Hashes a slot with the given number of levels left. -/
def within (arena : Arena) (limits : Limits) : Nat → Option NodeId → Recorded NodeHash :=
  withBook book arena limits

variable {hash : Option NodeId → Recorded NodeHash} {plain : Option NodeId → Hashing NodeHash}
  {journal : Journal HashWalk NodeId} {slot : Option NodeId} {id : NodeId} {node : Node}

/-! ### The same hashes -/

theorem parts_follows (hHash : ∀ slot, Journal.Follows (fun _ => True) (hash slot) (plain slot))
    (pieces : List HashPart) (digest : Digest) (complete : Bool) :
    Journal.Follows (fun _ => True) (parts hash digest complete pieces)
      (Hashing.parts plain digest complete pieces) := by
  induction pieces generalizing digest complete with
  | nil => exact .pure _
  | cons piece rest ih =>
      cases piece with
      | word value =>
          rw [parts, parts_word]
          exact ih (digest.add value) complete
      | child slot =>
          intro journal
          obtain ⟨hFound, hWalk⟩ := hHash slot journal
          rw [parts_child, Hashing.parts_child, ← hFound, ← hWalk trivial]
          exact ih _ _ _

theorem within_follows (levels : Nat) (slot : Option NodeId) :
    Journal.Follows (fun _ => True) (within arena limits levels slot) (Hashing.within arena limits levels slot) := by
  induction levels using Nat.strongRecOn generalizing slot with
  | _ levels ih =>
      intro journal
      cases hGlance : glance arena journal.walk slot with
      | settled found =>
          rw [within, withBook_of_settled hGlance, Hashing.within_of_settled hGlance]
          exact ⟨rfl, fun _ => rfl⟩
      | undecided id node =>
          cases levels with
          | zero =>
              rw [within, withBook_zero hGlance, Hashing.within_zero hGlance]
              exact ⟨rfl, fun _ => rfl⟩
          | succ levels =>
              by_cases hCut : limits.resolutionSteps ≤ journal.walk.steps ∨ id ∈ journal.walk.active
              · rw [within, (withBook_succ hGlance levels).trans (if_pos hCut), Hashing.within_succ hGlance,
                  if_pos hCut]
                exact ⟨rfl, fun _ => rfl⟩
              · rw [within, (withBook_succ hGlance levels).trans (if_neg hCut), Hashing.within_succ hGlance,
                  if_neg hCut]
                exact Journal.Follows.visit (parts_follows (ih levels (Nat.lt_succ_self levels)) _ _ _) journal

/-! ### What the journal shows -/

theorem parts_logs (hHash : ∀ slot journal,
      Journal.Logs HashWalk.ledger limits.resolutionSteps (hash slot) (fun _ _ => True) journal)
    (pieces : List HashPart) (digest : Digest) (complete : Bool) (journal : Journal HashWalk NodeId) :
    Journal.Logs HashWalk.ledger limits.resolutionSteps (parts hash digest complete pieces) (fun _ _ => True)
      journal := by
  induction pieces generalizing digest complete journal with
  | nil => exact .idle rfl trivial
  | cons piece rest ih =>
      cases piece with
      | word value => exact ih (digest.add value) complete journal
      | child slot =>
          exact (hHash slot journal).trans (parts_child digest complete slot rest journal) (ih _ _ _)
            fun _ _ _ _ _ => trivial

/-- By induction on the levels. A node is only entered if it is neither active nor hashed in full, and if there are
steps left. -/
theorem within_logs (levels : Nat) (slot : Option NodeId) (journal : Journal HashWalk NodeId) :
    Journal.Logs HashWalk.ledger limits.resolutionSteps (within arena limits levels slot) (fun _ _ => True)
      journal := by
  induction levels using Nat.strongRecOn generalizing slot journal with
  | _ levels ih =>
      cases hGlance : glance arena journal.walk slot with
      | settled found => exact .idle (withBook_of_settled hGlance levels) trivial
      | undecided id node =>
          cases levels with
          | zero => exact .idle (withBook_zero hGlance) trivial
          | succ levels =>
              by_cases hCut : limits.resolutionSteps ≤ journal.walk.steps ∨ id ∈ journal.walk.active
              · exact .idle ((withBook_succ hGlance levels).trans (if_pos hCut)) trivial
              · obtain ⟨hSteps, hActive⟩ := not_or.mp hCut
                have hParts := parts_logs (ih levels (Nat.lt_succ_self levels)) node.hashParts node.tagDigest true
                refine .congr ((withBook_succ hGlance levels).trans (if_neg hCut)) ?_
                exact (Journal.Logs.visit (fun _ => rfl) (fun walk found => walk.ledger_leave id found)
                  (Nat.not_le.mp hSteps) hActive (HashWalk.not_mem_kept (resolve?_of_glance hGlance).2)
                  (hParts _)).imp fun _ _ _ => trivial

end Recorded

end Hashing

namespace Arena

/-- A comparison of two slots from its start, with a journal. Two nodes are compared in the given order. -/
def comparison (arena : Arena) (order : Node → Node → List Check) (limits : Limits) (a b : Option NodeId) :
    Bool × Journal PairWalk (NodeId × NodeId) :=
  Comparing.Recorded.within order arena limits limits.formatDepth a b ⟨.start, []⟩

/-- A hashing of a slot from its start, with a journal. -/
def hashing (arena : Arena) (limits : Limits) (slot : Option NodeId) : NodeHash × Journal HashWalk NodeId :=
  Hashing.Recorded.within arena limits limits.formatDepth slot ⟨.start, []⟩

variable (arena limits)

/-- Field by field, a comparison gives the same answer as with the label first. -/
theorem comparison_checks (a b : Option NodeId) :
    (arena.comparison Node.checks limits a b).1 = arena.structurallyEqual limits a b :=
  (Comparing.Recorded.within_follows Comparing.Recorded.follows_nodes_checks _ a b _).1

/-- With the label first, the journal is all that is added. -/
theorem comparison_labelFirst (a b : Option NodeId) :
    ((arena.comparison Node.labelFirst limits a b).1, (arena.comparison Node.labelFirst limits a b).2.walk) =
      Comparing.within arena limits limits.formatDepth a b .start := by
  obtain ⟨hEqual, hWalk⟩ := Comparing.Recorded.within_follows Comparing.Recorded.follows_nodes_labelFirst
    limits.formatDepth a b (⟨.start, []⟩ : Journal PairWalk (NodeId × NodeId))
  exact Prod.ext hEqual (hWalk trivial)

theorem hashing_within (slot : Option NodeId) :
    ((arena.hashing limits slot).1, (arena.hashing limits slot).2.walk) =
      Hashing.within arena limits limits.formatDepth slot .start := by
  obtain ⟨hFound, hWalk⟩ := Hashing.Recorded.within_follows limits.formatDepth slot
    (⟨.start, []⟩ : Journal HashWalk NodeId)
  exact Prod.ext hFound (hWalk trivial)

/-- Whatever the order in which the fields and types of two nodes are compared, no pair is entered twice, no more pairs
are entered than the limit says, and all are left in the end. A hashing enters nodes no more often than the limit says
and none again whose hash was complete, and it leaves all of them. -/
theorem walks_keep_book :
    (∀ order a b,
      (entries (arena.comparison order limits a b).2.events).Nodup ∧
        (entries (arena.comparison order limits a b).2.events).length ≤ limits.resolutionSteps ∧
        (arena.comparison order limits a b).2.events.foldl Ledger.after PairWalk.start.ledger =
          (arena.comparison order limits a b).2.walk.ledger ∧
        (arena.comparison order limits a b).2.walk.active = []) ∧
    (∀ a b,
      (arena.comparison Node.checks limits a b).1 = arena.structurallyEqual limits a b ∧
        ((arena.comparison Node.labelFirst limits a b).1, (arena.comparison Node.labelFirst limits a b).2.walk) =
          Comparing.within arena limits limits.formatDepth a b .start) ∧
    ∀ slot,
      (entries (arena.hashing limits slot).2.events).length ≤ limits.resolutionSteps ∧
        (arena.hashing limits slot).2.events.Pairwise Bars ∧
        (arena.hashing limits slot).2.events.foldl Ledger.after HashWalk.start.ledger =
          (arena.hashing limits slot).2.walk.ledger ∧
        (arena.hashing limits slot).2.walk.active = [] ∧
        ((arena.hashing limits slot).1, (arena.hashing limits slot).2.walk) =
          Hashing.within arena limits limits.formatDepth slot .start := by
  refine ⟨fun order a b => ?_, fun a b => ⟨comparison_checks arena limits a b, comparison_labelFirst arena limits a b⟩,
    fun slot => ?_⟩
  · obtain ⟨hRuns, hConcluded⟩ := (Comparing.Recorded.within_logs limits.formatDepth a b ⟨.start, []⟩).of_empty
    have hCloses := (hRuns.pairwise_bars.and hConcluded.stops).imp fun hBars => hBars.1.closes hBars.2
    exact ⟨hRuns.nodup_entries hCloses, hRuns.entries_le rfl, hRuns.foldl_after, hRuns.active_eq⟩
  · obtain ⟨hRuns, -⟩ := (Hashing.Recorded.within_logs limits.formatDepth slot ⟨.start, []⟩).of_empty
    exact ⟨hRuns.entries_le rfl, hRuns.pairwise_bars, hRuns.foldl_after, hRuns.active_eq,
      hashing_within arena limits slot⟩

/-- On a cycle, a node whose hash was cut short is entered once for each way to it. -/
def pointerToArguments : Arena :=
  ⟨#[.genericInst none [⟨1⟩, ⟨1⟩], .wrapper .pointer (some ⟨0⟩)]⟩

example : entries (pointerToArguments.hashing .standard (some ⟨0⟩)).2.events = [⟨0⟩, ⟨1⟩, ⟨1⟩] := by decide

end Arena

end CliSignature
