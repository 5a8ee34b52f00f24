import CliSignature.Structural.Equality
import CliSignature.Structural.Hash

/-!
What one step of a walk does. A slot is settled at a glance, cut off, or looked into.
-/

namespace CliSignature

variable {arena : Arena} {limits : Limits}

namespace Comparing

variable {slots : Option NodeId → Option NodeId → Comparing Bool} {levels : Nat} {walk : PairWalk}
  {a b : Option NodeId} {pair : NodeId × NodeId} {left right : Node}

theorem resolve?_of_glance (hGlance : glance arena walk a b = .undecided pair left right) :
    arena.resolve? a = some (pair.1, left) ∧ arena.resolve? b = some (pair.2, right) := by
  unfold glance at hGlance
  split at hGlance
  case h_1 => cases hGlance
  case h_2 x left' y right' hFirst hSecond =>
    split at hGlance
    case isTrue => cases hGlance
    case isFalse =>
      cases hGlance
      exact ⟨hFirst, hSecond⟩
  case h_3 => cases hGlance

/-- A pair that is not settled consists of different handles and was not found equal before. -/
theorem new_of_glance (hGlance : glance arena walk a b = .undecided pair left right) :
    pair.1 ≠ pair.2 ∧ pair ∉ walk.proven := by
  unfold glance at hGlance
  split at hGlance
  case h_1 => cases hGlance
  case h_2 =>
    split at hGlance
    case isTrue => cases hGlance
    case isFalse hNew =>
      cases hGlance
      exact not_or.mp hNew
  case h_3 => cases hGlance

/-- Only an absent type and a node differ at a glance. -/
theorem of_glance_false (hGlance : glance arena walk a b = .settled false) :
    (arena.resolve? a = none ∧ arena.resolve? b ≠ none) ∨
      (arena.resolve? a ≠ none ∧ arena.resolve? b = none) := by
  unfold glance at hGlance
  split at hGlance
  case h_1 => cases hGlance
  case h_2 => split at hGlance <;> cases hGlance
  case h_3 hAbsent hHeld =>
    cases hFirst : arena.resolve? a with
    | none =>
        refine .inl ⟨rfl, fun hSecond => hAbsent hFirst hSecond⟩
    | some left =>
        refine .inr ⟨nofun, ?_⟩
        cases hSecond : arena.resolve? b with
        | none => rfl
        | some right => exact (hHeld left.1 left.2 right.1 right.2 hFirst hSecond).elim

theorem glance_self (walk : PairWalk) (a : Option NodeId) :
    glance arena walk a a = .settled true := by
  unfold glance
  cases arena.resolve? a with
  | none => rfl
  | some entry => simp

section Book

variable {σ : Type} {book : Book σ PairWalk (NodeId × NodeId) Bool} {state : σ}
  {nodes : (Option NodeId → Option NodeId → StateM σ Bool) → Node → Node → StateM σ Bool}

/-- What is settled at a glance leaves the book as it was, at any level. -/
theorem withBook_of_settled {equal : Bool} (hGlance : glance arena (book.read state) a b = .settled equal)
    (levels : Nat) : withBook book nodes arena limits levels a b state = (equal, state) := by
  change StateT.run (withBook book nodes arena limits levels a b) state = _
  cases levels <;> simp only [withBook, StateT.run_bind, StateT.run_get, pure_bind, hGlance] <;> rfl

theorem withBook_zero (hGlance : glance arena (book.read state) a b = .undecided pair left right) :
    withBook book nodes arena limits 0 a b state = (false, state) := by
  change StateT.run (withBook book nodes arena limits 0 a b) state = _
  simp only [withBook, StateT.run_bind, StateT.run_get, pure_bind, hGlance]
  rfl

theorem withBook_succ (hGlance : glance arena (book.read state) a b = .undecided pair left right) (levels : Nat) :
    withBook book nodes arena limits (levels + 1) a b state =
      if limits.resolutionSteps ≤ (book.read state).steps ∨ pair ∈ (book.read state).active then (false, state)
      else book.visit pair (nodes (withBook book nodes arena limits levels) left right) state := by
  change StateT.run (withBook book nodes arena limits (levels + 1) a b) state = _
  simp only [withBook, StateT.run_bind, StateT.run_get, pure_bind, hGlance]
  split <;> rfl

end Book

theorem within_of_settled {equal : Bool} (hGlance : glance arena walk a b = .settled equal)
    (levels : Nat) : within arena limits levels a b walk = (equal, walk) :=
  withBook_of_settled hGlance levels

theorem within_zero (hGlance : glance arena walk a b = .undecided pair left right) :
    within arena limits 0 a b walk = (false, walk) :=
  withBook_zero hGlance

theorem within_succ (hGlance : glance arena walk a b = .undecided pair left right) (levels : Nat) :
    within arena limits (levels + 1) a b walk =
      if limits.resolutionSteps ≤ walk.steps ∨ pair ∈ walk.active then (false, walk)
      else into (within arena limits levels) pair left right walk :=
  withBook_succ hGlance levels

/-- A pair that is not settled is looked into, as long as there are steps left. -/
theorem within_of_undecided (hGlance : glance arena walk a b = .undecided pair left right)
    (hSteps : walk.steps < limits.resolutionSteps) (hActive : pair ∉ walk.active) (levels : Nat) :
    within arena limits (levels + 1) a b walk =
      into (within arena limits levels) pair left right walk := by
  rw [within_succ hGlance, if_neg (not_or.mpr ⟨Nat.not_le.mpr hSteps, hActive⟩)]

/-- Without levels or steps left, a pair that is not settled counts as different. -/
theorem within_of_exhausted (hGlance : glance arena walk a b = .undecided pair left right)
    (hCut : levels = 0 ∨ limits.resolutionSteps ≤ walk.steps) :
    within arena limits levels a b walk = (false, walk) := by
  cases levels with
  | zero => exact within_zero hGlance
  | succ levels =>
      rw [within_succ hGlance, if_pos (.inl (hCut.resolve_left (Nat.succ_ne_zero _)))]

/-- A pair that is not settled counts as different, or it is looked into with one level less. -/
theorem within_cases (hGlance : glance arena walk a b = .undecided pair left right) (levels : Nat) :
    within arena limits levels a b walk = (false, walk) ∨
      ∃ below, levels = below + 1 ∧
        within arena limits levels a b walk = into (within arena limits below) pair left right walk := by
  cases levels with
  | zero => exact .inl (within_zero hGlance)
  | succ below =>
      rw [within_succ hGlance]
      by_cases hCut : limits.resolutionSteps ≤ walk.steps ∨ pair ∈ walk.active
      · exact .inl (if_pos hCut)
      · exact .inr ⟨below, rfl, if_neg hCut⟩

/-- The walk of the children stands between the way in and the way out. -/
theorem into_run (pair : NodeId × NodeId) (left right : Node) (walk : PairWalk) :
    into slots pair left right walk =
      ((nodes slots left right (walk.enter pair)).1,
        PairWalk.leave (nodes slots left right (walk.enter pair)).2 pair
          (nodes slots left right (walk.enter pair)).1) := rfl

theorem into_fst (pair : NodeId × NodeId) (left right : Node) (walk : PairWalk) :
    (into slots pair left right walk).1 = (nodes slots left right (walk.enter pair)).1 := rfl

theorem children_cons (a b : Option NodeId) (as bs : List (Option NodeId)) (walk : PairWalk) :
    children slots (a :: as) (b :: bs) walk =
      if (slots a b walk).1 then children slots as bs (slots a b walk).2
      else (false, (slots a b walk).2) := by
  have hRun : children slots (a :: as) (b :: bs) walk =
      (if (slots a b walk).1 then children slots as bs else pure false) (slots a b walk).2 := rfl
  rw [hRun]
  split <;> rfl

end Comparing

namespace Hashing

variable {hash : Option NodeId → Hashing NodeHash} {levels : Nat} {walk : HashWalk}
  {slot : Option NodeId} {id : NodeId} {node : Node}

theorem resolve?_of_glance (hGlance : glance arena walk slot = .undecided id node) :
    arena.resolve? slot = some (id, node) ∧ walk.finished.lookup id = none := by
  unfold glance at hGlance
  split at hGlance
  case h_1 => cases hGlance
  case h_2 hNode =>
    split at hGlance
    case h_1 => cases hGlance
    case h_2 hNew =>
      cases hGlance
      exact ⟨hNode, hNew⟩

section Book

variable {σ : Type} {book : Book σ HashWalk NodeId NodeHash} {state : σ}

/-- What is settled at a glance leaves the book as it was, at any level. -/
theorem withBook_of_settled {found : NodeHash} (hGlance : glance arena (book.read state) slot = .settled found)
    (levels : Nat) : withBook book arena limits levels slot state = (found, state) := by
  change StateT.run (withBook book arena limits levels slot) state = _
  cases levels <;> simp only [withBook, StateT.run_bind, StateT.run_get, pure_bind, hGlance] <;> rfl

theorem withBook_zero (hGlance : glance arena (book.read state) slot = .undecided id node) :
    withBook book arena limits 0 slot state = (.truncated node, state) := by
  change StateT.run (withBook book arena limits 0 slot) state = _
  simp only [withBook, StateT.run_bind, StateT.run_get, pure_bind, hGlance]
  rfl

theorem withBook_succ (hGlance : glance arena (book.read state) slot = .undecided id node) (levels : Nat) :
    withBook book arena limits (levels + 1) slot state =
      if limits.resolutionSteps ≤ (book.read state).steps ∨ id ∈ (book.read state).active then
        (.truncated node, state)
      else book.visit id (parts (withBook book arena limits levels) node.tagDigest true node.hashParts) state := by
  change StateT.run (withBook book arena limits (levels + 1) slot) state = _
  simp only [withBook, StateT.run_bind, StateT.run_get, pure_bind, hGlance]
  split <;> rfl

end Book

theorem within_of_settled {found : NodeHash} (hGlance : glance arena walk slot = .settled found)
    (levels : Nat) : within arena limits levels slot walk = (found, walk) :=
  withBook_of_settled hGlance levels

theorem within_zero (hGlance : glance arena walk slot = .undecided id node) :
    within arena limits 0 slot walk = (.truncated node, walk) :=
  withBook_zero hGlance

theorem within_succ (hGlance : glance arena walk slot = .undecided id node) (levels : Nat) :
    within arena limits (levels + 1) slot walk =
      if limits.resolutionSteps ≤ walk.steps ∨ id ∈ walk.active then (.truncated node, walk)
      else into (within arena limits levels) id node walk :=
  withBook_succ hGlance levels

/-- A node that is not settled is looked into, as long as there are steps left. -/
theorem within_of_undecided (hGlance : glance arena walk slot = .undecided id node)
    (hSteps : walk.steps < limits.resolutionSteps) (hActive : id ∉ walk.active) (levels : Nat) :
    within arena limits (levels + 1) slot walk = into (within arena limits levels) id node walk := by
  rw [within_succ hGlance, if_neg (not_or.mpr ⟨Nat.not_le.mpr hSteps, hActive⟩)]

/-- Without levels or steps left, only the sort of a node is hashed. -/
theorem within_of_exhausted (hGlance : glance arena walk slot = .undecided id node)
    (hCut : levels = 0 ∨ limits.resolutionSteps ≤ walk.steps) :
    within arena limits levels slot walk = (.truncated node, walk) := by
  cases levels with
  | zero => exact within_zero hGlance
  | succ levels =>
      rw [within_succ hGlance, if_pos (.inl (hCut.resolve_left (Nat.succ_ne_zero _)))]

/-- A node that is not settled is cut off, or it is looked into with one level less. -/
theorem within_cases (hGlance : glance arena walk slot = .undecided id node) (levels : Nat) :
    within arena limits levels slot walk = (.truncated node, walk) ∨
      ∃ below, levels = below + 1 ∧
        within arena limits levels slot walk = into (within arena limits below) id node walk := by
  cases levels with
  | zero => exact .inl (within_zero hGlance)
  | succ below =>
      rw [within_succ hGlance]
      by_cases hCut : limits.resolutionSteps ≤ walk.steps ∨ id ∈ walk.active
      · exact .inl (if_pos hCut)
      · exact .inr ⟨below, rfl, if_neg hCut⟩

/-- The walk of the children stands between the way in and the way out. -/
theorem into_run (id : NodeId) (node : Node) (walk : HashWalk) :
    into hash id node walk =
      ((parts hash node.tagDigest true node.hashParts (walk.enter id)).1,
        HashWalk.leave (parts hash node.tagDigest true node.hashParts (walk.enter id)).2 id
          (parts hash node.tagDigest true node.hashParts (walk.enter id)).1) := rfl

theorem into_fst (id : NodeId) (node : Node) (walk : HashWalk) :
    (into hash id node walk).1 = (parts hash node.tagDigest true node.hashParts (walk.enter id)).1 := rfl

section Parts

variable {σ : Type} {hash : Option NodeId → StateM σ NodeHash}

theorem parts_child (digest : Digest) (complete : Bool) (slot : Option NodeId) (rest : List HashPart)
    (state : σ) :
    parts hash digest complete (.child slot :: rest) state =
      parts hash (digest.add (hash slot state).1.value) (complete && (hash slot state).1.complete) rest
        (hash slot state).2 := rfl

theorem parts_word (digest : Digest) (complete : Bool) (value : UInt64) (rest : List HashPart) :
    parts hash digest complete (.word value :: rest) =
      parts hash (digest.add value) complete rest := rfl

end Parts

end Hashing

end CliSignature
