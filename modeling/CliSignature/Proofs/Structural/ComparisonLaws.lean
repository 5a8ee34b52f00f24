import CliSignature.Proofs.Structural.Steps
import Mathlib.Data.List.Basic
import Mathlib.Data.Prod.Basic

/-!
Laws of the comparison, which hold wherever it is cut. It does not matter which of two slots comes first: the
walk the other way round passes the same pairs, each of them turned. And once two slots are found equal, no
limit has had a part in it, so larger limits change nothing.
-/

namespace CliSignature

variable {arena : Arena} {limits wider : Limits}

/-- The walk with all pairs turned. -/
def PairWalk.mirror (walk : PairWalk) : PairWalk where
  proven := walk.proven.map Prod.swap
  active := walk.active.map Prod.swap
  steps := walk.steps

namespace PairWalk

variable (walk : PairWalk) (pair : NodeId × NodeId)

theorem mem_map_swap {pairs : List (NodeId × NodeId)} : pair.swap ∈ pairs.map Prod.swap ↔ pair ∈ pairs :=
  List.mem_map_of_injective Prod.swap_injective

theorem mirror_enter : (walk.enter pair).mirror = walk.mirror.enter pair.swap := rfl

theorem mirror_leave (equal : Bool) : (walk.leave pair equal).mirror = walk.mirror.leave pair.swap equal := by
  simp only [mirror, leave, List.map_erase Prod.swap_injective, PairWalk.mk.injEq, and_true]
  split <;> rfl

end PairWalk

namespace Comparing

variable {slots slots' : Option NodeId → Option NodeId → Comparing Bool}

/-! ### Turned around -/

/-- What can be said of two slots the other way round. -/
def Glance.mirror : Glance → Glance
  | settled equal => settled equal
  | undecided pair left right => undecided pair.swap right left

theorem glance_mirror (walk : PairWalk) (a b : Option NodeId) :
    glance arena walk.mirror b a = (glance arena walk a b).mirror := by
  unfold glance
  cases arena.resolve? a with
  | none => cases arena.resolve? b <;> rfl
  | some first =>
      cases arena.resolve? b with
      | none => rfl
      | some second =>
          have hKnown : (second.1 = first.1 ∨ (second.1, first.1) ∈ walk.mirror.proven) ↔
              (first.1 = second.1 ∨ (first.1, second.1) ∈ walk.proven) :=
            or_congr eq_comm (PairWalk.mem_map_swap (first.1, second.1))
          simp only [hKnown]
          split <;> rfl

/-- The second comparison gives the same as the first in a turned walk, which it leaves turned. -/
def Mirrors (comparing turned : Comparing Bool) : Prop :=
  ∀ walk, turned walk.mirror = ((comparing walk).1, (comparing walk).2.mirror)

theorem children_mirrors (hSlots : ∀ a b, Mirrors (slots a b) (slots b a)) (as bs : List (Option NodeId)) :
    Mirrors (children slots as bs) (children slots bs as) := by
  induction as generalizing bs with
  | nil => cases bs <;> exact fun walk => rfl
  | cons a as ih =>
      cases bs with
      | nil => exact fun walk => rfl
      | cons b bs =>
          intro walk
          rw [children_cons, children_cons, hSlots a b walk]
          split
          case isTrue => exact ih bs _
          case isFalse => rfl

theorem into_mirrors (hSlots : ∀ a b, Mirrors (slots a b) (slots b a)) (pair : NodeId × NodeId)
    (left right : Node) : Mirrors (into slots pair left right) (into slots pair.swap right left) := by
  have hNodes : Mirrors (nodes slots left right) (nodes slots right left) := by
    unfold nodes
    by_cases hLabel : left.label = right.label
    · rw [if_pos hLabel, if_pos hLabel.symm]
      exact children_mirrors hSlots _ _
    · rw [if_neg hLabel, if_neg (Ne.symm hLabel)]
      exact fun walk => rfl
  intro walk
  rw [into_run, into_run, ← PairWalk.mirror_enter, hNodes, PairWalk.mirror_leave]

/-- By induction on the levels. -/
theorem within_mirrors (levels : Nat) (a b : Option NodeId) :
    Mirrors (within arena limits levels a b) (within arena limits levels b a) := by
  induction levels using Nat.strongRecOn generalizing a b with
  | _ levels ih =>
      intro walk
      have hTurned : glance arena walk.mirror b a = (glance arena walk a b).mirror := glance_mirror walk a b
      cases hGlance : glance arena walk a b with
      | settled equal =>
          rw [hGlance] at hTurned
          rw [within_of_settled hGlance, within_of_settled hTurned]
      | undecided pair left right =>
          rw [hGlance] at hTurned
          cases levels with
          | zero => rw [within_zero hGlance, within_zero hTurned]
          | succ levels =>
              have hCut : (limits.resolutionSteps ≤ walk.mirror.steps ∨ pair.swap ∈ walk.mirror.active) ↔
                  (limits.resolutionSteps ≤ walk.steps ∨ pair ∈ walk.active) :=
                or_congr .rfl (PairWalk.mem_map_swap pair)
              rw [within_succ hGlance, within_succ hTurned]
              simp only [hCut]
              split
              case isTrue => rfl
              case isFalse => exact into_mirrors (ih levels (Nat.lt_succ_self levels)) pair left right walk

/-! ### With larger limits -/

/-- Where the first comparison finds equality, the second does the same. -/
def Confirms (comparing other : Comparing Bool) : Prop :=
  ∀ walk, (comparing walk).1 = true → other walk = comparing walk

theorem children_confirms (hSlots : ∀ a b, Confirms (slots a b) (slots' a b)) (as bs : List (Option NodeId)) :
    Confirms (children slots as bs) (children slots' as bs) := by
  induction as generalizing bs with
  | nil => cases bs <;> exact fun walk _ => rfl
  | cons a as ih =>
      cases bs with
      | nil => exact fun walk _ => rfl
      | cons b bs =>
          intro walk hEqual
          rw [children_cons] at hEqual
          split at hEqual
          case isTrue hHead =>
            rw [children_cons, children_cons, hSlots a b walk hHead, if_pos hHead, if_pos hHead]
            exact ih bs _ hEqual
          case isFalse => cases hEqual

theorem into_confirms (hSlots : ∀ a b, Confirms (slots a b) (slots' a b)) (pair : NodeId × NodeId)
    (left right : Node) : Confirms (into slots pair left right) (into slots' pair left right) := by
  have hNodes : Confirms (nodes slots left right) (nodes slots' left right) := by
    unfold nodes
    split
    case isTrue => exact children_confirms hSlots _ _
    case isFalse => exact fun walk _ => rfl
  intro walk hEqual
  rw [into_fst] at hEqual
  rw [into_run, into_run, hNodes _ hEqual]

/-- By induction on the levels. A comparison that finds equality is never cut, at no pair on its way. -/
theorem within_confirms (hSteps : limits.resolutionSteps ≤ wider.resolutionSteps) {levels more : Nat}
    (hLevels : levels ≤ more) (a b : Option NodeId) :
    Confirms (within arena limits levels a b) (within arena wider more a b) := by
  induction levels using Nat.strongRecOn generalizing more a b with
  | _ levels ih =>
      intro walk hEqual
      cases hGlance : glance arena walk a b with
      | settled equal => rw [within_of_settled hGlance, within_of_settled hGlance]
      | undecided pair left right =>
          cases levels with
          | zero =>
              rw [within_zero hGlance] at hEqual
              cases hEqual
          | succ levels =>
              obtain ⟨others, rfl⟩ := Nat.exists_eq_succ_of_ne_zero (Nat.ne_zero_of_lt hLevels)
              rw [within_succ hGlance] at hEqual
              split at hEqual
              case isTrue => cases hEqual
              case isFalse hUncut =>
                obtain ⟨hLeft, hActive⟩ := not_or.mp hUncut
                have hBelow := Nat.not_le.mp hLeft
                rw [within_of_undecided hGlance hBelow hActive,
                  within_of_undecided hGlance (Nat.lt_of_lt_of_le hBelow hSteps) hActive]
                exact into_confirms (ih levels (Nat.lt_succ_self levels) (Nat.le_of_succ_le_succ hLevels))
                  pair left right walk hEqual

end Comparing

namespace Arena

variable (arena : Arena) (limits : Limits)

/-- The comparison is reflexive and symmetric, whatever the limits are and whatever is shared, dangles or
refers back to itself. What is found equal stays so with larger limits. -/
theorem structurallyEqual_laws :
    (∀ a, arena.structurallyEqual limits a a = true) ∧
    (∀ a b, arena.structurallyEqual limits a b = arena.structurallyEqual limits b a) ∧
    ∀ (wider : Limits) (a b : Option NodeId), limits.formatDepth ≤ wider.formatDepth →
      limits.resolutionSteps ≤ wider.resolutionSteps →
      arena.structurallyEqual limits a b = true → arena.structurallyEqual wider a b = true := by
  refine ⟨fun a => ?_, fun a b => ?_, fun wider a b hDepth hSteps hEqual => ?_⟩
  · rw [structurallyEqual, Comparing.within_of_settled (Comparing.glance_self _ a)]
  · exact (congrArg Prod.fst (Comparing.within_mirrors limits.formatDepth a b .start)).symm
  · have hSame := Comparing.within_confirms hSteps hDepth a b .start hEqual
    rw [structurallyEqual, hSame]
    exact hEqual

end Arena

end CliSignature
