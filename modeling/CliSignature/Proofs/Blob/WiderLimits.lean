import CliSignature.Proofs.Blob.ReaderDepth

/-!
One blob read under two limits, of which the second are no tighter. Both readings do the same until the first one
meets a limit, and then it fails with the error of that limit. So limits cut what is read and never change it.
-/

namespace CliSignature

/-- Whether the limits allow all that the others do. Only what bounds a decoding counts. -/
structure Limits.Widens (wider limits : Limits) : Prop where
  decodeDepth : limits.decodeDepth ≤ wider.decodeDepth
  arrayRank : limits.arrayRank ≤ wider.arrayRank

/-- The errors with which a decoding stops at its limits. -/
inductive DecodeError.AtLimit (limits : Limits) : DecodeError → Prop where
  | recursion : AtLimit limits (.recursionLimit limits.decodeDepth)
  | rank {rank : Nat} (hAbove : limits.arrayRank < rank) : AtLimit limits (.rankLimit rank limits.arrayRank)

namespace Read

variable {α : Type} {limits wider : Limits}

/-- What the first of two readings does next to the second one: the same, or it fails at its limits. -/
inductive CutResult (limits : Limits) (V : α → α → Prop) :
    EStateM.Result DecodeError Reader α → EStateM.Result DecodeError Reader α → Prop where
  | ok {value value' : α} {after : Reader} (hValues : V value value') :
      CutResult limits V (.ok value after) (.ok value' after)
  | error (error : DecodeError) (after : Reader) : CutResult limits V (.error error after) (.error error after)
  | cut {error : DecodeError} {after : Reader} (hLimit : error.AtLimit limits)
      (result : EStateM.Result DecodeError Reader α) : CutResult limits V (.error error after) result

/-- From every reader the first reading does what the second one does, or fails at its limits. -/
def Cuts (limits : Limits) (V : α → α → Prop) (reading reading' : Read α) : Prop :=
  ∀ before, CutResult limits V (reading before) (reading' before)

namespace Cuts

/-- What is read at a place of the blob depends on no limit. -/
theorem scan (bytes : Scan α) : Cuts limits Eq (scan bytes) (scan bytes) := by
  intro before
  cases hRead : Read.scan bytes before with
  | ok value after => exact .ok rfl
  | error error after => exact .error error after

theorem congruence : Congruence Eq fun {_} => Cuts limits where
  pure hValues _ := .ok hValues
  bind {α β V W reading reading' next next'} hFirst hNext before := by
    have hResults := hFirst before
    simp only [Bind.bind, EStateM.bind]
    generalize reading before = result at hResults
    generalize reading' before = result' at hResults
    cases hResults with
    | ok hValues => exact hNext _ _ hValues _
    | error error after => exact .error error after
    | cut hLimit => exact .cut hLimit _
  throw error _ before := .error error before
  absent role before := .error (.absentElement role before.cursor.offset) before
  byte := scan _
  peek := scan _
  remaining := scan _
  add hNodes before := by
    rw [rel_eq] at hNodes
    obtain rfl := hNodes.eq fun _ _ => id
    exact .ok rfl

/-- The rank is the only part of a shape that limits judge, and it comes first. -/
theorem shape (hRank : limits.arrayRank ≤ wider.arrayRank) :
    Cuts limits Eq (shape limits) (shape wider) := by
  rw [shape_eq, shape_eq]
  refine congruence.bindEq congruence.unsigned fun rank => ?_
  by_cases hAbove : limits.arrayRank < rank.toNat
  · rw [if_pos hAbove]
    exact fun before => .cut (.rank hAbove) _
  · rw [if_neg hAbove, if_neg (Nat.not_lt.mpr (Nat.le_trans (Nat.not_lt.mp hAbove) hRank))]
    exact congruence.bindEq (congruence.dimensions congruence.unsigned rank fun _ => nofun) fun _ =>
      congruence.bindEq (congruence.dimensions congruence.signed rank fun _ => nofun) fun _ => congruence.pure rfl

/-- By induction on the levels that the first reading has left. The second one has at least as many. -/
theorem typeWithin (core : CoreTypes) (hRank : limits.arrayRank ≤ wider.arrayRank) {left others : Nat}
    (hLeft : left ≤ others) :
    Cuts limits Eq (typeWithin ⟨limits, core⟩ left) (typeWithin ⟨wider, core⟩ others) := by
  induction left generalizing others with
  | zero => exact fun before => .cut .recursion _
  | succ left ih =>
      obtain ⟨fewer, rfl⟩ : ∃ fewer, others = fewer + 1 := ⟨others - 1, by omega⟩
      have hType := ih (Nat.le_of_succ_le_succ hLeft)
      rw [← rel_eq] at hType ⊢
      exact congruence.typeBody hType rfl (fun _ => rfl) (shape hRank)

/-- Levels that are held count for both readings. -/
theorem typeFrom (core : CoreTypes) (hWider : wider.Widens limits) :
    Cuts limits Eq (typeFrom ⟨limits, core⟩) (typeFrom ⟨wider, core⟩) := by
  intro before
  have hLeft : limits.decodeDepth - before.heldLevels ≤ wider.decodeDepth - before.heldLevels :=
    Nat.sub_le_sub_right hWider.decodeDepth _
  exact typeWithin core hWider.arrayRank hLeft before

end Cuts

end Read

namespace Entry

/-- Limits only cut, they never change. What is decoded under some limits is decoded under wider ones, with the same
result, the same nodes added and the same bytes consumed. And what is decoded under the wider limits is decoded
in the same way under the tighter ones, or fails there with the error of the limit that was met. -/
theorem read_of_wider (entry : Entry) {limits wider : Limits} (hWider : wider.Widens limits) (core : CoreTypes)
    (before : Reader) :
    (∀ decoded after, entry.read ⟨limits, core⟩ before = .ok decoded after →
      entry.read ⟨wider, core⟩ before = .ok decoded after) ∧
    ∀ decoded after, entry.read ⟨wider, core⟩ before = .ok decoded after →
      entry.read ⟨limits, core⟩ before = .ok decoded after ∨
        ∃ error reader, entry.read ⟨limits, core⟩ before = .error error reader ∧ error.AtLimit limits := by
  have hCuts := entry.readWith_related Read.Cuts.congruence (Read.Cuts.typeFrom core hWider) before
  rw [readWith_typeFrom, readWith_typeFrom] at hCuts
  generalize entry.read ⟨limits, core⟩ before = result at hCuts
  generalize entry.read ⟨wider, core⟩ before = result' at hCuts
  cases hCuts with
  | ok hValues =>
      obtain rfl := hValues
      exact ⟨fun _ _ => id, fun _ _ => .inl⟩
  | error error after => exact ⟨nofun, nofun⟩
  | cut hLimit => exact ⟨nofun, fun _ _ _ => .inr ⟨_, _, rfl, hLimit⟩⟩

/-- An array of rank forty, which only the wider of two limits let pass. -/
theorem read_of_wider_rank :
    Limits.standard.Widens .strict ∧ ∃ decoded after error reader,
      Entry.type.read ⟨.standard, (CoreTypes.create ⟨0⟩ ⟨0⟩ .empty .empty).1⟩
        (.start (CoreTypes.create ⟨0⟩ ⟨0⟩ .empty .empty).2.1 [0x14, 0x08, 0x28, 0x00, 0x00]) = .ok decoded after ∧
      Entry.type.read ⟨.strict, (CoreTypes.create ⟨0⟩ ⟨0⟩ .empty .empty).1⟩
        (.start (CoreTypes.create ⟨0⟩ ⟨0⟩ .empty .empty).2.1 [0x14, 0x08, 0x28, 0x00, 0x00]) =
          .error error reader ∧
      error.AtLimit .strict := by
  have hWider : Limits.standard.Widens .strict := ⟨by decide, by decide⟩
  have hRead : ∃ decoded after, Entry.type.read ⟨.standard, (CoreTypes.create ⟨0⟩ ⟨0⟩ .empty .empty).1⟩
      (.start (CoreTypes.create ⟨0⟩ ⟨0⟩ .empty .empty).2.1 [0x14, 0x08, 0x28, 0x00, 0x00]) =
        .ok decoded after := ⟨_, _, rfl⟩
  have hFails : ∃ error reader, Entry.type.read ⟨.strict, (CoreTypes.create ⟨0⟩ ⟨0⟩ .empty .empty).1⟩
      (.start (CoreTypes.create ⟨0⟩ ⟨0⟩ .empty .empty).2.1 [0x14, 0x08, 0x28, 0x00, 0x00]) =
        .error error reader := ⟨_, _, rfl⟩
  obtain ⟨decoded, after, hRead⟩ := hRead
  obtain ⟨failure, place, hFails⟩ := hFails
  rcases (Entry.type.read_of_wider hWider _ _).2 decoded after hRead with hSame | ⟨error, reader, hCut, hLimit⟩
  · cases hFails.symm.trans hSame
  · exact ⟨hWider, decoded, after, error, reader, hRead, hCut, hLimit⟩

end Entry

end CliSignature
