import CliSignature.Proofs.Registry.Filing
import Mathlib.Logic.Basic

/-!
Rows that are given out automatically. The next row of a table lies behind all rows that are taken, so
it is fresh as long as there is one. Placing an entry at the very last row of a table leaves none, and
the next addition goes to the null row.
-/

namespace CliSignature

namespace Registry

/-- Whether something holds of each addition of a sequence of changes, in the registry to which the
entry is added. -/
def EachAddition (holds : Registry → TypeEntry → Prop) : Registry → List Change → Prop
  | _, [] => True
  | registry, change :: rest =>
    (∀ entry, change = .add entry → holds registry entry) ∧
      EachAddition holds (registry.apply change) rest

/-- The token that is given out has a row, was not registered before, and no entry that was registered
before is changed. -/
def AddsFresh (registry : Registry) (entry : TypeEntry) : Prop :=
  (registry.add entry).1.row ≠ 0 ∧ registry.type? (registry.add entry).1 = none ∧
    ∀ token held, registry.type? token = some held →
      (registry.add entry).2.type? token = some held

/-- No table goes on further than behind its last row. -/
def WithinRows (registry : Registry) : Prop :=
  ∀ table, registry.nextRows.get table ≤ Token.rowLimit

theorem withinRows_empty : empty.WithinRows := by
  intro table
  cases table <;> decide

theorem WithinRows.placed {registry : Registry} (hWithin : registry.WithinRows) {token : Token} {entry : TypeEntry}
    {next : Nat} (hNext : next ≤ Token.rowLimit) : (registry.placed token entry next).WithinRows := by
  intro table
  by_cases hSameTable : table = entry.table
  · subst hSameTable
    simpa [Registry.placed] using hNext
  · simpa [Registry.placed, NextRows.get_set_of_ne _ _ hSameTable] using hWithin table

/-- A change goes no further than behind the last row, as long as there is room for what is added. -/
theorem WithinRows.apply {registry : Registry} (hWithin : registry.WithinRows) (hFiled : registry.Filed)
    {change : Change} (hRoom : ∀ entry, change = .add entry → registry.HasRoom entry) :
    (registry.apply change).WithinRows := by
  obtain hSame | ⟨entry, hChange, hAdd⟩ | ⟨token, entry, -, hPlaced⟩ | ⟨token, -, signature, -, hReplaced⟩ :=
    registry.apply_cases change
  · rwa [hSame]
  · rw [hAdd, add_eq]
    exact hWithin.placed ((hFiled.hasRoom_iff entry).mp (hRoom entry hChange))
  · rw [hPlaced]
    have hLimit : token.row < Token.rowLimit := Nat.mod_lt _ (by decide)
    exact hWithin.placed (Nat.max_le.mpr ⟨hWithin entry.table, hLimit⟩)
  · rw [hReplaced]
    exact hWithin

/-- An addition is fresh if and only if there is room for it. -/
theorem Filed.addsFresh_iff {registry : Registry} (hFiled : registry.Filed) (hWithin : registry.WithinRows)
    (entry : TypeEntry) : registry.AddsFresh entry ↔ registry.HasRoom entry := by
  constructor
  · rintro ⟨hRow, -⟩
    by_contra hTaken
    have hNext : registry.nextRows.get entry.table = Token.rowLimit :=
      Nat.le_antisymm (hWithin entry.table) ((hFiled.counted entry.table).full hTaken)
    rw [add_eq, hNext, Token.row_ofRow, Nat.mod_self] at hRow
    exact hRow rfl
  · intro hRoom
    have hPositive := (hFiled.counted entry.table).positive
    have hRow := hFiled.row_add hRoom
    have hNew : registry.type? (registry.add entry).1 = none := by
      refine Option.eq_none_iff_forall_ne_some.mpr fun held hHeld => ?_
      have hTable := hFiled.kinds _ held hHeld
      rw [add_eq, Token.table_ofRow] at hTable
      exact Nat.lt_irrefl _ (hFiled.row_lt_add hRoom hHeld (TypeTable.code_injective hTable).symm)
    refine ⟨by omega, hNew, fun token held hHeld => ?_⟩
    have hOther : token ≠ (registry.add entry).1 := by
      rintro rfl
      rw [hNew] at hHeld
      cases hHeld
    exact (type?_placed_of_ne hOther).trans hHeld

/-- By induction on the changes. The first addition for which there is no room is not fresh, and up to
it no counter has gone past the last row. -/
theorem Filed.eachAddition_iff {registry : Registry} (hFiled : registry.Filed) (hWithin : registry.WithinRows)
    (changes : List Change) :
    EachAddition AddsFresh registry changes ↔ EachAddition HasRoom registry changes := by
  induction changes generalizing registry with
  | nil => exact Iff.rfl
  | cons change rest ih =>
      have hFirst : (∀ entry, change = .add entry → registry.AddsFresh entry) ↔
          ∀ entry, change = .add entry → registry.HasRoom entry :=
        forall₂_congr fun entry _ => hFiled.addsFresh_iff hWithin entry
      rw [EachAddition, EachAddition, hFirst]
      exact and_congr_right fun hRoom => ih (hFiled.apply change) (hWithin.apply hFiled hRoom)

/-- In every sequence of changes of a new registry, all additions are fresh if and only if none is made
to a table whose last row is taken. -/
theorem addsFresh_iff_hasRoom (changes : List Change) :
    EachAddition AddsFresh empty changes ↔ EachAddition HasRoom empty changes :=
  filed_empty.eachAddition_iff withinRows_empty changes

/-- The number of entries in a table. -/
def entryCount (registry : Registry) (table : TypeTable) : Nat :=
  registry.types.countP fun item => item.2.table == table

/-- An entry at the last row leaves the null row for the next one, however few there are. -/
theorem not_addsFresh_behind_last :
    ¬ ∀ changes : List Change,
      (∀ made, made <+: changes → ∀ table, (made.foldl apply empty).entryCount table < Token.rowLimit - 1) →
      EachAddition AddsFresh empty changes := by
  intro hFresh
  have hFew : ∀ made : List Change,
      made <+: [.insert (.ofRow .specification (Token.rowLimit - 1)) (.specification none),
        .add (.specification none)] →
      ∀ table, (made.foldl apply empty).entryCount table < Token.rowLimit - 1 := by
    intro made hMade table
    simp only [List.prefix_cons_iff, List.prefix_nil] at hMade
    obtain rfl | ⟨_, rfl, rfl | ⟨_, rfl, rfl⟩⟩ := hMade <;> cases table <;> decide
  exact (hFresh _ hFew).2.1 _ rfl |>.1 (by decide)

end Registry

end CliSignature
