import CliSignature.Registry
import Mathlib.Tactic.ByContra

/-!
How a registry files its types. Every entry stands in the table of its kind and the tokens ascend, whatever is
added, placed or refused. The next row of a table lies behind all rows that are taken until the last one is, and
behind the last one from then on.
-/

namespace CliSignature

theorem TypeTable.code_injective {first second : TypeTable} (hCode : first.code = second.code) :
    first = second := by
  cases first <;> cases second <;> first | rfl | exact absurd hCode (by decide)

namespace Token

@[simp] theorem row_ofRow (table : TypeTable) (row : Nat) : (ofRow table row).row = row % rowLimit :=
  row_ofParts _ _

@[simp] theorem table_ofRow (table : TypeTable) (row : Nat) : (ofRow table row).table = table.code :=
  table_ofParts _ _

theorem ofRow_row {token : Token} {table : TypeTable} (hTable : token.table = table.code) :
    ofRow table token.row = token := by
  rw [ofRow, ← hTable, ofParts_table_row]

end Token

/-- A registry that keeps to what comes of a change, and to what it was if nothing does. -/
theorem Registering.getD_outcome (change : Registering Unit) (registry : Registry) :
    (change.outcome registry).toOption.getD registry =
      match change registry with
      | .ok _ after => after
      | .error _ _ => registry := by
  rw [outcome]
  cases change registry <;> rfl

/-- The ways in which the types of a registry can be changed. -/
inductive Registry.Change where
  | add (entry : TypeEntry)
  | insert (token : Token) (entry : TypeEntry)
  | setSignature (token : Token) (signature : Option NodeId)

namespace Registry

/-- The registry after a change, which is the same registry if the change is refused. -/
def apply (registry : Registry) : Change → Registry
  | .add entry => (registry.add entry).2
  | .insert token entry => (registry.insert token entry).toOption.getD registry
  | .setSignature token signature => (registry.setSignature token signature).toOption.getD registry

/-- The last row of the table of an entry is not taken. -/
def HasRoom (registry : Registry) (entry : TypeEntry) : Prop :=
  registry.type? (.ofRow entry.table (Token.rowLimit - 1)) = none

/-- An entry cannot be placed at this token: it names no row, a row of another table, or one that is taken. -/
def Unplaceable (registry : Registry) (token : Token) (entry : TypeEntry) : Prop :=
  token.row = 0 ∨ token.table ≠ entry.table.code ∨ (registry.type? token).isSome

/-- The registry with an entry at a token, where the table of the entry goes on with the given row. -/
def placed (registry : Registry) (token : Token) (entry : TypeEntry) (next : Nat) : Registry :=
  { registry with
    types := TokenTable.insert token entry registry.types
    nextRows := registry.nextRows.set next entry.table }

/-- The registry with an entry in the stead of the one at a token. -/
def replaced (registry : Registry) (token : Token) (entry : TypeEntry) : Registry :=
  { registry with types := TokenTable.insert token entry registry.types }

section Placing

variable {registry : Registry} {token other : Token} {entry held : TypeEntry} {next : Nat}

@[simp] theorem type?_placed_self : (registry.placed token entry next).type? token = some entry :=
  TokenTable.get?_insert_self token entry registry.types

theorem type?_placed_of_ne (hOther : other ≠ token) :
    (registry.placed token entry next).type? other = registry.type? other :=
  TokenTable.get?_insert_of_ne entry registry.types hOther

@[simp] theorem type?_replaced_self : (registry.replaced token entry).type? token = some entry :=
  TokenTable.get?_insert_self token entry registry.types

theorem type?_replaced_of_ne (hOther : other ≠ token) :
    (registry.replaced token entry).type? other = registry.type? other :=
  TokenTable.get?_insert_of_ne entry registry.types hOther

/-- What is held after placing an entry is the entry or was held before. -/
theorem type?_placed_eq_some (hHeld : (registry.placed token entry next).type? other = some held) :
    (other = token ∧ held = entry) ∨ (other ≠ token ∧ registry.type? other = some held) := by
  by_cases hOther : other = token
  · subst hOther
    rw [type?_placed_self] at hHeld
    exact .inl ⟨rfl, (Option.some.inj hHeld).symm⟩
  · rw [type?_placed_of_ne hOther] at hHeld
    exact .inr ⟨hOther, hHeld⟩

theorem type?_placed_eq_none :
    (registry.placed token entry next).type? other = none ↔ other ≠ token ∧ registry.type? other = none := by
  by_cases hOther : other = token
  · simp [hOther]
  · simp [hOther, type?_placed_of_ne hOther]

end Placing

theorem add_eq (registry : Registry) (entry : TypeEntry) :
    registry.add entry = (.ofRow entry.table (registry.nextRows.get entry.table),
      registry.placed (.ofRow entry.table (registry.nextRows.get entry.table)) entry
        (registry.nextRows.get entry.table + 1)) :=
  rfl

/-- All that an insertion can do. It changes nothing before it is refused. -/
theorem insert_cases (registry : Registry) (token : Token) (entry : TypeEntry) :
    (registry.Unplaceable token entry ∧
        Registering.insert token entry registry = .error (.cannotInsert token) registry) ∨
      (¬ registry.Unplaceable token entry ∧
        Registering.insert token entry registry = .ok () (registry.placed token entry
          (max (registry.nextRows.get entry.table) (token.row + 1)))) := by
  by_cases hUnplaceable : token.row = 0 ∨ token.table ≠ entry.table.code ∨ (registry.type? token).isSome
  · refine .inl ⟨hUnplaceable, ?_⟩
    change EStateM.run (Registering.insert token entry) registry = _
    simp only [Registering.insert, EStateM.run_bind, EStateM.run_get, if_pos hUnplaceable, EStateM.run_throw]
  · refine .inr ⟨hUnplaceable, ?_⟩
    change EStateM.run (Registering.insert token entry) registry = _
    simp only [Registering.insert, EStateM.run_bind, EStateM.run_get, if_neg hUnplaceable, EStateM.run_modify]
    rfl

/-- All that setting a signature can do. It changes nothing before it is refused. -/
theorem setSignature_cases (registry : Registry) (token : Token) (signature : Option NodeId) :
    ((¬ ∃ old, registry.type? token = some (.specification old)) ∧
        Registering.setSignature token signature registry = .error (.notASpecification token) registry) ∨
      ∃ old, registry.type? token = some (.specification old) ∧
        Registering.setSignature token signature registry =
          .ok () (registry.replaced token (.specification signature)) := by
  by_cases hTaken : ∃ old, registry.type? token = some (.specification old)
  · obtain ⟨old, hOld⟩ := hTaken
    refine .inr ⟨old, hOld, ?_⟩
    change EStateM.run (Registering.setSignature token signature) registry = _
    simp only [Registering.setSignature, EStateM.run_bind, EStateM.run_get, hOld, EStateM.run_modify]
    rfl
  · refine .inl ⟨hTaken, ?_⟩
    change EStateM.run (Registering.setSignature token signature) registry = _
    simp only [Registering.setSignature, EStateM.run_bind, EStateM.run_get]
    cases hHeld : registry.type? token with
    | none => rfl
    | some held =>
        cases held with
        | specification old => exact absurd ⟨old, hHeld⟩ hTaken
        | definition | reference => rfl

/-- The next row of a table lies behind all rows that are taken, and it is one that a token can name as long as
the last one is not taken. -/
structure Counted (registry : Registry) (table : TypeTable) : Prop where
  positive : 1 ≤ registry.nextRows.get table
  below : registry.type? (.ofRow table (Token.rowLimit - 1)) = none →
    registry.nextRows.get table < Token.rowLimit
  behind : registry.type? (.ofRow table (Token.rowLimit - 1)) = none →
    ∀ token held, registry.type? token = some held → held.table = table →
      token.row < registry.nextRows.get table
  full : registry.type? (.ofRow table (Token.rowLimit - 1)) ≠ none →
    Token.rowLimit ≤ registry.nextRows.get table

namespace Counted

variable {registry after : Registry} {table : TypeTable} {token : Token} {entry : TypeEntry}

/-- A table in which the counter has not moved and no row was taken is counted as before. -/
theorem congr (hCounted : registry.Counted table)
    (hNext : after.nextRows.get table = registry.nextRows.get table)
    (hLast : after.type? (.ofRow table (Token.rowLimit - 1)) = none ↔
      registry.type? (.ofRow table (Token.rowLimit - 1)) = none)
    (hRows : ∀ token held, after.type? token = some held → held.table = table →
      ∃ before, registry.type? token = some before ∧ before.table = table) : after.Counted table := by
  constructor
  case positive =>
    rw [hNext]
    exact hCounted.positive
  case below =>
    intro hFree
    rw [hNext]
    exact hCounted.below (hLast.mp hFree)
  case behind =>
    intro hFree token held hHeld hTable
    obtain ⟨before, hBefore, hSameTable⟩ := hRows token held hHeld hTable
    rw [hNext]
    exact hCounted.behind (hLast.mp hFree) token before hBefore hSameTable
  case full =>
    intro hTaken
    rw [hNext]
    exact hCounted.full fun hFree => hTaken (hLast.mpr hFree)

/-- The table of an entry that is placed, as long as its next row moves behind the entry. -/
theorem placed (hCounted : registry.Counted entry.table) (hTable : token.table = entry.table.code) {next : Nat}
    (hOnward : registry.nextRows.get entry.table ≤ next)
    (hNext : registry.nextRows.get entry.table < Token.rowLimit →
      next = max (registry.nextRows.get entry.table) (token.row + 1)) :
    (registry.placed token entry next).Counted entry.table := by
  have hPositive := hCounted.positive
  have hCounter : (registry.placed token entry next).nextRows.get entry.table = next :=
    NextRows.get_set_self _ _ _
  constructor
  case positive => omega
  case below =>
    intro hFree
    obtain ⟨hNotLast, hFreeBefore⟩ := type?_placed_eq_none.mp hFree
    have hMoved := hNext (hCounted.below hFreeBefore)
    have hRoom := hCounted.below hFreeBefore
    have hRow : token.row ≠ Token.rowLimit - 1 := by
      intro hRow
      rw [← hRow, Token.ofRow_row hTable] at hNotLast
      exact hNotLast rfl
    have hLimit : token.row < Token.rowLimit := Nat.mod_lt _ (by decide)
    omega
  case behind =>
    intro hFree other held hHeld hOfTable
    obtain ⟨-, hFreeBefore⟩ := type?_placed_eq_none.mp hFree
    have hMoved := hNext (hCounted.below hFreeBefore)
    obtain ⟨rfl, rfl⟩ | ⟨-, hBefore⟩ := type?_placed_eq_some hHeld
    · omega
    · have hRow := hCounted.behind hFreeBefore other held hBefore hOfTable
      omega
  case full =>
    intro hTaken
    by_cases hFreeBefore : registry.type? (.ofRow entry.table (Token.rowLimit - 1)) = none
    case neg =>
      have hFull := hCounted.full hFreeBefore
      omega
    case pos =>
      -- The last row is the one that is taken now.
      have hMoved := hNext (hCounted.below hFreeBefore)
      have hLast : Token.ofRow entry.table (Token.rowLimit - 1) = token := by
        by_contra hOther
        exact hTaken (type?_placed_eq_none.mpr ⟨hOther, hFreeBefore⟩)
      have hRow : token.row = Token.rowLimit - 1 := by simp [← hLast]
      omega

/-- The tables of all other entries are counted as before. -/
theorem placed_of_ne (hCounted : registry.Counted table) (hOther : table ≠ entry.table)
    (hTable : token.table = entry.table.code) (next : Nat) : (registry.placed token entry next).Counted table := by
  refine hCounted.congr (NextRows.get_set_of_ne _ _ hOther) ?_ fun other held hHeld hOfTable => ?_
  · have hNotLast : Token.ofRow table (Token.rowLimit - 1) ≠ token := by
      rintro rfl
      exact hOther (TypeTable.code_injective (by simpa using hTable))
    rw [type?_placed_of_ne hNotLast]
  · obtain ⟨rfl, rfl⟩ | ⟨-, hBefore⟩ := type?_placed_eq_some hHeld
    · exact absurd hOfTable.symm hOther
    · exact ⟨held, hBefore, hOfTable⟩

end Counted

/-- Every entry stands in the table of its kind, the tokens ascend, and all tables are counted. -/
structure Filed (registry : Registry) : Prop where
  ascending : TokenTable.Ascending registry.types
  kinds : ∀ token held, registry.type? token = some held → token.table = held.table.code
  counted : ∀ table, registry.Counted table

theorem counted_empty (table : TypeTable) : empty.Counted table where
  positive := by cases table <;> decide
  below _ := by cases table <;> decide
  behind _ token held hHeld := by cases hHeld
  full hTaken := absurd rfl hTaken

theorem filed_empty : empty.Filed where
  ascending := .nil
  kinds token held hHeld := by cases hHeld
  counted := counted_empty

namespace Filed

variable {registry : Registry} {token : Token} {entry : TypeEntry}

theorem hasRoom_iff (hFiled : registry.Filed) (entry : TypeEntry) :
    registry.HasRoom entry ↔ registry.nextRows.get entry.table < Token.rowLimit := by
  constructor
  · exact (hFiled.counted entry.table).below
  · intro hNext
    by_contra hTaken
    exact Nat.not_le.mpr hNext ((hFiled.counted entry.table).full hTaken)

/-- As long as the last row of a table is not taken, the next one is given out as it is. -/
theorem row_add (hFiled : registry.Filed) (hRoom : registry.HasRoom entry) :
    (registry.add entry).1.row = registry.nextRows.get entry.table := by
  rw [add_eq, Token.row_ofRow, Nat.mod_eq_of_lt ((hFiled.hasRoom_iff entry).mp hRoom)]

/-- As long as the last row of a table is not taken, an addition goes behind all rows of the table. -/
theorem row_lt_add (hFiled : registry.Filed) (hRoom : registry.HasRoom entry) {held : TypeEntry}
    (hHeld : registry.type? token = some held) (hTable : held.table = entry.table) :
    token.row < (registry.add entry).1.row := by
  rw [hFiled.row_add hRoom]
  exact (hFiled.counted entry.table).behind hRoom token held hHeld hTable

/-- Placing an entry in its table, at a free row or not, as long as the next row moves behind it. -/
theorem placed (hFiled : registry.Filed) (hTable : token.table = entry.table.code) {next : Nat}
    (hOnward : registry.nextRows.get entry.table ≤ next)
    (hNext : registry.nextRows.get entry.table < Token.rowLimit →
      next = max (registry.nextRows.get entry.table) (token.row + 1)) :
    (registry.placed token entry next).Filed := by
  constructor
  case ascending => exact hFiled.ascending.insert
  case kinds =>
    intro other held hHeld
    obtain ⟨rfl, rfl⟩ | ⟨-, hBefore⟩ := type?_placed_eq_some hHeld
    · exact hTable
    · exact hFiled.kinds other held hBefore
  case counted =>
    intro table
    by_cases hSame : table = entry.table
    · subst hSame
      exact (hFiled.counted entry.table).placed hTable hOnward hNext
    · exact (hFiled.counted table).placed_of_ne hSame hTable next

theorem add (hFiled : registry.Filed) (entry : TypeEntry) : (registry.add entry).2.Filed := by
  refine hFiled.placed (Token.table_ofRow _ _) (Nat.le_succ _) fun hRoom => ?_
  rw [Token.row_ofRow, Nat.mod_eq_of_lt hRoom, Nat.max_eq_right (Nat.le_succ _)]

/-- A signature is set where there is one already, so no row is taken by it. -/
theorem resign (hFiled : registry.Filed) {old : Option NodeId}
    (hOld : registry.type? token = some (.specification old)) (signature : Option NodeId) :
    (registry.replaced token (.specification signature)).Filed := by
  have hSameKind {other : Token} {held : TypeEntry}
      (hHeld : (registry.replaced token (.specification signature)).type? other = some held) :
      ∃ before, registry.type? other = some before ∧ before.table = held.table := by
    by_cases hSame : other = token
    · subst hSame
      obtain rfl : TypeEntry.specification signature = held := by simpa using hHeld
      exact ⟨_, hOld, rfl⟩
    · exact ⟨held, (type?_replaced_of_ne hSame).symm.trans hHeld, rfl⟩
  have hNone {other : Token} :
      (registry.replaced token (.specification signature)).type? other = none ↔ registry.type? other = none := by
    by_cases hSame : other = token
    · simp [hSame, hOld]
    · rw [type?_replaced_of_ne hSame]
  constructor
  case ascending => exact hFiled.ascending.insert
  case kinds =>
    intro other held hHeld
    obtain ⟨before, hBefore, hKind⟩ := hSameKind hHeld
    rw [← hKind]
    exact hFiled.kinds other before hBefore
  case counted =>
    intro table
    refine (hFiled.counted table).congr rfl hNone fun other held hHeld hOfTable => ?_
    obtain ⟨before, hBefore, hKind⟩ := hSameKind hHeld
    exact ⟨before, hBefore, hKind.trans hOfTable⟩

end Filed

/-- All that a change can do to a registry. -/
theorem apply_cases (registry : Registry) (change : Change) :
    registry.apply change = registry ∨
      (∃ entry, change = .add entry ∧ registry.apply change = (registry.add entry).2) ∨
      (∃ token entry, token.table = entry.table.code ∧ registry.apply change = registry.placed token entry
        (max (registry.nextRows.get entry.table) (token.row + 1))) ∨
      ∃ token old signature, registry.type? token = some (.specification old) ∧
        registry.apply change = registry.replaced token (.specification signature) := by
  cases change with
  | add entry => exact .inr (.inl ⟨entry, rfl, rfl⟩)
  | insert token entry =>
      obtain ⟨-, hInsert⟩ | ⟨hPlaceable, hInsert⟩ := registry.insert_cases token entry
      · left
        rw [apply, insert, Registering.getD_outcome, hInsert]
      · have hTable : token.table = entry.table.code := by
          by_contra hOther
          exact hPlaceable (.inr (.inl hOther))
        refine .inr (.inr (.inl ⟨token, entry, hTable, ?_⟩))
        rw [apply, insert, Registering.getD_outcome, hInsert]
  | setSignature token signature =>
      obtain ⟨-, hSet⟩ | ⟨old, hOld, hSet⟩ := registry.setSignature_cases token signature
      · left
        rw [apply, setSignature, Registering.getD_outcome, hSet]
      · refine .inr (.inr (.inr ⟨token, old, signature, hOld, ?_⟩))
        rw [apply, setSignature, Registering.getD_outcome, hSet]

/-- Every change, refused or not, keeps a registry filed. -/
theorem Filed.apply {registry : Registry} (hFiled : registry.Filed) (change : Change) :
    (registry.apply change).Filed := by
  obtain hSame | ⟨entry, -, hAdd⟩ | ⟨token, entry, hTable, hPlaced⟩ | ⟨token, old, signature, hOld, hReplaced⟩ :=
    registry.apply_cases change
  · rwa [hSame]
  · rw [hAdd]
    exact hFiled.add entry
  · rw [hPlaced]
    exact hFiled.placed hTable (Nat.le_max_left _ _) fun _ => rfl
  · rw [hReplaced]
    exact hFiled.resign hOld signature

end Registry

end CliSignature
