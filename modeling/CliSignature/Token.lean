import CliSignature.Text.Digits

/-!
Metadata tokens. A token names a row of a metadata table: its high byte is the table and its low
twenty-four bits are the row, where row zero stands for no row at all.
-/

namespace CliSignature

/-- The 32-bit handle under which a signature names a row of a metadata table. Any value is a token,
whether or not its table exists. -/
structure Token where
  value : UInt32
deriving DecidableEq, Inhabited, Repr

/-- The tables whose rows are types. -/
inductive TypeTable where
  | reference
  | definition
  | specification
deriving DecidableEq, Repr

namespace TypeTable

/-- The table's number, which is the high byte of its tokens. -/
def code : TypeTable → UInt8
  | reference => 0x01
  | definition => 0x02
  | specification => 0x1B

/-- The two low bits that stand for the table in a coded index. -/
def tag : TypeTable → Nat
  | definition => 0
  | reference => 1
  | specification => 2

/-- The table that two low bits stand for. The value three is reserved. -/
def ofTag? : Nat → Option TypeTable
  | 0 => some definition
  | 1 => some reference
  | 2 => some specification
  | _ => none

@[simp] theorem ofTag?_tag (table : TypeTable) : ofTag? table.tag = some table := by
  cases table <;> rfl

/-- The table with the given number, if it holds types. -/
def ofCode? (code : UInt8) : Option TypeTable :=
  [reference, definition, specification].find? fun table => table.code == code

@[simp] theorem ofCode?_code (table : TypeTable) : ofCode? table.code = some table := by
  cases table <;> rfl

end TypeTable

namespace Token

/-- The number of rows that a token can tell apart. -/
def rowLimit : Nat := 0x1000000

/-- The number of the table. -/
def table (token : Token) : UInt8 :=
  UInt8.ofNat (token.value.toNat / rowLimit)

/-- The row, where zero stands for no row. -/
def row (token : Token) : Nat :=
  token.value.toNat % rowLimit

/-- The token of a row. Only the low twenty-four bits of the row are kept. -/
def ofParts (table : UInt8) (row : Nat) : Token :=
  ⟨UInt32.ofNat (table.toNat * rowLimit + row % rowLimit)⟩

/-- The token of a row of one of the tables that hold types. -/
def ofRow (table : TypeTable) (row : Nat) : Token :=
  ofParts table.code row

@[simp] theorem row_ofParts (table : UInt8) (row : Nat) :
    (ofParts table row).row = row % rowLimit := by
  have hTable := table.toNat_lt
  simp only [ofParts, Token.row, rowLimit, UInt32.toNat_ofNat']
  omega

@[simp] theorem table_ofParts (table : UInt8) (row : Nat) :
    (ofParts table row).table = table := by
  have hTable := table.toNat_lt
  apply UInt8.toNat_inj.mp
  simp only [ofParts, Token.table, rowLimit, UInt32.toNat_ofNat', UInt8.toNat_ofNat']
  omega

/-- Only the low twenty-four bits of a row matter to its token. -/
theorem ofRow_mod (table : TypeTable) (row : Nat) : ofRow table (row % rowLimit) = ofRow table row := by
  rw [ofRow, ofParts, Nat.mod_mod, ofRow, ofParts]

/-- A token is its table and its row. -/
theorem ofParts_table_row (token : Token) : ofParts token.table token.row = token := by
  obtain ⟨value⟩ := token
  have hValue := value.toNat_lt
  simp only [ofParts, Token.table, Token.row, rowLimit, Token.mk.injEq, UInt8.toNat_ofNat']
  apply UInt32.toNat_inj.mp
  simp only [UInt32.toNat_ofNat']
  omega

/-- Whether the token is zero in every bit. -/
def isNull (token : Token) : Bool :=
  token.value == 0

/-- The table of a token that can name a type. -/
def typeTable? (token : Token) : Option TypeTable :=
  TypeTable.ofCode? token.table

/-- Whether the token names a row of the given table. -/
def isIn (token : Token) (table : TypeTable) : Bool :=
  token.table == table.code

/-- Whether the token names a row of a table that holds types. -/
def isTypeDefOrRef (token : Token) : Bool :=
  token.typeTable?.isSome

/-- The coded index of a type: the row, with two more bits below it for the table. Tokens of other
tables have none. -/
def codedIndex? (token : Token) : Option Nat :=
  token.typeTable?.map fun table => token.row * 4 + table.tag

/-- The token in hexadecimal, as messages show it. -/
def text (token : Token) : String :=
  "0x" ++ Text.hexPadded 8 token.value.toNat

/-- The token with its table and row spelled out. -/
def details (token : Token) : String :=
  "Token(" ++ token.text ++ ", table: 0x" ++ Text.hexPadded 2 token.table.toNat ++ ", row: "
    ++ Text.decimal token.row ++ ")"

/-- Tokens in the order of their values, so by table first and by row second. -/
def order (a b : Token) : Ordering :=
  compare a.value.toNat b.value.toNat

theorem order_eq_lt_iff {a b : Token} : a.order b = .lt ↔ a.value < b.value := by
  rw [order, Nat.compare_eq_lt, UInt32.lt_iff_toNat_lt]

theorem order_eq_gt_iff {a b : Token} : a.order b = .gt ↔ b.value < a.value := by
  rw [order, Nat.compare_eq_gt, UInt32.lt_iff_toNat_lt]

theorem order_eq_eq_iff {a b : Token} : a.order b = .eq ↔ a = b := by
  rw [order, Nat.compare_eq_eq, UInt32.toNat_inj]
  exact ⟨fun hValue => congrArg Token.mk hValue, fun hToken => congrArg Token.value hToken⟩

@[simp] theorem order_self (a : Token) : a.order a = .eq :=
  order_eq_eq_iff.mpr rfl

end Token

end CliSignature
