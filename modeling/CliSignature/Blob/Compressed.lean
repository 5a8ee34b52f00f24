import CliSignature.Blob.Cursor

/-!
Compressed integers and tokens. A number takes one, two or four bytes, and the high bits of the first
byte tell how many. Numbers are written in the fewest bytes that hold them; longer forms are read as
well. A signed number is rotated so that its sign becomes the lowest bit.
-/

namespace CliSignature.Compressed

/-- The number of bytes that a compressed integer takes. -/
inductive Width where
  | one
  | two
  | four
deriving DecidableEq, Repr

namespace Width

/-- How many numbers the bits that are left can tell apart: seven bits, fourteen or twenty-nine. -/
def span : Width → Nat
  | one => 0x80
  | two => 0x4000
  | four => 0x20000000

/-- How many numbers are left for each sign. -/
def halfSpan : Width → Nat
  | one => 0x40
  | two => 0x2000
  | four => 0x10000000

/-- The number of bytes. -/
def size : Width → Nat
  | one => 1
  | two => 2
  | four => 4

/-- The narrowest width that a number fits. -/
def narrowest? (fits : Width → Bool) : Option Width :=
  [one, two, four].find? fits

/-- The bytes of a number, the most significant first, with the width marked in the first. -/
def pack : Width → Nat → List UInt8
  | one, n => [UInt8.ofNat n]
  | two, n => [UInt8.ofNat (0x80 + n / 0x100), UInt8.ofNat n]
  | four, n =>
    [UInt8.ofNat (0xC0 + n / 0x1000000), UInt8.ofNat (n / 0x10000), UInt8.ofNat (n / 0x100),
     UInt8.ofNat n]

@[simp] theorem length_pack (width : Width) (n : Nat) : (width.pack n).length = width.size := by
  cases width <;> rfl

/-- Whether an unsigned number fits. -/
def holds (width : Width) (n : Nat) : Bool :=
  decide (n < width.span)

/-- Whether a signed number fits. -/
def holdsSigned (width : Width) (value : Int) : Bool :=
  decide (-(width.halfSpan : Int) ≤ value ∧ value < width.halfSpan)

/-- A signed number with its sign moved to the lowest bit. -/
def rotate (width : Width) (value : Int) : Nat :=
  2 * (value % width.halfSpan).toNat + if value < 0 then 1 else 0

/-- The signed number whose sign is the lowest bit. -/
def unrotate (width : Width) (n : Nat) : Int :=
  if n % 2 = 0 then (n / 2 : Nat) else (n / 2 : Nat) - (width.halfSpan : Int)

/-- Turning the sign back gives the number again. -/
theorem unrotate_rotate {width : Width} {value : Int} (hHolds : width.holdsSigned value = true) :
    width.unrotate (width.rotate value) = value := by
  have hRange : -(width.halfSpan : Int) ≤ value ∧ value < width.halfSpan := of_decide_eq_true hHolds
  unfold unrotate rotate
  cases width <;> simp only [halfSpan] at hRange ⊢ <;> split <;> split at * <;> omega

end Width

/-- The compressed form of an unsigned number. -/
def unsigned (value : UInt32) : Except EncodeError (List UInt8) :=
  match Width.narrowest? fun width => width.holds value.toNat with
  | some width => .ok (width.pack value.toNat)
  | none => .error (.unsignedRange value)

/-- The compressed form of a signed number. -/
def signed (value : Int32) : Except EncodeError (List UInt8) :=
  match Width.narrowest? fun width => width.holdsSigned value.toInt with
  | some width => .ok (width.pack (width.rotate value.toInt))
  | none => .error (.signedRange value)

/-- The coded index of a token, or why it has none. -/
def codedIndex (token : Token) : Except EncodeError Nat :=
  match token.codedIndex? with
  | some index => .ok index
  | none => .error (.notCodable token)

/-- The compressed form of a token. -/
def token (token : Token) : Except EncodeError (List UInt8) := do
  let index ← codedIndex token
  unsigned (UInt32.ofNat index)

/-- Reads a compressed integer of any width. -/
def readPacked : Scan (Width × Nat) := do
  let lead ← Scan.byte
  if lead.toNat < 0x80 then
    pure (.one, lead.toNat)
  else if lead.toNat < 0xC0 then do
    let low ← Scan.byte
    pure (.two, (lead.toNat - 0x80) * 0x100 + low.toNat)
  else if lead.toNat < 0xE0 then do
    let second ← Scan.byte
    let third ← Scan.byte
    let low ← Scan.byte
    pure (.four, (lead.toNat - 0xC0) * 0x1000000 + second.toNat * 0x10000 + third.toNat * 0x100
      + low.toNat)
  else throw (.invalidLead lead)

/-- Reads an unsigned number. -/
def readUnsigned : Scan UInt32 := do
  let (_, n) ← readPacked
  pure (UInt32.ofNat n)

/-- Reads a signed number. -/
def readSigned : Scan Int32 := do
  let (width, n) ← readPacked
  pure (Int32.ofInt (width.unrotate n))

/-- Reads a token. The table is judged before the row is. -/
def readToken : Scan Token := do
  let (_, coded) ← readPacked
  match TypeTable.ofTag? (coded % 4) with
  | none => throw (.reservedTable coded)
  | some table =>
    if coded / 4 < Token.rowLimit then pure (Token.ofRow table (coded / 4))
    else throw (.rowRange (coded / 4))

end CliSignature.Compressed
