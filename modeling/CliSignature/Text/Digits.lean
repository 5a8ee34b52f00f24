/-!
Numbers as digits, written and read. Decimal digits have no leading zeros, hexadecimal digits come
either bare or padded to a fixed width.
-/

namespace CliSignature.Text

/-- The decimal digits of a natural number, without leading zeros. -/
def decimal (n : Nat) : String :=
  String.ofList (Nat.toDigits 10 n)

/-- The decimal digits of an integer, behind a minus sign when it is negative. -/
def integer : Int → String
  | .ofNat n => decimal n
  | .negSucc n => "-" ++ decimal (n + 1)

/-- The lower-case hexadecimal digits of a natural number, without leading zeros. -/
def hex (n : Nat) : String :=
  String.ofList (Nat.toDigits 16 n)

/-- The last `width` hexadecimal digits of `n`, leading zeros included. Higher digits are dropped. -/
def hexDigits : Nat → Nat → List Char
  | 0, _ => []
  | width + 1, n => hexDigits width (n / 16) ++ [Nat.digitChar (n % 16)]

@[simp] theorem hexDigits_length (width n : Nat) : (hexDigits width n).length = width := by
  induction width generalizing n with
  | zero => rfl
  | succ width ih => simp [hexDigits, ih]

/-- A number in exactly `width` lower-case hexadecimal digits. -/
def hexPadded (width n : Nat) : String :=
  String.ofList (hexDigits width n)

/-- A number in exactly `width` upper-case hexadecimal digits. -/
def hexPaddedUpper (width n : Nat) : String :=
  String.ofList ((hexDigits width n).map Char.toUpper)

/-- The value of an ASCII digit, where the letters of either case stand for ten to fifteen. -/
def digitValue? (c : Char) : Option Nat :=
  if '0' ≤ c ∧ c ≤ '9' then some (c.toNat - '0'.toNat)
  else if 'a' ≤ c ∧ c ≤ 'f' then some (c.toNat - 'a'.toNat + 10)
  else if 'A' ≤ c ∧ c ≤ 'F' then some (c.toNat - 'A'.toNat + 10)
  else none

/-- The value of an ASCII digit that is allowed in the given base, at most sixteen. -/
def digitInBase? (base : Nat) (c : Char) : Option Nat :=
  (digitValue? c).filter (· < base)

/-- Reads digits after a number whose value is already known. -/
def readDigits? (base : Nat) : Nat → List Char → Option Nat
  | value, [] => some value
  | value, c :: rest => do
    let digit ← digitInBase? base c
    readDigits? base (value * base + digit) rest

/-- Reads digits, of which there must be at least one. -/
def readNumber? (base : Nat) : List Char → Option Nat
  | [] => none
  | digits => readDigits? base 0 digits

/-- Reads an unsigned number: one optional plus sign, then at least one digit. Any number of leading
zeros is accepted, a minus sign is not. -/
def readUnsigned? (base : Nat) : List Char → Option Nat
  | '+' :: digits => readNumber? base digits
  | digits => readNumber? base digits

/-- Reads a decimal number of sixteen bits. A larger value is refused. -/
def readUInt16? (text : List Char) : Option UInt16 :=
  (readUnsigned? 10 text).bind fun n => if n < UInt16.size then some (UInt16.ofNat n) else none

/-- Reads two characters as one byte in base sixteen. The first of them may be a plus sign. -/
def readHexByte? (high low : Char) : Option UInt8 :=
  (readUnsigned? 16 [high, low]).map UInt8.ofNat

/-- Reads characters in pairs, a byte each. An odd character at the end is refused. -/
def readHexBytes? : List Char → Option (List UInt8)
  | [] => some []
  | [_] => none
  | high :: low :: rest => do
    let byte ← readHexByte? high low
    let bytes ← readHexBytes? rest
    pure (byte :: bytes)

end CliSignature.Text
