import CliSignature.Blob.Error

/-!
Reading a blob byte by byte. What was consumed before an error stays consumed.
-/

namespace CliSignature

/-- A position in a blob: the bytes still to be read and the number of bytes read so far. -/
structure Cursor where
  rest : List UInt8
  offset : Nat
deriving DecidableEq, Repr

namespace Cursor

/-- The start of a blob. -/
def start (blob : List UInt8) : Cursor := ⟨blob, 0⟩

/-- The number of bytes still to be read. -/
def remaining (cursor : Cursor) : Nat :=
  cursor.rest.length

end Cursor

/-- A reading of some bytes at a cursor, which moves the cursor also where it fails. -/
abbrev Scan := EStateM DecodeError Cursor

namespace Scan

/-- The next byte, which is left where it is. -/
def peek : Scan UInt8 := fun cursor =>
  match cursor.rest with
  | [] => .error .outOfBounds cursor
  | byte :: _ => .ok byte cursor

/-- The next byte. -/
def byte : Scan UInt8 := fun cursor =>
  match cursor.rest with
  | [] => .error .outOfBounds cursor
  | byte :: rest => .ok byte ⟨rest, cursor.offset + 1⟩

/-- Skips one byte. -/
def skip : Scan Unit := do
  let _ ← byte

/-- The number of bytes still to be read. -/
def remaining : Scan Nat := fun cursor =>
  .ok cursor.remaining cursor

end Scan

end CliSignature
