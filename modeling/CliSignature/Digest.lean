import CliSignature.Node

/-!
The digest that structural hashes are made of: a 64-bit state into which words are mixed one by one.
Lower bounds of arrays and texts go through a keyless SipHash with one compression and three
finalization rounds before they are mixed in.
-/

namespace CliSignature

namespace SipHash

/-- The four words of the state. -/
structure State where
  v0 : UInt64
  v1 : UInt64
  v2 : UInt64
  v3 : UInt64
deriving DecidableEq, Repr

/-- A word turned left by the given number of bits, between one and sixty-three. -/
def rotateLeft (word bits : UInt64) : UInt64 :=
  (word <<< bits) ||| (word >>> (64 - bits))

namespace State

/-- The state before the first word, for a key of zeros. -/
def initial : State :=
  ⟨0x736F6D6570736575, 0x646F72616E646F6D, 0x6C7967656E657261, 0x7465646279746573⟩

/-- One round. -/
def round (s : State) : State :=
  let v0 := s.v0 + s.v1
  let v1 := rotateLeft s.v1 13 ^^^ v0
  let v0 := rotateLeft v0 32
  let v2 := s.v2 + s.v3
  let v3 := rotateLeft s.v3 16 ^^^ v2
  let v0 := v0 + v3
  let v3 := rotateLeft v3 21 ^^^ v0
  let v2 := v2 + v1
  let v1 := rotateLeft v1 17 ^^^ v2
  let v2 := rotateLeft v2 32
  ⟨v0, v1, v2, v3⟩

/-- Takes in one word with one round. -/
def absorb (s : State) (word : UInt64) : State :=
  let mixed := { s with v3 := s.v3 ^^^ word }.round
  { mixed with v0 := mixed.v0 ^^^ word }

/-- The result after three more rounds. -/
def finish (s : State) : UInt64 :=
  let last := { s with v2 := s.v2 ^^^ 0xFF }.round.round.round
  last.v0 ^^^ last.v1 ^^^ last.v2 ^^^ last.v3

end State

/-- The word of at most eight bytes, the first byte the least significant. -/
def wordOfBytes (bytes : List UInt8) : UInt64 :=
  bytes.foldr (fun byte word => (word <<< 8) ||| byte.toUInt64) 0

/-- Takes in bytes, eight to a word. The last word holds the bytes that are left over and, on top,
the length of the whole input. -/
def absorbBytes (length : Nat) (s : State) : List UInt8 → State
  | b0 :: b1 :: b2 :: b3 :: b4 :: b5 :: b6 :: b7 :: rest =>
    absorbBytes length (s.absorb (wordOfBytes [b0, b1, b2, b3, b4, b5, b6, b7])) rest
  | rest => s.absorb (wordOfBytes rest ||| (UInt64.ofNat length <<< 56))

/-- The hash of a sequence of bytes. -/
def ofBytes (bytes : List UInt8) : UInt64 :=
  (absorbBytes bytes.length .initial bytes).finish

/-- The hash of a 32-bit number, as four bytes with the least significant first. -/
def ofInt32 (value : Int32) : UInt64 :=
  let bits := value.toUInt32
  ofBytes [bits.toUInt8, (bits >>> 8).toUInt8, (bits >>> 16).toUInt8, (bits >>> 24).toUInt8]

/-- The hash of a text, as its UTF-8 bytes and a byte that no text contains. -/
def ofText (text : String) : UInt64 :=
  ofBytes (text.toUTF8.toList ++ [0xFF])

end SipHash

/-- The state of a structural hash. -/
structure Digest where
  state : UInt64
deriving DecidableEq, Repr

namespace Digest

/-- The digest of nothing. -/
def start : Digest := ⟨0xCBF29CE484222325⟩

/-- A word with its upper bits folded into the lower ones. -/
def fold (word : UInt64) : UInt64 :=
  word ^^^ (word >>> 33)

/-- Mixes one word into a state. -/
def mix (state word : UInt64) : UInt64 :=
  fold (fold ((state ^^^ word) * 0x100000001B3) * 0xFF51AFD7ED558CCD)

/-- Adds a word. -/
def add (digest : Digest) (word : UInt64) : Digest :=
  ⟨mix digest.state word⟩

/-- The word that stands for the sort of a node. -/
def tagWord (tag : Tag) : UInt64 :=
  0x100 ||| UInt64.ofNat tag.index

/-- The word that stands for a token. -/
def tokenWord (token : Token) : UInt64 :=
  token.value.toUInt64 ||| 0x10000000000

/-- The word that stands for an absent type. -/
def absentWord : UInt64 := 0xFFFFFFFFFFFFFFFF

end Digest

end CliSignature
