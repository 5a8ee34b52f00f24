import CliSignature.Blob.Compressed
import CliSignature.CoreTypes
import CliSignature.Limits

/-!
Reading signatures from a blob into an arena. A node is added after its children, and what was added
before an error stays. Types nest at most as deep as the limit says. A type that fails for being too
deep keeps its level for good, so a reader that goes on after such an error has one level less.
-/

namespace CliSignature

/-- What a reading does not change: the limits, and the shared nodes of the primitives. -/
structure ReadContext where
  limits : Limits
  core : CoreTypes

/-- The state of a reading. -/
structure Reader where
  cursor : Cursor
  arena : Arena
  /-- The levels that earlier failures have kept. -/
  heldLevels : Nat

namespace Reader

/-- A reader at the start of a blob. -/
def start (arena : Arena) (blob : List UInt8) : Reader :=
  ⟨.start blob, arena, 0⟩

end Reader

/-- A reading of signatures, which may move the cursor and add nodes also where it fails. -/
abbrev Read := EStateM DecodeError Reader

namespace Read

/-- Reads bytes, with no effect on the arena. -/
def scan {α : Type} (bytes : Scan α) : Read α := fun reader =>
  match bytes reader.cursor with
  | .ok value cursor => .ok value { reader with cursor }
  | .error error cursor => .error error { reader with cursor }

/-- Adds a node. -/
def add (node : Node) : Read NodeId := fun reader =>
  let (id, arena) := reader.arena.push node
  .ok id { reader with arena }

/-- Fails for nesting too deep, and keeps the level. -/
def tooDeep {α : Type} (limits : Limits) : Read α := fun reader =>
  .error (.recursionLimit limits.decodeDepth)
    { reader with heldLevels := reader.heldLevels + 1 }

/-- Reads the number of elements of a list. Each takes at least one byte, so a number above that of
the remaining bytes is refused at once. -/
def count : Read Nat := do
  let n ← scan Compressed.readUnsigned
  let remaining ← scan Scan.remaining
  if remaining < n.toNat then throw .outOfBounds else pure n.toNat

variable (type : Read (Option NodeId))

/-- Reads an element of a list, where `type` reads a type. -/
def element (role : ListRole) : Read NodeId := do
  match ← type with
  | some id => pure id
  | none => throw (.absentElement role (← get).cursor.offset)

/-- Reads the given number of elements. -/
def elements (role : ListRole) : Nat → Read (List NodeId)
  | 0 => pure []
  | n + 1 => do
    let first ← element type role
    let others ← elements role n
    pure (first :: others)

/-- Reads a number of elements and then the elements. -/
def list (role : ListRole) : Read (List NodeId) := do
  let n ← count
  elements type role n

/-- Whether the next byte is a sentinel. -/
def atSentinel : Read Bool := do
  let next ← scan Scan.peek
  pure (next == Production.sentinel.elementType)

/-- Reads the given number of parameters behind a sentinel. -/
def varargs : Nat → Read (List NodeId)
  | 0 => pure []
  | n + 1 => do
    if ← atSentinel then
      scan Scan.skip
      throw .repeatedSentinel
    else
      let first ← element type .parameter
      let others ← varargs n
      pure (first :: others)

/-- Reads the given number of parameters, of which those behind a sentinel stand apart. A sentinel
behind the last parameter is not looked for. -/
def params : Nat → Read (List NodeId × Option (List NodeId))
  | 0 => pure ([], none)
  | n + 1 => do
    if ← atSentinel then
      scan Scan.skip
      let rest ← varargs type (n + 1)
      pure ([], some rest)
    else
      let first ← element type .parameter
      let (others, rest) ← params n
      pure (first :: others, rest)

/-- Reads the byte that starts a signature of the given form. -/
def start (form : Signature.Form) : Read CallingConvention := do
  let byte ← scan Scan.byte
  let convention : CallingConvention := ⟨byte⟩
  if convention.kind?.map Signature.Form.ofKind = some form then pure convention
  else throw (.invalidStart form byte)

/-- Reads what follows the convention and the number of generic parameters. -/
def methodBody (convention : CallingConvention) (genericCount : UInt32) : Read MethodSignature := do
  let n ← count
  let result ← type
  let (fixed, rest) ← params type n
  pure ⟨convention, genericCount, result, fixed, rest⟩

/-- Reads a method signature. -/
def method : Read MethodSignature := do
  let convention ← start .method
  let genericCount ← if convention.isGeneric then scan Compressed.readUnsigned else pure 0
  methodBody type convention genericCount

/-- Reads a property signature, which has no number of generic parameters. -/
def property : Read MethodSignature := do
  let convention ← start .property
  methodBody type convention 0

/-- Reads a signature of the given form. -/
def signatureOf : Signature.Form → Read Signature
  | .method => do
    let m ← method type
    pure (.method m)
  | .property => do
    let m ← property type
    pure (.property m)
  | .field => do
    let convention ← start .field
    let fieldType ← type
    pure (.field convention fieldType)
  | .locals => do
    let convention ← start .locals
    let types ← list type .localVariable
    pure (.locals convention types)
  | .methodSpec => do
    let convention ← start .methodSpec
    let args ← list type .methodArgument
    pure (.methodSpec convention args)

/-- Reads a signature of the form that its first byte tells. -/
def anySignature : Read Signature := do
  let byte ← scan Scan.peek
  match CallingConvention.kind? ⟨byte⟩ with
  | some kind => signatureOf type (.ofKind kind)
  | none => throw (.reservedKind byte)

/-- Reads the given number of values. -/
def replicate {α : Type} (value : Read α) : Nat → Read (List α)
  | 0 => pure []
  | n + 1 => do
    let first ← value
    let others ← replicate value n
    pure (first :: others)

/-- Reads the shape of an array: the rank, the sizes and the lower bounds. -/
def shape (limits : Limits) : Read ArrayShape := do
  let rank ← scan Compressed.readUnsigned
  if limits.arrayRank < rank.toNat then throw (.rankLimit rank.toNat limits.arrayRank)
  let sizeCount ← scan Compressed.readUnsigned
  if rank < sizeCount then throw (.tooManySizes sizeCount.toNat rank.toNat)
  let sizes ← replicate (scan Compressed.readUnsigned) sizeCount.toNat
  let boundCount ← scan Compressed.readUnsigned
  if rank < boundCount then throw (.tooManyLowerBounds boundCount.toNat rank.toNat)
  let lowerBounds ← replicate (scan Compressed.readSigned) boundCount.toNat
  pure ⟨rank, sizes, lowerBounds⟩

/-- Reads what follows the byte of a production. -/
def production (limits : Limits) : Production → Read Node
  | .named kind => do
    let token ← scan Compressed.readToken
    pure (.named kind token)
  | .genericParam owner => do
    let number ← scan Compressed.readUnsigned
    pure (.genericParam owner number)
  | .sentinel => pure .sentinel
  | .functionPointer => do
    let m ← method type
    pure (.functionPointer (.method m))
  | .genericInst => do
    let definition ← type
    let args ← list type .genericArgument
    pure (.genericInst definition args)
  | .wrapper kind => do
    let child ← type
    pure (.wrapper kind child)
  | .array => do
    let child ← type
    let shape ← shape limits
    pure (.array child shape)
  | .modified required => do
    let modifier ← scan Compressed.readToken
    let child ← type
    pure (.modified required modifier child)
  | .valueArray => do
    let child ← type
    let size ← scan Compressed.readUnsigned
    pure (.valueArray child size)
  | .moduleQualified => do
    let index ← scan Compressed.readUnsigned
    let child ← type
    pure (.moduleQualified index child)

/-- Reads a type, where `type` reads the types inside it. The byte of a primitive gives its shared
node. A byte that starts nothing gives an absent type. -/
def typeBody (context : ReadContext) : Read (Option NodeId) := do
  let byte ← scan Scan.byte
  match context.core.ofElementType? byte with
  | some id => pure (some id)
  | none =>
    match Production.ofElementType? byte with
    | none => pure none
    | some found => do
      let node ← production type context.limits found
      let id ← add node
      pure (some id)

/-- Reads a type with the given number of levels left. -/
def typeWithin (context : ReadContext) : Nat → Read (Option NodeId)
  | 0 => tooDeep context.limits
  | levels + 1 => typeBody (typeWithin context levels) context

/-- Reads a type, with the levels that earlier failures have left. -/
def typeFrom (context : ReadContext) : Read (Option NodeId) := fun reader =>
  typeWithin context (context.limits.decodeDepth - reader.heldLevels) reader

/-- Reads a signature of the given form, with the levels that earlier failures have left. -/
def signatureFrom (context : ReadContext) (form : Signature.Form) : Read Signature :=
  signatureOf (typeFrom context) form

/-- Reads a signature of any form, with the levels that earlier failures have left. -/
def anySignatureFrom (context : ReadContext) : Read Signature :=
  anySignature (typeFrom context)

end Read

end CliSignature
