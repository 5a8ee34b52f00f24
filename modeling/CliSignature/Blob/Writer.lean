import CliSignature.Arena
import CliSignature.Blob.Compressed
import CliSignature.Limits

/-!
Writing signatures to a blob. An absent type is written as a zero byte, and so is a handle that refers
to nothing. What was written before an error stays. Types nest at most as deep as the limit says. A
type that fails for being too deep keeps its level for good, so a writer that goes on after such an
error has one level less.
-/

namespace CliSignature

/-- What a writing does: the bytes it appends, the levels it keeps, and the error that it ends with
if it fails. -/
structure Emission where
  bytes : List UInt8
  heldLevels : Nat
  failure : Option EncodeError
deriving DecidableEq, Repr

namespace Emission

/-- Writes nothing. -/
def done : Emission := ⟨[], 0, none⟩

/-- Writes the given bytes. -/
def ofBytes (bytes : List UInt8) : Emission := ⟨bytes, 0, none⟩

/-- Writes nothing and fails. -/
def fail (error : EncodeError) : Emission := ⟨[], 0, some error⟩

/-- Fails for nesting too deep, and keeps the level. -/
def tooDeep (limits : Limits) : Emission := ⟨[], 1, some (.recursionLimit limits.decodeDepth)⟩

/-- Writes the bytes of a compressed form, if there is one. -/
def ofExcept : Except EncodeError (List UInt8) → Emission
  | .ok bytes => ofBytes bytes
  | .error error => fail error

/-- One writing after another. The second does not happen if the first fails. -/
def andThen (first : Emission) (second : Unit → Emission) : Emission :=
  match first.failure with
  | some _ => first
  | none =>
    let next := second ()
    ⟨first.bytes ++ next.bytes, first.heldLevels + next.heldLevels, next.failure⟩

instance : AndThen Emission := ⟨andThen⟩

/-- Writes each element of a list in turn. -/
def each {α : Type} (write : α → Emission) : List α → Emission
  | [] => done
  | first :: others => write first >> each write others

def unsigned (value : UInt32) : Emission := ofExcept (Compressed.unsigned value)

def signed (value : Int32) : Emission := ofExcept (Compressed.signed value)

def token (value : Token) : Emission := ofExcept (Compressed.token value)

/-- Writes the number of elements of a list. -/
def count (n : Nat) : Emission :=
  if n < UInt32.size then unsigned (UInt32.ofNat n) else fail (.tooManyElements n)

variable (type : Option NodeId → Emission)

/-- Writes types one after the other, where `type` writes a type. -/
def types (ids : List NodeId) : Emission :=
  each (fun id => type (some id)) ids

/-- Writes the number of types and then the types. -/
def list (ids : List NodeId) : Emission :=
  count ids.length >> types type ids

/-- Writes the parameters behind the sentinel, and the sentinel itself if there is one. -/
def varargs : Option (List NodeId) → Emission
  | none => done
  | some ids => ofBytes [Production.sentinel.elementType] >> types type ids

/-- Writes what follows the convention and the number of generic parameters. -/
def methodBody (method : MethodSignature) : Emission :=
  count method.paramCount >> type method.result >> types type method.params
    >> varargs type method.varargs

def convention (value : CallingConvention) : Emission := ofBytes [value.bits]

/-- Writes a method signature. -/
def method (method : MethodSignature) : Emission :=
  convention method.convention
    >> (if method.convention.isGeneric then unsigned method.genericCount else done)
    >> methodBody type method

/-- Writes a signature of any form. -/
def signature : Signature → Emission
  | .method m => method type m
  | .property m => convention m.convention >> methodBody type m
  | .field c fieldType => convention c >> type fieldType
  | .locals c ids => convention c >> list type ids
  | .methodSpec c ids => convention c >> list type ids

/-- Writes the shape of an array. -/
def shape (shape : ArrayShape) : Emission :=
  unsigned shape.rank
    >> count shape.sizes.length >> each unsigned shape.sizes
    >> count shape.lowerBounds.length >> each signed shape.lowerBounds

/-- Writes what follows the first byte of a node. -/
def payload : Node → Emission
  | .named _ value => token value
  | .primitive _ _ => done
  | .genericParam _ number => unsigned number
  | .sentinel => done
  | .functionPointer (.method m) => method type m
  | .functionPointer other => fail (.notAMethod other.convention)
  | .genericInst definition args => type definition >> list type args
  | .wrapper _ child => type child
  | .array child value =>
    if value.Fits then type child >> shape value
    else
      fail (.shapeMismatch value.sizes.length value.lowerBounds.length value.rank.toNat)
  | .modified _ modifier child => token modifier >> type child
  | .valueArray child size => type child >> unsigned size
  | .moduleQualified index child => unsigned index >> type child

/-- Writes a type, where `type` writes the types inside it. -/
def typeBody (arena : Arena) (slot : Option NodeId) : Emission :=
  match arena.resolve? slot with
  | none => ofBytes [0x00]
  | some (_, node) => ofBytes [node.elementType] >> payload type node

/-- Writes a type with the given number of levels left. -/
def typeWithin (arena : Arena) (limits : Limits) : Nat → Option NodeId → Emission
  | 0, _ => tooDeep limits
  | levels + 1, slot => typeBody (typeWithin arena limits levels) arena slot

end Emission

/-- The state of a writing: the bytes so far and the levels that earlier failures have kept. -/
structure Writer where
  bytes : List UInt8
  heldLevels : Nat
deriving DecidableEq, Repr

namespace Writer

/-- A writer that has written nothing. -/
def start : Writer := ⟨[], 0⟩

/-- The writer after an emission. -/
def append (writer : Writer) (emission : Emission) : Except EncodeError Unit × Writer :=
  (match emission.failure with
    | some error => .error error
    | none => .ok (),
   ⟨writer.bytes ++ emission.bytes, writer.heldLevels + emission.heldLevels⟩)

/-- How types are written with the levels that earlier failures have left. -/
def emitType (writer : Writer) (arena : Arena) (limits : Limits) : Option NodeId → Emission :=
  Emission.typeWithin arena limits (limits.decodeDepth - writer.heldLevels)

/-- Writes a type. -/
def writeType (writer : Writer) (arena : Arena) (limits : Limits) (slot : Option NodeId) :
    Except EncodeError Unit × Writer :=
  writer.append (writer.emitType arena limits slot)

/-- Writes a signature of any form. -/
def writeSignature (writer : Writer) (arena : Arena) (limits : Limits) (signature : Signature) :
    Except EncodeError Unit × Writer :=
  writer.append (.signature (writer.emitType arena limits) signature)

end Writer

namespace Arena

/-- The written form of the type in a slot. -/
def encodeType (arena : Arena) (limits : Limits) (slot : Option NodeId) :
    Except EncodeError (List UInt8) :=
  let (outcome, writer) := Writer.start.writeType arena limits slot
  outcome.map fun _ => writer.bytes

/-- The written form of a signature. -/
def encodeSignature (arena : Arena) (limits : Limits) (signature : Signature) :
    Except EncodeError (List UInt8) :=
  let (outcome, writer) := Writer.start.writeSignature arena limits signature
  outcome.map fun _ => writer.bytes

end Arena

end CliSignature
