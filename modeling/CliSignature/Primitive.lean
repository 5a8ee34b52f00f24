/-!
The types of the core library that a signature names by a single byte.
-/

namespace CliSignature

/-- A type of the core library with an element type of its own. -/
inductive Primitive where
  | void
  | boolean
  | char
  | int8
  | uint8
  | int16
  | uint16
  | int32
  | uint32
  | int64
  | uint64
  | float32
  | float64
  | string
  | typedReference
  | nativeInt
  | nativeUInt
  | object
deriving DecidableEq, Inhabited, Repr

namespace Primitive

/-- Every primitive, in the order in which their references are registered. -/
def all : List Primitive :=
  [void, boolean, char, int8, uint8, int16, uint16, int32, uint32, int64, uint64, float32, float64,
   string, typedReference, nativeInt, nativeUInt, object]

theorem mem_all (primitive : Primitive) : primitive ∈ all := by
  cases primitive <;> decide

/-- The position in `all`. -/
def index : Primitive → Nat
  | void => 0
  | boolean => 1
  | char => 2
  | int8 => 3
  | uint8 => 4
  | int16 => 5
  | uint16 => 6
  | int32 => 7
  | uint32 => 8
  | int64 => 9
  | uint64 => 10
  | float32 => 11
  | float64 => 12
  | string => 13
  | typedReference => 14
  | nativeInt => 15
  | nativeUInt => 16
  | object => 17

theorem getElem?_all_index (primitive : Primitive) : all[primitive.index]? = some primitive := by
  cases primitive <;> rfl

/-- The byte that stands for the primitive in a signature. -/
def elementType : Primitive → UInt8
  | void => 0x01
  | boolean => 0x02
  | char => 0x03
  | int8 => 0x04
  | uint8 => 0x05
  | int16 => 0x06
  | uint16 => 0x07
  | int32 => 0x08
  | uint32 => 0x09
  | int64 => 0x0A
  | uint64 => 0x0B
  | float32 => 0x0C
  | float64 => 0x0D
  | string => 0x0E
  | typedReference => 0x16
  | nativeInt => 0x18
  | nativeUInt => 0x19
  | object => 0x1C

/-- The primitive that a byte stands for. -/
def ofElementType? (byte : UInt8) : Option Primitive :=
  all.find? fun primitive => primitive.elementType == byte

@[simp] theorem ofElementType?_elementType (primitive : Primitive) :
    ofElementType? primitive.elementType = some primitive := by
  cases primitive <;> rfl

theorem elementType_of_ofElementType? {byte : UInt8} {primitive : Primitive}
    (hFound : ofElementType? byte = some primitive) : primitive.elementType = byte := by
  simpa using List.find?_some hFound

/-- The name of the primitive inside its namespace. -/
def name : Primitive → String
  | void => "Void"
  | boolean => "Boolean"
  | char => "Char"
  | int8 => "SByte"
  | uint8 => "Byte"
  | int16 => "Int16"
  | uint16 => "UInt16"
  | int32 => "Int32"
  | uint32 => "UInt32"
  | int64 => "Int64"
  | uint64 => "UInt64"
  | float32 => "Single"
  | float64 => "Double"
  | string => "String"
  | typedReference => "TypedReference"
  | nativeInt => "IntPtr"
  | nativeUInt => "UIntPtr"
  | object => "Object"

/-- The namespace of every primitive. -/
def namespaceName : String := "System"

/-- Whether values of the primitive are stored inline. Only strings and objects are not. -/
def isValueType : Primitive → Bool
  | string => false
  | object => false
  | _ => true

end Primitive

end CliSignature
