import CliSignature.Text.Digits

/-!
The calling-convention byte that starts every signature of its own: a kind in the low four bits and
flags above them.
-/

namespace CliSignature

/-- The calling-convention byte of a signature. Any byte is one, reserved bits included. -/
structure CallingConvention where
  bits : UInt8
deriving DecidableEq, Inhabited, Repr

namespace CallingConvention

/-- What follows a calling-convention byte, as its low four bits say. -/
inductive Kind where
  | managed
  | cdecl
  | stdcall
  | thiscall
  | fastcall
  | vararg
  | field
  | locals
  | property
  | unmanaged
  | genericInst
  | nativeVararg
deriving DecidableEq, Repr

namespace Kind

/-- Every kind, in the order of the numbers that stand for them, from zero. -/
def all : List Kind :=
  [managed, cdecl, stdcall, thiscall, fastcall, vararg, field, locals, property, unmanaged,
   genericInst, nativeVararg]

/-- The number that stands for the kind. -/
def code : Kind → UInt8
  | managed => 0x0
  | cdecl => 0x1
  | stdcall => 0x2
  | thiscall => 0x3
  | fastcall => 0x4
  | vararg => 0x5
  | field => 0x6
  | locals => 0x7
  | property => 0x8
  | unmanaged => 0x9
  | genericInst => 0xA
  | nativeVararg => 0xB

/-- The name of the kind. -/
def name : Kind → String
  | managed => "Default"
  | cdecl => "C"
  | stdcall => "StdCall"
  | thiscall => "ThisCall"
  | fastcall => "FastCall"
  | vararg => "VarArg"
  | field => "Field"
  | locals => "LocalSig"
  | property => "Property"
  | unmanaged => "Unmanaged"
  | genericInst => "GenericInst"
  | nativeVararg => "NativeVarArg"

/-- Whether a method signature follows. -/
def isMethod : Kind → Bool
  | field | locals | property | genericInst => false
  | _ => true

end Kind

/-- The convention of a kind, with no flag set. -/
def ofKind (kind : Kind) : CallingConvention :=
  ⟨kind.code⟩

/-- The managed convention of a method that takes an instance. -/
def instanceMethod : CallingConvention :=
  ⟨0x20⟩

/-- The kind of the convention. Four of the sixteen values are reserved. -/
def kind? (convention : CallingConvention) : Option Kind :=
  Kind.all[convention.bits.toNat % 16]?

@[simp] theorem kind?_ofKind (kind : Kind) : (ofKind kind).kind? = some kind := by
  cases kind <;> rfl

/-- Whether every bit of `flag` is set. -/
def has (convention : CallingConvention) (flag : UInt8) : Bool :=
  convention.bits &&& flag == flag

/-- Whether a number of generic parameters follows. -/
def isGeneric (convention : CallingConvention) : Bool :=
  convention.has 0x10

/-- Whether the method takes an instance. -/
def hasThis (convention : CallingConvention) : Bool :=
  convention.has 0x20

/-- Whether the instance is spelled out as the first parameter. -/
def hasExplicitThis (convention : CallingConvention) : Bool :=
  convention.has 0x40

/-- Whether the kind is one that takes a variable number of arguments. -/
def isVararg (convention : CallingConvention) : Bool :=
  match convention.kind? with
  | some .vararg | some .nativeVararg => true
  | _ => false

/-- The flags that are set, by name, followed by the other bits as one number if there are any. -/
def parts (convention : CallingConvention) : List String :=
  let named := [("GENERIC", convention.isGeneric), ("HAS_THIS", convention.hasThis),
    ("EXPLICIT_THIS", convention.hasExplicitThis)]
  let others := (convention.bits &&& 0x8F).toNat
  (named.filter (·.2)).map (·.1) ++ if others = 0 then [] else ["0x" ++ Text.hex others]

/-- The convention spelled out, as messages show it. -/
def details (convention : CallingConvention) : String :=
  "CallingConvention("
    ++ (if convention.parts = [] then "0x0" else " | ".intercalate convention.parts) ++ ")"

end CallingConvention

end CliSignature
