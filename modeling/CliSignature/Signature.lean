import CliSignature.CallingConvention
import CliSignature.Handle

/-!
Signatures that stand on their own: of methods, properties, fields, local variables and instantiated
methods. Function pointers hold one inside a type.
-/

namespace CliSignature

/-- The parts of a method signature, which properties share. -/
structure MethodSignature where
  convention : CallingConvention
  /-- The number of generic parameters. It is written only if the convention is generic. -/
  genericCount : UInt32
  /-- The return type, or the type of a property. -/
  result : Option NodeId
  /-- The parameters that every call passes. -/
  params : List NodeId
  /-- The parameters after the sentinel. No sentinel is not the same as a sentinel with nothing
  behind it. -/
  varargs : Option (List NodeId)
deriving DecidableEq, Repr

namespace MethodSignature

/-- A managed method without an instance. -/
def ofStatic (result : NodeId) (params : List NodeId) : MethodSignature :=
  ⟨.ofKind .managed, 0, some result, params, none⟩

/-- A managed method with an instance. -/
def ofInstance (result : NodeId) (params : List NodeId) : MethodSignature :=
  ⟨.instanceMethod, 0, some result, params, none⟩

/-- The parameters on both sides of the sentinel. -/
def allParams (method : MethodSignature) : List NodeId :=
  method.params ++ method.varargs.getD []

/-- The number of parameters on both sides of the sentinel. The sentinel does not count. -/
def paramCount (method : MethodSignature) : Nat :=
  method.allParams.length

end MethodSignature

/-- A signature that stands on its own. The convention is kept as it was given, whatever its kind. -/
inductive Signature where
  | method (method : MethodSignature)
  | property (method : MethodSignature)
  | field (convention : CallingConvention) (type : Option NodeId)
  | locals (convention : CallingConvention) (types : List NodeId)
  | methodSpec (convention : CallingConvention) (args : List NodeId)
deriving DecidableEq, Repr

namespace Signature

/-- What a signature describes. -/
inductive Form where
  | method
  | property
  | field
  | locals
  | methodSpec
deriving DecidableEq, Repr

/-- The form that starts with a convention of the given kind. -/
def Form.ofKind : CallingConvention.Kind → Form
  | .field => .field
  | .locals => .locals
  | .property => .property
  | .genericInst => .methodSpec
  | _ => .method

def form : Signature → Form
  | method _ => .method
  | property _ => .property
  | field _ _ => .field
  | locals _ _ => .locals
  | methodSpec _ _ => .methodSpec

def convention : Signature → CallingConvention
  | method m => m.convention
  | property m => m.convention
  | field c _ => c
  | locals c _ => c
  | methodSpec c _ => c

/-- The method signature of a method. A property has none. -/
def method? : Signature → Option MethodSignature
  | method m => some m
  | _ => none

/-- The types a signature names, in the order in which they are written. An absent type is skipped. -/
def references : Signature → List NodeId
  | method m => m.result.toList ++ m.allParams
  | property m => m.result.toList ++ m.allParams
  | field _ type => type.toList
  | locals _ types => types
  | methodSpec _ args => args

/-- The places for types in a signature, in the order in which they are written. An absent type
keeps its place. -/
def children : Signature → List (Option NodeId)
  | method m => m.result :: m.allParams.map some
  | property m => m.result :: m.allParams.map some
  | field _ type => [type]
  | locals _ types => types.map some
  | methodSpec _ args => args.map some

/-- All of a signature but the types in its places. -/
structure Label where
  form : Form
  convention : CallingConvention
  genericCount : UInt32
  /-- The number of places before the sentinel, the result apart. -/
  fixed : Nat
  /-- The number of places after the sentinel, if there is one. -/
  varargs : Option Nat
deriving DecidableEq, Repr

def label : Signature → Label
  | method m => ⟨.method, m.convention, m.genericCount, m.params.length, m.varargs.map List.length⟩
  | property m =>
    ⟨.property, m.convention, m.genericCount, m.params.length, m.varargs.map List.length⟩
  | field c _ => ⟨.field, c, 0, 0, none⟩
  | locals c types => ⟨.locals, c, 0, types.length, none⟩
  | methodSpec c args => ⟨.methodSpec, c, 0, args.length, none⟩

/-- Labels fix the number of places. -/
theorem children_length_of_label {a b : Signature} (hLabel : a.label = b.label) :
    a.children.length = b.children.length := by
  cases a <;> cases b <;> simp_all [label, children, MethodSignature.allParams]
  all_goals
    rename_i m n
    cases hm : m.varargs <;> cases hn : n.varargs <;> simp_all

end Signature

end CliSignature
