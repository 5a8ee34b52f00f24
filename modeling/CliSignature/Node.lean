import CliSignature.Primitive
import CliSignature.Signature
import CliSignature.Token

/-!
The nodes that signatures are built from. A node refers to its children by handle, so children may
be shared and handles may refer to nothing.
-/

namespace CliSignature

/-- Whether a type that is named by a token holds its value inline. -/
inductive NamedKind where
  | reference
  | value
deriving DecidableEq, Repr

/-- What a generic parameter belongs to. -/
inductive ParamOwner where
  | type
  | method
deriving DecidableEq, Repr

/-- The wrappers that carry nothing but their child. -/
inductive WrapperKind where
  | pointer
  | byRef
  | vector
  | pinned
deriving DecidableEq, Repr

/-- The shape of an array: its rank, and the sizes and lower bounds of its first dimensions. There
may be more sizes or bounds than dimensions. -/
structure ArrayShape where
  rank : UInt32
  sizes : List UInt32
  lowerBounds : List Int32
deriving DecidableEq, Repr

namespace ArrayShape

/-- A shape without sizes and lower bounds. -/
def ofRank (rank : UInt32) : ArrayShape :=
  ⟨rank, [], []⟩

/-- Whether each size and each lower bound belongs to a dimension. -/
def Fits (shape : ArrayShape) : Prop :=
  shape.sizes.length ≤ shape.rank.toNat ∧ shape.lowerBounds.length ≤ shape.rank.toNat

instance (shape : ArrayShape) : Decidable shape.Fits :=
  inferInstanceAs (Decidable (_ ∧ _))

end ArrayShape

/-- A node of a signature. A child slot is empty where the type is absent. -/
inductive Node where
  | named (kind : NamedKind) (token : Token)
  | primitive (token : Token) (code : Primitive)
  | genericParam (owner : ParamOwner) (number : UInt32)
  | sentinel
  | functionPointer (signature : Signature)
  | genericInst (definition : Option NodeId) (args : List NodeId)
  | wrapper (kind : WrapperKind) (child : Option NodeId)
  | array (child : Option NodeId) (shape : ArrayShape)
  | modified (required : Bool) (modifier : Token) (child : Option NodeId)
  | valueArray (child : Option NodeId) (size : UInt32)
  | moduleQualified (index : UInt32) (child : Option NodeId)
deriving DecidableEq, Inhabited, Repr

/-- The productions of the signature grammar that start with a byte of their own. The primitives
have one byte each and are not among them. -/
inductive Production where
  | named (kind : NamedKind)
  | genericParam (owner : ParamOwner)
  | sentinel
  | functionPointer
  | genericInst
  | wrapper (kind : WrapperKind)
  | array
  | modified (required : Bool)
  | valueArray
  | moduleQualified
deriving DecidableEq, Repr

namespace Production

/-- Every production. -/
def all : List Production :=
  [named .reference, named .value, genericParam .type, genericParam .method, sentinel, functionPointer,
   genericInst, wrapper .pointer, wrapper .byRef, array, wrapper .vector, modified true,
   modified false, wrapper .pinned, valueArray, moduleQualified]

/-- The byte that starts the production. -/
def elementType : Production → UInt8
  | wrapper .pointer => 0x0F
  | wrapper .byRef => 0x10
  | named .value => 0x11
  | named .reference => 0x12
  | genericParam .type => 0x13
  | array => 0x14
  | genericInst => 0x15
  | valueArray => 0x17
  | functionPointer => 0x1B
  | wrapper .vector => 0x1D
  | genericParam .method => 0x1E
  | modified true => 0x1F
  | modified false => 0x20
  | moduleQualified => 0x3F
  | sentinel => 0x41
  | wrapper .pinned => 0x45

/-- The production that starts with a byte. -/
def ofElementType? (byte : UInt8) : Option Production :=
  all.find? fun production => production.elementType == byte

@[simp] theorem ofElementType?_elementType (production : Production) :
    ofElementType? production.elementType = some production := by
  rcases production with (_ | _) | (_ | _) | _ | _ | _ | (_ | _ | _ | _) | _ | (_ | _) | _ | _ <;> rfl

theorem elementType_of_ofElementType? {byte : UInt8} {production : Production}
    (hFound : ofElementType? byte = some production) : production.elementType = byte := by
  simpa using List.find?_some hFound

/-- No production starts with the byte of a primitive. -/
theorem elementType_ne_primitive (production : Production) (code : Primitive) :
    production.elementType ≠ code.elementType := by
  rcases production with (_ | _) | (_ | _) | _ | _ | _ | (_ | _ | _ | _) | _ | (_ | _) | _ | _ <;>
    cases code <;> decide

end Production

/-- What sort of node a node is: a primitive or one of the productions. -/
inductive Tag where
  | primitive
  | of (production : Production)
deriving DecidableEq, Repr

namespace Tag

/-- Every tag, in the order of their numbers. -/
def all : List Tag :=
  [of (.named .reference), of (.named .value), primitive, of (.genericParam .type),
   of (.genericParam .method), of .sentinel, of .functionPointer, of .genericInst,
   of (.wrapper .pointer), of (.wrapper .byRef), of .array, of (.wrapper .vector),
   of (.modified true), of (.modified false), of (.wrapper .pinned), of .valueArray,
   of .moduleQualified]

/-- The number of the tag. -/
def index : Tag → Nat
  | of (.named .reference) => 0
  | of (.named .value) => 1
  | primitive => 2
  | of (.genericParam .type) => 3
  | of (.genericParam .method) => 4
  | of .sentinel => 5
  | of .functionPointer => 6
  | of .genericInst => 7
  | of (.wrapper .pointer) => 8
  | of (.wrapper .byRef) => 9
  | of .array => 10
  | of (.wrapper .vector) => 11
  | of (.modified true) => 12
  | of (.modified false) => 13
  | of (.wrapper .pinned) => 14
  | of .valueArray => 15
  | of .moduleQualified => 16

theorem getElem?_all_index (tag : Tag) : all[tag.index]? = some tag := by
  rcases tag with _ | production
  · rfl
  · rcases production with (_ | _) | (_ | _) | _ | _ | _ | (_ | _ | _ | _) | _ | (_ | _) | _ | _ <;>
      rfl

/-- The name of the tag. -/
def name : Tag → String
  | of (.named .reference) => "Class"
  | of (.named .value) => "ValueType"
  | primitive => "CorLib"
  | of (.genericParam .type) => "Var"
  | of (.genericParam .method) => "MVar"
  | of .sentinel => "Sentinel"
  | of .functionPointer => "FnPtr"
  | of .genericInst => "GenericInst"
  | of (.wrapper .pointer) => "Ptr"
  | of (.wrapper .byRef) => "ByRef"
  | of .array => "Array"
  | of (.wrapper .vector) => "SzArray"
  | of (.modified true) => "CModReqd"
  | of (.modified false) => "CModOpt"
  | of (.wrapper .pinned) => "Pinned"
  | of .valueArray => "ValueArray"
  | of .moduleQualified => "Module"

/-- Whether nodes of this sort end a chain of children. -/
def isTerminal : Tag → Bool
  | primitive => true
  | of (.named _) | of (.genericParam _) | of .sentinel | of .functionPointer | of .genericInst => true
  | _ => false

/-- Whether nodes of this sort carry the token of a type. -/
def isDeclared : Tag → Bool
  | primitive => true
  | of (.named _) => true
  | _ => false

/-- Whether nodes of this sort are custom modifiers. -/
def isModifier : Tag → Bool
  | of (.modified _) => true
  | _ => false

/-- The byte that starts nodes of this sort. Primitives have no byte in common. -/
def elementType? : Tag → Option UInt8
  | primitive => none
  | of production => some production.elementType

end Tag

namespace Node

def tag : Node → Tag
  | named kind _ => .of (.named kind)
  | primitive _ _ => .primitive
  | genericParam owner _ => .of (.genericParam owner)
  | sentinel => .of .sentinel
  | functionPointer _ => .of .functionPointer
  | genericInst _ _ => .of .genericInst
  | wrapper kind _ => .of (.wrapper kind)
  | array _ _ => .of .array
  | modified required _ _ => .of (.modified required)
  | valueArray _ _ => .of .valueArray
  | moduleQualified _ _ => .of .moduleQualified

/-- The byte that starts the written form of the node. -/
def elementType : Node → UInt8
  | primitive _ code => code.elementType
  | node => node.tag.elementType?.getD 0

/-- The one child of a wrapping node. A terminal has none. -/
def child? : Node → Option NodeId
  | wrapper _ child => child
  | array child _ => child
  | modified _ _ child => child
  | valueArray child _ => child
  | moduleQualified _ child => child
  | _ => none

/-- Whether the node ends a chain of children. -/
def isTerminal (node : Node) : Bool :=
  node.tag.isTerminal

theorem child?_of_isTerminal {node : Node} (hTerminal : node.isTerminal = true) :
    node.child? = none := by
  cases node <;> simp_all [isTerminal, tag, Tag.isTerminal, child?]

/-- The token of the type that the node names. -/
def token? : Node → Option Token
  | named _ token => some token
  | primitive token _ => some token
  | _ => none

/-- All that tells two nodes apart but the types in their places. Primitives are told apart by code,
not by token. -/
inductive Label where
  | named (kind : NamedKind) (token : Token)
  | primitive (code : Primitive)
  | genericParam (owner : ParamOwner) (number : UInt32)
  | sentinel
  | functionPointer (signature : Signature.Label)
  | genericInst (arity : Nat)
  | wrapper (kind : WrapperKind)
  | array (shape : ArrayShape)
  | modified (required : Bool) (modifier : Token)
  | valueArray (size : UInt32)
  | moduleQualified (index : UInt32)
deriving DecidableEq, Repr

def label : Node → Label
  | named kind token => .named kind token
  | primitive _ code => .primitive code
  | genericParam owner number => .genericParam owner number
  | sentinel => .sentinel
  | functionPointer signature => .functionPointer signature.label
  | genericInst _ args => .genericInst args.length
  | wrapper kind _ => .wrapper kind
  | array _ shape => .array shape
  | modified required modifier _ => .modified required modifier
  | valueArray _ size => .valueArray size
  | moduleQualified index _ => .moduleQualified index

/-- The places for types in a node: the open type and the arguments of an instantiation, the types
of a function pointer, or the one child of a wrapping node. -/
def children : Node → List (Option NodeId)
  | named _ _ => []
  | primitive _ _ => []
  | genericParam _ _ => []
  | sentinel => []
  | functionPointer signature => signature.children
  | genericInst definition args => definition :: args.map some
  | wrapper _ child => [child]
  | array child _ => [child]
  | modified _ _ child => [child]
  | valueArray child _ => [child]
  | moduleQualified _ child => [child]

/-- Labels fix the number of places. -/
theorem children_length_of_label {a b : Node} (hLabel : a.label = b.label) :
    a.children.length = b.children.length := by
  cases a <;> cases b <;> simp_all [label, children]
  exact Signature.children_length_of_label hLabel

end Node

end CliSignature
