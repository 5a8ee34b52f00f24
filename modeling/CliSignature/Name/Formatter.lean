import CliSignature.Name.Rendering
import CliSignature.Owner
import CliSignature.Path

/-!
Names of types. A name is spelled as assembly source spells it, or as reflection does, which leaves
out custom modifiers, pinned markers and the signatures of function pointers, and adds the assembly to
every generic argument. Every node and every token on the way is a visit, and each lies one level
deeper than what led to it. What a token names, if anything, is looked up; a token that names nothing
gives no text.
-/

namespace CliSignature

/-- How names are spelled. -/
inductive NameStyle where
  | source
  | reflection
deriving DecidableEq, Repr

/-- What has a name: the type in a slot, or a token. -/
inductive Subject where
  | slot (slot : Option NodeId)
  | type (token : Token)
deriving DecidableEq, Repr

/-- What names are rendered from, and how. -/
structure NameFormatter where
  arena : Arena
  types : TypeSource
  limits : Limits
  style : NameStyle

namespace ArrayShape

/-- The first and the last index of a dimension, as far as they are known. -/
def dimensionText : Option Int32 → Option UInt32 → String
  | some lower, some size =>
    Text.integer lower.toInt ++ ".." ++ Text.integer (lower.toInt + size.toNat - 1)
  | some lower, none => Text.integer lower.toInt ++ "..."
  | none, some size => "0.." ++ Text.integer ((size.toNat : Int) - 1)
  | none, none => ""

/-- The texts of the given number of dimensions. -/
def dimensionTexts : Nat → List Int32 → List UInt32 → List String
  | 0, _, _ => []
  | n + 1, lowerBounds, sizes =>
    dimensionText lowerBounds.head? sizes.head? :: dimensionTexts n lowerBounds.tail sizes.tail

/-- The shape behind the name of an array's elements. Reflection shows the rank alone, and tells an
array of rank one from a vector by an asterisk. -/
def text (shape : ArrayShape) (style : NameStyle) : String :=
  let rank := shape.rank.toNat
  let inner :=
    if rank = 0 then "<RANK0>"
    else
      match style with
      | .reflection =>
        (if rank = 1 then "*" else "") ++ String.ofList (List.replicate (rank - 1) ',')
      | .source => ",".intercalate (dimensionTexts rank shape.lowerBounds shape.sizes)
  "[" ++ inner ++ "]"

end ArrayShape

/-- What a wrapper adds to the name of its child. Reflection does not show pinned markers. -/
def WrapperKind.suffix : WrapperKind → NameStyle → String
  | pointer, _ => "*"
  | byRef, _ => "&"
  | vector, _ => "[]"
  | pinned, .source => " pinned"
  | pinned, .reflection => ""

/-- What stands between the name of a type and that of a type nested in it. -/
def NameStyle.nesting : NameStyle → String
  | source => "/"
  | reflection => "+"

namespace NameFormatter

open Rendering (nothing text tooDeep separated each)

/-- The formatter with another spelling. -/
def withStyle (formatter : NameFormatter) (style : NameStyle) : NameFormatter :=
  { formatter with style }

/-- What an assembly-qualified name adds to the name: the assembly that defines the type, if that is
known. -/
def assemblySuffix? (formatter : NameFormatter) (id : NodeId) : Option String := do
  let assembly ← (OwnerQuery.definingAssembly formatter.types).resolve? formatter.arena
    formatter.types formatter.limits (.node id)
  let identity ← formatter.types.assembly? assembly
  pure (", " ++ identity.display)

/-- The assembly behind the name of a type, or nothing if it is not known. -/
def assemblySuffix (formatter : NameFormatter) (id : NodeId) : Rendering := fun budget =>
  match formatter.assemblySuffix? id with
  | some suffix => text suffix budget
  | none => nothing budget

variable (inner : Subject → Bool → Rendering)

/-- The qualified name of the type in a slot, where `inner` renders what lies one level deeper. -/
def qualified (slot : Option NodeId) : Rendering :=
  inner (.slot slot) true

/-- The assembly-qualified name of a type. -/
def assemblyQualified (formatter : NameFormatter) (id : NodeId) : Rendering :=
  (qualified inner (some id)).unlessSpent (formatter.assemblySuffix id)

/-- The arguments of an instantiation. -/
def arguments (formatter : NameFormatter) (args : List NodeId) : Rendering :=
  match formatter.style with
  | .source => text "<" ++ separated "," (args.map fun arg => qualified inner (some arg)) ++ text ">"
  | .reflection =>
    text "[" ++ separated "," (args.map fun arg =>
      text "[" ++ assemblyQualified inner formatter arg ++ text "]") ++ text "]"

/-- A custom modifier behind the type it modifies. Reflection does not show it. -/
def modifier (formatter : NameFormatter) (required : Bool) (token : Token) : Rendering :=
  match formatter.style with
  | .source =>
    text (if required then " modreq(" else " modopt(") ++ inner (.type token) true ++ text ")"
  | .reflection => nothing

/-- The parameters behind a sentinel. -/
def varargs (fixed : List NodeId) : Option (List NodeId) → Rendering
  | none => nothing
  | some ids =>
    (if fixed.isEmpty then nothing else text ",") ++ text "..."
      ++ each "," (ids.map fun id => qualified inner (some id))

/-- The signature of a function pointer. Reflection does not show it, and only methods have one. -/
def functionPointer (formatter : NameFormatter) (signature : Signature) : Rendering :=
  match formatter.style, signature.method? with
  | .source, some method =>
    text "method " ++ qualified inner method.result ++ text " *("
      ++ separated "," (method.params.map fun param => qualified inner (some param))
      ++ varargs inner method.params method.varargs ++ text ")"
  | _, _ => text "(fnptr)"

/-- The name of a node, with or without the namespaces of the types that its name starts with. -/
def node (formatter : NameFormatter) (isQualified : Bool) : Node → Rendering
  | .named _ token => inner (.type token) isQualified
  | .primitive _ code =>
    text (if isQualified then Primitive.namespaceName ++ "." ++ code.name else code.name)
  | .genericParam .type number => text ("!" ++ Text.decimal number.toNat)
  | .genericParam .method number => text ("!!" ++ Text.decimal number.toNat)
  | .sentinel => text "..."
  | .functionPointer signature => functionPointer inner formatter signature
  | .genericInst definition args =>
    inner (.slot definition) isQualified ++ arguments inner formatter args
  | .wrapper kind child =>
    inner (.slot child) isQualified ++ text (kind.suffix formatter.style)
  | .array child shape => inner (.slot child) isQualified ++ text (shape.text formatter.style)
  | .modified required token child =>
    inner (.slot child) isQualified ++ modifier inner formatter required token
  | .valueArray child size =>
    inner (.slot child) isQualified ++ text (" ValueArray(" ++ Text.decimal size.toNat ++ ")")
  | .moduleQualified index child =>
    text ("[module:" ++ Text.decimal index.toNat ++ "]") ++ inner (.slot child) isQualified

/-- What stands before the name of a type that is qualified: the type it is nested in, or else its
namespace. -/
def qualifier (formatter : NameFormatter) (entry : TypeEntry) : Rendering :=
  match entry.declaringType? with
  | some outer => inner (.type outer) true ++ text formatter.style.nesting
  | none => if entry.namespaceName = "" then nothing else text (entry.namespaceName ++ ".")

/-- The name of what a token names. -/
def entry (formatter : NameFormatter) (isQualified : Bool) : TypeEntry → Rendering
  | .specification signature => inner (.slot signature) isQualified
  | entry =>
    (if isQualified then qualifier inner formatter entry else nothing) ++ text entry.name

/-- The name of a subject. A slot without a node and a token that names nothing have none. -/
def body (formatter : NameFormatter) : Subject → Bool → Rendering
  | .slot slot, isQualified =>
    match formatter.arena.resolve? slot with
    | none => nothing
    | some (_, found) => node inner formatter isQualified found
  | .type token, isQualified =>
    match formatter.types.type? token with
    | none => nothing
    | some found => entry inner formatter isQualified found

/-- The name of a subject with the given number of levels left. -/
def within (formatter : NameFormatter) : Nat → Subject → Bool → Rendering
  | 0, _, _ => tooDeep
  | levels + 1, subject, isQualified =>
    (body (within formatter levels) formatter subject isQualified).visit

/-- The name of a subject with all levels. -/
def render (formatter : NameFormatter) : Subject → Bool → Rendering :=
  within formatter formatter.limits.formatDepth

/-- The name without the namespace and the enclosing types that it starts with. -/
def name (formatter : NameFormatter) (id : NodeId) : String :=
  (formatter.render (.slot (some id)) false).run formatter.limits.resolutionSteps

/-- The name with namespace and enclosing types. -/
def fullName (formatter : NameFormatter) (id : NodeId) : String :=
  (formatter.render (.slot (some id)) true).run formatter.limits.resolutionSteps

/-- The name of what a token names, with namespace and enclosing types. -/
def tokenFullName (formatter : NameFormatter) (token : Token) : String :=
  (formatter.render (.type token) true).run formatter.limits.resolutionSteps

/-- The name as reflection spells it, followed by the assembly that defines the type. -/
def assemblyQualifiedName (formatter : NameFormatter) (id : NodeId) : String :=
  let reflection := formatter.withStyle .reflection
  (assemblyQualified reflection.render reflection id).run formatter.limits.resolutionSteps

/-- The namespace of a subject, with the given number of levels left. A nested type has that of the
outermost type around it. -/
def namespaceWithin (formatter : NameFormatter) : Nat → Subject → String
  | 0, _ => ""
  | levels + 1, .slot slot =>
    match (slot.bind formatter.arena.leaf?).bind formatter.arena.get? with
    | some (.named _ token) => namespaceWithin formatter levels (.type token)
    | some (.primitive _ _) => Primitive.namespaceName
    | some (.genericInst definition _) => namespaceWithin formatter levels (.slot definition)
    | _ => ""
  | levels + 1, .type token =>
    match formatter.types.type? token with
    | none => ""
    | some (.specification signature) => namespaceWithin formatter levels (.slot signature)
    | some entry =>
      match entry.declaringType? with
      | some outer => namespaceWithin formatter levels (.type outer)
      | none => entry.namespaceName

/-- The namespace of the type that a name starts with. -/
def namespaceName (formatter : NameFormatter) (id : NodeId) : String :=
  formatter.namespaceWithin formatter.limits.formatDepth (.slot (some id))

end NameFormatter

end CliSignature
