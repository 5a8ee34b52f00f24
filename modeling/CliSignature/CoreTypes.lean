import CliSignature.Arena
import CliSignature.Registry

/-!
The primitives as nodes: one reference to the core library and one shared node for each of them.
-/

namespace CliSignature

/-- The shared node of every primitive and the token of the reference behind it. -/
structure CoreTypes where
  node : Primitive → NodeId
  token : Primitive → Token

namespace CoreTypes

/-- The reference that the registry holds for a primitive. -/
def entry (owner : ModuleId) (core : AssemblyId) (primitive : Primitive) : TypeEntry :=
  .reference owner (.assembly core) Primitive.namespaceName primitive.name

/-- Registers references to the given primitives and adds their nodes, one after the other. The
first component lists what each primitive got. -/
def register (owner : ModuleId) (core : AssemblyId) :
    List Primitive → Arena → Registry → List (Primitive × NodeId × Token) × Arena × Registry
  | [], arena, registry => ([], arena, registry)
  | primitive :: rest, arena, registry =>
    let (token, registry) := registry.add (entry owner core primitive)
    let (id, arena) := arena.push (.primitive token primitive)
    let (others, arena, registry) := register owner core rest arena registry
    ((primitive, id, token) :: others, arena, registry)

/-- The shared nodes and tokens that a list of registered primitives holds. -/
def ofList (entries : List (Primitive × NodeId × Token)) : CoreTypes where
  node := fun primitive => ((entries.lookup primitive).map (·.1)).getD default
  token := fun primitive => ((entries.lookup primitive).map (·.2)).getD default

/-- Registers references to all primitives, held by the module `owner` and resolved in the assembly
`core`, and adds their nodes. -/
def create (owner : ModuleId) (core : AssemblyId) (arena : Arena) (registry : Registry) :
    CoreTypes × Arena × Registry :=
  let (entries, arena, registry) := register owner core Primitive.all arena registry
  (ofList entries, arena, registry)

/-- The shared node that a byte stands for. -/
def ofElementType? (types : CoreTypes) (byte : UInt8) : Option NodeId :=
  (Primitive.ofElementType? byte).map types.node

/-- The primitive whose shared node has the given handle. -/
def primitiveOf? (types : CoreTypes) (id : NodeId) : Option Primitive :=
  Primitive.all.find? fun primitive => types.node primitive == id

end CoreTypes

end CliSignature
