import CliSignature.Arena
import CliSignature.Limits
import CliSignature.Registry

/-!
Which module owns the type of a signature, and which assembly defines it. The answer lies at the end
of a walk that leads from wrapping nodes to their children, from instantiations to their open types,
from tokens to what they name and from there possibly back to a signature. A walk through crafted
metadata may never end, so it is cut at a bound, and earlier where it meets its own trail.
-/

namespace CliSignature

/-- Where a walk stands: at a node or at a token. -/
inductive Place where
  | node (id : NodeId)
  | type (token : Token)
deriving DecidableEq, Repr

/-- What a walk does at a place: it goes on, or it ends with an answer, which may be that there is
no owner. -/
inductive Move (α : Type) where
  | go (place : Place)
  | stop (answer : Option α)

namespace Move

/-- Goes on to the node in a slot. If the slot is empty there is no owner. -/
def toSlot {α : Type} : Option NodeId → Move α
  | some id => go (.node id)
  | none => stop none

end Move

/-- The part of a walk that depends on what is asked for. -/
structure OwnerQuery (α : Type) where
  /-- The answer for a type that the given module defines. -/
  ofDefinition : ModuleId → Option α
  /-- What to do at a type that the given module refers to. -/
  ofReference : ModuleId → ResolutionScope → Move α

namespace OwnerQuery

/-- Asks for the module that holds the type's definition or the reference to it. -/
def owningModule : OwnerQuery ModuleId where
  ofDefinition := some
  ofReference := fun owner _ => .stop (some owner)

/-- Asks for the assembly that the type is defined in. A reference to a nested type leads on to the
type it is nested in. -/
def definingAssembly (source : TypeSource) : OwnerQuery AssemblyId where
  ofDefinition := source.moduleAssembly?
  ofReference := fun _ scope =>
    match scope with
    | .assembly id => .stop (some id)
    | .sameAssembly id => .stop (source.moduleAssembly? id)
    | .nested outer => .go (.type outer)
    | .unknown => .stop none

variable {α : Type}

/-- What a walk does at a node. -/
def atNode (arena : Arena) (id : NodeId) : Move α :=
  match arena.get? id with
  | none => .stop none
  | some (.named _ token) => .go (.type token)
  | some (.primitive token _) => .go (.type token)
  | some (.genericInst definition _) => .toSlot definition
  | some node => .toSlot node.child?

/-- What a walk does at a token. -/
def atType (query : OwnerQuery α) (source : TypeSource) (token : Token) : Move α :=
  match source.type? token with
  | none => .stop none
  | some (.definition owner _ _ _) => .stop (query.ofDefinition owner)
  | some (.reference owner scope _ _) => query.ofReference owner scope
  | some (.specification signature) => .toSlot signature

/-- What a walk does at a place, whatever lies behind it. -/
def move (query : OwnerQuery α) (arena : Arena) (source : TypeSource) : Place → Move α
  | .node id => atNode arena id
  | .type token => query.atType source token

end OwnerQuery

/-- Why a walk ended without an answer. -/
inductive WalkError where
  | recursionLimit (limit : Nat)
  | cyclicReference (token : Token)
deriving DecidableEq, Repr

namespace WalkError

def message : WalkError → String
  | recursionLimit limit => "Reach the maximum recursion level allowed - " ++ Text.decimal limit
  | cyclicReference token => "Cyclic type reference detected - " ++ token.text

end WalkError

/-- The tokens and the instantiations that a walk has passed. -/
structure Trail where
  types : List Token
  instantiations : List NodeId
deriving DecidableEq, Repr

namespace Trail

def empty : Trail := ⟨[], []⟩

/-- Whether a handle refers to an instantiation. -/
def isInstantiation (arena : Arena) (id : NodeId) : Bool :=
  arena.tag? id == some (.of .genericInst)

/-- The trail with one more place, which is the `step`-th. A token that is on the trail already is a
cyclic reference. An instantiation that is on the trail already counts as too many steps. -/
def visit (arena : Arena) (trail : Trail) (step : Nat) : Place → Except WalkError Trail
  | .node id =>
    if isInstantiation arena id then
      if trail.instantiations.contains id then .error (.recursionLimit step)
      else .ok { trail with instantiations := id :: trail.instantiations }
    else .ok trail
  | .type token =>
    if trail.types.contains token then .error (.cyclicReference token)
    else .ok { trail with types := token :: trail.types }

end Trail

namespace OwnerQuery

variable {α : Type}

/-- The walk from a place, with the places it may still stand at and the bound on all of them. -/
def walk (query : OwnerQuery α) (arena : Arena) (source : TypeSource) (bound : Nat) :
    Nat → Trail → Place → Except WalkError (Option α)
  | 0, _, _ => .error (.recursionLimit bound)
  | remaining + 1, trail, place =>
    match trail.visit arena (bound - remaining) place with
    | .error error => .error error
    | .ok longer =>
      match query.move arena source place with
      | .stop answer => .ok answer
      | .go next => walk query arena source bound remaining longer next

/-- The answer for a place, or why there is none. -/
def resolve (query : OwnerQuery α) (arena : Arena) (source : TypeSource) (limits : Limits)
    (place : Place) : Except WalkError (Option α) :=
  query.walk arena source limits.resolutionSteps limits.resolutionSteps .empty place

/-- The answer for a place. A walk that ends without an answer counts as no owner. -/
def resolve? (query : OwnerQuery α) (arena : Arena) (source : TypeSource) (limits : Limits)
    (place : Place) : Option α :=
  match query.resolve arena source limits place with
  | .ok answer => answer
  | .error _ => none

end OwnerQuery

end CliSignature
