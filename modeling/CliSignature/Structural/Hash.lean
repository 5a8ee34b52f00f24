import CliSignature.Arena
import CliSignature.Digest
import CliSignature.Limits
import CliSignature.Structural.Book

/-!
Structural hashes of signatures. The hash of a node is made of its sort, its payload and the hashes of
its children, in a fixed order. Since children may be shared, a hash is remembered, but only if it
covers everything below its node: where nesting is too deep, where there are too many nodes, and where
a node is met again inside itself, only the sort of the node is hashed, and no hash that depends on
this is remembered.
-/

namespace CliSignature

/-- A piece of what the hash of a node is made of. -/
inductive HashPart where
  | word (value : UInt64)
  | child (slot : Option NodeId)
deriving DecidableEq, Repr

namespace HashPart

/-- The number of elements of a list. -/
def count (n : Nat) : HashPart :=
  word (UInt64.ofNat n)

/-- The children in the given order, none of which is absent. -/
def ofList (ids : List NodeId) : List HashPart :=
  ids.map fun id => child (some id)

end HashPart

namespace Node

/-- What the hash of a node is made of, the sort of the node apart. Of a function pointer neither the
form nor the number of generic parameters nor the place of the sentinel takes part. -/
def hashParts : Node → List HashPart
  | named _ token => [.word (Digest.tokenWord token)]
  | primitive _ code => [.word code.elementType.toUInt64]
  | genericParam _ number => [.word number.toUInt64]
  | sentinel => []
  | functionPointer signature =>
    .word signature.convention.bits.toUInt64 :: .count signature.references.length
      :: HashPart.ofList signature.references
  | genericInst definition args =>
    .child definition :: .count args.length :: HashPart.ofList args
  | wrapper _ child => [.child child]
  | array child shape =>
    .word shape.rank.toUInt64 :: .count shape.sizes.length
      :: shape.sizes.map (fun size => .word size.toUInt64)
      ++ .count shape.lowerBounds.length
      :: shape.lowerBounds.map (fun bound => .word (SipHash.ofInt32 bound))
      ++ [.child child]
  | modified _ modifier child => [.word (Digest.tokenWord modifier), .child child]
  | valueArray child size => [.word size.toUInt64, .child child]
  | moduleQualified index child => [.word index.toUInt64, .child child]

/-- The digest of a node's sort alone. -/
def tagDigest (node : Node) : Digest :=
  Digest.start.add (Digest.tagWord node.tag)

end Node

/-- A hash, and whether it covers everything below its node. -/
structure NodeHash where
  value : UInt64
  complete : Bool
deriving DecidableEq, Repr

namespace NodeHash

/-- The hash of an absent type. -/
def absent : NodeHash := ⟨(Digest.start.add Digest.absentWord).state, true⟩

/-- The hash of a node that is not looked into. -/
def truncated (node : Node) : NodeHash := ⟨node.tagDigest.state, false⟩

end NodeHash

/-- The state of a hashing: the complete hashes found, the nodes that are being looked into, and the
number of nodes looked into so far. -/
structure HashWalk where
  finished : List (NodeId × UInt64)
  active : List NodeId
  steps : Nat
deriving DecidableEq, Repr

namespace HashWalk

/-- The state before the first node. -/
def start : HashWalk := ⟨[], [], 0⟩

/-- The state on the way into a node. -/
def enter (walk : HashWalk) (id : NodeId) : HashWalk :=
  { walk with active := id :: walk.active, steps := walk.steps + 1 }

/-- The state on the way out of a node, for which `hash` was found. -/
def leave (walk : HashWalk) (id : NodeId) (hash : NodeHash) : HashWalk :=
  { walk with
    active := walk.active.erase id
    finished := if hash.complete then (id, hash.value) :: walk.finished else walk.finished }

/-- The book of a hashing, which keeps nothing else. -/
def book : Book HashWalk HashWalk NodeId NodeHash where
  read := id
  enter := enter
  leave := leave

end HashWalk

/-- A hashing in progress. -/
abbrev Hashing := StateM HashWalk

namespace Hashing

/-- What can be said of a slot before its node is looked into. -/
inductive Glance where
  | settled (hash : NodeHash)
  | undecided (id : NodeId) (node : Node)
deriving DecidableEq, Repr

/-- An absent type has a hash of its own, and a complete hash found earlier is used again. -/
def glance (arena : Arena) (walk : HashWalk) (slot : Option NodeId) : Glance :=
  match arena.resolve? slot with
  | none => .settled .absent
  | some (id, node) =>
    match walk.finished.lookup id with
    | some value => .settled ⟨value, true⟩
    | none => .undecided id node

section Walk

variable {σ : Type}

/-- Mixes pieces into a digest, where `hash` hashes a child. The result is complete if the digest so
far and the hashes of all children are. -/
def parts (hash : Option NodeId → StateM σ NodeHash) (digest : Digest) (complete : Bool) :
    List HashPart → StateM σ NodeHash
  | [] => pure ⟨digest.state, complete⟩
  | .word value :: rest => parts hash (digest.add value) complete rest
  | .child slot :: rest => do
    let child ← hash slot
    parts hash (digest.add child.value) (complete && child.complete) rest

/-- Hashes a slot with the given number of levels left, whatever book is kept of it. -/
def withBook (book : Book σ HashWalk NodeId NodeHash) (arena : Arena) (limits : Limits) :
    Nat → Option NodeId → StateM σ NodeHash
  | 0, slot => do
    match glance arena (book.read (← get)) slot with
    | .settled hash => pure hash
    | .undecided _ node => pure (.truncated node)
  | levels + 1, slot => do
    let walk := book.read (← get)
    match glance arena walk slot with
    | .settled hash => pure hash
    | .undecided id node =>
      if limits.resolutionSteps ≤ walk.steps ∨ id ∈ walk.active then pure (.truncated node)
      else book.visit id (parts (withBook book arena limits levels) node.tagDigest true node.hashParts)

end Walk

/-- Looks into a node, where `hash` hashes its children. -/
def into (hash : Option NodeId → Hashing NodeHash) (id : NodeId) (node : Node) : Hashing NodeHash :=
  HashWalk.book.visit id (parts hash node.tagDigest true node.hashParts)

/-- Hashes a slot with the given number of levels left. -/
def within (arena : Arena) (limits : Limits) : Nat → Option NodeId → Hashing NodeHash :=
  withBook HashWalk.book arena limits

end Hashing

namespace Arena

/-- The structural hash of the type in a slot, as far as the limits let it be seen. -/
def structuralHash (arena : Arena) (limits : Limits) (slot : Option NodeId) : UInt64 :=
  (Hashing.within arena limits limits.formatDepth slot .start).1.value

end Arena

end CliSignature
