import CliSignature.Node

/-!
The arena that holds the nodes of all signatures. Nodes are only ever added, so a handle that refers
to a node refers to it for good.
-/

namespace CliSignature

/-- The nodes of all signatures, in the order in which they were added. -/
structure Arena where
  nodes : Array Node
deriving DecidableEq, Inhabited, Repr

namespace Arena

/-- The arena without nodes. -/
def empty : Arena := ⟨#[]⟩

/-- The number of nodes. -/
def size (arena : Arena) : Nat :=
  arena.nodes.size

/-- The node behind a handle, if there is one. -/
def get? (arena : Arena) (id : NodeId) : Option Node :=
  arena.nodes[id.index]?

/-- Whether a handle refers to a node. -/
def contains (arena : Arena) (id : NodeId) : Bool :=
  decide (id.index < arena.size)

theorem contains_iff {arena : Arena} {id : NodeId} :
    arena.contains id = true ↔ ∃ node, arena.get? id = some node := by
  simp only [contains, size, get?, Array.getElem?_eq_some_iff]
  exact ⟨fun hLt => ⟨_, of_decide_eq_true hLt, rfl⟩, fun ⟨_, hLt, _⟩ => decide_eq_true hLt⟩

theorem lt_size_of_get? {arena : Arena} {id : NodeId} {node : Node} (hNode : arena.get? id = some node) :
    id.index < arena.size :=
  of_decide_eq_true (contains_iff.mpr ⟨node, hNode⟩)

theorem exists_get?_of_lt {arena : Arena} {id : NodeId} (hLt : id.index < arena.size) :
    ∃ node, arena.get? id = some node :=
  contains_iff.mp (decide_eq_true hLt)

/-- Adds a node and returns its handle, which is the number of nodes before it. -/
def push (arena : Arena) (node : Node) : NodeId × Arena :=
  (⟨arena.size⟩, ⟨arena.nodes.push node⟩)

@[simp] theorem size_push (arena : Arena) (node : Node) :
    (arena.push node).2.size = arena.size + 1 := by
  simp [push, size]

@[simp] theorem get?_push_self (arena : Arena) (node : Node) :
    (arena.push node).2.get? (arena.push node).1 = some node := by
  simp [push, size, get?]

/-- Adding a node leaves every earlier node where it was. -/
theorem get?_push_of_lt {arena : Arena} {id : NodeId} (node : Node) (hOld : id.index < arena.size) :
    (arena.push node).2.get? id = arena.get? id := by
  simp only [push, get?, size] at *
  rw [Array.getElem?_push_lt hOld, Array.getElem?_eq_getElem hOld]

/-- The node behind a slot, together with its handle. An empty slot and a handle that refers to
nothing are the same. -/
def resolve? (arena : Arena) (slot : Option NodeId) : Option (NodeId × Node) := do
  let id ← slot
  let node ← arena.get? id
  pure (id, node)

theorem resolve?_of_get? {arena : Arena} {id : NodeId} {node : Node}
    (hNode : arena.get? id = some node) : arena.resolve? (some id) = some (id, node) := by
  simp [resolve?, hNode]

theorem resolve?_of_get?_eq_none {arena : Arena} {id : NodeId} (hNone : arena.get? id = none) :
    arena.resolve? (some id) = none := by
  simp [resolve?, hNone]

theorem resolve?_eq_some {arena : Arena} {slot : Option NodeId} {id : NodeId} {node : Node}
    (hNode : arena.resolve? slot = some (id, node)) :
    slot = some id ∧ arena.get? id = some node := by
  cases slot with
  | none => simp [resolve?] at hNode
  | some key =>
      cases hHeld : arena.get? key with
      | none => simp [resolve?, hHeld] at hNode
      | some held =>
          obtain ⟨rfl, rfl⟩ : key = id ∧ held = node := by simpa [resolve?, hHeld] using hNode
          exact ⟨rfl, hHeld⟩

/-- The sort of the node behind a handle. -/
def tag? (arena : Arena) (id : NodeId) : Option Tag :=
  (arena.get? id).map Node.tag

/-- The child of the node behind a handle. -/
def child? (arena : Arena) (id : NodeId) : Option NodeId :=
  (arena.get? id).bind Node.child?

/-- Every node from the given position on, with its handle. -/
def listFrom (arena : Arena) (start : Nat) : List (NodeId × Node) :=
  ((arena.nodes.toList.zipIdx).drop start).map fun entry => (⟨entry.2⟩, entry.1)

/-- Adds the nodes that `build` makes, each over the handle of the one before it, starting from
`slot`. The result is the handle of the last node, or `slot` itself if there are none. -/
def stack (arena : Arena) (slot : Option NodeId) :
    List (Option NodeId → Node) → Option NodeId × Arena
  | [] => (slot, arena)
  | build :: rest =>
    let (id, extended) := arena.push (build slot)
    extended.stack (some id) rest

end Arena

/-- A change to the payload of a node. No change reaches the child of a node, its token, its number
or its function pointer. -/
inductive Edit where
  | setDefinition (definition : Option NodeId)
  | setArgs (args : List NodeId)
  | addArg (arg : NodeId)
  | setRank (rank : UInt32)
  | setSizes (sizes : List UInt32)
  | addSize (size : UInt32)
  | setLowerBounds (bounds : List Int32)
  | addLowerBound (bound : Int32)
  | setInlineSize (size : UInt32)
  | setModuleIndex (index : UInt32)
deriving DecidableEq, Repr

/-- The node after a change, or nothing if the change is for another sort of node. -/
def Node.edit? : Node → Edit → Option Node
  | .genericInst _ args, .setDefinition definition => some (.genericInst definition args)
  | .genericInst definition _, .setArgs args => some (.genericInst definition args)
  | .genericInst definition args, .addArg arg => some (.genericInst definition (args ++ [arg]))
  | .array child shape, .setRank rank => some (.array child { shape with rank })
  | .array child shape, .setSizes sizes => some (.array child { shape with sizes })
  | .array child shape, .addSize size =>
    some (.array child { shape with sizes := shape.sizes ++ [size] })
  | .array child shape, .setLowerBounds bounds =>
    some (.array child { shape with lowerBounds := bounds })
  | .array child shape, .addLowerBound bound =>
    some (.array child { shape with lowerBounds := shape.lowerBounds ++ [bound] })
  | .valueArray child _, .setInlineSize size => some (.valueArray child size)
  | .moduleQualified _ child, .setModuleIndex index => some (.moduleQualified index child)
  | _, _ => none

namespace Arena

/-- The arena after a change to one node, or nothing if there is no such node or the change is for
another sort of node. -/
def edit? (arena : Arena) (id : NodeId) (edit : Edit) : Option Arena := do
  let node ← arena.get? id
  let changed ← node.edit? edit
  pure ⟨arena.nodes.setIfInBounds id.index changed⟩

end Arena

end CliSignature
