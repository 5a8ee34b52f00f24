import CliSignature.Arena

/-!
Walks along the child links of a signature. Handles may be chained into a ring, so a walk makes at
most as many visits as the arena has nodes, and one more where the end has to be seen.
-/

namespace CliSignature.Arena

/-- The terminal at the end of the child links from `id`, if it is reached in the given number of
visits. -/
def leafWithin (arena : Arena) : Nat → NodeId → Option NodeId
  | 0, _ => none
  | visits + 1, id => do
    let node ← arena.get? id
    if node.isTerminal then some id else do
      let child ← node.child?
      leafWithin arena visits child

theorem leafWithin_succ {arena : Arena} {id : NodeId} {node : Node} (hNode : arena.get? id = some node)
    (visits : Nat) :
    arena.leafWithin (visits + 1) id =
      if node.isTerminal then some id else node.child?.bind (arena.leafWithin visits) := by
  simp [leafWithin, hNode]

theorem bind_leafWithin_of_absent {arena : Arena} {slot : Option NodeId} (hNone : arena.resolve? slot = none)
    (visits : Nat) : slot.bind (arena.leafWithin visits) = none := by
  cases slot with
  | none => rfl
  | some id =>
      cases hNode : arena.get? id with
      | none => cases visits <;> simp [leafWithin, hNode]
      | some node => cases hNone.symm.trans (resolve?_of_get? hNode)

/-- The terminal at the end of the child links from `id`. There is none if the links end at an absent
child, at a handle that refers to nothing, or never. -/
def leaf? (arena : Arena) (id : NodeId) : Option NodeId :=
  arena.leafWithin (arena.size + 1) id

/-- The nodes along the child links from a slot, of which at most the given number. -/
def chainWithin (arena : Arena) : Nat → Option NodeId → List (NodeId × Node)
  | 0, _ => []
  | visits + 1, slot =>
    match arena.resolve? slot with
    | none => []
    | some (id, node) => (id, node) :: chainWithin arena visits node.child?

@[simp] theorem chainWithin_none (arena : Arena) (visits : Nat) : arena.chainWithin visits none = [] := by
  cases visits <;> rfl

theorem chainWithin_succ {arena : Arena} {id : NodeId} {node : Node} (hNode : arena.get? id = some node)
    (visits : Nat) :
    arena.chainWithin (visits + 1) (some id) = (id, node) :: arena.chainWithin visits node.child? := by
  simp [chainWithin, resolve?, hNode]

/-- The nodes along the child links from `id`, from the outermost inwards. -/
def chain (arena : Arena) (id : NodeId) : List (NodeId × Node) :=
  arena.chainWithin arena.size (some id)

/-- Whether a handle refers to a custom modifier. -/
def isModifier (arena : Arena) (id : NodeId) : Bool :=
  (arena.tag? id).any Tag.isModifier

/-- Whether a handle refers to a pinned marker. -/
def isPinned (arena : Arena) (id : NodeId) : Bool :=
  arena.tag? id == some (.of (.wrapper .pinned))

/-- The first handle along the child links that does not refer to a custom modifier, if it is
reached in the given number of visits. -/
def unmodifiedWithin (arena : Arena) : Nat → Option NodeId → Option NodeId
  | 0, _ => none
  | _, none => none
  | visits + 1, some id =>
    if arena.isModifier id then unmodifiedWithin arena visits (arena.child? id) else some id

/-- A slot behind all leading custom modifiers. A handle that refers to nothing is no modifier. -/
def withoutModifiers (arena : Arena) (slot : Option NodeId) : Option NodeId :=
  arena.unmodifiedWithin (arena.size + 1) slot

/-- A slot behind a leading pinned marker. -/
def withoutPinned (arena : Arena) (slot : Option NodeId) : Option NodeId :=
  slot.bind fun id => if arena.isPinned id then arena.child? id else some id

/-- A slot behind leading custom modifiers and, if a pinned marker follows, behind the marker and the
modifiers after it. -/
def withoutPinnedAndModifiers (arena : Arena) (slot : Option NodeId) : Option NodeId :=
  (arena.withoutModifiers slot).bind fun id =>
    if arena.isPinned id then arena.withoutModifiers (arena.child? id) else some id

end CliSignature.Arena
