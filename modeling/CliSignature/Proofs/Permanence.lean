import CliSignature.Path

/-!
What lasts in an arena. Nodes are added behind those that are there, and an edit reaches only the payload of
one node. So a node stays what it is, and a chain of children that has come to an end goes the same way for
good, also if handles that referred to nothing come to refer to something.
-/

namespace CliSignature

namespace Node

/-- The token of a custom modifier. -/
def modifier? : Node → Option Token
  | modified _ modifier _ => some modifier
  | _ => none

/-- The primitive that the node stands for. -/
def primitive? : Node → Option Primitive
  | primitive _ code => some code
  | _ => none

/-- The number of a generic parameter. -/
def number? : Node → Option UInt32
  | genericParam _ number => some number
  | _ => none

/-- The signature of a function pointer. -/
def signature? : Node → Option Signature
  | functionPointer signature => some signature
  | _ => none

/-- What a node is, apart from the payload that edits reach. -/
structure Identity where
  tag : Tag
  child : Option NodeId
  token : Option Token
  modifier : Option Token
  primitive : Option Primitive
  number : Option UInt32
  signature : Option Signature
deriving DecidableEq, Repr

def identity (node : Node) : Identity :=
  ⟨node.tag, node.child?, node.token?, node.modifier?, node.primitive?, node.number?, node.signature?⟩

theorem identity_of_edit? {node changed : Node} {edit : Edit} (hEdit : node.edit? edit = some changed) :
    changed.identity = node.identity := by
  cases node <;> cases edit <;> simp only [Node.edit?, Option.some.injEq, reduceCtorEq] at hEdit <;>
    subst hEdit <;> rfl

theorem isTerminal_of_identity {node other : Node} (hSame : other.identity = node.identity) :
    other.isTerminal = node.isTerminal :=
  congrArg Tag.isTerminal (congrArg Identity.tag hSame)

theorem child?_of_identity {node other : Node} (hSame : other.identity = node.identity) :
    other.child? = node.child? :=
  congrArg Identity.child hSame

end Node

namespace Edit

/-- The sort of nodes that the edit is for. -/
def tag : Edit → Tag
  | setDefinition _ | setArgs _ | addArg _ => .of .genericInst
  | setRank _ | setSizes _ | addSize _ | setLowerBounds _ | addLowerBound _ => .of .array
  | setInlineSize _ => .of .valueArray
  | setModuleIndex _ => .of .moduleQualified

theorem edit?_eq_none_iff {node : Node} {edit : Edit} : node.edit? edit = none ↔ node.tag ≠ edit.tag := by
  cases node <;> cases edit <;> simp [Node.edit?, Node.tag, tag]

end Edit

namespace Arena

/-- What can be done to an arena. -/
inductive Operation where
  | push (node : Node)
  | edit (id : NodeId) (edit : Edit)

/-- Whether the operation adds a node. -/
def Operation.isPush : Operation → Bool
  | .push _ => true
  | .edit _ _ => false

/-- The handles that operations give out, one for each node that they add, and the arena after them. An edit
for another sort of node changes nothing. -/
def performEach (arena : Arena) : List Operation → List NodeId × Arena
  | [] => ([], arena)
  | .push node :: rest =>
    let (id, extended) := arena.push node
    let (ids, after) := extended.performEach rest
    (id :: ids, after)
  | .edit id edit :: rest => ((arena.edit? id edit).getD arena).performEach rest

/-- Every node of the earlier arena is still there, with the same identity. -/
def Preserves (later earlier : Arena) : Prop :=
  ∀ id node, earlier.get? id = some node → ∃ held, later.get? id = some held ∧ held.identity = node.identity

/-- A place on a chain: the handle, and what the node there is. -/
def waypoint (item : NodeId × Node) : NodeId × Node.Identity :=
  (item.1, item.2.identity)

/-- Whether a chain has come to a terminal. -/
def EndsInTerminal (items : List (NodeId × Node)) : Prop :=
  ∃ item ∈ items.getLast?, item.2.isTerminal = true

/-- A chain does not end where it has not come to a terminal yet. -/
theorem EndsInTerminal.of_cons {item : NodeId × Node} {rest : List (NodeId × Node)}
    (hEnds : EndsInTerminal (item :: rest)) (hInside : ¬ item.2.isTerminal = true) : EndsInTerminal rest := by
  obtain ⟨last, hLast, hTerminal⟩ := hEnds
  cases rest with
  | nil =>
      obtain rfl : item = last := by simpa using hLast
      exact absurd hTerminal hInside
  | cons next rest => exact ⟨last, by simpa using hLast, hTerminal⟩

/-- No edit takes hold of a node of another sort. -/
theorem edit?_eq_none_of_tag {arena : Arena} {id : NodeId} {edit : Edit} (hOther : arena.tag? id ≠ some edit.tag) :
    arena.edit? id edit = none := by
  cases hNode : arena.get? id with
  | none => simp [edit?, hNode]
  | some node =>
      have hTag : node.tag ≠ edit.tag := fun hTag => hOther (by simp [tag?, hNode, hTag])
      simp [edit?, hNode, Edit.edit?_eq_none_iff.mpr hTag]

theorem exists_of_edit? {arena changed : Arena} {id : NodeId} {edit : Edit}
    (hEdit : arena.edit? id edit = some changed) :
    ∃ node held, arena.get? id = some node ∧ node.edit? edit = some held ∧
      changed = ⟨arena.nodes.setIfInBounds id.index held⟩ := by
  simp only [edit?, Option.bind_eq_bind, Option.bind_eq_some_iff, Option.pure_def, Option.some.injEq] at hEdit
  obtain ⟨node, hNode, held, hHeld, rfl⟩ := hEdit
  exact ⟨node, held, hNode, hHeld, rfl⟩

namespace Preserves

variable {earlier middle later : Arena}

theorem refl (arena : Arena) : arena.Preserves arena :=
  fun _ node hNode => ⟨node, hNode, rfl⟩

theorem trans (hLater : later.Preserves middle) (hMiddle : middle.Preserves earlier) :
    later.Preserves earlier := by
  intro id node hNode
  obtain ⟨between, hBetween, hSame⟩ := hMiddle id node hNode
  obtain ⟨held, hHeld, hSame'⟩ := hLater id between hBetween
  exact ⟨held, hHeld, hSame'.trans hSame⟩

theorem push (arena : Arena) (node : Node) : (arena.push node).2.Preserves arena := by
  intro id held hHeld
  exact ⟨held, (get?_push_of_lt node (lt_size_of_get? hHeld)).trans hHeld, rfl⟩

theorem edit {arena changed : Arena} {id : NodeId} {edit : Edit} (hEdit : arena.edit? id edit = some changed) :
    changed.Preserves arena := by
  obtain ⟨node, held, hNode, hHeld, rfl⟩ := exists_of_edit? hEdit
  intro other before hBefore
  by_cases hSame : other.index = id.index
  · obtain rfl : other = id := congrArg NodeId.mk hSame
    obtain rfl := Option.some.inj (hNode.symm.trans hBefore)
    have hInside : other.index < arena.nodes.size := lt_size_of_get? hNode
    exact ⟨held, by simp [get?, hInside], Node.identity_of_edit? hHeld⟩
  · refine ⟨before, ?_, rfl⟩
    rw [get?, Array.getElem?_setIfInBounds_ne (Ne.symm hSame)]
    exact hBefore

/-- By induction on the operations. -/
theorem performEach (arena : Arena) (operations : List Operation) :
    (arena.performEach operations).2.Preserves arena := by
  induction operations generalizing arena with
  | nil => exact refl arena
  | cons operation rest ih =>
      cases operation with
      | push node => exact (ih _).trans (push arena node)
      | edit id edit =>
          have hFirst : ((arena.edit? id edit).getD arena).Preserves arena := by
            cases hEdit : arena.edit? id edit with
            | none => exact refl arena
            | some changed => exact .edit hEdit
          exact (ih _).trans hFirst

/-- Nodes are never removed. -/
theorem size_le (hLater : later.Preserves earlier) : earlier.size ≤ later.size := by
  apply Nat.le_of_not_lt
  intro hFewer
  obtain ⟨node, hNode⟩ : ∃ node, earlier.get? ⟨later.size⟩ = some node := exists_get?_of_lt hFewer
  obtain ⟨held, hHeld, -⟩ := hLater _ node hNode
  exact Nat.lt_irrefl later.size (lt_size_of_get? hHeld)

/-- By induction on the visits. A terminal that is reached is reached for good, also with more visits. -/
theorem leafWithin (hLater : later.Preserves earlier) {visits more : Nat} (hMore : visits ≤ more) {id leaf : NodeId}
    (hLeaf : earlier.leafWithin visits id = some leaf) : later.leafWithin more id = some leaf := by
  induction visits generalizing more id with
  | zero => cases hLeaf
  | succ visits ih =>
      obtain ⟨others, rfl⟩ : ∃ others, more = others + 1 := ⟨more - 1, by omega⟩
      cases hNode : earlier.get? id with
      | none => simp [Arena.leafWithin, hNode] at hLeaf
      | some node =>
          obtain ⟨held, hHeld, hSame⟩ := hLater id node hNode
          rw [leafWithin_succ hNode] at hLeaf
          rw [leafWithin_succ hHeld, Node.isTerminal_of_identity hSame, Node.child?_of_identity hSame]
          split at hLeaf
          case isTrue hTerminal => rwa [if_pos hTerminal]
          case isFalse hInside =>
            rw [if_neg hInside]
            obtain ⟨child, hChild, hLeaf⟩ := Option.bind_eq_some_iff.mp hLeaf
            exact Option.bind_eq_some_iff.mpr ⟨child, hChild, ih (Nat.le_of_succ_le_succ hMore) hLeaf⟩

/-- By induction on the visits. A chain that has come to a terminal goes the same way for good. -/
theorem chainWithin (hLater : later.Preserves earlier) {visits more : Nat} (hMore : visits ≤ more)
    {slot : Option NodeId} (hEnds : EndsInTerminal (earlier.chainWithin visits slot)) :
    (later.chainWithin more slot).map waypoint = (earlier.chainWithin visits slot).map waypoint := by
  induction visits generalizing more slot with
  | zero => simp [Arena.chainWithin, EndsInTerminal] at hEnds
  | succ visits ih =>
      obtain ⟨others, rfl⟩ : ∃ others, more = others + 1 := ⟨more - 1, by omega⟩
      cases hNode : earlier.resolve? slot with
      | none => simp [Arena.chainWithin, hNode, EndsInTerminal] at hEnds
      | some entry =>
          obtain ⟨id, node⟩ := entry
          obtain ⟨rfl, hGet⟩ := resolve?_eq_some hNode
          obtain ⟨held, hHeld, hSame⟩ := hLater id node hGet
          have hRest : (later.chainWithin others node.child?).map waypoint =
              (earlier.chainWithin visits node.child?).map waypoint := by
            by_cases hTerminal : node.isTerminal = true
            · simp [Node.child?_of_isTerminal hTerminal]
            · refine ih (Nat.le_of_succ_le_succ hMore) ?_
              rw [chainWithin_succ hGet] at hEnds
              exact hEnds.of_cons hTerminal
          rw [chainWithin_succ hGet, chainWithin_succ hHeld, Node.child?_of_identity hSame, List.map_cons,
            List.map_cons, hRest, waypoint, waypoint, hSame]

end Preserves

/-- By induction on the operations. New nodes get consecutive handles. -/
theorem performEach_handles (arena : Arena) (operations : List Operation) :
    (arena.performEach operations).1 =
        (List.range' arena.size (operations.countP Operation.isPush)).map NodeId.mk ∧
      (arena.performEach operations).2.size = arena.size + operations.countP Operation.isPush := by
  induction operations generalizing arena with
  | nil => simp [performEach]
  | cons operation rest ih =>
      cases operation with
      | push node =>
          obtain ⟨hHandles, hSize⟩ := ih (arena.push node).2
          simp only [performEach, hHandles, hSize, size_push, List.countP_cons, Operation.isPush, ↓reduceIte,
            List.range'_succ, List.map_cons]
          exact ⟨rfl, by omega⟩
      | edit id edit =>
          have hSize : ((arena.edit? id edit).getD arena).size = arena.size := by
            cases hEdit : arena.edit? id edit with
            | none => rfl
            | some changed =>
                obtain ⟨node, held, -, -, rfl⟩ := exists_of_edit? hEdit
                simp [size]
          simpa [performEach, hSize, Operation.isPush] using ih ((arena.edit? id edit).getD arena)

/-- An edit for another sort of node may as well be left out. -/
theorem performEach_edit_of_tag {arena : Arena} {id : NodeId} {edit : Edit} (hOther : arena.tag? id ≠ some edit.tag)
    (rest : List Operation) : arena.performEach (.edit id edit :: rest) = arena.performEach rest := by
  rw [performEach, edit?_eq_none_of_tag hOther, Option.getD_none]

/-- An edit leaves all nodes alone but its own. -/
theorem get?_of_edit? {arena changed : Arena} {id other : NodeId} {edit : Edit}
    (hEdit : arena.edit? id edit = some changed) (hOther : other ≠ id) :
    changed.get? other = arena.get? other := by
  obtain ⟨node, held, -, -, rfl⟩ := exists_of_edit? hEdit
  have hIndex : id.index ≠ other.index := fun hSame => hOther (congrArg NodeId.mk hSame.symm)
  exact Array.getElem?_setIfInBounds_ne hIndex

/-- What is still so in a later arena: every node is what it was, and what was found at the end of a chain of
children is found there again, on the same way. -/
structure Outlasts (later earlier : Arena) : Prop where
  nodes : later.Preserves earlier
  leaf : ∀ id leaf, earlier.leaf? id = some leaf → later.leaf? id = some leaf
  chain : ∀ id, EndsInTerminal (earlier.chain id) →
    (later.chain id).map waypoint = (earlier.chain id).map waypoint

theorem Preserves.outlasts {later earlier : Arena} (hLater : later.Preserves earlier) :
    later.Outlasts earlier where
  nodes := hLater
  leaf _ _ hLeaf := hLater.leafWithin (Nat.succ_le_succ hLater.size_le) hLeaf
  chain _ hEnds := hLater.chainWithin hLater.size_le hEnds

/-- Whatever is added to an arena and edited in it, the new nodes get consecutive handles, an edit changes
nothing if it is for another sort of node and its own node if it is not, and all nodes stay what they are. -/
theorem performEach_permanent (arena : Arena) (operations : List Operation) :
    (arena.performEach operations).1 =
        (List.range' arena.size (operations.countP Operation.isPush)).map NodeId.mk ∧
      (∀ id edit rest, arena.tag? id ≠ some edit.tag →
        arena.performEach (.edit id edit :: rest) = arena.performEach rest) ∧
      (∀ id edit changed, arena.edit? id edit = some changed →
        ∀ other, other ≠ id → changed.get? other = arena.get? other) ∧
      (arena.performEach operations).2.Outlasts arena := by
  have hLater := Preserves.performEach arena operations
  exact ⟨(performEach_handles arena operations).1, fun _ _ rest hOther => performEach_edit_of_tag hOther rest,
    fun _ _ _ hEdit _ hOther => get?_of_edit? hEdit hOther, hLater.outlasts⟩

end Arena

end CliSignature
