import CliSignature.CoreTypes
import CliSignature.Proofs.RelatedLists
import Mathlib.Logic.Relation

/-!
Unfoldings. What a slot of an arena says is a tree: sharing is forgotten, and so are handles. A slot
has at most one tree. It has none if its node refers back to itself.
-/

namespace CliSignature

/-- A type without handles. Primitives are told apart by code, and an absent type keeps its place. -/
inductive Tree where
  | absent
  | node (label : Node.Label) (children : List Tree)

namespace Tree

/-- The tree of a sentinel that stands in the place of a type. -/
def sentinel : Tree := .node .sentinel []

end Tree

/-- A signature that stands on its own, without handles. -/
structure SignatureTree where
  label : Signature.Label
  children : List Tree

/-- The production that says a node with the label. A primitive is said by its byte alone. -/
def Node.Label.production? : Node.Label → Option Production
  | .named kind _ => some (.named kind)
  | .primitive _ => none
  | .genericParam owner _ => some (.genericParam owner)
  | .sentinel => some .sentinel
  | .functionPointer _ => some .functionPointer
  | .genericInst _ => some .genericInst
  | .wrapper kind => some (.wrapper kind)
  | .array _ => some .array
  | .modified required _ => some (.modified required)
  | .valueArray _ => some .valueArray
  | .moduleQualified _ => some .moduleQualified

namespace Arena

/-- The tree of a slot. A handle that refers to nothing is an absent type. -/
inductive Unfolds (arena : Arena) : Option NodeId → Tree → Prop where
  | absent {slot : Option NodeId} (hNone : arena.resolve? slot = none) :
      Unfolds arena slot .absent
  | node {slot : Option NodeId} {id : NodeId} {node : Node} {trees : List Tree}
      (hNode : arena.resolve? slot = some (id, node))
      (hLength : node.children.length = trees.length)
      (hChildren : ∀ pair ∈ node.children.zip trees, Unfolds arena pair.1 pair.2) :
      Unfolds arena slot (.node node.label trees)

theorem Unfolds.of_forall₂ {arena : Arena} {slot : Option NodeId} {id : NodeId} {node : Node}
    {trees : List Tree} (hNode : arena.resolve? slot = some (id, node))
    (hTrees : List.Forall₂ arena.Unfolds node.children trees) :
    arena.Unfolds slot (.node node.label trees) :=
  .node hNode hTrees.length_eq fun _ hMem => List.forall₂_zip hTrees hMem

/-- Induction on a tree, with the children of a node and their trees one by one. -/
theorem Unfolds.induct {arena : Arena}
    {motive : (slot : Option NodeId) → (tree : Tree) → arena.Unfolds slot tree → Prop}
    (absent : ∀ slot, (hNone : arena.resolve? slot = none) → motive slot .absent (.absent hNone))
    (node : ∀ slot id node trees, (hNode : arena.resolve? slot = some (id, node)) →
      (hTrees : List.Forall₂ (fun child tree => ∃ hTree, motive child tree hTree) node.children trees) →
      motive slot (.node node.label trees) (.of_forall₂ hNode (hTrees.imp fun _ _ hEx => hEx.1)))
    {slot : Option NodeId} {tree : Tree} (hTree : arena.Unfolds slot tree) : motive slot tree hTree := by
  induction hTree with
  | absent hNone => exact absent _ hNone
  | node hNode hLength hChildren ih =>
      exact node _ _ _ _ hNode
        (List.forall₂_iff_zip.mpr ⟨hLength, fun hMem => ⟨hChildren _ hMem, ih _ hMem⟩⟩)

theorem unfolds_absent_iff {arena : Arena} {slot : Option NodeId} :
    arena.Unfolds slot .absent ↔ arena.resolve? slot = none := by
  constructor
  · intro h
    cases h with
    | absent hNone => exact hNone
  · exact Unfolds.absent

/-- A node unfolds one level at a time. -/
theorem unfolds_node_iff {arena : Arena} {slot : Option NodeId} {label : Node.Label}
    {trees : List Tree} :
    arena.Unfolds slot (.node label trees) ↔
      ∃ id node, arena.resolve? slot = some (id, node) ∧ node.label = label ∧
        List.Forall₂ arena.Unfolds node.children trees := by
  constructor
  · intro h
    cases h with
    | node hNode hLength hChildren =>
        exact ⟨_, _, hNode, rfl, List.forall₂_iff_zip.mpr ⟨hLength, hChildren _⟩⟩
  · rintro ⟨id, node, hNode, rfl, hTrees⟩
    exact Unfolds.of_forall₂ hNode hTrees

theorem Unfolds.eq_absent {arena : Arena} {slot : Option NodeId} {tree : Tree}
    (hTree : arena.Unfolds slot tree) (hNone : arena.resolve? slot = none) : tree = .absent := by
  cases hTree with
  | absent => rfl
  | node hNode => cases hNone.symm.trans hNode

theorem Unfolds.exists_trees {arena : Arena} {slot : Option NodeId} {tree : Tree} {id : NodeId} {node : Node}
    (hTree : arena.Unfolds slot tree) (hNode : arena.resolve? slot = some (id, node)) :
    ∃ trees, tree = .node node.label trees ∧ List.Forall₂ arena.Unfolds node.children trees := by
  cases hTree with
  | absent hNone => cases hNone.symm.trans hNode
  | node hHeld hLength hChildren =>
      obtain ⟨rfl, rfl⟩ := Prod.mk.inj (Option.some.inj (hHeld.symm.trans hNode))
      exact ⟨_, rfl, List.forall₂_iff_zip.mpr ⟨hLength, hChildren _⟩⟩

/-- What a signature says: the trees of its places, and all else as it stands. -/
def UnfoldsSignature (arena : Arena) (signature : Signature) (tree : SignatureTree) : Prop :=
  signature.label = tree.label ∧ List.Forall₂ arena.Unfolds signature.children tree.children

/-- A slot has at most one tree. -/
theorem Unfolds.unique {arena : Arena} {slot : Option NodeId} {first second : Tree}
    (hFirst : arena.Unfolds slot first) (hSecond : arena.Unfolds slot second) : first = second := by
  induction hFirst using Unfolds.induct generalizing second with
  | absent slot hNone => rw [hSecond.eq_absent hNone]
  | node slot id node trees hNode hTrees =>
      obtain ⟨others, rfl, hOthers⟩ := hSecond.exists_trees hNode
      have hEqual : List.Forall₂ Eq trees others :=
        forall₂_of_common hTrees hOthers fun _ _ _ ⟨_, hUnique⟩ hTree => hUnique hTree
      rw [List.forall₂_eq_eq_eq] at hEqual
      rw [hEqual]

theorem UnfoldsSignature.unique {arena : Arena} {signature : Signature} {first second : SignatureTree}
    (hFirst : arena.UnfoldsSignature signature first)
    (hSecond : arena.UnfoldsSignature signature second) : first = second := by
  obtain ⟨label, trees⟩ := first
  obtain ⟨otherLabel, others⟩ := second
  obtain ⟨rfl, hTrees⟩ := hFirst
  obtain ⟨rfl, hOthers⟩ := hSecond
  have hEqual : List.Forall₂ Eq trees others :=
    forall₂_of_common hTrees hOthers fun _ _ _ hTree hOther => hTree.unique hOther
  rw [List.forall₂_eq_eq_eq] at hEqual
  rw [hEqual]

/-- Every handle inside a node refers to a node. -/
def Closed (arena : Arena) : Prop :=
  ∀ id node, arena.get? id = some node → ∀ child, some child ∈ node.children →
    arena.contains child = true

/-- The node at `parent` refers to `child`. -/
def Refers (arena : Arena) (child parent : NodeId) : Prop :=
  ∃ node, arena.get? parent = some node ∧ some child ∈ node.children

/-- No signature refers back to itself. -/
def Acyclic (arena : Arena) : Prop :=
  ∀ id, ¬ Relation.TransGen arena.Refers id id

/-- Where nodes only refer to earlier ones, none refers back to itself. -/
theorem acyclic_of_lt {arena : Arena}
    (hEarlier : ∀ child parent, arena.Refers child parent → child.index < parent.index) :
    arena.Acyclic := by
  intro id hCycle
  have hLt : ∀ other, Relation.TransGen arena.Refers id other → id.index < other.index := by
    intro other hPath
    induction hPath with
    | single hStep => exact hEarlier _ _ hStep
    | tail _ hStep ih => exact Nat.lt_trans ih (hEarlier _ _ hStep)
  exact Nat.lt_irrefl _ (hLt id hCycle)

/-- Every handle that refers to a node of `smaller` refers to the same node of `larger`. -/
def Extends (larger smaller : Arena) : Prop :=
  ∀ id node, smaller.get? id = some node → larger.get? id = some node

theorem Extends.refl (arena : Arena) : arena.Extends arena := fun _ _ hNode => hNode

theorem Extends.trans {large middle small : Arena} (hLarge : large.Extends middle)
    (hMiddle : middle.Extends small) : large.Extends small :=
  fun id node hNode => hLarge id node (hMiddle id node hNode)

theorem extends_push (arena : Arena) (node : Node) : (arena.push node).2.Extends arena := by
  intro id held hHeld
  rw [get?_push_of_lt node (lt_size_of_get? hHeld), hHeld]

/-- The tree of a slot in which nothing dangles: an absent type is an empty slot. Unlike an
unfolding, such a tree stays as nodes are added. -/
inductive Stores (arena : Arena) : Option NodeId → Tree → Prop where
  | absent : Stores arena none .absent
  | node {id : NodeId} {node : Node} {trees : List Tree}
      (hNode : arena.get? id = some node)
      (hLength : node.children.length = trees.length)
      (hChildren : ∀ pair ∈ node.children.zip trees, Stores arena pair.1 pair.2) :
      Stores arena (some id) (.node node.label trees)

theorem Stores.of_forall₂ {arena : Arena} {id : NodeId} {node : Node} {trees : List Tree}
    (hNode : arena.get? id = some node)
    (hTrees : List.Forall₂ arena.Stores node.children trees) :
    arena.Stores (some id) (.node node.label trees) :=
  .node hNode hTrees.length_eq fun _ hMem => List.forall₂_zip hTrees hMem

theorem Stores.unfolds {arena : Arena} {slot : Option NodeId} {tree : Tree}
    (hStores : arena.Stores slot tree) : arena.Unfolds slot tree := by
  induction hStores with
  | absent => exact .absent rfl
  | node hNode hLength _ ih =>
      exact .node (resolve?_of_get? hNode) hLength ih

theorem Stores.mono {larger smaller : Arena} (hExtends : larger.Extends smaller)
    {slot : Option NodeId} {tree : Tree} (hStores : smaller.Stores slot tree) :
    larger.Stores slot tree := by
  induction hStores with
  | absent => exact .absent
  | node hNode hLength _ ih => exact .node (hExtends _ _ hNode) hLength ih

theorem Stores.eq_none_iff {arena : Arena} {slot : Option NodeId} {tree : Tree}
    (hStores : arena.Stores slot tree) : slot = none ↔ tree = .absent := by
  cases hStores <;> simp

/-- A signature in whose places nothing dangles. -/
def StoresSignature (arena : Arena) (signature : Signature) (tree : SignatureTree) : Prop :=
  signature.label = tree.label ∧ List.Forall₂ arena.Stores signature.children tree.children

theorem StoresSignature.mono {larger smaller : Arena} (hExtends : larger.Extends smaller)
    {signature : Signature} {tree : SignatureTree} (hStores : smaller.StoresSignature signature tree) :
    larger.StoresSignature signature tree :=
  ⟨hStores.1, hStores.2.imp fun _ _ hTree => hTree.mono hExtends⟩

theorem StoresSignature.unfolds {arena : Arena} {signature : Signature} {tree : SignatureTree}
    (hStores : arena.StoresSignature signature tree) : arena.UnfoldsSignature signature tree :=
  ⟨hStores.1, hStores.2.imp fun _ _ => Stores.unfolds⟩

end Arena

namespace CoreTypes

/-- The shared nodes are the primitives they stand for. -/
def StoredIn (types : CoreTypes) (arena : Arena) : Prop :=
  ∀ code, arena.get? (types.node code) = some (.primitive (types.token code) code)

theorem StoredIn.mono {types : CoreTypes} {larger smaller : Arena}
    (hStored : types.StoredIn smaller) (hExtends : larger.Extends smaller) :
    types.StoredIn larger :=
  fun code => hExtends _ _ (hStored code)

theorem StoredIn.stores {types : CoreTypes} {arena : Arena} (hStored : types.StoredIn arena)
    (code : Primitive) : arena.Stores (some (types.node code)) (.node (.primitive code) []) :=
  Arena.Stores.of_forall₂ (hStored code) .nil

/-- No edit reaches the shared nodes. -/
theorem StoredIn.edit {types : CoreTypes} {arena changed : Arena} {id : NodeId} {edit : Edit}
    (hStored : types.StoredIn arena) (hEdit : arena.edit? id edit = some changed) :
    types.StoredIn changed := by
  intro code
  have hPrimitive := hStored code
  simp only [Arena.edit?, Option.bind_eq_bind, Option.bind_eq_some_iff, Option.pure_def,
    Option.some.injEq] at hEdit
  obtain ⟨node, hNode, edited, hEdited, rfl⟩ := hEdit
  have hOther : id.index ≠ (types.node code).index := by
    intro hIndex
    have hId : id = types.node code := congrArg NodeId.mk hIndex
    rw [hId, hPrimitive] at hNode
    obtain rfl := Option.some.inj hNode
    simp [Node.edit?] at hEdited
  simpa [Arena.get?, Array.getElem?_setIfInBounds_ne hOther] using hPrimitive

/-- Registering primitives adds nodes and changes none, and the list names a node for each. -/
theorem register_stored (owner : ModuleId) (core : AssemblyId) (codes : List Primitive) (arena : Arena)
    (registry : Registry) :
    (register owner core codes arena registry).2.1.Extends arena ∧
      ∀ code ∈ codes, ∃ id token,
        (register owner core codes arena registry).1.lookup code = some (id, token) ∧
        (register owner core codes arena registry).2.1.get? id = some (.primitive token code) := by
  induction codes generalizing arena registry with
  | nil => exact ⟨.refl arena, by simp⟩
  | cons first rest ih =>
      obtain ⟨hExtends, hRest⟩ := ih
        (arena.push (.primitive (registry.add (entry owner core first)).1 first)).2
        (registry.add (entry owner core first)).2
      refine ⟨hExtends.trans (arena.extends_push _), fun code hMem => ?_⟩
      by_cases hFirst : code = first
      · subst hFirst
        exact ⟨_, _, by simp [register], hExtends _ _ (arena.get?_push_self _)⟩
      · obtain ⟨id, token, hLookup, hNode⟩ := hRest code (by simpa [hFirst] using hMem)
        have hSkip : (code == first) = false := beq_eq_false_iff_ne.mpr hFirst
        exact ⟨id, token, by simpa only [register, List.lookup_cons, hSkip] using hLookup, hNode⟩

/-- What `create` returns is stored in the arena that it returns, which extends the given one. -/
theorem create_storedIn (owner : ModuleId) (core : AssemblyId) (arena : Arena) (registry : Registry) :
    (create owner core arena registry).1.StoredIn (create owner core arena registry).2.1 ∧
      (create owner core arena registry).2.1.Extends arena := by
  obtain ⟨hExtends, hStored⟩ := register_stored owner core Primitive.all arena registry
  refine ⟨fun code => ?_, hExtends⟩
  obtain ⟨id, token, hLookup, hNode⟩ := hStored code (Primitive.mem_all code)
  simpa [create, ofList, hLookup] using hNode

end CoreTypes

end CliSignature
