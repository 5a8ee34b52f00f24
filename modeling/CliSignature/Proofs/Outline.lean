import CliSignature.Proofs.Unfolding

/-!
Outlines. The outline of a slot is its tree, except that a place with a handle that refers to nothing is
kept apart from an empty place. Sharing is forgotten, and so are all handles.
-/

namespace CliSignature

/-- A type without handles, in which an empty place and a handle to nothing are different. -/
inductive Outline where
  | empty
  | dangling
  | node (label : Node.Label) (children : List Outline)

namespace Tree

mutual

/-- The outline of a tree, where all absent types are empty places. -/
def outline : Tree → Outline
  | .absent => .empty
  | .node label children => .node label (outlines children)

/-- The outlines of several trees. -/
def outlines : List Tree → List Outline
  | [] => []
  | tree :: trees => outline tree :: outlines trees

end

theorem outlines_eq_map (trees : List Tree) : outlines trees = trees.map outline := by
  induction trees with
  | nil => rfl
  | cons tree trees ih => rw [outlines, ih, List.map_cons]

end Tree

namespace Arena

/-- The outline of a slot. -/
inductive Outlines (arena : Arena) : Option NodeId → Outline → Prop where
  | empty : Outlines arena none .empty
  | dangling {id : NodeId} (hNone : arena.get? id = none) : Outlines arena (some id) .dangling
  | node {id : NodeId} {node : Node} {outlines : List Outline} (hNode : arena.get? id = some node)
      (hLength : node.children.length = outlines.length)
      (hChildren : ∀ pair ∈ node.children.zip outlines, Outlines arena pair.1 pair.2) :
      Outlines arena (some id) (.node node.label outlines)

variable {arena : Arena} {slot : Option NodeId} {outline : Outline}

theorem Outlines.of_forall₂ {id : NodeId} {node : Node} {outlines : List Outline}
    (hNode : arena.get? id = some node) (hOutlines : List.Forall₂ arena.Outlines node.children outlines) :
    arena.Outlines (some id) (.node node.label outlines) :=
  .node hNode hOutlines.length_eq fun _ hMem => List.forall₂_zip hOutlines hMem

/-- Induction on an outline, with the children of a node and their outlines one by one. -/
theorem Outlines.induct
    {motive : (slot : Option NodeId) → (outline : Outline) → arena.Outlines slot outline → Prop}
    (empty : motive none .empty .empty)
    (dangling : ∀ id, (hNone : arena.get? id = none) → motive (some id) .dangling (.dangling hNone))
    (node : ∀ id node outlines, (hNode : arena.get? id = some node) →
      (hOutlines : List.Forall₂ (fun child outline => ∃ hOutline, motive child outline hOutline)
        node.children outlines) →
      motive (some id) (.node node.label outlines) (.of_forall₂ hNode (hOutlines.imp fun _ _ hEx => hEx.1)))
    (hOutline : arena.Outlines slot outline) : motive slot outline hOutline := by
  induction hOutline with
  | empty => exact empty
  | dangling hNone => exact dangling _ hNone
  | node hNode hLength hChildren ih =>
      exact node _ _ _ hNode
        (List.forall₂_iff_zip.mpr ⟨hLength, fun hMem => ⟨hChildren _ hMem, ih _ hMem⟩⟩)

theorem outlines_node_iff {id : NodeId} {node : Node} (hNode : arena.get? id = some node) :
    arena.Outlines (some id) outline ↔
      ∃ outlines, outline = .node node.label outlines ∧
        List.Forall₂ arena.Outlines node.children outlines := by
  constructor
  · intro hOutline
    cases hOutline with
    | dangling hNone => cases hNone.symm.trans hNode
    | node hHeld hLength hChildren =>
        obtain rfl := Option.some.inj (hHeld.symm.trans hNode)
        exact ⟨_, rfl, List.forall₂_iff_zip.mpr ⟨hLength, hChildren _⟩⟩
  · rintro ⟨outlines, rfl, hOutlines⟩
    exact .of_forall₂ hNode hOutlines

/-- An absent type has one outline, which of the two depends on the place. -/
theorem exists_outlines_of_absent (hNone : arena.resolve? slot = none) :
    ∃ outline, arena.Outlines slot outline := by
  cases slot with
  | none => exact ⟨.empty, .empty⟩
  | some id =>
      cases hNode : arena.get? id with
      | none => exact ⟨.dangling, .dangling hNode⟩
      | some node => cases hNone.symm.trans (resolve?_of_get? hNode)

/-- A slot with an outline has a tree. -/
theorem Outlines.exists_unfolds (hOutline : arena.Outlines slot outline) : ∃ tree, arena.Unfolds slot tree := by
  induction hOutline using Outlines.induct with
  | empty => exact ⟨.absent, .absent rfl⟩
  | dangling id hNone => exact ⟨.absent, .absent (resolve?_of_get?_eq_none hNone)⟩
  | node id node outlines hNode hOutlines =>
      obtain ⟨trees, hTrees⟩ := exists_forall₂ fun child hMem => by
        obtain ⟨_, -, -, hTree⟩ := exists_of_forall₂ hOutlines hMem
        exact hTree
      exact ⟨_, .of_forall₂ (resolve?_of_get? hNode) hTrees⟩

/-- By induction on the tree. A slot with a tree has an outline. -/
theorem Unfolds.exists_outlines {tree : Tree} (hTree : arena.Unfolds slot tree) :
    ∃ outline, arena.Outlines slot outline := by
  induction hTree using Unfolds.induct with
  | absent slot hNone => exact exists_outlines_of_absent hNone
  | node slot id node trees hNode hTrees =>
      obtain ⟨rfl, hHeld⟩ := resolve?_eq_some hNode
      obtain ⟨outlines, hOutlines⟩ := exists_forall₂ fun child hMem => by
        obtain ⟨_, -, -, hOutline⟩ := exists_of_forall₂ hTrees hMem
        exact hOutline
      exact ⟨_, .of_forall₂ hHeld hOutlines⟩

/-- A slot has at most one outline. -/
theorem Outlines.unique {other : Outline} (hFirst : arena.Outlines slot outline)
    (hSecond : arena.Outlines slot other) : outline = other := by
  induction hFirst using Outlines.induct generalizing other with
  | empty =>
      cases hSecond
      rfl
  | dangling id hNone =>
      cases hSecond with
      | dangling => rfl
      | node hNode => cases hNone.symm.trans hNode
  | node id node outlines hNode hOutlines =>
      obtain ⟨others, rfl, hOthers⟩ := (outlines_node_iff hNode).mp hSecond
      have hEqual : List.Forall₂ Eq outlines others :=
        forall₂_of_common hOutlines hOthers fun _ _ _ ⟨_, hUnique⟩ hOther => hUnique hOther
      rw [List.forall₂_eq_eq_eq] at hEqual
      rw [hEqual]

end Arena

end CliSignature
