import CliSignature.Proofs.Erasure.Basic

/-!
Trees without markers. Where there are trees, erasure can be told by them: the tree of the one type is that of
the other with each marker replaced by its child. Names show which tokens primitives have, so these trees keep
the tokens.
-/

namespace CliSignature

/-- A type without handles that keeps what its nodes name, the tokens of primitives included. -/
inductive NamedTree where
  | absent
  | node (label : Node.Label) (token : Option Token) (children : List NamedTree)

/-- What is left of a node without markers, given the types below it as they are and without markers. -/
def Node.Label.unmarked (label : Node.Label) (token : Option Token) (children rest : List NamedTree) : NamedTree :=
  match label with
  | modified _ _ | wrapper .pinned => rest.headD .absent
  | functionPointer _ => .node label token children
  | _ => .node label token rest

namespace NamedTree

mutual

/-- The tree with each marker replaced by its child. Function pointers stay as they are. -/
def unmarked : NamedTree → NamedTree
  | .absent => .absent
  | .node label token children => label.unmarked token children (unmarkedAll children)

def unmarkedAll : List NamedTree → List NamedTree
  | [] => []
  | tree :: trees => unmarked tree :: unmarkedAll trees

end

theorem unmarkedAll_eq_map (trees : List NamedTree) : unmarkedAll trees = trees.map unmarked := by
  induction trees with
  | nil => rfl
  | cons tree trees ih => rw [unmarkedAll, ih, List.map_cons]

theorem unmarked_node (label : Node.Label) (token : Option Token) (children : List NamedTree) :
    (NamedTree.node label token children).unmarked = label.unmarked token children (children.map unmarked) := by
  rw [unmarked, unmarkedAll_eq_map]

end NamedTree

/-- A node is a marker, keeps what is below it, or has the types below it without markers. -/
theorem Node.unmarked_cases (node : Node) :
    (node.isMarker = true ∧ node.children = [node.child?] ∧
      ∀ token children rest, node.label.unmarked token children rest = rest.headD .absent) ∨
    (∀ token children rest, node.label.unmarked token children rest = .node node.label token children) ∨
    ∀ token children rest, node.label.unmarked token children rest = .node node.label token rest := by
  cases node with
  | modified => exact .inl ⟨rfl, rfl, fun _ _ _ => rfl⟩
  | wrapper kind =>
      cases kind with
      | pinned => exact .inl ⟨rfl, rfl, fun _ _ _ => rfl⟩
      | pointer | byRef | vector => exact .inr (.inr fun _ _ _ => rfl)
  | functionPointer => exact .inr (.inl fun _ _ _ => rfl)
  | named | primitive | genericParam | sentinel | genericInst | array | valueArray | moduleQualified =>
      exact .inr (.inr fun _ _ _ => rfl)

namespace Arena

/-- The tree of a slot, with what its nodes name. -/
inductive Names (arena : Arena) : Option NodeId → NamedTree → Prop where
  | absent {slot : Option NodeId} (hNone : arena.resolve? slot = none) : Names arena slot .absent
  | node {slot : Option NodeId} {id : NodeId} {node : Node} {trees : List NamedTree}
      (hNode : arena.resolve? slot = some (id, node)) (hLength : node.children.length = trees.length)
      (hChildren : ∀ pair ∈ node.children.zip trees, Names arena pair.1 pair.2) :
      Names arena slot (.node node.label node.token? trees)

variable {arena : Arena} {a b : Option NodeId} {tree other : NamedTree}

theorem names_absent_iff : arena.Names a .absent ↔ arena.resolve? a = none := by
  constructor
  · intro hTree
    cases hTree with
    | absent hNone => exact hNone
  · exact .absent

theorem Names.exists_node {label : Node.Label} {token : Option Token} {trees : List NamedTree}
    (hTree : arena.Names a (.node label token trees)) :
    ∃ id node, arena.resolve? a = some (id, node) ∧ node.label = label ∧ node.token? = token ∧
      List.Forall₂ arena.Names node.children trees := by
  cases hTree with
  | node hNode hLength hChildren =>
      exact ⟨_, _, hNode, rfl, rfl, List.forall₂_iff_zip.mpr ⟨hLength, hChildren _⟩⟩

/-- The second slot has the tree of the first one, as it is or without markers. -/
def NamesUnmarked (arena : Arena) (a b : Option NodeId) : Prop :=
  ∃ tree other, arena.Names a tree ∧ arena.Names b other ∧ (other = tree ∨ other = tree.unmarked)

theorem Names.looksAlike {id : NodeId} {node : Node} {trees others : List NamedTree}
    (hNode : arena.resolve? a = some (id, node)) (hTrees : List.Forall₂ arena.Names node.children trees)
    (hOther : arena.Names b (.node node.label node.token? others))
    (hBelow : List.Forall₂ (fun tree other => other = tree ∨ other = tree.unmarked) trees others) :
    arena.LooksAlike arena arena.NamesUnmarked a b := by
  obtain ⟨y, right, hRight, hLabel, hToken, hOthers⟩ := hOther.exists_node
  have hAbove : List.Forall₂ (fun child other => ∃ tree, arena.Names child tree ∧
      (other = tree ∨ other = tree.unmarked)) node.children others :=
    forall₂_of_common hTrees.flip hBelow fun tree _ _ hTree hErased => ⟨tree, hTree, hErased⟩
  have hChildren : List.Forall₂ arena.NamesUnmarked node.children right.children :=
    forall₂_of_common hAbove.flip hOthers.flip
      fun other _ _ ⟨tree, hTree, hErased⟩ hOther => ⟨tree, other, hTree, hOther, hErased⟩
  exact .nodes hNode hRight (.of_label hLabel.symm hToken.symm hChildren)

/-- By induction on the tree, which follows the markers at its top. -/
theorem Names.looksErased (hTree : arena.Names a tree) (hOther : arena.Names b other)
    (hErased : other = tree ∨ other = tree.unmarked) : arena.LooksErased arena.NamesUnmarked b a := by
  induction hTree generalizing other with
  | @absent a hNone =>
      obtain rfl : other = .absent := by rcases hErased with rfl | rfl <;> rfl
      exact .alike (.absent hNone (names_absent_iff.mp hOther))
  | @node a id node trees hNode hLength hChildren ih =>
      have hTrees : List.Forall₂ arena.Names node.children trees :=
        List.forall₂_iff_zip.mpr ⟨hLength, hChildren _⟩
      have hSame (hOther : arena.Names b (.node node.label node.token? trees)) :
          arena.LooksErased arena.NamesUnmarked b a :=
        .alike (Names.looksAlike hNode hTrees hOther (List.forall₂_same.mpr fun _ _ => .inl rfl))
      rcases hErased with rfl | rfl
      · exact hSame hOther
      · rw [NamedTree.unmarked_node] at hOther
        rcases node.unmarked_cases with ⟨hMarker, hOnly, hChild⟩ | hKept | hBelow
        · rw [hOnly] at hLength
          obtain ⟨childTree, rfl⟩ := List.length_eq_one_iff.mp hLength.symm
          rw [hChild] at hOther
          have hMem : (node.child?, childTree) ∈ node.children.zip [childTree] := by simp [hOnly]
          exact .marker hNode hMarker (ih _ hMem hOther (.inr rfl))
        · rw [hKept] at hOther
          exact hSame hOther
        · rw [hBelow] at hOther
          exact .alike (Names.looksAlike hNode hTrees hOther
            (List.forall₂_map_right_iff.mpr (List.forall₂_same.mpr fun _ _ => .inr rfl)))

/-- A type whose tree is that of another one without markers is that other one without markers. -/
theorem Names.erasesTo (hTree : arena.Names a tree) (hErased : arena.Names b tree.unmarked) :
    arena.ErasesTo a b :=
  ⟨arena.NamesUnmarked, fun _ _ ⟨_, _, hFirst, hSecond, hEither⟩ => hFirst.looksErased hSecond hEither,
    tree, tree.unmarked, hTree, hErased, .inr rfl⟩

end Arena

end CliSignature
