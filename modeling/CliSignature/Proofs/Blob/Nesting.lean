import CliSignature.Proofs.Acyclicity
import CliSignature.Proofs.Blob.Readable

/-!
The grammar without levels. It is the least language that is closed under the rules, and how deep a
type nests can be seen from its tree: to say a type within some levels is to say it at all, with a tree
that is no higher.
-/

namespace CliSignature.Grammar

variable {type type' : ItemLanguage Tree} {limits : Limits}

/-- A type, however deep it nests. -/
def typeUnbounded (limits : Limits) : ItemLanguage Tree := fun items tree =>
  ∃ levels, typeWithin limits levels items tree

section Monotone

/-! A rule says no less if the types inside it are said in more ways. -/

theorem Sequence.imp_of_mem {α : Type} {one one' : ItemLanguage α} {items : List Item} {values : List α}
    (hImp : ∀ items, ∀ value ∈ values, one items value → one' items value)
    (hSequence : Sequence one items values) : Sequence one' items values := by
  induction hSequence with
  | nil => exact .nil
  | cons hFirst _ ih =>
      exact .cons (hImp _ _ (List.mem_cons_self ..) hFirst)
        (ih fun items value hMem => hImp items value (List.mem_cons_of_mem _ hMem))

theorem element_imp {items : List Item} {tree : Tree} (hImp : type items tree → type' items tree) :
    element type items tree → element type' items tree :=
  And.imp_left hImp

theorem list_imp_of_mem {items : List Item} {trees : List Tree}
    (hImp : ∀ items, ∀ tree ∈ trees, type items tree → type' items tree)
    (hList : list type items trees) : list type' items trees := by
  obtain ⟨rest, rfl, hTrees⟩ := hList
  exact ⟨rest, rfl, hTrees.imp_of_mem fun items tree hMem => element_imp (hImp items tree hMem)⟩

theorem Params.imp_of_mem {items : List Item} {trees : List Tree × Option (List Tree)}
    (hImp : ∀ items, ∀ tree ∈ trees.1 ++ trees.2.getD [], type items tree → type' items tree)
    (hParams : Params type items trees) : Params type' items trees := by
  have hParameter : ∀ items, ∀ tree ∈ trees.1 ++ trees.2.getD [],
      parameter type items tree → parameter type' items tree :=
    fun items tree hMem => And.imp_left (element_imp (hImp items tree hMem))
  cases hParams with
  | plain hFixed => exact .plain (hFixed.imp_of_mem (by simpa using hParameter))
  | vararg hFixed hRest hNonempty =>
      exact .vararg
        (hFixed.imp_of_mem fun items tree hMem => hParameter items tree (List.mem_append_left _ hMem))
        (hRest.imp_of_mem fun items tree hMem => hParameter items tree (List.mem_append_right _ hMem))
        hNonempty

theorem Method.imp_of_mem {form : Signature.Form} {items : List Item} {tree : SignatureTree}
    (hImp : ∀ items, ∀ child ∈ tree.children, type items child → type' items child)
    (hMethod : Method type form items tree) : Method type' form items tree := by
  cases hMethod with
  | mk hStart hGeneric hResult hParams =>
      exact .mk hStart hGeneric (hImp _ _ (List.mem_cons_self ..) hResult)
        (hParams.imp_of_mem fun items tree hMem => hImp items tree (List.mem_cons_of_mem _ hMem))

theorem Payload.imp_of_mem {production : Production} {items : List Item} {label : Node.Label}
    {children : List Tree} (hImp : ∀ items, ∀ child ∈ children, type items child → type' items child)
    (hPayload : Payload type limits production items label children) :
    Payload type' limits production items label children := by
  cases hPayload with
  | named hToken => exact .named hToken
  | genericParam hNumber => exact .genericParam hNumber
  | sentinel => exact .sentinel
  | functionPointer hMethod => exact .functionPointer (hMethod.imp_of_mem hImp)
  | genericInst hDefinition hArgs =>
      exact .genericInst (hImp _ _ (List.mem_cons_self ..) hDefinition)
        (list_imp_of_mem (fun items tree hMem => hImp items tree (List.mem_cons_of_mem _ hMem)) hArgs)
  | wrapper hChild => exact .wrapper (hImp _ _ (List.mem_singleton_self _) hChild)
  | array hChild hShape => exact .array (hImp _ _ (List.mem_singleton_self _) hChild) hShape
  | modified hToken hChild => exact .modified hToken (hImp _ _ (List.mem_singleton_self _) hChild)
  | valueArray hChild hSize => exact .valueArray (hImp _ _ (List.mem_singleton_self _) hChild) hSize
  | moduleQualified hIndex hChild =>
      exact .moduleQualified hIndex (hImp _ _ (List.mem_singleton_self _) hChild)

theorem TypeBody.imp_of_mem {items : List Item} {tree : Tree}
    (hImp : ∀ items, ∀ child ∈ tree.children, type items child → type' items child)
    (hType : TypeBody type limits items tree) : TypeBody type' limits items tree := by
  cases hType with
  | primitive code => exact .primitive code
  | absent => exact .absent
  | production hPayload => exact .production (hPayload.imp_of_mem hImp)

end Monotone

/-- What is said within some levels has a tree that is no higher. An absent type takes a level, too. -/
theorem height_le_of_typeWithin {levels : Nat} {items : List Item} {tree : Tree}
    (hType : typeWithin limits levels items tree) : tree.height 1 ≤ levels := by
  induction levels generalizing items tree with
  | zero => exact hType.elim
  | succ levels ih =>
      cases hType with
      | primitive => exact Tree.height_node_le_iff.mpr (by simp)
      | absent => exact Nat.succ_le_succ (Nat.zero_le levels)
      | production hPayload =>
          exact Tree.height_node_le_iff.mpr (hPayload.forall_children fun _ _ => ih)

theorem height_pos (tree : Tree) : 0 < tree.height 1 := by
  cases tree with
  | absent => exact Nat.one_pos
  | node label children => exact Tree.height_node_pos 1 label children

theorem height_children_le {levels : Nat} {tree : Tree} (hHeight : tree.height 1 ≤ levels + 1) :
    ∀ child ∈ tree.children, child.height 1 ≤ levels := by
  cases tree with
  | absent => exact fun _ hMem => nomatch hMem
  | node label children => exact Tree.height_node_le_iff.mp hHeight

/-- A type is said within as many levels as its tree is high. -/
theorem typeWithin_of_height {levels within : Nat} {items : List Item} {tree : Tree}
    (hType : typeWithin limits levels items tree) (hHeight : tree.height 1 ≤ within) :
    typeWithin limits within items tree := by
  induction levels generalizing items tree within with
  | zero => exact hType.elim
  | succ levels ih =>
      cases within with
      | zero => exact absurd (height_pos tree) (Nat.not_lt.mpr hHeight)
      | succ within =>
          exact hType.imp_of_mem fun items child hMem hChild =>
            ih hChild (height_children_le hHeight child hMem)

/-- To say a type within some levels is to say it at all, with a tree that is no higher. -/
theorem typeWithin_iff {levels : Nat} {items : List Item} {tree : Tree} :
    typeWithin limits levels items tree ↔ typeUnbounded limits items tree ∧ tree.height 1 ≤ levels :=
  ⟨fun hType => ⟨⟨levels, hType⟩, height_le_of_typeWithin hType⟩,
    fun ⟨⟨_, hType⟩, hHeight⟩ => typeWithin_of_height hType hHeight⟩

/-- The language of types is closed under the rules, and the rules say nothing else. -/
theorem typeUnbounded_iff {items : List Item} {tree : Tree} :
    typeUnbounded limits items tree ↔ TypeBody (typeUnbounded limits) limits items tree := by
  constructor
  · rintro ⟨levels, hType⟩
    cases levels with
    | zero => exact hType.elim
    | succ levels => exact hType.imp_of_mem fun _ _ _ hChild => ⟨levels, hChild⟩
  · intro hType
    refine ⟨tree.height 1 + 1, hType.imp_of_mem fun items child hMem hChild => ?_⟩
    exact typeWithin_iff.mpr ⟨hChild, height_children_le (Nat.le_succ _) child hMem⟩

/-- Every language that is closed under the rules has all types in it. -/
theorem typeUnbounded_least (hClosed : ∀ items tree, TypeBody type limits items tree → type items tree)
    {items : List Item} {tree : Tree} (hType : typeUnbounded limits items tree) : type items tree := by
  obtain ⟨levels, hType⟩ := hType
  induction levels generalizing items tree with
  | zero => exact hType.elim
  | succ levels ih => exact hClosed items tree (hType.imp_of_mem fun _ _ _ hChild => ih hChild)

end CliSignature.Grammar
