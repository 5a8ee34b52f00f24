import CliSignature.Proofs.Blob.Emission
import CliSignature.Proofs.Blob.Readable

/-!
Writings of signatures that stand on their own emit the relations of the grammar that have their names,
if the writing of the types inside emits the language of types. The tree has to be regular: an absent
element, a sentinel among the parameters or a number that is not written would be lost.
-/

namespace CliSignature.Emission

open Grammar Lexeme

variable {arena : Arena} {limits : Limits} {type : Option NodeId → Emission} {language : ItemLanguage Tree}

/-- The writing of a slot emits what the language says about a tree. -/
def Writes (type : Option NodeId → Emission) (language : ItemLanguage Tree) (slot : Option NodeId)
    (tree : Tree) : Prop :=
  (type slot).Emits fun items => language items tree

theorem Writes.emits {slot : Option NodeId} {tree : Tree} (hType : Writes type language slot tree) :
    (type slot).Emits fun items => language items tree :=
  hType

theorem emits_types {ids : List NodeId} {trees : List Tree}
    (hTypes : List.Forall₂ (fun id tree => Writes type language (some id) tree) ids trees) :
    (types type ids).Emits fun items => Sequence language items trees :=
  Emits.each hTypes

theorem Writes.inList {slot : Option NodeId} {tree : Tree} (hType : Writes type language slot tree)
    (hPresent : tree ≠ .absent) : Writes type (element language) slot tree :=
  hType.congr fun _ => by simp [element, hPresent]

theorem Writes.asParameter {slot : Option NodeId} {tree : Tree} (hType : Writes type language slot tree)
    (hPresent : tree ≠ .absent) (hUnmarked : tree ≠ .sentinel) :
    Writes type (parameter language) slot tree :=
  hType.congr fun _ => by simp [parameter, element, hPresent, hUnmarked]

theorem exists_eq_singleton {α β : Type} {R : α → β → Prop} {x : α} {ys : List β}
    (hOne : List.Forall₂ R [x] ys) : ∃ y, ys = [y] ∧ R x y := by
  obtain ⟨y, _, hHead, hNil, rfl⟩ := List.forall₂_cons_left_iff.mp hOne
  cases hNil
  exact ⟨y, rfl, hHead⟩

theorem emits_list {ids : List NodeId} {trees : List Tree} (hPresent : ∀ tree ∈ trees, tree ≠ .absent)
    (hTypes : List.Forall₂ (Writes type language) (ids.map some) trees) :
    (list type ids).Emits fun items => Grammar.list language items trees := by
  have hTypes := List.forall₂_map_left_iff.mp hTypes
  have hElements := forall₂_imp_of_mem
    (fun id tree hTree (hType : Writes type language (some id) tree) => hType.inList hTree)
    hPresent hTypes
  refine ((Emits.count ids.length).cons (emits_types hElements)).congr fun items => ?_
  rw [hTypes.length_eq]
  rfl

/-- Parameters and the sentinel among them, if there is one. -/
theorem emits_params {ids : List NodeId} {varargIds : Option (List NodeId)} {fixed : List Tree}
    {rest : Option (List Tree)}
    (hFixed : List.Forall₂ (fun id tree => Writes type (parameter language) (some id) tree) ids fixed)
    (hRest : Option.Rel
      (List.Forall₂ fun id tree => Writes type (parameter language) (some id) tree) varargIds rest)
    (hNonempty : rest ≠ some []) :
    (types type ids >> varargs type varargIds : Emission).Emits fun items =>
      Params language items (fixed, rest) := by
  cases hRest with
  | none =>
      refine ((emits_types hFixed).andThen Emits.done).congr fun items => ?_
      rw [params_none_iff]
      constructor
      · rintro ⟨first, _, rfl, hFirst, rfl⟩
        simpa using hFirst
      · intro hItems
        exact ⟨items, [], by simp, hItems, rfl⟩
  | some hBehind =>
      refine ((emits_types hFixed).andThen ((Emits.byte _).cons (emits_types hBehind))).congr
        fun items => ?_
      rw [params_some_iff]
      constructor
      · rintro ⟨first, _, rfl, hFirst, second, rfl, hSecond⟩
        exact ⟨first, second, rfl, hFirst, hSecond, fun hEmpty => hNonempty (congrArg some hEmpty)⟩
      · rintro ⟨first, second, rfl, hFirst, hSecond, -⟩
        exact ⟨first, _, rfl, hFirst, second, rfl, hSecond⟩

/-- The parts of a method or a property, each of which is written as the tree says. -/
theorem emits_methodBody {m : MethodSignature} {result : Tree} {fixed : List Tree}
    {rest : Option (List Tree)} (hResult : Writes type language m.result result)
    (hFixed : List.Forall₂ (fun id tree => Writes type (parameter language) (some id) tree)
      m.params fixed)
    (hRest : Option.Rel
      (List.Forall₂ fun id tree => Writes type (parameter language) (some id) tree)
      m.varargs rest)
    (hNonempty : rest ≠ some []) :
    (methodBody type m).Emits fun items => ∃ resultItems paramItems,
      items = .number (fixed ++ rest.getD []).length :: (resultItems ++ paramItems) ∧
      language resultItems result ∧ Params language paramItems (fixed, rest) := by
  obtain ⟨convention, generic, slot, ids, varargIds⟩ := m
  have hCount : (ids ++ varargIds.getD []).length = (fixed ++ rest.getD []).length := by
    have hBehind : (varargIds.getD []).length = (rest.getD []).length := by
      cases hRest with
      | none => rfl
      | some hRest => exact hRest.length_eq
    rw [List.length_append, List.length_append, hFixed.length_eq, hBehind]
  rw [methodBody, MethodSignature.paramCount, MethodSignature.allParams, hCount]
  refine ((Emits.count _).cons (Emits.andThen hResult
    (emits_params hFixed hRest hNonempty))).congr fun items => ?_
  constructor
  · rintro ⟨_, rfl, first, second, rfl, hFirst, hSecond⟩
    exact ⟨first, second, rfl, hFirst, hSecond⟩
  · rintro ⟨first, second, rfl, hFirst, hSecond⟩
    exact ⟨_, rfl, first, second, rfl, hFirst, hSecond⟩

/-- The trees of the parameters, on both sides of the sentinel. -/
theorem forall₂_params {R : Option NodeId → Tree → Prop} {ids : List NodeId}
    {varargIds : Option (List NodeId)} {trees : List Tree}
    (hTrees : List.Forall₂ R ((ids ++ varargIds.getD []).map some) trees) :
    ∃ fixed rest, trees = fixed ++ rest.getD [] ∧
      List.Forall₂ (fun id tree => R (some id) tree) ids fixed ∧
      Option.Rel (List.Forall₂ fun id tree => R (some id) tree) varargIds rest := by
  have hTrees := List.forall₂_map_left_iff.mp hTrees
  induction ids generalizing trees with
  | nil =>
      cases varargIds with
      | none =>
          cases hTrees
          exact ⟨[], none, rfl, .nil, .none⟩
      | some behind => exact ⟨[], some trees, rfl, .nil, .some hTrees⟩
  | cons id ids ih =>
      cases hTrees with
      | cons hHead hTail =>
          obtain ⟨fixed, rest, rfl, hFixed, hRest⟩ := ih (List.forall₂_map_left_iff.mpr hTail) hTail
          exact ⟨_ :: fixed, rest, rfl, .cons hHead hFixed, hRest⟩

/-- The body of a method or a property, where `wrap` says which of the two it is. -/
theorem emits_wrapped {m : MethodSignature} {tree : SignatureTree} {form : Signature.Form}
    (hForm : form = .method ∨ form = .property) (hRegular : tree.Regular)
    (hLabel : tree.label =
      ⟨form, m.convention, m.genericCount, m.params.length, m.varargs.map List.length⟩)
    (hTrees : List.Forall₂ (Writes type language) (m.result :: m.allParams.map some) tree.children) :
    ∃ (result : Tree) (fixed : List Tree) (rest : Option (List Tree)),
      tree = ⟨⟨form, m.convention, m.genericCount, fixed.length, rest.map List.length⟩,
        result :: (fixed ++ rest.getD [])⟩ ∧
      (methodBody type m).Emits fun items => ∃ resultItems paramItems,
        items = .number (fixed ++ rest.getD []).length :: (resultItems ++ paramItems) ∧
        language resultItems result ∧ Params language paramItems (fixed, rest) := by
  obtain ⟨label, children⟩ := tree
  obtain rfl := hLabel
  obtain ⟨result, trees, hResult, hParams, rfl⟩ := List.forall₂_cons_left_iff.mp hTrees
  obtain ⟨fixed, rest, rfl, hFixed, hRest⟩ := forall₂_params hParams
  have hListed (tree : Tree) (hMem : tree ∈ fixed ++ rest.getD []) :
      tree ≠ .absent ∧ tree ≠ .sentinel := by
    have hPresent := hRegular.present
    have hUnmarked := hRegular.unmarked hForm
    rcases hForm with rfl | rfl <;> exact ⟨hPresent tree hMem, hUnmarked tree hMem⟩
  have hParameter (id : NodeId) (tree : Tree) (hTree : tree ≠ .absent ∧ tree ≠ .sentinel)
      (hType : Writes type language (some id) tree) :
      Writes type (parameter language) (some id) tree := hType.asParameter hTree.1 hTree.2
  have hVarargs := hRegular.varargs
  have hBody : (methodBody type m).Emits fun items => ∃ resultItems paramItems,
      items = .number (fixed ++ rest.getD []).length :: (resultItems ++ paramItems) ∧
      language resultItems result ∧ Params language paramItems (fixed, rest) := by
    obtain ⟨convention, generic, slot, ids, varargIds⟩ := m
    refine emits_methodBody hResult
      (forall₂_imp_of_mem hParameter (fun tree hMem => hListed tree (by simp [hMem])) hFixed) ?_ ?_
    · cases hRest with
      | none => exact .none
      | some hRest =>
          exact .some (forall₂_imp_of_mem hParameter (fun tree hMem => hListed tree (by simp [hMem])) hRest)
    · rintro rfl
      cases hRest with
      | some hRest =>
          cases hRest
          exact hVarargs rfl
  refine ⟨result, fixed, rest, ?_, hBody⟩
  have hRestLength : m.varargs.map List.length = rest.map List.length := by
    obtain ⟨convention, generic, slot, ids, varargIds⟩ := m
    cases hRest with
    | none => rfl
    | some hRest => exact congrArg some hRest.length_eq
  rw [hFixed.length_eq, hRestLength]

theorem emits_method {m : MethodSignature} {tree : SignatureTree} (hRegular : tree.Regular)
    (hLabel : tree.label =
      ⟨.method, m.convention, m.genericCount, m.params.length, m.varargs.map List.length⟩)
    (hTrees : List.Forall₂ (Writes type language) (m.result :: m.allParams.map some) tree.children) :
    (method type m).Emits fun items => Method language .method items tree := by
  obtain ⟨result, fixed, rest, rfl, hBody⟩ := emits_wrapped (.inl rfl) hRegular hLabel hTrees
  have hGeneric : (if m.convention.isGeneric then unsigned m.genericCount else done).Emits
      fun items => genericCount .method m.convention items m.genericCount := by
    split
    case isTrue hFlag =>
      exact (Emits.unsigned _).congr fun items => by simp [genericCount, hFlag]
    case isFalse hFlag =>
      have hZero : m.genericCount = 0 := by
        by_contra hNonzero
        exact hFlag (hRegular.generic hNonzero).2
      exact Emits.done.congr fun items => by simp [genericCount, hFlag, hZero]
  refine ((Emits.byte _).cons (hGeneric.andThen hBody)).congr fun items => ?_
  rw [method_iff]
  constructor
  · rintro ⟨_, rfl, genericItems, _, rfl, hCount, resultItems, paramItems, rfl, hResult, hParams⟩
    exact ⟨hRegular.starts, genericItems, resultItems, paramItems, rfl, hCount, hResult, hParams⟩
  · rintro ⟨-, genericItems, resultItems, paramItems, rfl, hCount, hResult, hParams⟩
    exact ⟨_, rfl, genericItems, _, rfl, hCount, resultItems, paramItems, rfl, hResult, hParams⟩

theorem emits_property {m : MethodSignature} {tree : SignatureTree} (hRegular : tree.Regular)
    (hLabel : tree.label =
      ⟨.property, m.convention, m.genericCount, m.params.length, m.varargs.map List.length⟩)
    (hTrees : List.Forall₂ (Writes type language) (m.result :: m.allParams.map some) tree.children) :
    (convention m.convention >> methodBody type m : Emission).Emits
      fun items => Method language .property items tree := by
  obtain ⟨result, fixed, rest, rfl, hBody⟩ := emits_wrapped (.inr rfl) hRegular hLabel hTrees
  have hZero : m.genericCount = 0 := by
    by_contra hNonzero
    exact absurd (hRegular.generic hNonzero).1 (by simp)
  refine ((Emits.byte _).cons hBody).congr fun items => ?_
  rw [method_iff]
  constructor
  · rintro ⟨_, rfl, resultItems, paramItems, rfl, hResult, hParams⟩
    exact ⟨hRegular.starts, [], resultItems, paramItems, rfl, by simp [genericCount, hZero], hResult,
      hParams⟩
  · rintro ⟨-, genericItems, resultItems, paramItems, rfl, hCount, hResult, hParams⟩
    simp only [genericCount, reduceCtorEq, false_and, ↓reduceIte] at hCount
    obtain ⟨rfl, -⟩ := hCount
    exact ⟨_, rfl, resultItems, paramItems, rfl, hResult, hParams⟩

/-- A signature is written in its own form, whatever its convention says. Only if the two agree is it
a word of the grammar. -/
theorem emits_signature {signature : Signature} {tree : SignatureTree} (hRegular : tree.Regular)
    (hLabel : signature.label = tree.label)
    (hTrees : List.Forall₂ (Writes type language) signature.children tree.children) :
    (Emission.signature type signature).Emits
      fun items => SignatureOf language tree.label.form items tree := by
  obtain ⟨label, children⟩ := tree
  obtain rfl := hLabel
  cases signature with
  | method m =>
      refine (emits_method hRegular rfl hTrees).congr fun items => ⟨.method, fun hSignature => ?_⟩
      cases hSignature with
      | method hMethod => exact hMethod
  | property m =>
      refine (emits_property hRegular rfl hTrees).congr fun items => ⟨.property, fun hSignature => ?_⟩
      cases hSignature with
      | property hMethod => exact hMethod
  | field c slot =>
      obtain ⟨tree, rfl, hTree⟩ := exists_eq_singleton hTrees
      refine ((Emits.byte _).cons (Writes.emits hTree)).congr fun items => ?_
      constructor
      · rintro ⟨rest, rfl, hRest⟩
        exact .field hRegular.starts hRest
      · intro hSignature
        cases hSignature with
        | field _ hType => exact ⟨_, rfl, hType⟩
  | locals c ids =>
      have hLength : ids.length = children.length := by
        simpa [Signature.children] using hTrees.length_eq
      refine ((Emits.byte _).cons (emits_list hRegular.present hTrees)).congr fun items => ?_
      simp only [Signature.label, hLength, signatureOf_locals_iff]
      exact (and_iff_right hRegular.starts).symm
  | methodSpec c ids =>
      have hLength : ids.length = children.length := by
        simpa [Signature.children] using hTrees.length_eq
      refine ((Emits.byte _).cons (emits_list hRegular.present hTrees)).congr fun items => ?_
      simp only [Signature.label, hLength, signatureOf_methodSpec_iff]
      exact (and_iff_right hRegular.starts).symm

end CliSignature.Emission
