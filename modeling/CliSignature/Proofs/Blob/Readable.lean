import CliSignature.Proofs.Blob.Grammar

/-!
Readable trees. An arena can hold signatures that no blob can say, and the writer writes them all the
same: an argument that is absent, a sentinel among the parameters, a sentinel with nothing behind it,
a number of generic parameters where none is written. A tree is readable if nothing in it is of this
sort. All that the grammar says is readable.
-/

namespace CliSignature

open Grammar

namespace SignatureTree

/-- The types that are counted: parameters, local variables or arguments. -/
def listed (tree : SignatureTree) : List Tree :=
  match tree.label.form with
  | .method | .property => tree.children.tail
  | .field => []
  | .locals | .methodSpec => tree.children

/-- Whether the grammar has a way to say the signature, its types aside. -/
structure Regular (tree : SignatureTree) : Prop where
  starts : Starts tree.label.form tree.label.convention
  /-- Where no number of generic parameters is written, none is read. -/
  generic : tree.label.genericCount ≠ 0 →
    tree.label.form = .method ∧ tree.label.convention.isGeneric = true
  /-- Behind a sentinel there is a parameter. -/
  varargs : tree.label.varargs ≠ some 0
  present : ∀ child ∈ tree.listed, child ≠ .absent
  /-- A sentinel is no parameter. Elsewhere it is a type like any other. -/
  unmarked : tree.label.form = .method ∨ tree.label.form = .property →
    ∀ child ∈ tree.listed, child ≠ .sentinel

end SignatureTree

/-- Whether the grammar has a way to say a node, the types inside it aside. -/
def Node.Label.Admits (limits : Limits) : Node.Label → List Tree → Prop
  | .functionPointer signature, children => (SignatureTree.mk signature children).Regular
  | .genericInst _, children => ∀ child ∈ children.tail, child ≠ .absent
  | .array shape, _ => shape.rank.toNat ≤ limits.arrayRank
  | _, _ => True

/-- Whether each node in a tree is one that the grammar has a way to say. -/
inductive Tree.Readable (limits : Limits) : Tree → Prop where
  | absent : Readable limits .absent
  | node {label : Node.Label} {children : List Tree} (hAdmits : label.Admits limits children)
      (hChildren : ∀ child ∈ children, Readable limits child) :
      Readable limits (.node label children)

/-- The same for a signature that stands on its own. -/
structure SignatureTree.Readable (limits : Limits) (tree : SignatureTree) : Prop where
  regular : tree.Regular
  children : ∀ child ∈ tree.children, child.Readable limits

/-- The shared nodes of the primitives are readable. -/
theorem CoreTypes.StoredIn.readable {types : CoreTypes} {arena : Arena} {limits : Limits}
    (hStored : types.StoredIn arena) {code : Primitive} {tree : Tree}
    (hTree : arena.Unfolds (some (types.node code)) tree) : tree.Readable limits := by
  rw [hTree.unique (hStored.stores code).unfolds]
  exact .node trivial (by simp)

namespace Grammar

variable {type : ItemLanguage Tree} {p : Tree → Prop}

theorem Params.forall {items : List Item} {trees : List Tree × Option (List Tree)}
    (hOne : ∀ items tree, parameter type items tree → p tree) (hParams : Params type items trees) :
    ∀ tree ∈ trees.1 ++ trees.2.getD [], p tree := by
  cases hParams with
  | plain hFixed => simpa using hFixed.forall hOne
  | vararg hFixed hRest =>
      intro tree hMem
      rcases List.mem_append.mp hMem with hMem | hMem
      · exact hFixed.forall hOne tree hMem
      · exact hRest.forall hOne tree hMem

/-- What the grammar says is regular. -/
theorem Method.regular {form : Signature.Form} {items : List Item} {tree : SignatureTree}
    (hForm : form = .method ∨ form = .property) (hMethod : Method type form items tree) :
    tree.Regular := by
  cases hMethod with
  | @mk convention generic result fixed rest genericItems resultItems paramItems hStart hGeneric
      hResult hParams =>
      have hListed : SignatureTree.listed
          ⟨⟨form, convention, generic, fixed.length, rest.map List.length⟩,
            result :: (fixed ++ rest.getD [])⟩ = fixed ++ rest.getD [] := by
        rcases hForm with rfl | rfl <;> rfl
      refine ⟨hStart, ?_, ?_, ?_, ?_⟩
      · intro hNonzero
        by_contra hNone
        simp only [genericCount, hNone, if_false] at hGeneric
        exact hNonzero hGeneric.2
      · cases hParams with
        | plain => simp
        | vararg _ _ hNonempty => simpa using hNonempty
      · rw [hListed]
        exact hParams.forall fun _ _ hTree => hTree.1.2
      · rw [hListed]
        exact fun _ => hParams.forall fun _ _ hTree => hTree.2

theorem Method.forall_children {form : Signature.Form} {items : List Item} {tree : SignatureTree}
    (hEvery : ∀ items tree, type items tree → p tree) (hMethod : Method type form items tree) :
    ∀ child ∈ tree.children, p child := by
  cases hMethod with
  | mk _ _ hResult hParams =>
      refine List.forall_mem_cons.mpr ⟨hEvery _ _ hResult, ?_⟩
      exact hParams.forall fun items tree hTree => hEvery items tree hTree.1.1

theorem SignatureOf.regular {form : Signature.Form} {items : List Item} {tree : SignatureTree}
    (hSignature : SignatureOf type form items tree) : tree.Regular := by
  cases hSignature with
  | method hMethod => exact hMethod.regular (.inl rfl)
  | property hMethod => exact hMethod.regular (.inr rfl)
  | field hStart => exact ⟨hStart, by simp, by simp, by simp [SignatureTree.listed], by simp⟩
  | locals hStart hTypes | methodSpec hStart hTypes =>
      obtain ⟨rest, rfl, hTypes⟩ := hTypes
      exact ⟨hStart, by simp, by simp, hTypes.forall fun _ _ hTree => hTree.2, by simp⟩

theorem SignatureOf.forall_children {form : Signature.Form} {items : List Item} {tree : SignatureTree}
    (hEvery : ∀ items tree, type items tree → p tree) (hSignature : SignatureOf type form items tree) :
    ∀ child ∈ tree.children, p child := by
  cases hSignature with
  | method hMethod | property hMethod => exact hMethod.forall_children hEvery
  | field _ hType => simpa using hEvery _ _ hType
  | locals _ hTypes | methodSpec _ hTypes =>
      obtain ⟨rest, rfl, hTypes⟩ := hTypes
      exact hTypes.forall fun items tree hTree => hEvery items tree hTree.1

theorem Payload.admits {limits : Limits} {production : Production} {items : List Item}
    {label : Node.Label} {children : List Tree}
    (hPayload : Payload type limits production items label children) :
    label.Admits limits children := by
  cases hPayload with
  | functionPointer hMethod => exact hMethod.regular (.inl rfl)
  | genericInst _ hArgs =>
      obtain ⟨rest, rfl, hArgs⟩ := hArgs
      exact hArgs.forall fun _ _ hTree => hTree.2
  | array _ hShape =>
      cases hShape with
      | mk hRank => exact hRank
  | _ => trivial

theorem Payload.forall_children {limits : Limits} {production : Production} {items : List Item}
    {label : Node.Label} {children : List Tree} (hEvery : ∀ items tree, type items tree → p tree)
    (hPayload : Payload type limits production items label children) :
    ∀ child ∈ children, p child := by
  cases hPayload with
  | named | genericParam | sentinel => simp
  | functionPointer hMethod => exact hMethod.forall_children hEvery
  | genericInst hDefinition hArgs =>
      obtain ⟨rest, rfl, hArgs⟩ := hArgs
      refine List.forall_mem_cons.mpr ⟨hEvery _ _ hDefinition, ?_⟩
      exact hArgs.forall fun items tree hTree => hEvery items tree hTree.1
  | array hChild | wrapper hChild | modified _ hChild | valueArray hChild | moduleQualified _ hChild =>
      simpa using hEvery _ _ hChild

/-- All that the grammar says is readable. -/
theorem readable_of_typeWithin {limits : Limits} {levels : Nat} {items : List Item} {tree : Tree}
    (hType : typeWithin limits levels items tree) : tree.Readable limits := by
  induction levels generalizing items tree with
  | zero => exact hType.elim
  | succ levels ih =>
      cases hType with
      | primitive => exact .node trivial (by simp)
      | absent => exact .absent
      | production hPayload =>
          exact .node hPayload.admits (hPayload.forall_children fun _ _ => ih)

theorem readable_of_signatureOf {limits : Limits} {levels : Nat} {form : Signature.Form}
    {items : List Item} {tree : SignatureTree}
    (hSignature : SignatureOf (typeWithin limits levels) form items tree) : tree.Readable limits :=
  ⟨hSignature.regular, hSignature.forall_children fun _ _ => readable_of_typeWithin⟩

end Grammar

end CliSignature
