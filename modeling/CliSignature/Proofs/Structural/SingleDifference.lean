import CliSignature.Proofs.Structural.Mixing
import CliSignature.Proofs.Structural.Walks

/-!
Types that differ in one place. The hash of a type is one of the words that an enclosing type is hashed from, and
mixing keeps different words apart. So hashes that differ go on to differ through any number of enclosing types,
as long as they cover everything below.
-/

namespace CliSignature

/-- The sort that a word stands for can be looked up. -/
theorem Digest.getElem?_all_tagWord (tag : Tag) : Tag.all[(tagWord tag - 0x100).toNat]? = some tag := by
  rcases tag with _ | production
  · rfl
  · rcases production with (_ | _) | (_ | _) | _ | _ | _ | (_ | _ | _ | _) | _ | (_ | _) | _ | _ <;> rfl

/-- Different sorts have different words. -/
theorem Digest.tagWord_injective : Function.Injective tagWord := by
  intro first second hWords
  have hFirst := getElem?_all_tagWord first
  rw [hWords, getElem?_all_tagWord second] at hFirst
  exact (Option.some.inj hFirst).symm

section Nodes

/-- The nodes with the label have places for types. -/
def Node.Label.HasPlaces : Label → Prop
  | .named _ _ | .primitive _ | .genericParam _ _ | .sentinel => False
  | .functionPointer _ | .genericInst _ | .wrapper _ | .array _ | .modified _ _ | .valueArray _
  | .moduleQualified _ => True

theorem Node.hasPlaces_label {node : Node} (hChildren : node.children ≠ []) : node.label.HasPlaces := by
  cases node with
  | named | primitive | genericParam | sentinel => exact absurd rfl hChildren
  | functionPointer | genericInst | wrapper | array | modified | valueArray | moduleQualified => trivial

/-- The hash in a place is one of the words of a node, and with another hash there this word alone is another one.
The empty places of a function pointer have no words, so both have to be there. -/
theorem Node.Label.exists_words {label : Label} (hPlaces : label.HasPlaces) (before after : List (Option UInt64))
    {first second : Option UInt64}
    (hPointer : ∀ signature, label = .functionPointer signature → first.isSome = true ∧ second.isSome = true) :
    ∃ front back, label.words (before ++ first :: after) = front ++ NodeHash.ofPlace first :: back ∧
      label.words (before ++ second :: after) = front ++ NodeHash.ofPlace second :: back := by
  cases label with
  | named | primitive | genericParam | sentinel => exact hPlaces.elim
  | functionPointer signature =>
      obtain ⟨hFirst, hSecond⟩ := hPointer signature rfl
      obtain ⟨value, rfl⟩ := Option.isSome_iff_exists.mp hFirst
      obtain ⟨other, rfl⟩ := Option.isSome_iff_exists.mp hSecond
      refine ⟨signature.convention.bits.toUInt64
          :: UInt64.ofNat ((before.filterMap id).length + ((after.filterMap id).length + 1)) :: before.filterMap id,
        after.filterMap id, ?_, ?_⟩ <;> simp [words, NodeHash.ofPlace]
  | genericInst arity =>
      cases before with
      | nil => exact ⟨[], UInt64.ofNat arity :: after.map NodeHash.ofPlace, by simp [words], by simp [words]⟩
      | cons definition args =>
          refine ⟨NodeHash.ofPlace definition :: UInt64.ofNat arity :: args.map NodeHash.ofPlace,
            after.map NodeHash.ofPlace, ?_, ?_⟩ <;> simp [words]
  | wrapper kind =>
      refine ⟨before.map NodeHash.ofPlace, after.map NodeHash.ofPlace, ?_, ?_⟩ <;> simp [words]
  | array shape =>
      refine ⟨shape.rank.toUInt64 :: UInt64.ofNat shape.sizes.length :: shape.sizes.map (fun size => size.toUInt64)
          ++ UInt64.ofNat shape.lowerBounds.length :: shape.lowerBounds.map SipHash.ofInt32
          ++ before.map NodeHash.ofPlace, after.map NodeHash.ofPlace, ?_, ?_⟩ <;> simp [words]
  | modified required modifier =>
      refine ⟨Digest.tokenWord modifier :: before.map NodeHash.ofPlace, after.map NodeHash.ofPlace, ?_, ?_⟩ <;>
        simp [words]
  | valueArray size =>
      refine ⟨size.toUInt64 :: before.map NodeHash.ofPlace, after.map NodeHash.ofPlace, ?_, ?_⟩ <;> simp [words]
  | moduleQualified index =>
      refine ⟨index.toUInt64 :: before.map NodeHash.ofPlace, after.map NodeHash.ofPlace, ?_, ?_⟩ <;> simp [words]

end Nodes

namespace Outline

/-- Nodes of different sorts with the same words have different hashes. -/
theorem hash_ne_of_tag_ne {label label' : Node.Label} (hTag : label.tag ≠ label'.tag)
    {children children' : List Outline}
    (hWords : label.words (children.map hash?) = label'.words (children'.map hash?)) :
    (node label children).hash ≠ (node label' children').hash := by
  rw [hash_node, hash_node, hWords]
  exact Digest.foldl_add_ne (fun hWord => hTag (Digest.tagWord_injective hWord)) [] _ Digest.start

/-- An outline with a hole. -/
inductive Context where
  | hole
  | inside (label : Node.Label) (before : List Outline) (inner : Context) (after : List Outline)

namespace Context

/-- The outline that has another one in the hole. -/
def fill : Context → Outline → Outline
  | hole, outline => outline
  | inside label before inner after, outline => .node label (before ++ inner.fill outline :: after)

/-- Every node around the hole has places. -/
def Proper : Context → Prop
  | hole => True
  | inside label _ inner _ => label.HasPlaces ∧ inner.Proper

/-- The hole is a place of a function pointer. -/
def InPointer : Context → Prop
  | hole => False
  | inside label _ inner _ =>
    (inner = hole ∧ ∃ signature, label = .functionPointer signature) ∨ inner.InPointer

/-- By induction on the context. Different hashes in the hole lead to different hashes at the top. -/
theorem hash_fill_ne {context : Context} (hProper : context.Proper) {first second : Outline}
    (hPlace : context.InPointer → first ≠ empty ∧ second ≠ empty) (hDiffer : first.hash ≠ second.hash) :
    (context.fill first).hash ≠ (context.fill second).hash := by
  induction context with
  | hole => exact hDiffer
  | inside label before inner after ih =>
      obtain ⟨hLabel, hInner⟩ := hProper
      have hBelow := ih hInner fun hPointer => hPlace (.inr hPointer)
      have hHeld {outline : Outline} (hHole : inner = hole → outline ≠ empty) :
          (inner.fill outline).hash?.isSome = true := by
        cases inner with
        | hole =>
            cases outline with
            | empty => exact absurd rfl (hHole rfl)
            | dangling | node => rfl
        | inside => rfl
      have hPointer (signature : Signature.Label) (hLabel : label = .functionPointer signature) :
          (inner.fill first).hash?.isSome = true ∧ (inner.fill second).hash?.isSome = true :=
        ⟨hHeld fun hHole => (hPlace (.inl ⟨hHole, signature, hLabel⟩)).1,
          hHeld fun hHole => (hPlace (.inl ⟨hHole, signature, hLabel⟩)).2⟩
      obtain ⟨front, back, hFirst, hSecond⟩ :=
        Node.Label.exists_words hLabel (before.map hash?) (after.map hash?) hPointer
      simp only [fill, hash_node, List.map_append, List.map_cons, hFirst, hSecond, Digest.ofWords]
      exact Digest.foldl_add_ne hBelow front back _

end Context

end Outline

namespace Arena

variable {arena : Arena} {limits : Limits} {slot : Option NodeId}

theorem Outlines.exists_node {label : Node.Label} {outlines : List Outline}
    (hOutline : arena.Outlines slot (.node label outlines)) :
    ∃ id node, slot = some id ∧ arena.get? id = some node ∧ node.label = label ∧
      List.Forall₂ arena.Outlines node.children outlines := by
  cases hOutline with
  | node hNode hLength hChildren =>
      exact ⟨_, _, rfl, hNode, rfl, List.forall₂_iff_zip.mpr ⟨hLength, hChildren _⟩⟩

/-- Around a hole in an outline of a slot there are nodes that have places. -/
theorem Outlines.proper {context : Outline.Context} {outline : Outline}
    (hOutline : arena.Outlines slot (context.fill outline)) : context.Proper := by
  induction context generalizing slot with
  | hole => trivial
  | inside label before inner after ih =>
      obtain ⟨id, node, -, -, rfl, hChildren⟩ := hOutline.exists_node
      have hMem : inner.fill outline ∈ before ++ inner.fill outline :: after :=
        List.mem_append_right _ (List.mem_cons_self ..)
      obtain ⟨child, hChild, hInner⟩ := exists_of_forall₂ hChildren.flip hMem
      exact ⟨Node.hasPlaces_label (List.ne_nil_of_mem hChild), ih hInner⟩

/-- A handle is not an empty place. -/
theorem Outlines.ne_empty {id : NodeId} {outline : Outline} (hOutline : arena.Outlines (some id) outline) :
    outline ≠ .empty := by
  cases hOutline with
  | dangling | node => nofun

theorem hashedInFull_none (arena : Arena) (limits : Limits) : arena.HashedInFull limits none := by
  have hGlance : Hashing.glance arena .start none = .settled .absent := rfl
  rw [HashedInFull, Hashing.within_of_settled hGlance]
  rfl

/-- The hash of a slot covers all of the outline. -/
structure HashedAs (arena : Arena) (limits : Limits) (slot : Option NodeId) (outline : Outline) : Prop where
  outlines : arena.Outlines slot outline
  full : arena.HashedInFull limits slot

theorem HashedAs.structuralHash_eq {outline : Outline} (hHashed : arena.HashedAs limits slot outline) :
    arena.structuralHash limits slot = outline.hash := by
  obtain ⟨other, hOther, hHash⟩ := structuralHash_eq_hash hHashed.full
  rw [hHash, hOther.unique hHashed.outlines]

/-- Slots that differ in nothing but what is in the hole of a context. -/
theorem structuralHash_fill_ne {A B : Arena} {limits limits' : Limits} {a b : Option NodeId}
    {context : Outline.Context} {first second : Outline} (hFirst : A.HashedAs limits a (context.fill first))
    (hSecond : B.HashedAs limits' b (context.fill second))
    (hPlace : context.InPointer → first ≠ .empty ∧ second ≠ .empty) (hDiffer : first.hash ≠ second.hash) :
    A.structuralHash limits a ≠ B.structuralHash limits' b := by
  rw [hFirst.structuralHash_eq, hSecond.structuralHash_eq]
  exact Outline.Context.hash_fill_ne hFirst.outlines.proper hPlace hDiffer

/-- A single difference is never lost. A step of mixing is a bijection, of the words as well as of the states, so
sequences of words that differ in one place lead to different digests. Types with different hashes lead to
different hashes in every context, as long as all hashes cover everything below. So does an absent type, except in
a function pointer, which passes over it. In particular a required and an optional modifier never hash alike, nor do
two wrappers of different kinds, in whatever context they stand. -/
theorem single_difference_never_collides :
    (∀ state, Function.Bijective (Digest.mix state)) ∧
    (∀ word, Function.Bijective fun state => Digest.mix state word) ∧
    (∀ (digest : Digest) (before after : List UInt64) (first second : UInt64), first ≠ second →
      ((before ++ first :: after).foldl Digest.add digest).state ≠
        ((before ++ second :: after).foldl Digest.add digest).state) ∧
    ∀ (A B : Arena) (limits limits' : Limits) (context : Outline.Context) (a b : Option NodeId),
      (∀ (x y : NodeId) (first second : Outline),
        A.HashedAs limits (some x) first → A.HashedAs limits a (context.fill first) →
        B.HashedAs limits' (some y) second → B.HashedAs limits' b (context.fill second) →
        A.structuralHash limits (some x) ≠ B.structuralHash limits' (some y) →
        A.structuralHash limits a ≠ B.structuralHash limits' b) ∧
      (∀ (y : NodeId) (second : Outline), ¬ context.InPointer → A.HashedAs limits a (context.fill .empty) →
        B.HashedAs limits' (some y) second → B.HashedAs limits' b (context.fill second) →
        A.structuralHash limits none ≠ B.structuralHash limits' (some y) →
        A.structuralHash limits a ≠ B.structuralHash limits' b) ∧
      (∀ (modifier : Token) (child : Outline),
        A.HashedAs limits a (context.fill (.node (.modified true modifier) [child])) →
        B.HashedAs limits' b (context.fill (.node (.modified false modifier) [child])) →
        A.structuralHash limits a ≠ B.structuralHash limits' b) ∧
      ∀ (kind kind' : WrapperKind) (child : Outline), kind ≠ kind' →
        A.HashedAs limits a (context.fill (.node (.wrapper kind) [child])) →
        B.HashedAs limits' b (context.fill (.node (.wrapper kind') [child])) →
        A.structuralHash limits a ≠ B.structuralHash limits' b := by
  refine ⟨Digest.mix_bijective, Digest.mix_bijective_state,
    fun digest before after first second hDiffer => Digest.foldl_add_ne hDiffer before after digest,
    fun A B limits limits' context a b => ⟨?_, ?_, ?_, ?_⟩⟩
  · intro x y first second hx ha hy hb hDiffer
    rw [hx.structuralHash_eq, hy.structuralHash_eq] at hDiffer
    exact structuralHash_fill_ne ha hb (fun _ => ⟨hx.outlines.ne_empty, hy.outlines.ne_empty⟩) hDiffer
  · intro y second hPlace ha hy hb hDiffer
    have hNone : A.HashedAs limits none .empty := ⟨.empty, hashedInFull_none A limits⟩
    rw [hNone.structuralHash_eq, hy.structuralHash_eq] at hDiffer
    exact structuralHash_fill_ne ha hb (fun hPointer => (hPlace hPointer).elim) hDiffer
  · intro modifier child ha hb
    have hTags : (Node.Label.modified true modifier).tag ≠ (Node.Label.modified false modifier).tag := by
      simp [Node.Label.tag, Node.Label.production?]
    exact structuralHash_fill_ne ha hb (fun _ => ⟨nofun, nofun⟩) (Outline.hash_ne_of_tag_ne hTags rfl)
  · intro kind kind' child hKinds ha hb
    have hTags : (Node.Label.wrapper kind).tag ≠ (Node.Label.wrapper kind').tag := by
      simpa [Node.Label.tag, Node.Label.production?] using hKinds
    exact structuralHash_fill_ne ha hb (fun _ => ⟨nofun, nofun⟩) (Outline.hash_ne_of_tag_ne hTags rfl)

/-- Two function pointers with one parameter each, inside of instantiations that have a type in common with it. -/
def parameters : Arena :=
  ⟨#[.genericParam .type 0, .genericParam .type 1,
    .functionPointer (.method ⟨⟨0⟩, 0, none, [⟨0⟩], none⟩), .functionPointer (.method ⟨⟨0⟩, 0, none, [⟨1⟩], none⟩),
    .genericInst none [⟨0⟩, ⟨2⟩], .genericInst none [⟨0⟩, ⟨3⟩]]⟩

/-- What stands around the parameter: its function pointer, and the instantiation. -/
def aroundParameter : Outline.Context :=
  .inside (.genericInst 2) [.empty, .node (.genericParam .type 0) []]
    (.inside (.functionPointer ⟨.method, ⟨0⟩, 0, 1, none⟩) [.empty] .hole []) []

theorem single_difference_never_collides_parameters :
    parameters.HashedInFull .strict (some ⟨4⟩) ∧ parameters.HashedInFull .strict (some ⟨5⟩) ∧
      parameters.structuralHash .strict (some ⟨0⟩) ≠ parameters.structuralHash .strict (some ⟨1⟩) ∧
      parameters.structuralHash .strict (some ⟨4⟩) ≠ parameters.structuralHash .strict (some ⟨5⟩) := by
  have hFirst : parameters.Outlines (some ⟨0⟩) (.node (.genericParam .type 0) []) :=
    (outlines_node_iff rfl).mpr ⟨_, rfl, .nil⟩
  have hSecond : parameters.Outlines (some ⟨1⟩) (.node (.genericParam .type 1) []) :=
    (outlines_node_iff rfl).mpr ⟨_, rfl, .nil⟩
  have hFilled (id pointer top : NodeId) {outline : Outline}
      (hPointer : parameters.get? pointer = some (.functionPointer (.method ⟨⟨0⟩, 0, none, [id], none⟩)))
      (hTop : parameters.get? top = some (.genericInst none [⟨0⟩, pointer]))
      (hHole : parameters.Outlines (some id) outline) :
      parameters.Outlines (some top) (aroundParameter.fill outline) :=
    .of_forall₂ hTop (.cons .empty (.cons hFirst (.cons
      (.of_forall₂ hPointer (.cons .empty (.cons hHole .nil))) .nil)))
  have hDiffer : parameters.structuralHash .strict (some ⟨0⟩) ≠ parameters.structuralHash .strict (some ⟨1⟩) := by
    decide
  exact ⟨by decide, by decide, hDiffer,
    (single_difference_never_collides.2.2.2 parameters parameters .strict .strict aroundParameter (some ⟨4⟩)
      (some ⟨5⟩)).1 ⟨0⟩ ⟨1⟩ _ _ ⟨hFirst, by decide⟩ ⟨hFilled ⟨0⟩ ⟨2⟩ ⟨4⟩ rfl rfl hFirst, by decide⟩
      ⟨hSecond, by decide⟩ ⟨hFilled ⟨1⟩ ⟨3⟩ ⟨5⟩ rfl rfl hSecond, by decide⟩ hDiffer⟩

end Arena

end CliSignature
