import CliSignature.Proofs.Acyclicity
import CliSignature.Proofs.Outline
import CliSignature.Structural.Hash

/-!
The hashes of outlines and of trees. A hash that covers everything below its node depends on the outline
of the node alone: neither sharing nor the limits nor what was hashed before play a part in it. Where no
function pointer names a handle that refers to nothing, it depends on the tree alone.
-/

namespace CliSignature

namespace NodeHash

/-- The hash of a place, where an absent type has a hash of its own. -/
def ofPlace (hash : Option UInt64) : UInt64 :=
  hash.getD absent.value

end NodeHash

namespace Node.Label

/-- The sort of the nodes with the label. -/
def tag (label : Label) : Tag :=
  label.production?.elim .primitive .of

/-- The words that are mixed into the digest of a node, given the hashes of its places. Of a function
pointer only the types that are there take part. -/
def words : Label → List (Option UInt64) → List UInt64
  | .named _ token, _ => [Digest.tokenWord token]
  | .primitive code, _ => [code.elementType.toUInt64]
  | .genericParam _ number, _ => [number.toUInt64]
  | .sentinel, _ => []
  | .functionPointer signature, places =>
    signature.convention.bits.toUInt64 :: UInt64.ofNat (places.filterMap id).length
      :: places.filterMap id
  | .genericInst arity, places =>
    (places.take 1).map NodeHash.ofPlace ++ UInt64.ofNat arity :: (places.drop 1).map NodeHash.ofPlace
  | .wrapper _, places => places.map NodeHash.ofPlace
  | .array shape, places =>
    shape.rank.toUInt64 :: UInt64.ofNat shape.sizes.length
      :: shape.sizes.map (fun size => size.toUInt64)
      ++ UInt64.ofNat shape.lowerBounds.length
      :: shape.lowerBounds.map SipHash.ofInt32
      ++ places.map NodeHash.ofPlace
  | .modified _ modifier, places => Digest.tokenWord modifier :: places.map NodeHash.ofPlace
  | .valueArray size, places => size.toUInt64 :: places.map NodeHash.ofPlace
  | .moduleQualified index, places => index.toUInt64 :: places.map NodeHash.ofPlace

end Node.Label

/-- All labels but those of function pointers mix in the hashes of all places. -/
theorem Node.Label.words_congr {label : Label} {places places' : List (Option UInt64)}
    (hPlaces : places.map NodeHash.ofPlace = places'.map NodeHash.ofPlace)
    (hPointer : ∀ signature, label = .functionPointer signature → places = places') :
    label.words places = label.words places' := by
  cases label with
  | functionPointer signature => rw [hPointer signature rfl]
  | genericInst arity => simp only [words, List.map_take, List.map_drop, hPlaces]
  | named | primitive | genericParam | sentinel => rfl
  | wrapper | array | modified | valueArray | moduleQualified => simp only [words, hPlaces]

theorem Node.tag_label (node : Node) : node.label.tag = node.tag := by
  cases node <;> rfl

/-- The digest of some words on top of that of a sort. -/
def Digest.ofWords (tag : Tag) (words : List UInt64) : Digest :=
  words.foldl Digest.add (Digest.start.add (Digest.tagWord tag))

namespace Outline

mutual

/-- The hash of an outline, or nothing for an empty place. -/
def hash? : Outline → Option UInt64
  | .empty => none
  | .dangling => some NodeHash.absent.value
  | .node label children => some (Digest.ofWords label.tag (label.words (hashes children))).state

/-- The hashes of several outlines. -/
def hashes : List Outline → List (Option UInt64)
  | [] => []
  | outline :: outlines => hash? outline :: hashes outlines

end

/-- The hash of an outline in its place. It is made by plain recursion: nothing is remembered, and
nothing is cut off. -/
def hash (outline : Outline) : UInt64 :=
  NodeHash.ofPlace outline.hash?

theorem hashes_eq_map (outlines : List Outline) : hashes outlines = outlines.map hash? := by
  induction outlines with
  | nil => rfl
  | cons outline outlines ih => rw [hashes, ih, List.map_cons]

theorem hash_node (label : Node.Label) (children : List Outline) :
    (Outline.node label children).hash =
      (Digest.ofWords label.tag (label.words (children.map hash?))).state := by
  rw [hash, hash?, hashes_eq_map]
  rfl

end Outline

namespace Tree

/-- The hash of a tree, or nothing for an absent type. -/
def hash? (tree : Tree) : Option UInt64 :=
  tree.outline.hash?

/-- The hash of a tree in its place. -/
def hash (tree : Tree) : UInt64 :=
  tree.outline.hash

theorem hash_node (label : Node.Label) (children : List Tree) :
    (Tree.node label children).hash =
      (Digest.ofWords label.tag (label.words (children.map hash?))).state := by
  rw [hash, outline, outlines_eq_map, Outline.hash_node, List.map_map]
  rfl

end Tree

/-- All the types that a signature names are those of its places that are not empty. -/
theorem Signature.references_eq (signature : Signature) :
    signature.references = signature.children.filterMap id := by
  cases signature with
  | method m | property m => cases hResult : m.result <;> simp [references, children, hResult]
  | field c type => cases type <;> simp [references, children]
  | locals c types | methodSpec c types => simp [references, children]

theorem Signature.convention_label (signature : Signature) :
    signature.label.convention = signature.convention := by
  cases signature <;> rfl

namespace Arena

/-- What a piece of a node's hash comes to. -/
inductive PartHash (arena : Arena) : HashPart → UInt64 → Prop where
  | word (value : UInt64) : PartHash arena (.word value) value
  | child {slot : Option NodeId} {outline : Outline} (hOutline : arena.Outlines slot outline) :
      PartHash arena (.child slot) outline.hash

variable {arena : Arena}

/-- A part that is a word comes to that word alone. -/
theorem forall₂_word_cons {value : UInt64} {parts : List HashPart} {words : List UInt64}
    (hParts : List.Forall₂ arena.PartHash (.word value :: parts) words) :
    ∃ rest, words = value :: rest ∧ List.Forall₂ arena.PartHash parts rest := by
  cases hParts with
  | cons hHead hTail =>
      cases hHead
      exact ⟨_, rfl, hTail⟩

theorem forall₂_child_cons {slot : Option NodeId} {parts : List HashPart} {words : List UInt64}
    (hParts : List.Forall₂ arena.PartHash (.child slot :: parts) words) :
    ∃ outline rest, words = outline.hash :: rest ∧ arena.Outlines slot outline ∧
      List.Forall₂ arena.PartHash parts rest := by
  cases hParts with
  | cons hHead hTail =>
      cases hHead with
      | child hOutline => exact ⟨_, _, rfl, hOutline, hTail⟩

theorem forall₂_words {α : Type} {word : α → UInt64} {values : List α} {parts : List HashPart}
    {words : List UInt64}
    (hParts : List.Forall₂ arena.PartHash (values.map (fun value => .word (word value)) ++ parts) words) :
    ∃ rest, words = values.map word ++ rest ∧ List.Forall₂ arena.PartHash parts rest := by
  induction values generalizing words with
  | nil => exact ⟨words, rfl, hParts⟩
  | cons value values ih =>
      obtain ⟨tail, rfl, hTail⟩ := forall₂_word_cons hParts
      obtain ⟨rest, rfl, hRest⟩ := ih hTail
      exact ⟨rest, rfl, hRest⟩

/-- The hashes of a list of types, none of which is absent. -/
theorem forall₂_ofList {ids : List NodeId} {words : List UInt64}
    (hParts : List.Forall₂ arena.PartHash (HashPart.ofList ids) words) :
    ∃ outlines, List.Forall₂ (fun id outline => arena.Outlines (some id) outline) ids outlines ∧
      words = outlines.map Outline.hash := by
  induction ids generalizing words with
  | nil =>
      cases hParts
      exact ⟨[], .nil, rfl⟩
  | cons id ids ih =>
      obtain ⟨outline, rest, rfl, hOutline, hRest⟩ := forall₂_child_cons hParts
      obtain ⟨outlines, hOutlines, rfl⟩ := ih hRest
      exact ⟨outline :: outlines, .cons hOutline hOutlines, rfl⟩

/-- All absent types have the same hash. -/
theorem Outlines.hash_of_absent {slot : Option NodeId} {outline : Outline}
    (hOutline : arena.Outlines slot outline) (hNone : arena.resolve? slot = none) :
    outline.hash = NodeHash.absent.value := by
  cases hOutline with
  | empty | dangling => rfl
  | node hNode => cases hNone.symm.trans (resolve?_of_get? hNode)

/-- A place that is not empty has a hash of its own. -/
theorem Outlines.hash?_eq_some {id : NodeId} {outline : Outline} (hOutline : arena.Outlines (some id) outline) :
    outline.hash? = some outline.hash := by
  cases hOutline <;> rfl

/-- The references of a signature are its places without those that are empty. -/
theorem forall₂_references {slots : List (Option NodeId)} {words : List UInt64}
    (hParts : List.Forall₂ arena.PartHash (HashPart.ofList (slots.filterMap id)) words) :
    ∃ outlines, List.Forall₂ arena.Outlines slots outlines ∧
      words = (outlines.map Outline.hash?).filterMap id := by
  induction slots generalizing words with
  | nil =>
      cases hParts
      exact ⟨[], .nil, rfl⟩
  | cons slot slots ih =>
      cases slot with
      | none =>
          obtain ⟨outlines, hOutlines, rfl⟩ := ih hParts
          exact ⟨.empty :: outlines, .cons .empty hOutlines, rfl⟩
      | some id =>
          obtain ⟨outline, rest, rfl, hOutline, hParts⟩ := forall₂_child_cons hParts
          obtain ⟨outlines, hOutlines, rfl⟩ := ih hParts
          refine ⟨outline :: outlines, .cons hOutline hOutlines, ?_⟩
          simp [hOutline.hash?_eq_some]

/-- What a node's hash is made of comes to the words of its label and of the outlines below it. -/
theorem words_of_hashParts {node : Node} {words : List UInt64}
    (hParts : List.Forall₂ arena.PartHash node.hashParts words) :
    ∃ outlines, List.Forall₂ arena.Outlines node.children outlines ∧
      words = node.label.words (outlines.map Outline.hash?) := by
  have hOnly {slot : Option NodeId} {words : List UInt64}
      (hChild : List.Forall₂ arena.PartHash [.child slot] words) :
      ∃ outline, List.Forall₂ arena.Outlines [slot] [outline] ∧ words = [outline.hash] := by
    obtain ⟨outline, rest, rfl, hOutline, hRest⟩ := forall₂_child_cons hChild
    cases hRest
    exact ⟨outline, .cons hOutline .nil, rfl⟩
  cases node with
  | named | primitive | genericParam =>
      obtain ⟨rest, rfl, hRest⟩ := forall₂_word_cons hParts
      cases hRest
      exact ⟨[], .nil, rfl⟩
  | sentinel =>
      cases hParts
      exact ⟨[], .nil, rfl⟩
  | functionPointer signature =>
      obtain ⟨_, rfl, hCounted⟩ := forall₂_word_cons hParts
      obtain ⟨rest, rfl, hReferences⟩ := forall₂_word_cons hCounted
      rw [signature.references_eq] at hReferences
      have hLength : (signature.children.filterMap id).length = rest.length := by
        simpa [HashPart.ofList] using hReferences.length_eq
      obtain ⟨outlines, hOutlines, rfl⟩ := forall₂_references hReferences
      refine ⟨outlines, hOutlines, ?_⟩
      rw [signature.references_eq, hLength, ← signature.convention_label]
      rfl
  | genericInst definition args =>
      obtain ⟨outline, _, rfl, hOutline, hCounted⟩ := forall₂_child_cons hParts
      obtain ⟨_, rfl, hArgs⟩ := forall₂_word_cons hCounted
      obtain ⟨outlines, hOutlines, rfl⟩ := forall₂_ofList hArgs
      refine ⟨outline :: outlines, .cons hOutline (List.forall₂_map_left_iff.mpr hOutlines), ?_⟩
      simp [Node.label, Node.Label.words, Outline.hash]
  | wrapper kind child =>
      obtain ⟨outline, hOutline, rfl⟩ := hOnly hParts
      exact ⟨[outline], hOutline, rfl⟩
  | array child shape =>
      simp only [Node.hashParts, List.cons_append, List.append_assoc] at hParts
      obtain ⟨_, rfl, hCounted⟩ := forall₂_word_cons hParts
      obtain ⟨_, rfl, hSizes⟩ := forall₂_word_cons hCounted
      obtain ⟨_, rfl, hCounted'⟩ := forall₂_words hSizes
      obtain ⟨_, rfl, hBounds⟩ := forall₂_word_cons hCounted'
      obtain ⟨_, rfl, hChild⟩ := forall₂_words hBounds
      obtain ⟨outline, hOutline, rfl⟩ := hOnly hChild
      exact ⟨[outline], hOutline, by simp [Node.label, Node.Label.words, Outline.hash]⟩
  | modified _ _ child | valueArray child _ | moduleQualified _ child =>
      obtain ⟨_, rfl, hChild⟩ := forall₂_word_cons hParts
      obtain ⟨outline, hOutline, rfl⟩ := hOnly hChild
      exact ⟨[outline], hOutline, rfl⟩

/-- Every handle in a function pointer below a slot refers to a node. -/
def PointersHeld (arena : Arena) (slot : Option NodeId) : Prop :=
  ∀ id signature, arena.Below id slot → arena.get? id = some (.functionPointer signature) →
    ∀ child, some child ∈ signature.children → arena.contains child = true

theorem Closed.pointersHeld (hClosed : arena.Closed) (slot : Option NodeId) : arena.PointersHeld slot :=
  fun id _ _ hNode => hClosed id _ hNode

/-- What holds below a slot holds below the children of its node. -/
theorem PointersHeld.child {id : NodeId} {node : Node} {child : Option NodeId}
    (hHeld : arena.PointersHeld (some id)) (hNode : arena.get? id = some node) (hMem : child ∈ node.children) :
    arena.PointersHeld child := by
  rintro other signature ⟨top, rfl, hPath⟩
  exact hHeld other signature ⟨id, rfl, .tail hPath ⟨node, hNode, hMem⟩⟩

/-- A place that is empty, or that holds a handle to a node, has the same hash in an outline and in a tree,
if it has one. -/
theorem Outlines.hash?_eq {slot : Option NodeId} {outline : Outline} {tree : Tree}
    (hOutline : arena.Outlines slot outline) (hTree : arena.Unfolds slot tree)
    (hContains : ∀ id, slot = some id → arena.contains id = true) (hHash : outline.hash = tree.hash) :
    outline.hash? = tree.hash? := by
  cases slot with
  | none =>
      cases hOutline
      rw [hTree.eq_absent rfl]
      rfl
  | some id =>
      obtain ⟨node, hNode⟩ := contains_iff.mp (hContains id rfl)
      obtain ⟨trees, rfl, -⟩ := hTree.exists_trees (resolve?_of_get? hNode)
      exact hOutline.hash?_eq_some.trans (congrArg some hHash)

/-- By induction on the outline. Where no function pointer names a handle that refers to nothing, the hash
of an outline is that of the tree. -/
theorem Outlines.hash_eq {slot : Option NodeId} {outline : Outline} {tree : Tree}
    (hOutline : arena.Outlines slot outline) (hTree : arena.Unfolds slot tree)
    (hHeld : arena.PointersHeld slot) : outline.hash = tree.hash := by
  induction hOutline using Outlines.induct generalizing tree with
  | empty => rw [hTree.eq_absent rfl]; rfl
  | dangling id hNone => rw [hTree.eq_absent (resolve?_of_get?_eq_none hNone)]; rfl
  | node id node outlines hNode hOutlines =>
      obtain ⟨trees, rfl, hTrees⟩ := hTree.exists_trees (resolve?_of_get? hNode)
      have hListed : List.Forall₂ (fun child tree => child ∈ node.children ∧ arena.Unfolds child tree)
          node.children trees := (List.forall₂_and_left _ _).mpr ⟨fun _ hMem => hMem, hTrees⟩
      have hHashes : List.Forall₂ (fun outline tree => outline.hash = tree.hash) outlines trees :=
        forall₂_of_common hOutlines hListed fun _ _ _ ⟨_, hHash⟩ ⟨hMem, hTree⟩ =>
          hHash hTree (hHeld.child hNode hMem)
      have hWords : node.label.words (outlines.map Outline.hash?) =
          node.label.words (trees.map Tree.hash?) := by
        apply Node.Label.words_congr
        · rw [List.map_map, List.map_map]
          exact map_eq_map_of_forall₂ hHashes
        · intro label hLabel
          cases node <;> cases hLabel
          case functionPointer.refl signature =>
            have hContains := hHeld id signature ⟨id, rfl, .refl⟩ hNode
            exact map_eq_map_of_forall₂ (forall₂_of_common hOutlines hListed
              fun _ _ _ ⟨hOutline, hHash⟩ ⟨hMem, hTree⟩ => hOutline.hash?_eq hTree
                (fun id hSlot => hContains id (hSlot ▸ hMem)) (hHash hTree (hHeld.child hNode hMem)))
      rw [Outline.hash_node, Tree.hash_node, hWords]

end Arena

end CliSignature
