import CliSignature.Proofs.Blob.Codable
import CliSignature.Proofs.Blob.SignatureWriting

/-!
The writer emits the grammar. What follows the byte of a node is emitted if the types inside are, so
that by induction on the levels of nesting a readable tree is written as the shortest of its spellings.
-/

namespace CliSignature.Emission

open Grammar Lexeme

variable {arena : Arena} {limits : Limits} {type : Option NodeId → Emission} {language : ItemLanguage Tree}

theorem emits_shape {value : ArrayShape} (hFits : value.Fits)
    (hRank : value.rank.toNat ≤ limits.arrayRank) :
    (shape value).Emits fun items => Shape limits items value := by
  have hSizes : (each unsigned value.sizes).Emits fun items =>
      Sequence Grammar.unsigned items value.sizes :=
    Emits.each (List.forall₂_same.mpr fun size _ => Emits.unsigned size)
  have hBounds : (each signed value.lowerBounds).Emits fun items =>
      Sequence Grammar.signed items value.lowerBounds :=
    Emits.each (List.forall₂_same.mpr fun bound _ => Emits.signed bound)
  refine (Emits.cons (Emits.unsigned _) ((Emits.count _).cons (hSizes.andThen
    ((Emits.count _).cons hBounds)))).congr fun items => ?_
  constructor
  · rintro ⟨_, rfl, _, rfl, sizeItems, _, rfl, hSizes, boundItems, rfl, hBounds⟩
    exact .mk hRank hFits hSizes hBounds
  · rintro ⟨-, -, hSizes, hBounds⟩
    exact ⟨_, rfl, _, rfl, _, _, rfl, hSizes, _, rfl, hBounds⟩

/-- The payload of a node follows the byte of its production. -/
theorem emits_payload {node : Node} {trees : List Tree} {production : Production}
    (hProduction : node.label.production? = some production)
    (hAdmits : node.label.Admits limits trees)
    (hTrees : List.Forall₂ (Writes type language) node.children trees) :
    (payload type node).Emits fun items =>
      Payload language limits production items node.label trees := by
  cases node with
  | named kind token =>
      obtain rfl := Option.some.inj hProduction
      cases hTrees
      exact (Emits.token token).congr fun items => by simp [Node.label, payload_named_iff]
  | primitive token code => cases hProduction
  | genericParam owner number =>
      obtain rfl := Option.some.inj hProduction
      cases hTrees
      exact (Emits.unsigned number).congr fun items => by simp [Node.label, payload_genericParam_iff]
  | sentinel =>
      obtain rfl := Option.some.inj hProduction
      cases hTrees
      exact Emits.done.congr fun items => by simp [Node.label, payload_sentinel_iff]
  | functionPointer signature =>
      obtain rfl := Option.some.inj hProduction
      cases signature with
      | method m =>
          refine (emits_method hAdmits rfl hTrees).congr fun items => ⟨.functionPointer, ?_⟩
          rintro ⟨⟩
          assumption
      | _ =>
          -- only methods can stand behind a function pointer, and the grammar knows no other
          refine (Emits.fail (by simp [payload, Emission.fail])).congr
            fun items => ⟨False.elim, fun hPayload => ?_⟩
          cases hPayload with
          | functionPointer hMethod => cases hMethod.form_eq
  | genericInst definition args =>
      obtain rfl := Option.some.inj hProduction
      obtain ⟨tree, rest, hDefinition, hArgs, rfl⟩ := List.forall₂_cons_left_iff.mp hTrees
      have hLength : args.length = rest.length := by simpa using hArgs.length_eq
      refine (Emits.andThen hDefinition (emits_list hAdmits hArgs)).congr fun items => ?_
      simp [Node.label, hLength, payload_genericInst_iff]
  | wrapper kind child =>
      obtain rfl := Option.some.inj hProduction
      obtain ⟨tree, rfl, hChild⟩ := exists_eq_singleton hTrees
      exact hChild.emits.congr fun items => by simp [Node.label, payload_wrapper_iff]
  | array child value =>
      obtain rfl := Option.some.inj hProduction
      obtain ⟨tree, rfl, hChild⟩ := exists_eq_singleton hTrees
      by_cases hFits : value.Fits
      · simp only [payload, hFits, ↓reduceIte]
        exact (hChild.emits.andThen (emits_shape hFits hAdmits)).congr
          fun items => by simp [Node.label, payload_array_iff]
      · simp only [payload, hFits, ↓reduceIte]
        refine (Emits.fail (by simp [Emission.fail])).congr
          fun items => ⟨False.elim, fun hPayload => ?_⟩
        cases hPayload with
        | array _ hShape =>
            cases hShape with
            | mk _ hShapeFits => exact hFits hShapeFits
  | modified required modifier child =>
      obtain rfl := Option.some.inj hProduction
      obtain ⟨tree, rfl, hChild⟩ := exists_eq_singleton hTrees
      exact ((Emits.token modifier).andThen hChild.emits).congr
        fun items => by simp [Node.label, payload_modified_iff]
  | valueArray child size =>
      obtain rfl := Option.some.inj hProduction
      obtain ⟨tree, rfl, hChild⟩ := exists_eq_singleton hTrees
      exact (hChild.emits.andThen (Emits.unsigned size)).congr
        fun items => by simp [Node.label, payload_valueArray_iff]
  | moduleQualified index child =>
      obtain rfl := Option.some.inj hProduction
      obtain ⟨tree, rfl, hChild⟩ := exists_eq_singleton hTrees
      exact ((Emits.unsigned index).andThen hChild.emits).congr
        fun items => by simp [Node.label, payload_moduleQualified_iff]

/-- Whether a node is a primitive or one of the productions, its byte comes first. -/
theorem emits_typeBody {slot : Option NodeId} {tree : Tree}
    (hType : ∀ slot tree, arena.Unfolds slot tree → tree.Readable limits →
      Writes type language slot tree)
    (hUnfolds : arena.Unfolds slot tree) (hReadable : tree.Readable limits) :
    (typeBody type arena slot).Emits fun items => TypeBody language limits items tree := by
  cases tree with
  | absent =>
      rw [typeBody, Arena.unfolds_absent_iff.mp hUnfolds]
      refine Emits.absent.congr fun items => ⟨?_, ?_⟩
      · rintro rfl
        exact .absent
      · rintro ⟨⟩
        rfl
  | node label trees =>
      obtain ⟨id, node, hNode, rfl, hTrees⟩ := Arena.unfolds_node_iff.mp hUnfolds
      cases hReadable with
      | node hAdmits hChildren =>
          simp only [typeBody, hNode]
          have hWrites : List.Forall₂ (Writes type language) node.children trees :=
            forall₂_imp_of_mem (fun slot tree hTree hSlot => hType slot tree hSlot hTree) hChildren hTrees
          cases hProduction : node.label.production? with
          | none =>
              cases node <;> simp only [Node.label, Node.Label.production?, reduceCtorEq] at hProduction
              cases hTrees
              refine ((Emits.byte _).cons Emits.done).congr fun items => ⟨?_, ?_⟩
              · rintro ⟨_, rfl, rfl⟩
                exact .primitive _
              · rintro (_ | _ | hPayload)
                · exact ⟨[], rfl, rfl⟩
                · cases hPayload
          | some production =>
              have hByte : node.elementType = production.elementType := by
                cases node <;> cases hProduction <;> rfl
              rw [hByte]
              exact ((Emits.byte _).cons (emits_payload hProduction hAdmits hWrites)).congr
                fun items => (typeBody_node_iff hProduction).symm

/-- By induction on the levels. Both sides give up at the same depth. -/
theorem emits_typeWithin (levels : Nat) {slot : Option NodeId} {tree : Tree}
    (hUnfolds : arena.Unfolds slot tree) (hReadable : tree.Readable limits) :
    Writes (typeWithin arena limits levels) (Grammar.typeWithin limits levels) slot tree := by
  induction levels generalizing slot tree with
  | zero => exact Emits.fail (by simp [typeWithin, tooDeep])
  | succ levels ih => exact emits_typeBody (fun slot tree => ih) hUnfolds hReadable

/-- Whatever is written has a tree: a node that refers back to itself is too deep for any limit. -/
theorem exists_unfolds (levels : Nat) {slot : Option NodeId}
    (hSucceeds : (typeWithin arena limits levels slot).failure = none) :
    ∃ tree, arena.Unfolds slot tree := by
  obtain ⟨tree, hTree, -⟩ := (failure_typeWithin levels).mp hSucceeds
  exact ⟨tree, hTree⟩

/-- The types of a signature are written if the signature is. -/
theorem failure_signature {value : Signature} (hSucceeds : (signature type value).failure = none) :
    ∀ slot ∈ value.children, (type slot).failure = none := by
  cases value with
  | method m => exact (failure_method.mp hSucceeds).2
  | property m =>
      rw [signature, failure_andThen, failure_methodBody] at hSucceeds
      exact hSucceeds.2.2
  | field c slot =>
      rw [signature, failure_andThen] at hSucceeds
      simpa [Signature.children] using hSucceeds.2
  | locals c ids | methodSpec c ids =>
      rw [signature, failure_andThen, failure_list] at hSucceeds
      exact hSucceeds.2.2

theorem exists_unfoldsSignature (levels : Nat) {value : Signature}
    (hSucceeds : (signature (typeWithin arena limits levels) value).failure = none) :
    ∃ tree, arena.UnfoldsSignature value tree := by
  obtain ⟨trees, hTrees⟩ := exists_forall₂
    fun slot hMem => exists_unfolds levels (failure_signature hSucceeds slot hMem)
  exact ⟨⟨value.label, trees⟩, rfl, hTrees⟩

/-- A readable signature is written as the shortest of its spellings. -/
theorem emits_signatureWithin (levels : Nat) {value : Signature} {tree : SignatureTree}
    (hUnfolds : arena.UnfoldsSignature value tree) (hReadable : tree.Readable limits) :
    (signature (typeWithin arena limits levels) value).Emits fun items =>
      SignatureOf (Grammar.typeWithin limits levels) tree.label.form items tree :=
  emits_signature hReadable.regular hUnfolds.1
    (forall₂_imp_of_mem (fun _ _ hTree hSlot => emits_typeWithin levels hSlot hTree)
      hReadable.children hUnfolds.2)

end CliSignature.Emission
