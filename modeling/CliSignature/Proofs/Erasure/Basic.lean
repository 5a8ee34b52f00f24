import CliSignature.Proofs.Counterparts.Basic

/-!
Types without markers. Custom modifiers and pinned markers say something of the place where a type is used and
nothing of the type itself. A type is erased to another one if nothing but handles and markers tells the two
apart, however far one looks into them. Between two types that are looked at there may be any number of markers,
but not infinitely many: they would stand for no type.
-/

namespace CliSignature

/-- Whether a node only marks its child: it is a custom modifier or a pinned marker. -/
def Node.isMarker : Node → Bool
  | modified _ _ _ | wrapper .pinned _ => true
  | _ => false

theorem Node.Corresponds.refl {R : Option NodeId → Option NodeId → Prop} (hRefl : ∀ slot, R slot slot)
    (node : Node) : node.Corresponds R node :=
  .of_label rfl rfl (List.forall₂_same.mpr fun slot _ => hRefl slot)

namespace Arena

variable {arena : Arena} {a b : Option NodeId}

/-- What the slot holds behind a number of markers looks like what `b` holds, with related types below. -/
inductive LooksErased (arena : Arena) (R : Option NodeId → Option NodeId → Prop) (b : Option NodeId) :
    Option NodeId → Prop where
  | alike {a : Option NodeId} (hAlike : arena.LooksAlike arena R a b) : LooksErased arena R b a
  | marker {a : Option NodeId} {id : NodeId} {node : Node} (hNode : arena.resolve? a = some (id, node))
      (hMarker : node.isMarker = true) (hBehind : LooksErased arena R b node.child?) : LooksErased arena R b a

/-- The type in the second slot is that in the first without markers. Any of them may be left out, wherever
they stand: at the top, below wrappers, as open types or as arguments. Function pointers may keep theirs. -/
def ErasesTo (arena : Arena) (a b : Option NodeId) : Prop :=
  ∃ R, (∀ a b, R a b → arena.LooksErased R b a) ∧ R a b

theorem LooksErased.imp {R R' : Option NodeId → Option NodeId → Prop} (hImp : ∀ a b, R a b → R' a b)
    (hLooks : arena.LooksErased R b a) : arena.LooksErased R' b a := by
  induction hLooks with
  | alike hAlike =>
      cases hAlike with
      | absent hFirst hSecond => exact .alike (.absent hFirst hSecond)
      | nodes hLeft hRight hNodes =>
          exact .alike (.nodes hLeft hRight (hNodes.imp_of_mem fun a b _ => hImp a b))
  | marker hNode hMarker _ ih => exact .marker hNode hMarker ih

namespace ErasesTo

/-- Erasure is the largest relation that looks so. -/
theorem looksErased (hErases : arena.ErasesTo a b) : arena.LooksErased arena.ErasesTo b a := by
  obtain ⟨R, hR, hRelated⟩ := hErases
  exact (hR a b hRelated).imp fun _ _ hBelow => ⟨R, hR, hBelow⟩

theorem of_looksErased (hLooks : arena.LooksErased arena.ErasesTo b a) : arena.ErasesTo a b := by
  refine ⟨fun x y => arena.ErasesTo x y ∨ x = a ∧ y = b, ?_, .inr ⟨rfl, rfl⟩⟩
  rintro x y (hErases | ⟨rfl, rfl⟩)
  · exact hErases.looksErased.imp fun _ _ => .inl
  · exact hLooks.imp fun _ _ => .inl

theorem refl (slot : Option NodeId) : arena.ErasesTo slot slot := by
  refine ⟨Eq, ?_, rfl⟩
  rintro a _ rfl
  cases hNode : arena.resolve? a with
  | none => exact .alike (.absent hNode hNode)
  | some entry => exact .alike (.nodes hNode hNode (.refl (fun _ => rfl) _))

end ErasesTo

end Arena

end CliSignature
