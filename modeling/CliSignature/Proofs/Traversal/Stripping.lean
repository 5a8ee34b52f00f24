import CliSignature.Proofs.Traversal.Chain

/-!
What is left of a slot without the markers in front of it. Modifiers are passed as long as there are any. No
modifier is passed twice before a type is found, so the bound on visits never stands in the way. What is found
lies on the chain of child links and so has the same terminal.
-/

namespace CliSignature

namespace Links

variable {next : NodeId → Option NodeId} {id last : NodeId} {passed : List NodeId}

/-- What the links pass on the way from the first handle to the last, at which they end. -/
inductive Passes (next : NodeId → Option NodeId) : NodeId → List NodeId → NodeId → Prop where
  | here {id : NodeId} (hEnd : next id = none) : Passes next id [] id
  | link {id other last : NodeId} {passed : List NodeId} (hNext : next id = some other)
      (hRest : Passes next other passed last) : Passes next id (id :: passed) last

theorem Lead.exists_passes (hLead : Lead next id last) (hEnd : next last = none) :
    ∃ passed, Passes next id passed last := by
  induction hLead using Relation.ReflTransGen.head_induction_on with
  | refl => exact ⟨[], .here hEnd⟩
  | head hNext _ ih =>
      obtain ⟨passed, hRest⟩ := ih
      exact ⟨_, .link hNext hRest⟩

/-- Links that end do not come back to where they were. -/
theorem Lead.not_cycle (hLead : Lead next id last) (hEnd : next last = none) :
    ¬ Relation.TransGen (fun id other => next id = some other) id id := by
  induction hLead using Relation.ReflTransGen.head_induction_on with
  | refl =>
      intro hCycle
      obtain ⟨other, hNext, -⟩ := Relation.TransGen.head'_iff.mp hCycle
      cases hEnd.symm.trans hNext
  | head hNext _ ih =>
      intro hCycle
      obtain ⟨other, hOther, hBack⟩ := Relation.TransGen.head'_iff.mp hCycle
      obtain rfl := Option.some.inj (hOther.symm.trans hNext)
      exact ih (.tail' hBack hNext)

namespace Passes

theorem lead (hPasses : Passes next id passed last) : Lead next id last ∧ next last = none := by
  induction hPasses with
  | here hEnd => exact ⟨.refl, hEnd⟩
  | link hNext _ ih => exact ⟨.head hNext ih.1, ih.2⟩

/-- From each handle that is passed another link leads on, and each was led to. -/
theorem of_mem (hPasses : Passes next id passed last) {here : NodeId} (hMem : here ∈ passed) :
    Lead next id here ∧ ∃ there, next here = some there := by
  induction hPasses with
  | here => cases hMem
  | link hNext _ ih =>
      rcases List.mem_cons.mp hMem with rfl | hMem
      · exact ⟨.refl, _, hNext⟩
      · exact ⟨.head hNext (ih hMem).1, (ih hMem).2⟩

theorem nodup (hPasses : Passes next id passed last) : passed.Nodup := by
  induction hPasses with
  | here => exact .nil
  | link hNext hRest ih =>
      refine List.nodup_cons.mpr ⟨fun hMem => ?_, ih⟩
      exact Lead.not_cycle (.head hNext hRest.lead.1) hRest.lead.2 (.head' hNext (hRest.of_mem hMem).1)

end Passes

end Links

namespace Arena

open Links (Lead NeverEnd Passes)

variable {arena : Arena} {slot : Option NodeId} {id other last : NodeId}

/-- The link from a custom modifier to the type it modifies. -/
def modifierLink? (arena : Arena) (id : NodeId) : Option NodeId :=
  if arena.isModifier id then arena.child? id else none

theorem modifierLink?_eq_some_iff :
    arena.modifierLink? id = some other ↔ arena.isModifier id = true ∧ arena.child? id = some other := by
  simp [modifierLink?]

theorem modifierLink?_of_not_isModifier (hPlain : arena.isModifier id = false) : arena.modifierLink? id = none := by
  rw [modifierLink?, hPlain]
  rfl

theorem lead_of_modifiers (hLead : Lead arena.modifierLink? id other) : Lead arena.child? id other :=
  Relation.ReflTransGen.mono (fun _ _ hLink => (modifierLink?_eq_some_iff.mp hLink).2) _ _ hLead

/-! ### Modifiers -/

@[simp] theorem unmodifiedWithin_none (arena : Arena) (visits : Nat) : arena.unmodifiedWithin visits none = none := by
  cases visits <;> rfl

theorem unmodifiedWithin_succ (arena : Arena) (visits : Nat) (id : NodeId) :
    arena.unmodifiedWithin (visits + 1) (some id) =
      if arena.isModifier id then arena.unmodifiedWithin visits (arena.child? id) else some id := rfl

/-- By induction on what is passed. The last modifier has no child, and what is no modifier is found. -/
theorem unmodifiedWithin_of_passes {passed : List NodeId} (hPasses : Passes arena.modifierLink? id passed last)
    {visits : Nat} (hVisits : passed.length < visits) :
    arena.unmodifiedWithin visits (some id) = if arena.isModifier last then none else some last := by
  induction hPasses generalizing visits with
  | here hEnd =>
      obtain ⟨others, rfl⟩ := Nat.exists_eq_succ_of_ne_zero (Nat.ne_zero_of_lt hVisits)
      rw [unmodifiedWithin_succ]
      split
      case isTrue hModifier =>
        rw [modifierLink?, if_pos hModifier] at hEnd
        rw [hEnd, unmodifiedWithin_none]
      case isFalse => rfl
  | link hNext _ ih =>
      obtain ⟨others, rfl⟩ := Nat.exists_eq_succ_of_ne_zero (Nat.ne_zero_of_lt hVisits)
      obtain ⟨hModifier, hChild⟩ := modifierLink?_eq_some_iff.mp hNext
      rw [unmodifiedWithin_succ, if_pos hModifier, hChild, ih (Nat.lt_of_succ_lt_succ hVisits)]

theorem unmodifiedWithin_of_neverEnd (hNever : NeverEnd arena.modifierLink? id) (visits : Nat) :
    arena.unmodifiedWithin visits (some id) = none := by
  induction visits generalizing id with
  | zero => rfl
  | succ visits ih =>
      obtain ⟨other, hNext, hRest⟩ := hNever.exists_next
      obtain ⟨hModifier, hChild⟩ := modifierLink?_eq_some_iff.mp hNext
      rw [unmodifiedWithin_succ, if_pos hModifier, hChild, ih hRest]

theorem contains_of_isModifier (hModifier : arena.isModifier id = true) : arena.contains id = true := by
  cases hNode : arena.get? id with
  | none => simp [isModifier, tag?, hNode] at hModifier
  | some node => exact contains_iff.mpr ⟨node, hNode⟩

/-- However many modifiers there are, what they end at is found. -/
theorem withoutModifiers_of_lead (hLead : Lead arena.modifierLink? id last) (hEnd : arena.modifierLink? last = none) :
    arena.withoutModifiers (some id) = if arena.isModifier last then none else some last := by
  obtain ⟨passed, hPasses⟩ := hLead.exists_passes hEnd
  refine unmodifiedWithin_of_passes hPasses (Nat.lt_succ_of_le ?_)
  refine length_le_size_of_nodup hPasses.nodup fun here hMem => ?_
  obtain ⟨there, hNext⟩ := (hPasses.of_mem hMem).2
  exact contains_of_isModifier (modifierLink?_eq_some_iff.mp hNext).1

/-- What is no modifier is left as it is. -/
theorem withoutModifiers_of_not_isModifier (hPlain : arena.isModifier id = false) :
    arena.withoutModifiers (some id) = some id := by
  rw [withoutModifiers_of_lead .refl (modifierLink?_of_not_isModifier hPlain), hPlain]
  rfl

/-- What is found is the first handle behind the modifiers. -/
theorem withoutModifiers_eq_some_iff :
    arena.withoutModifiers slot = some other ↔
      ∃ id, slot = some id ∧ Lead arena.modifierLink? id other ∧ arena.isModifier other = false := by
  constructor
  · intro hFound
    obtain ⟨id, rfl⟩ : ∃ id, slot = some id := by
      cases slot with
      | none => simp [withoutModifiers] at hFound
      | some id => exact ⟨id, rfl⟩
    have hEnds : ¬ NeverEnd arena.modifierLink? id := fun hNever => by
      cases (unmodifiedWithin_of_neverEnd hNever _).symm.trans hFound
    obtain ⟨last, hLead, hEnd⟩ := Links.exists_end_of_not_neverEnd hEnds
    rw [withoutModifiers_of_lead hLead hEnd] at hFound
    split at hFound
    case isTrue => cases hFound
    case isFalse hPlain =>
      cases hFound
      exact ⟨id, rfl, hLead, Bool.eq_false_iff.mpr hPlain⟩
  · rintro ⟨id, rfl, hLead, hPlain⟩
    rw [withoutModifiers_of_lead hLead (modifierLink?_of_not_isModifier hPlain), hPlain]
    rfl

/-- Nothing is found exactly if there is nothing to begin with, if the modifiers end without a child, or if
they never end. -/
theorem withoutModifiers_eq_none_iff :
    arena.withoutModifiers slot = none ↔
      slot = none ∨ ∃ id, slot = some id ∧
        ((∃ last, Lead arena.modifierLink? id last ∧ arena.isModifier last = true ∧ arena.child? last = none) ∨
          NeverEnd arena.modifierLink? id) := by
  cases slot with
  | none => simp [withoutModifiers]
  | some id =>
      simp only [reduceCtorEq, Option.some.injEq, exists_eq_left', false_or]
      constructor
      · intro hNone
        by_cases hNever : NeverEnd arena.modifierLink? id
        · exact .inr hNever
        · obtain ⟨last, hLead, hEnd⟩ := Links.exists_end_of_not_neverEnd hNever
          rw [withoutModifiers_of_lead hLead hEnd] at hNone
          split at hNone
          case isTrue hModifier =>
            rw [modifierLink?, if_pos hModifier] at hEnd
            exact .inl ⟨last, hLead, hModifier, hEnd⟩
          case isFalse => cases hNone
      · rintro (⟨last, hLead, hModifier, hChild⟩ | hNever)
        · have hEnd : arena.modifierLink? last = none := by rw [modifierLink?, if_pos hModifier, hChild]
          rw [withoutModifiers_of_lead hLead hEnd, if_pos hModifier]
        · exact unmodifiedWithin_of_neverEnd hNever _

theorem isModifier_of_withoutModifiers (hFound : arena.withoutModifiers slot = some other) :
    arena.isModifier other = false := by
  obtain ⟨-, -, -, hPlain⟩ := withoutModifiers_eq_some_iff.mp hFound
  exact hPlain

theorem withoutModifiers_idempotent (arena : Arena) (slot : Option NodeId) :
    arena.withoutModifiers (arena.withoutModifiers slot) = arena.withoutModifiers slot := by
  cases hFound : arena.withoutModifiers slot with
  | none => exact unmodifiedWithin_none arena _
  | some other => exact withoutModifiers_of_not_isModifier (isModifier_of_withoutModifiers hFound)

/-! ### Pinned markers -/

/-- To go behind modifiers, a marker and modifiers is to go behind each in turn. -/
theorem withoutPinnedAndModifiers_eq (arena : Arena) (slot : Option NodeId) :
    arena.withoutPinnedAndModifiers slot =
      arena.withoutModifiers (arena.withoutPinned (arena.withoutModifiers slot)) := by
  rw [withoutPinnedAndModifiers]
  cases hFound : arena.withoutModifiers slot with
  | none => exact (unmodifiedWithin_none arena _).symm
  | some other =>
      rw [Option.bind_some, withoutPinned, Option.bind_some]
      split
      case isTrue => rfl
      case isFalse => exact (withoutModifiers_of_not_isModifier (isModifier_of_withoutModifiers hFound)).symm

/-! ### The terminal stays -/

theorem lead_of_withoutModifiers (hFound : arena.withoutModifiers (some id) = some other) :
    Lead arena.child? id other := by
  obtain ⟨_, ⟨⟩, hLead, -⟩ := withoutModifiers_eq_some_iff.mp hFound
  exact lead_of_modifiers hLead

theorem lead_of_withoutPinned (hFound : arena.withoutPinned (some id) = some other) : Lead arena.child? id other := by
  rw [withoutPinned, Option.bind_some] at hFound
  split at hFound
  case isTrue => exact .single hFound
  case isFalse =>
    cases hFound
    exact .refl

theorem lead_of_withoutPinnedAndModifiers (hFound : arena.withoutPinnedAndModifiers (some id) = some other) :
    Lead arena.child? id other := by
  rw [withoutPinnedAndModifiers_eq] at hFound
  obtain ⟨second, hSecond, -⟩ := withoutModifiers_eq_some_iff.mp hFound
  obtain ⟨first, hFirst, -⟩ := Option.bind_eq_some_iff.mp hSecond
  rw [hSecond] at hFound
  rw [hFirst] at hSecond
  exact ((lead_of_withoutModifiers hFirst).trans (lead_of_withoutPinned hSecond)).trans
    (lead_of_withoutModifiers hFound)

/-- Going behind modifiers gives the first handle on the way that is no modifier, which may refer to nothing;
there is none exactly if the slot is empty, or the modifiers end without a child or never. Doing it again
changes nothing. To go behind pinned markers as well is to go behind modifiers, a marker and modifiers in
turn. The terminal at the end of the child links stays the same. -/
theorem stripping_laws (arena : Arena) (slot : Option NodeId) :
    (∀ other, arena.withoutModifiers slot = some other ↔
      ∃ id, slot = some id ∧ Lead arena.modifierLink? id other ∧ arena.isModifier other = false) ∧
    (arena.withoutModifiers slot = none ↔
      slot = none ∨ ∃ id, slot = some id ∧
        ((∃ last, Lead arena.modifierLink? id last ∧ arena.isModifier last = true ∧ arena.child? last = none) ∨
          NeverEnd arena.modifierLink? id)) ∧
    arena.withoutModifiers (arena.withoutModifiers slot) = arena.withoutModifiers slot ∧
    arena.withoutPinnedAndModifiers slot =
      arena.withoutModifiers (arena.withoutPinned (arena.withoutModifiers slot)) ∧
    ∀ id other, slot = some id →
      arena.withoutModifiers slot = some other ∨ arena.withoutPinnedAndModifiers slot = some other →
      arena.leaf? other = arena.leaf? id := by
  refine ⟨fun _ => withoutModifiers_eq_some_iff, withoutModifiers_eq_none_iff,
    withoutModifiers_idempotent arena slot, withoutPinnedAndModifiers_eq arena slot, ?_⟩
  rintro id other rfl (hFound | hFound)
  · exact (leaf?_of_lead (lead_of_withoutModifiers hFound)).symm
  · exact (leaf?_of_lead (lead_of_withoutPinnedAndModifiers hFound)).symm

end Arena

end CliSignature
