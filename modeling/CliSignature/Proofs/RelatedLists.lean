import Mathlib.Data.List.Forall2

/-!
Lists whose elements are related one by one, and what passes from each pair to the lists and back.
-/

namespace CliSignature

/-- Partners for all elements of a list, if there is one for each. -/
theorem exists_forall₂ {α β : Type} {R : α → β → Prop} {xs : List α} (hEach : ∀ x ∈ xs, ∃ y, R x y) :
    ∃ ys, List.Forall₂ R xs ys := by
  induction xs with
  | nil => exact ⟨[], .nil⟩
  | cons x xs ih =>
      obtain ⟨y, hHead⟩ := hEach x (by simp)
      obtain ⟨ys, hTail⟩ := ih fun x hMem => hEach x (List.mem_cons_of_mem _ hMem)
      exact ⟨y :: ys, .cons hHead hTail⟩

/-- What holds of every element of a list holds where the element stands. -/
theorem forall₂_imp_of_mem {α β : Type} {R S : α → β → Prop} {xs : List α} {ys : List β}
    {p : β → Prop} (hImp : ∀ x y, p y → R x y → S x y) (hEvery : ∀ y ∈ ys, p y)
    (hRelated : List.Forall₂ R xs ys) : List.Forall₂ S xs ys := by
  induction hRelated with
  | nil => exact .nil
  | cons hHead _ ih =>
      obtain ⟨hFirst, hRest⟩ := List.forall_mem_cons.mp hEvery
      exact .cons (hImp _ _ hFirst hHead) (ih hRest)

/-- What follows for the second of two related elements holds all over the second list. -/
theorem forall_of_forall₂ {α β : Type} {R : α → β → Prop} {xs : List α} {ys : List β} {p : β → Prop}
    (hRelated : List.Forall₂ R xs ys) (hImp : ∀ x ∈ xs, ∀ y, R x y → p y) : ∀ y ∈ ys, p y := by
  induction hRelated with
  | nil => simp
  | cons hHead _ ih =>
      refine List.forall_mem_cons.mpr ⟨hImp _ (List.mem_cons_self ..) _ hHead, ih fun x hMem => ?_⟩
      exact hImp x (List.mem_cons_of_mem _ hMem)

/-- Two lists are related one by one if both are to a third one. -/
theorem forall₂_of_common {α β γ : Type} {R : α → β → Prop} {S : α → γ → Prop} {T : β → γ → Prop}
    {xs : List α} {ys : List β} {zs : List γ} (hFirst : List.Forall₂ R xs ys)
    (hSecond : List.Forall₂ S xs zs) (hBoth : ∀ x y z, R x y → S x z → T y z) :
    List.Forall₂ T ys zs := by
  induction hFirst generalizing zs with
  | nil =>
      cases hSecond
      exact .nil
  | cons hHead _ ih =>
      cases hSecond with
      | cons hOther hOthers => exact .cons (hBoth _ _ _ hHead hOther) (ih hOthers)

/-- Every element of the first of two related lists has a partner in the second. -/
theorem exists_of_forall₂ {α β : Type} {R : α → β → Prop} {xs : List α} {ys : List β}
    (hRelated : List.Forall₂ R xs ys) {x : α} (hMem : x ∈ xs) : ∃ y ∈ ys, R x y := by
  induction hRelated with
  | nil => cases hMem
  | cons hHead _ ih =>
      rcases List.mem_cons.mp hMem with rfl | hMem
      · exact ⟨_, List.mem_cons_self .., hHead⟩
      · obtain ⟨y, hTail, hRelated⟩ := ih hMem
        exact ⟨y, List.mem_cons_of_mem _ hTail, hRelated⟩

/-- What is made of related elements is the same, if it is for each two of them. -/
theorem map_eq_map_of_forall₂ {α β γ : Type} {f : α → γ} {g : β → γ} {xs : List α} {ys : List β}
    (hRelated : List.Forall₂ (fun x y => f x = g y) xs ys) : xs.map f = ys.map g := by
  induction hRelated with
  | nil => rfl
  | cons hHead _ ih => rw [List.map_cons, List.map_cons, hHead, ih]

end CliSignature
