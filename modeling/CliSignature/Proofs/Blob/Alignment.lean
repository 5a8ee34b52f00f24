import CliSignature.Proofs.Blob.Congruence

/-!
One blob read into two arenas. Both readings take the same course: they fail alike, or they add as many
nodes, which differ in nothing but handles. A handle inside refers to the shared node of a primitive in
both, or to nodes that are equally far behind the ones that were there before.
-/

namespace CliSignature

/-- Handles that two readings of one blob have for the same thing, where `first` and `second` nodes were there
before. -/
inductive CoreTypes.Beside (core : CoreTypes) (first second : Nat) : NodeId → NodeId → Prop where
  | shared (code : Primitive) : Beside core first second (core.node code) (core.node code)
  | added (position : Nat) : Beside core first second ⟨first + position⟩ ⟨second + position⟩

/-- Readers that have taken the same course since `first` and `second` nodes were there. -/
structure Reader.Aligned (core : CoreTypes) (first second : Nat) (left right : Reader) : Prop where
  cursor : left.cursor = right.cursor
  heldLevels : left.heldLevels = right.heldLevels
  sizes : ∃ count, left.arena.size = first + count ∧ right.arena.size = second + count
  nodes : ∀ position node node', left.arena.get? ⟨first + position⟩ = some node →
    right.arena.get? ⟨second + position⟩ = some node' →
      node.Corresponds (Option.Rel (core.Beside first second)) node'

namespace Reader.Aligned

variable {core : CoreTypes} {first second : Nat} {left right : Reader}

/-- At the start of a blob nothing has been added yet. -/
theorem start (A B : Arena) (blob : List UInt8) :
    (Reader.start A blob).Aligned core A.size B.size (.start B blob) where
  cursor := rfl
  heldLevels := rfl
  sizes := ⟨0, rfl, rfl⟩
  nodes position node _ hNode := by
    have hBehind : A.get? ⟨A.size + position⟩ = none := Array.getElem?_eq_none (Nat.le_add_right _ _)
    cases hBehind.symm.trans hNode

/-- Readers that both move to the same place stay aligned. -/
theorem move (hAligned : left.Aligned core first second right) (cursor : Cursor) :
    Reader.Aligned core first second { left with cursor } { right with cursor } :=
  { hAligned with cursor := rfl }

theorem hold (hAligned : left.Aligned core first second right) :
    Reader.Aligned core first second { left with heldLevels := left.heldLevels + 1 }
      { right with heldLevels := right.heldLevels + 1 } :=
  { hAligned with heldLevels := congrArg (· + 1) hAligned.heldLevels }

/-- Nodes that correspond are added at the same place. -/
theorem push (hAligned : left.Aligned core first second right) {node node' : Node}
    (hNodes : node.Corresponds (Option.Rel (core.Beside first second)) node') :
    Reader.Aligned core first second { left with arena := (left.arena.push node).2 }
        { right with arena := (right.arena.push node').2 } ∧
      core.Beside first second (left.arena.push node).1 (right.arena.push node').1 := by
  obtain ⟨count, hLeft, hRight⟩ := hAligned.sizes
  have hLast : (left.arena.push node).1 = ⟨first + count⟩ := congrArg NodeId.mk hLeft
  have hLast' : (right.arena.push node').1 = ⟨second + count⟩ := congrArg NodeId.mk hRight
  constructor
  · refine { hAligned with sizes := ⟨count + 1, ?_, ?_⟩, nodes := fun position held held' hHeld hHeld' => ?_ }
    · rw [Arena.size_push, hLeft, Nat.add_assoc]
    · rw [Arena.size_push, hRight, Nat.add_assoc]
    · rcases Nat.lt_trichotomy position count with hBefore | rfl | hBehind
      · rw [Arena.get?_push_of_lt _ (by dsimp only; omega)] at hHeld hHeld'
        exact hAligned.nodes position held held' hHeld hHeld'
      · rw [← hLast, Arena.get?_push_self] at hHeld
        rw [← hLast', Arena.get?_push_self] at hHeld'
        cases hHeld
        cases hHeld'
        exact hNodes
      · have hInside : first + position < (left.arena.push node).2.size := Arena.lt_size_of_get? hHeld
        rw [Arena.size_push] at hInside
        omega
  · rw [hLast, hLast']
    exact .added count

end Reader.Aligned

namespace Read

variable {α : Type} {core : CoreTypes} {first second : Nat}

/-- Results that are alike: values that correspond, or the same error, and readers that are aligned. -/
inductive AlikeResults (core : CoreTypes) (first second : Nat) (V : α → α → Prop) :
    EStateM.Result DecodeError Reader α → EStateM.Result DecodeError Reader α → Prop where
  | ok {value value' : α} {left right : Reader} (hValues : V value value')
      (hAligned : left.Aligned core first second right) :
      AlikeResults core first second V (.ok value left) (.ok value' right)
  | error {error : DecodeError} {left right : Reader} (hAligned : left.Aligned core first second right) :
      AlikeResults core first second V (.error error left) (.error error right)

/-- Readings that take the same course from readers that are aligned. -/
def Alike (core : CoreTypes) (first second : Nat) (V : α → α → Prop) (reading reading' : Read α) : Prop :=
  ∀ left right, left.Aligned core first second right →
    AlikeResults core first second V (reading left) (reading' right)

namespace Alike

/-- What is read at a place of the blob does not depend on the arena. -/
theorem scan (bytes : Scan α) : Alike core first second Eq (scan bytes) (scan bytes) := by
  intro left right hAligned
  simp only [Read.scan, hAligned.cursor]
  cases bytes right.cursor with
  | ok value cursor => exact .ok rfl (hAligned.move cursor)
  | error error cursor => exact .error (hAligned.move cursor)

theorem congruence : Congruence (core.Beside first second) fun {_} => Alike core first second where
  pure hValues _ _ hAligned := .ok hValues hAligned
  bind {α β V W reading reading' next next'} hFirst hNext left right hAligned := by
    have hResults := hFirst left right hAligned
    simp only [Bind.bind, EStateM.bind]
    generalize reading left = result at hResults
    generalize reading' right = result' at hResults
    cases hResults with
    | ok hValues hAfter => exact hNext _ _ hValues _ _ hAfter
    | error hAfter => exact .error hAfter
  throw _ _ _ _ hAligned := .error hAligned
  absent role left right hAligned := by
    change AlikeResults _ _ _ _ (.error (.absentElement role left.cursor.offset) left)
      (.error (.absentElement role right.cursor.offset) right)
    rw [hAligned.cursor]
    exact .error hAligned
  byte := scan _
  peek := scan _
  remaining := scan _
  add hNodes _ _ hAligned := .ok (hAligned.push hNodes).2 (hAligned.push hNodes).1

/-- By induction on the levels. -/
theorem typeWithin (context : ReadContext) (levels : Nat) :
    Alike context.core first second (Option.Rel (context.core.Beside first second))
      (typeWithin context levels) (typeWithin context levels) := by
  induction levels with
  | zero => exact fun _ _ hAligned => .error hAligned.hold
  | succ levels ih => exact congruence.typeBody ih rfl .shared (congruence.shape rfl)

/-- A type is read alike into all arenas, whatever they hold. -/
theorem typeFrom (context : ReadContext) :
    Alike context.core first second (Option.Rel (context.core.Beside first second))
      (typeFrom context) (typeFrom context) := by
  intro left right hAligned
  simp only [Read.typeFrom, hAligned.heldLevels]
  exact typeWithin context _ left right hAligned

end Alike

end Read

end CliSignature
