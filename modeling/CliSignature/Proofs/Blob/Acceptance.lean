import CliSignature.Proofs.Blob.Nesting
import CliSignature.Proofs.Blob.TypeReading

/-!
What the reader accepts. A type is read from the start of a blob if and only if the grammar derives it from
the bytes that are consumed and it does not nest too deep. The number in front of a list is compared with
the bytes that remain, which turns no derivable blob away: each element takes at least one byte.
-/

namespace CliSignature

open Grammar Lexeme

/-- The bytes spell a type with the given tree. -/
def Grammar.Derives (limits : Limits) (bytes : List UInt8) (tree : Tree) : Prop :=
  ∃ lexemes, spell lexemes = bytes ∧ typeUnbounded limits (items lexemes) tree

namespace Read

variable {limits : Limits} {core : CoreTypes} {arena : Arena}

/-- A type is read from the first `n` bytes of a blob exactly if the grammar derives its tree from these
bytes and the tree is no higher than there are levels. An absent type takes a level. -/
theorem typeFrom_eq_ok_iff_derives (hCore : core.StoredIn arena) (blob : List UInt8) (n : Nat)
    (tree : Tree) :
    (∃ slot after, typeFrom ⟨limits, core⟩ (.start arena blob) = .ok slot after ∧
        after.cursor.offset = n ∧ after.arena.Unfolds slot tree) ↔
      n ≤ blob.length ∧ Derives limits (blob.take n) tree ∧ tree.height 1 ≤ limits.decodeDepth := by
  have hReading : Recognizes 0 arena (typeFrom ⟨limits, core⟩)
      (Grammar.typeWithin limits limits.decodeDepth) Arena.Stores :=
    Recognizes.typeFrom ⟨limits, core⟩ hCore
  constructor
  · rintro ⟨slot, after, hRead, rfl, hTree⟩
    obtain ⟨lexemes, said, hWord, hStores, hMove⟩ := hReading.sound rfl (.refl _) hRead
    obtain rfl := hTree.unique hStores.unfolds
    obtain ⟨hDerived, hHeight⟩ := typeWithin_iff.mp hWord
    obtain ⟨hBlob, hOffset⟩ := hMove.of_start
    refine ⟨?_, ⟨lexemes, ?_, hDerived⟩, hHeight⟩
    · rw [hBlob, hOffset, List.length_append]
      exact Nat.le_add_right _ _
    · rw [hBlob, hOffset, List.take_left]
  · rintro ⟨hLength, ⟨lexemes, hSpell, hDerived⟩, hHeight⟩
    have hWord : Grammar.typeWithin limits limits.decodeDepth (items lexemes) tree :=
      typeWithin_iff.mpr ⟨hDerived, hHeight⟩
    have hBlob : (Reader.start arena blob).cursor.rest = spell lexemes ++ blob.drop n := by
      rw [hSpell, List.take_append_drop]
      rfl
    obtain ⟨slot, after, hRead, hStores, hMove, -⟩ := hReading.complete rfl (.refl _) hWord hBlob
    refine ⟨slot, after, hRead, ?_, hStores.unfolds⟩
    rw [hMove.of_start.2, hSpell, List.length_take, Nat.min_eq_left hLength]

/-- A pointer to a number takes the first two bytes of three. -/
theorem typeFrom_eq_ok_iff_derives_pointer :
    Derives .standard [0x0F, 0x08] (.node (.wrapper .pointer) [.node (.primitive .int32) []]) := by
  have hCore := (CoreTypes.create_storedIn ⟨0⟩ ⟨0⟩ .empty .empty).1
  have hRead : ∃ slot after,
      typeFrom ⟨.standard, (CoreTypes.create ⟨0⟩ ⟨0⟩ .empty .empty).1⟩
        (.start (CoreTypes.create ⟨0⟩ ⟨0⟩ .empty .empty).2.1 [0x0F, 0x08, 0x08]) = .ok slot after ∧
      after.cursor.offset = 2 ∧
      after.arena.Unfolds slot (.node (.wrapper .pointer) [.node (.primitive .int32) []]) := by
    refine ⟨_, _, rfl, rfl, Arena.unfolds_node_iff.mpr ⟨_, .wrapper .pointer _, rfl, rfl, .cons ?_ .nil⟩⟩
    exact Arena.unfolds_node_iff.mpr ⟨_, .primitive _ .int32, rfl, rfl, .nil⟩
  exact ((typeFrom_eq_ok_iff_derives hCore _ _ _).mp hRead).2.1

end Read

end CliSignature
