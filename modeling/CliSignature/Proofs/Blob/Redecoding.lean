import CliSignature.Proofs.Blob.Acceptance
import CliSignature.Proofs.Blob.Alignment
import CliSignature.Proofs.Blob.BottomUp
import CliSignature.Proofs.Structural.Renaming

/-!
The same blob decoded twice. The second decoding adds its own copy of every node but the shared ones of
primitives, and the copies correspond one to one. So the two types have the same hash under any limits, and
they are found equal where there are as many levels as the decoder has, and a step for every byte.
-/

namespace CliSignature

namespace CoreTypes

variable {core : CoreTypes} {first second : Nat} {x y : NodeId}

theorem beside_iff : core.Beside first second x y ↔
    (∃ code, x = core.node code ∧ y = core.node code) ∨
      ∃ position, x = ⟨first + position⟩ ∧ y = ⟨second + position⟩ := by
  constructor
  · intro hBeside
    cases hBeside with
    | shared code => exact .inl ⟨code, rfl, rfl⟩
    | added position => exact .inr ⟨position, rfl, rfl⟩
  · rintro (⟨code, rfl, rfl⟩ | ⟨position, rfl, rfl⟩)
    · exact .shared code
    · exact .added position

theorem Beside.flip (hBeside : core.Beside first second x y) : core.Beside second first y x := by
  cases hBeside with
  | shared code => exact .shared code
  | added position => exact .added position

/-- If the shared nodes were there before, nothing that is added is taken for one of them. -/
theorem beside_rightUnique (hShared : ∀ code, (core.node code).index < first) :
    Relator.RightUnique (core.Beside first second) := by
  have hApart {code : Primitive} {position : Nat} : core.node code ≠ ⟨first + position⟩ := by
    intro hSame
    have hIndex := hShared code
    rw [hSame] at hIndex
    exact Nat.not_lt.mpr (Nat.le_add_right first position) hIndex
  intro x y y' hFirst hSecond
  rcases beside_iff.mp hFirst with ⟨code, rfl, rfl⟩ | ⟨position, rfl, rfl⟩ <;>
    rcases beside_iff.mp hSecond with ⟨code', hSame, rfl⟩ | ⟨position', hSame, rfl⟩
  · exact hSame
  · exact (hApart hSame).elim
  · exact (hApart hSame.symm).elim
  · have hPosition : first + position = first + position' := congrArg NodeId.index hSame
    rw [Nat.add_left_cancel hPosition]

theorem beside_biUnique (hShared : ∀ code, (core.node code).index < first) (hLe : first ≤ second) :
    Relator.BiUnique (core.Beside first second) :=
  ⟨fun _ _ _ hFirst hSecond =>
      beside_rightUnique (fun code => Nat.lt_of_lt_of_le (hShared code) hLe) hFirst.flip hSecond.flip,
    beside_rightUnique hShared⟩

theorem StoredIn.index_lt {arena : Arena} (hCore : core.StoredIn arena) (code : Primitive) :
    (core.node code).index < arena.size :=
  Arena.lt_size_of_get? (hCore code)

/-- What is known when there are as many nodes is below all that is added later. -/
theorem Knows.index_lt {size : Nat} {arena : Arena} (hCore : core.StoredIn arena) (hLe : arena.size ≤ size)
    (hKnown : core.Knows size (some x)) : x.index < size := by
  rcases hKnown x rfl with hLt | ⟨code, rfl⟩
  · exact hLt
  · exact Nat.lt_of_lt_of_le (hCore.index_lt code) hLe

end CoreTypes

theorem Arena.Extends.size_le {larger smaller : Arena} (hExtends : larger.Extends smaller) :
    smaller.size ≤ larger.size := by
  apply Nat.le_of_not_lt
  intro hFewer
  obtain ⟨node, hNode⟩ : ∃ node, smaller.get? ⟨larger.size⟩ = some node := exists_get?_of_lt hFewer
  exact Nat.lt_irrefl larger.size (lt_size_of_get? (hExtends _ node hNode))

/-- The nodes that were there stay. -/
theorem Reader.Grows.extends {core : CoreTypes} {spare : Nat} {before after : Reader}
    (hGrows : before.Grows core spare after) : after.arena.Extends before.arena := by
  intro id node hNode
  rw [hGrows.kept id (Arena.lt_size_of_get? hNode), hNode]

namespace Reader

variable {core : CoreTypes} {arena between : Arena} {blob : List UInt8} {after after' : Reader}

/-- The handles of the first of two decodings beside those of the second. -/
def Copies (core : CoreTypes) (arena between : Arena) (after : Reader) (x y : NodeId) : Prop :=
  core.Beside arena.size between.size x y ∧ x.index < after.arena.size

/-- The second decoding copies what the first has added. -/
theorem Aligned.renames (hCore : core.StoredIn arena) (hGrows : (Reader.start arena blob).Grows core 0 after)
    (hBetween : between.Extends after.arena) (hExtends : after'.arena.Extends after.arena)
    (hAligned : after.Aligned core arena.size between.size after') :
    after'.arena.Renames after'.arena (Copies core arena between after) where
  biUnique := by
    have hLe : arena.size ≤ between.size := Nat.le_trans hGrows.larger hBetween.size_le
    obtain ⟨hLeft, hRight⟩ := CoreTypes.beside_biUnique hCore.index_lt hLe
    exact ⟨fun _ _ _ hFirst hSecond => hLeft hFirst.1 hSecond.1,
      fun _ _ _ hFirst hSecond => hRight hFirst.1 hSecond.1⟩
  nodes := by
    rintro x y ⟨hBeside, hBound⟩
    rcases CoreTypes.beside_iff.mp hBeside with ⟨code, rfl, rfl⟩ | ⟨position, rfl, rfl⟩
    · have hPrimitive := hCore.mono (hExtends.trans hGrows.extends) code
      exact ⟨_, _, hPrimitive, hPrimitive, .primitive _ code⟩
    · obtain ⟨count, hSize, hSize'⟩ := hAligned.sizes
      have hPosition : arena.size + position < arena.size + count := Nat.lt_of_lt_of_eq hBound hSize
      obtain ⟨node, hNode⟩ : ∃ node, after.arena.get? ⟨arena.size + position⟩ = some node :=
        Arena.exists_get?_of_lt hBound
      obtain ⟨node', hNode'⟩ : ∃ node', after'.arena.get? ⟨between.size + position⟩ = some node' := by
        apply Arena.exists_get?_of_lt
        rw [hSize']
        exact Nat.add_lt_add_left (Nat.lt_of_add_lt_add_left hPosition) between.size
      refine ⟨node, node', hExtends _ _ hNode, hNode', ?_⟩
      refine (hAligned.nodes position node node' hNode hNode').imp_of_mem fun a b hMem hSame => ?_
      cases hSame with
      | none => exact .none
      | some hIds =>
          have hKnown := hGrows.added _ node (Nat.le_add_right _ position) hNode _ hMem
          have hBelow := hKnown.index_lt hCore (Nat.le_add_right _ position)
          exact .some ⟨hIds, Nat.lt_trans hBelow hBound⟩

/-- No more handles differ than bytes were consumed. -/
theorem Aligned.encard_copies_le (hGrows : (Reader.start arena blob).Grows core 0 after)
    (hAligned : after.Aligned core arena.size between.size after') :
    Set.encard { pair : NodeId × NodeId | Copies core arena between after pair.1 pair.2 ∧ pair.1 ≠ pair.2 } ≤
      after.cursor.offset := by
  obtain ⟨count, hSize, -⟩ := hAligned.sizes
  have hPaid : after.arena.size + 0 ≤ arena.size + after.cursor.offset + 0 := hGrows.paid
  let place (position : Nat) : NodeId × NodeId := (⟨arena.size + position⟩, ⟨between.size + position⟩)
  have hPlaces : { pair : NodeId × NodeId | Copies core arena between after pair.1 pair.2 ∧ pair.1 ≠ pair.2 } ⊆
      place '' (Finset.range count : Set Nat) := by
    rintro ⟨x, y⟩ ⟨⟨hBeside, hBound⟩, hDiffer⟩
    rcases CoreTypes.beside_iff.mp hBeside with ⟨code, rfl, rfl⟩ | ⟨position, rfl, rfl⟩
    · exact (hDiffer rfl).elim
    · have hPosition : arena.size + position < arena.size + count := Nat.lt_of_lt_of_eq hBound hSize
      exact ⟨position, Finset.mem_coe.mpr (Finset.mem_range.mpr (Nat.lt_of_add_lt_add_left hPosition)), rfl⟩
  calc Set.encard { pair : NodeId × NodeId | Copies core arena between after pair.1 pair.2 ∧ pair.1 ≠ pair.2 }
      ≤ (place '' (Finset.range count : Set Nat)).encard := Set.encard_le_encard hPlaces
    _ ≤ (Finset.range count : Set Nat).encard := Set.encard_image_le _ _
    _ = count := by rw [Set.encard_coe_eq_coe_finsetCard, Finset.card_range]
    _ ≤ after.cursor.offset := by exact_mod_cast (by omega : count ≤ after.cursor.offset)

end Reader

namespace Read

variable {context : ReadContext} {arena between : Arena} {blob : List UInt8} {id : NodeId} {after : Reader}

theorem grows_of_typeFrom {before : Reader} {slot : Option NodeId} (hRead : typeFrom context before = .ok slot after) :
    before.Grows context.core 0 after ∧ context.core.Knows after.arena.size slot := by
  have hGrowsTo : before.GrowsTo context.core 0 (fun slot => [slot]) (typeFrom context before) :=
    BuildsUp.typeFrom before (Nat.zero_le _)
  rw [hRead] at hGrowsTo
  cases hGrowsTo with
  | ok hGrows hKnown => exact ⟨hGrows, hKnown slot (List.mem_singleton_self slot)⟩

/-- What is read into one arena is read into every other. -/
theorem exists_aligned (hRead : typeFrom context (.start arena blob) = .ok (some id) after) (between : Arena) :
    ∃ id' after', typeFrom context (.start between blob) = .ok (some id') after' ∧
      context.core.Beside arena.size between.size id id' ∧
      after.Aligned context.core arena.size between.size after' := by
  have hAlike := Alike.typeFrom context _ _ (Reader.Aligned.start arena between blob)
  rw [hRead] at hAlike
  generalize typeFrom context (.start between blob) = second at hAlike
  cases hAlike with
  | ok hSlots hAligned =>
      cases hSlots with
      | some hBeside => exact ⟨_, _, rfl, hBeside, hAligned⟩

/-- A blob from which a type is read is read again, at any later time. The two types are found equal if the
comparison has as many levels as the decoder and a step for every byte, and under any limits they have the
same hash. -/
theorem typeFrom_again (hCore : context.core.StoredIn arena)
    (hRead : typeFrom context (.start arena blob) = .ok (some id) after)
    (hBetween : between.Extends after.arena) :
    ∃ id' after', typeFrom context (.start between blob) = .ok (some id') after' ∧
      after'.cursor = after.cursor ∧
      (∀ limits : Limits, context.limits.decodeDepth ≤ limits.formatDepth →
        after.cursor.offset ≤ limits.resolutionSteps →
          after'.arena.structurallyEqual limits (some id) (some id') = true) ∧
      ∀ limits, after'.arena.structuralHash limits (some id) = after'.arena.structuralHash limits (some id') := by
  obtain ⟨hGrows, hKnown⟩ := grows_of_typeFrom hRead
  obtain ⟨id', after', hAgain, hBeside, hAligned⟩ := exists_aligned hRead between
  have hExtends : after'.arena.Extends after.arena := (grows_of_typeFrom hAgain).1.extends.trans hBetween
  have hRenames := hAligned.renames hCore hGrows hBetween hExtends
  have hSame : Option.Rel (Reader.Copies context.core arena between after) (some id) (some id') :=
    .some ⟨hBeside, hKnown.index_lt hCore hGrows.larger⟩
  refine ⟨id', after', hAgain, hAligned.cursor.symm, fun limits hDepth hSteps => ?_,
    fun limits => hRenames.structuralHash_eq limits hSame⟩
  obtain ⟨lexemes, tree, hWord, hStores, -⟩ := (Recognizes.typeFrom context hCore).sound rfl (.refl _) hRead
  have hHeight : tree.height 1 ≤ context.limits.decodeDepth := Grammar.height_le_of_typeWithin hWord
  have hPairs := (hAligned.encard_copies_le hGrows).trans (ENat.natCast_le_natCast.mpr hSteps)
  exact hRenames.structurallyEqual hSame (hStores.mono hExtends).unfolds
    (Tree.height_le_of_height_le (Nat.zero_le 1) (hHeight.trans hDepth)) hPairs

/-- A pointer to a vector of numbers, decoded twice in a row. -/
theorem typeFrom_again_vectorPointer :
    ∃ id after id' after',
      typeFrom ⟨.standard, (CoreTypes.create ⟨0⟩ ⟨0⟩ .empty .empty).1⟩
        (.start (CoreTypes.create ⟨0⟩ ⟨0⟩ .empty .empty).2.1 [0x0F, 0x1D, 0x08]) = .ok (some id) after ∧
      typeFrom ⟨.standard, (CoreTypes.create ⟨0⟩ ⟨0⟩ .empty .empty).1⟩
        (.start after.arena [0x0F, 0x1D, 0x08]) = .ok (some id') after' ∧
      after'.arena.structurallyEqual .standard (some id) (some id') = true ∧
      ∀ limits, after'.arena.structuralHash limits (some id) = after'.arena.structuralHash limits (some id') := by
  have hCore := (CoreTypes.create_storedIn ⟨0⟩ ⟨0⟩ .empty .empty).1
  obtain ⟨id, after, hRead, hLength⟩ : ∃ id after,
      typeFrom ⟨.standard, (CoreTypes.create ⟨0⟩ ⟨0⟩ .empty .empty).1⟩
        (.start (CoreTypes.create ⟨0⟩ ⟨0⟩ .empty .empty).2.1 [0x0F, 0x1D, 0x08]) = .ok (some id) after ∧
      after.cursor.offset = 3 := ⟨_, _, rfl, rfl⟩
  obtain ⟨id', after', hAgain, -, hEqual, hHash⟩ := typeFrom_again hCore hRead (.refl after.arena)
  have hSteps : after.cursor.offset ≤ Limits.standard.resolutionSteps := by
    rw [hLength]
    decide
  exact ⟨id, after, id', after', hRead, hAgain, hEqual .standard (by decide) hSteps, hHash⟩

end Read

end CliSignature
