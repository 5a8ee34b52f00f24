import CliSignature.Blob.Compressed
import CliSignature.Node

/-!
Lexemes. A blob is a sequence of items, each spelled in one of several ways: a number may take more
bytes than it needs, and any byte that starts nothing spells an absent type. Each item that can be
spelled has one shortest spelling.
-/

namespace CliSignature

/-- What a blob consists of, with no regard to how it is spelled. -/
inductive Item where
  /-- The byte of an element type or a calling convention. -/
  | byte (value : UInt8)
  /-- The place of an absent type. -/
  | absent
  /-- A compressed unsigned number. Tokens are such numbers too. -/
  | number (value : Nat)
  /-- A compressed signed number. -/
  | integer (value : Int)

/-- A byte in the place of a type that starts no type. -/
def StartsNothing (byte : UInt8) : Prop :=
  Primitive.ofElementType? byte = none ∧ Production.ofElementType? byte = none

/-- An item as it is spelled. -/
inductive Lexeme where
  | byte (value : UInt8)
  | absent (value : UInt8) (hNothing : StartsNothing value)
  | number (width : Compressed.Width) (value : Nat) (hHolds : width.holds value = true)
  | integer (width : Compressed.Width) (value : Int) (hHolds : width.holdsSigned value = true)

namespace Compressed.Width

theorem size_injective {first second : Width} (hSize : first.size = second.size) : first = second := by
  cases first <;> cases second <;> first | rfl | simp [size] at hSize

/-- What some width fits, a narrowest one fits, and `narrowest?` finds it. -/
theorem exists_narrowest (fits : Width → Bool) {width : Width} (hFits : fits width = true) :
    ∃ least, narrowest? fits = some least ∧ fits least = true ∧
      ∀ other, fits other = true → least.size ≤ other.size := by
  have hAll (other : Width) : other ∈ [one, two, four] := by cases other <;> simp
  obtain ⟨least, hLeast⟩ := Option.isSome_iff_exists.mp
    (List.find?_isSome.mpr ⟨width, hAll width, hFits⟩)
  refine ⟨least, hLeast, List.find?_some hLeast, fun other hOther => ?_⟩
  simp only [List.find?_cons, List.find?_nil] at hLeast
  cases hOne : fits one <;> cases hTwo : fits two <;> cases hFour : fits four <;>
    cases other <;> simp_all [size] <;> subst hLeast <;> simp

end Compressed.Width

namespace Lexeme

def item : Lexeme → Item
  | byte value => .byte value
  | absent _ _ => .absent
  | number _ value _ => .number value
  | integer _ value _ => .integer value

def bytes : Lexeme → List UInt8
  | byte value => [value]
  | absent value _ => [value]
  | number width value _ => width.pack value
  | integer width value _ => width.pack (width.rotate value)

theorem item_eq_byte {lexeme : Lexeme} {value : UInt8} (hItem : lexeme.item = .byte value) :
    lexeme = .byte value := by
  cases lexeme <;> simp_all [item]

theorem item_eq_absent {lexeme : Lexeme} (hItem : lexeme.item = .absent) :
    ∃ value hNothing, lexeme = .absent value hNothing := by
  cases lexeme <;> simp_all [item]

theorem item_eq_number {lexeme : Lexeme} {value : Nat} (hItem : lexeme.item = .number value) :
    ∃ width hHolds, lexeme = .number width value hHolds := by
  cases lexeme <;> simp only [item, reduceCtorEq, Item.number.injEq] at hItem
  subst hItem
  exact ⟨_, _, rfl⟩

theorem item_eq_integer {lexeme : Lexeme} {value : Int} (hItem : lexeme.item = .integer value) :
    ∃ width hHolds, lexeme = .integer width value hHolds := by
  cases lexeme <;> simp only [item, reduceCtorEq, Item.integer.injEq] at hItem
  subst hItem
  exact ⟨_, _, rfl⟩

/-- A number takes as few bytes as any width that holds it, and an absent type is a zero byte. -/
def IsShortest : Lexeme → Prop
  | byte _ => True
  | absent value _ => value = 0
  | number width value _ => ∀ other : Compressed.Width, other.holds value = true → width.size ≤ other.size
  | integer width value _ =>
    ∀ other : Compressed.Width, other.holdsSigned value = true → width.size ≤ other.size

theorem startsNothing_zero : StartsNothing 0 := ⟨by decide, by decide⟩

theorem length_bytes_pos (lexeme : Lexeme) : 0 < lexeme.bytes.length := by
  cases lexeme with
  | byte | absent => simp [bytes]
  | number width | integer width => cases width <;> simp [bytes, Compressed.Width.size]

/-- An item has one shortest spelling. -/
theorem IsShortest.eq {first second : Lexeme} (hFirst : first.IsShortest)
    (hSecond : second.IsShortest) (hItem : first.item = second.item) : first = second := by
  cases first <;> cases second <;> simp only [item, reduceCtorEq, Item.byte.injEq,
    Item.number.injEq, Item.integer.injEq] at hItem
  case byte => rw [hItem]
  case absent => simp_all [IsShortest]
  case number width value hHolds other _ hOther =>
    subst hItem
    obtain rfl := Compressed.Width.size_injective
      (Nat.le_antisymm (hFirst other hOther) (hSecond width hHolds))
    rfl
  case integer width value hHolds other _ hOther =>
    subst hItem
    obtain rfl := Compressed.Width.size_injective
      (Nat.le_antisymm (hFirst other hOther) (hSecond width hHolds))
    rfl

/-- Whatever is spelled has a shortest spelling. -/
theorem exists_shortest (lexeme : Lexeme) :
    ∃ short : Lexeme, short.item = lexeme.item ∧ short.IsShortest ∧
      short.bytes.length ≤ lexeme.bytes.length := by
  cases lexeme with
  | byte value => exact ⟨.byte value, rfl, trivial, Nat.le_refl _⟩
  | absent => exact ⟨.absent 0 startsNothing_zero, rfl, rfl, Nat.le_refl _⟩
  | number width value hHolds =>
      obtain ⟨least, _, hLeast, hLe⟩ := Compressed.Width.exists_narrowest
        (fun width => width.holds value) hHolds
      exact ⟨.number least value hLeast, rfl, hLe, by simpa [bytes] using hLe width hHolds⟩
  | integer width value hHolds =>
      obtain ⟨least, _, hLeast, hLe⟩ := Compressed.Width.exists_narrowest
        (fun width => width.holdsSigned value) hHolds
      exact ⟨.integer least value hLeast, rfl, hLe, by simpa [bytes] using hLe width hHolds⟩

/-- A spelling with the bytes of the shortest one is the shortest one. -/
theorem isShortest_of_bytes_eq {lexeme short : Lexeme} (hShort : short.IsShortest)
    (hItem : short.item = lexeme.item) (hBytes : short.bytes = lexeme.bytes) :
    lexeme.IsShortest := by
  have hLength := congrArg List.length hBytes
  cases lexeme <;> cases short <;> simp only [item, reduceCtorEq, Item.byte.injEq,
    Item.number.injEq, Item.integer.injEq] at hItem
  case byte => trivial
  case absent value _ other _ =>
    have hZero : other = 0 := hShort
    simpa [bytes, hZero, IsShortest, eq_comm] using hBytes
  case number width value _ other _ _ =>
    subst hItem
    obtain rfl : other = width := Compressed.Width.size_injective (by simpa [bytes] using hLength)
    exact hShort
  case integer width value _ other _ _ =>
    subst hItem
    obtain rfl : other = width := Compressed.Width.size_injective (by simpa [bytes] using hLength)
    exact hShort

/-- The bytes of a sequence of lexemes. -/
def spell (lexemes : List Lexeme) : List UInt8 :=
  lexemes.flatMap bytes

/-- The items of a sequence of lexemes. -/
def items (lexemes : List Lexeme) : List Item :=
  lexemes.map item

@[simp] theorem spell_nil : spell [] = [] := rfl

@[simp] theorem spell_cons (lexeme : Lexeme) (rest : List Lexeme) :
    spell (lexeme :: rest) = lexeme.bytes ++ spell rest := rfl

@[simp] theorem spell_append (first second : List Lexeme) :
    spell (first ++ second) = spell first ++ spell second := by
  simp [spell]

@[simp] theorem items_nil : items [] = [] := rfl

@[simp] theorem items_cons (lexeme : Lexeme) (rest : List Lexeme) :
    items (lexeme :: rest) = lexeme.item :: items rest := rfl

@[simp] theorem items_append (first second : List Lexeme) :
    items (first ++ second) = items first ++ items second := by
  simp [items]

theorem items_eq_append {lexemes : List Lexeme} {first second : List Item}
    (hItems : items lexemes = first ++ second) :
    ∃ before after, lexemes = before ++ after ∧ items before = first ∧ items after = second := by
  simpa [items] using List.map_eq_append_iff.mp hItems

theorem items_eq_cons {lexemes : List Lexeme} {first : Item} {rest : List Item}
    (hItems : items lexemes = first :: rest) :
    ∃ lexeme after, lexemes = lexeme :: after ∧ lexeme.item = first ∧ items after = rest := by
  simpa [items] using List.map_eq_cons_iff.mp hItems

theorem items_eq_nil {lexemes : List Lexeme} (hItems : items lexemes = []) : lexemes = [] :=
  List.map_eq_nil_iff.mp hItems

theorem items_eq_singleton {lexemes : List Lexeme} {only : Item} (hItems : items lexemes = [only]) :
    ∃ lexeme : Lexeme, lexemes = [lexeme] ∧ lexeme.item = only := by
  obtain ⟨lexeme, after, rfl, hItem, hAfter⟩ := items_eq_cons hItems
  exact ⟨lexeme, by rw [items_eq_nil hAfter], hItem⟩

/-- Each item takes at least one byte. -/
theorem length_items_le (lexemes : List Lexeme) : (items lexemes).length ≤ (spell lexemes).length := by
  induction lexemes with
  | nil => simp
  | cons lexeme rest ih =>
      have hPos := lexeme.length_bytes_pos
      simp only [items_cons, List.length_cons, spell_cons, List.length_append]
      omega

/-- What is spelled in any way can be spelled with shortest lexemes, in no more bytes. The bytes are
the same only if each lexeme was shortest before. -/
theorem exists_shortest_spelling (lexemes : List Lexeme) :
    ∃ short, items short = items lexemes ∧ (∀ lexeme ∈ short, lexeme.IsShortest) ∧
      (spell short).length ≤ (spell lexemes).length ∧
      (spell short = spell lexemes ↔ ∀ lexeme ∈ lexemes, lexeme.IsShortest) := by
  induction lexemes with
  | nil => exact ⟨[], rfl, by simp, Nat.le_refl _, by simp⟩
  | cons lexeme rest ih =>
      obtain ⟨head, hItem, hHead, hHeadLe⟩ := lexeme.exists_shortest
      obtain ⟨tail, hItems, hTail, hTailLe, hIff⟩ := ih
      refine ⟨head :: tail, by simp [hItem, hItems], by simpa using ⟨hHead, hTail⟩, ?_, ?_⟩
      · simp only [spell_cons, List.length_append]
        omega
      · simp only [spell_cons, List.forall_mem_cons]
        constructor
        · intro hSpell
          have hLength := congrArg List.length hSpell
          simp only [List.length_append] at hLength
          obtain ⟨hBytes, hRest⟩ := List.append_inj hSpell (by omega)
          exact ⟨isShortest_of_bytes_eq hHead hItem hBytes, hIff.mp hRest⟩
        · rintro ⟨hLexeme, hRest⟩
          rw [hHead.eq hLexeme hItem, hIff.mpr hRest]

end Lexeme

end CliSignature
