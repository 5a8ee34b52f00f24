import CliSignature.Proofs.Blob.Grammar
import CliSignature.Proofs.Blob.Lexeme

/-!
Compressed forms as lexemes. Reading a byte, a number or a token accepts every spelling of one item
and nothing else, and writing one gives its shortest spelling.
-/

namespace CliSignature

open Grammar Lexeme

/-- A sequence of readings succeeds if each of them does. -/
theorem bind_eq_ok_iff {ε σ α β : Type} {first : EStateM ε σ α} {next : α → EStateM ε σ β}
    {before after : σ} {result : β} :
    (first >>= next) before = .ok result after ↔
      ∃ value middle, first before = .ok value middle ∧ next value middle = .ok result after := by
  simp only [bind, EStateM.bind]
  cases first before <;> simp

theorem pure_eq_ok_iff {ε σ α : Type} {value result : α} {before after : σ} :
    (pure value : EStateM ε σ α) before = .ok result after ↔ value = result ∧ before = after := by
  simp [pure, EStateM.pure]

theorem TypeTable.tag_of_ofTag? {tag : Nat} {table : TypeTable} (hTable : ofTag? tag = some table) :
    tag = table.tag := by
  unfold ofTag? at hTable
  split at hTable <;> simp at hTable <;> subst hTable <;> rfl

theorem Scan.byte_eq_ok_iff {before after : Cursor} {byte : UInt8} :
    Scan.byte before = .ok byte after ↔
      before.rest = byte :: after.rest ∧ after.offset = before.offset + 1 := by
  obtain ⟨bytes, offset⟩ := before
  obtain ⟨rest, offset'⟩ := after
  cases bytes with
  | nil => simp [Scan.byte]
  | cons first others => simp [Scan.byte, and_assoc, eq_comm]

namespace Compressed

theorem Width.holds_rotate {width : Width} {value : Int} (hHolds : width.holdsSigned value = true) :
    width.holds (width.rotate value) = true := by
  have hRange : -(width.halfSpan : Int) ≤ value ∧ value < width.halfSpan := of_decide_eq_true hHolds
  apply decide_eq_true
  unfold rotate
  cases width <;> simp only [halfSpan, span] at hRange ⊢ <;> split <;> omega

/-- Each number that a width holds stands for a signed number of that width. -/
theorem Width.rotate_unrotate {width : Width} {n : Nat} (hHolds : width.holds n = true) :
    width.holdsSigned (width.unrotate n) = true ∧ width.rotate (width.unrotate n) = n := by
  have hRange : n < width.span := of_decide_eq_true hHolds
  unfold holdsSigned unrotate rotate
  constructor
  · apply decide_eq_true
    cases width <;> simp only [halfSpan, span] at hRange ⊢ <;> split <;> omega
  · cases width <;> simp only [halfSpan, span] at hRange ⊢ <;> split <;> split <;> omega

theorem Width.toInt_ofInt {width : Width} {value : Int} (hHolds : width.holdsSigned value = true) :
    (Int32.ofInt value).toInt = value := by
  have hRange : -(width.halfSpan : Int) ≤ value ∧ value < width.halfSpan := of_decide_eq_true hHolds
  rw [Int32.toInt_ofInt_of_le] <;> cases width <;> simp only [halfSpan] at hRange <;> omega

theorem Width.lt_of_holds {width : Width} {n : Nat} (hHolds : width.holds n = true) :
    n < 0x20000000 := by
  have hRange : n < width.span := of_decide_eq_true hHolds
  cases width <;> simp only [span] at hRange <;> omega

theorem Width.toNat_ofNat {width : Width} {n : Nat} (hHolds : width.holds n = true) :
    (UInt32.ofNat n).toNat = n := by
  have hLt := lt_of_holds hHolds
  rw [UInt32.toNat_ofNat']
  omega

theorem readPacked_pack {width : Width} {n : Nat} (hHolds : width.holds n = true)
    (rest : List UInt8) (offset : Nat) :
    readPacked ⟨width.pack n ++ rest, offset⟩ = .ok (width, n) ⟨rest, offset + width.size⟩ := by
  have hRange : n < width.span := of_decide_eq_true hHolds
  cases width with
  | one =>
      have hLead : (UInt8.ofNat n).toNat = n := by
        simp only [Width.span] at hRange
        simp only [UInt8.toNat_ofNat']
        omega
      simp only [Width.span] at hRange
      simp [readPacked, Width.pack, Scan.byte, bind, EStateM.bind, hLead, hRange, pure,
        EStateM.pure, Width.size]
  | two =>
      simp only [Width.span] at hRange
      have hLead : (UInt8.ofNat (0x80 + n / 0x100)).toNat = 0x80 + n / 0x100 := by
        simp only [UInt8.toNat_ofNat']
        omega
      have hLow : (UInt8.ofNat n).toNat = n % 0x100 := by
        simp only [UInt8.toNat_ofNat']
      have hNotOne : ¬ 0x80 + n / 0x100 < 0x80 := by omega
      have hTwo : 0x80 + n / 0x100 < 0xC0 := by omega
      have hValue : (0x80 + n / 0x100 - 0x80) * 0x100 + n % 0x100 = n := by omega
      simp only [readPacked, Width.pack, List.cons_append, List.nil_append, Scan.byte, bind,
        EStateM.bind, hLead, hNotOne, hTwo, hLow, hValue, ↓reduceIte, pure, EStateM.pure, Width.size]
  | four =>
      simp only [Width.span] at hRange
      have hLead : (UInt8.ofNat (0xC0 + n / 0x1000000)).toNat = 0xC0 + n / 0x1000000 := by
        simp only [UInt8.toNat_ofNat']
        omega
      have hByte (m : Nat) : (UInt8.ofNat m).toNat = m % 0x100 := by
        simp only [UInt8.toNat_ofNat']
      have hNotOne : ¬ 0xC0 + n / 0x1000000 < 0x80 := by omega
      have hNotTwo : ¬ 0xC0 + n / 0x1000000 < 0xC0 := by omega
      have hFour : 0xC0 + n / 0x1000000 < 0xE0 := by omega
      have hValue : (0xC0 + n / 0x1000000 - 0xC0) * 0x1000000 + n / 0x10000 % 0x100 * 0x10000
          + n / 0x100 % 0x100 * 0x100 + n % 0x100 = n := by omega
      simp only [readPacked, Width.pack, List.cons_append, List.nil_append, Scan.byte, bind,
        EStateM.bind, hLead, hNotOne, hNotTwo, hFour, hByte, hValue, ↓reduceIte, pure, EStateM.pure,
        Width.size]

/-- What is read was packed in the width that is reported. -/
theorem pack_of_readPacked {before after : Cursor} {width : Width} {n : Nat}
    (hRead : readPacked before = .ok (width, n) after) :
    width.holds n = true ∧ before.rest = width.pack n ++ after.rest ∧
      after.offset = before.offset + width.size := by
  obtain ⟨lead, tail, hLead, hRead⟩ := bind_eq_ok_iff.mp hRead
  obtain ⟨hRest, hOffset⟩ := Scan.byte_eq_ok_iff.mp hLead
  have hLeadLt := lead.toNat_lt
  split at hRead
  case isTrue hOne =>
    obtain ⟨⟨rfl, rfl⟩, rfl⟩ := pure_eq_ok_iff.mp hRead
    refine ⟨decide_eq_true hOne, ?_, hOffset⟩
    simpa [Width.pack] using hRest
  case isFalse hNotOne =>
    split at hRead
    case isTrue hTwo =>
      obtain ⟨low, rest, hLow, hRead⟩ := bind_eq_ok_iff.mp hRead
      obtain ⟨hLowRest, hLowOffset⟩ := Scan.byte_eq_ok_iff.mp hLow
      obtain ⟨⟨rfl, rfl⟩, rfl⟩ := pure_eq_ok_iff.mp hRead
      have hLowLt := low.toNat_lt
      refine ⟨decide_eq_true (by simp only [Width.span]; omega), ?_, by simp only [Width.size]; omega⟩
      rw [hRest, hLowRest]
      simp only [Width.pack, List.cons_append, List.nil_append, List.cons.injEq, and_true,
        ← UInt8.toNat_inj, UInt8.toNat_ofNat']
      omega
    case isFalse hNotTwo =>
      split at hRead
      case isFalse => cases hRead
      case isTrue hFour =>
        obtain ⟨second, rest, hSecond, hRead⟩ := bind_eq_ok_iff.mp hRead
        obtain ⟨third, rest', hThird, hRead⟩ := bind_eq_ok_iff.mp hRead
        obtain ⟨low, rest'', hLow, hRead⟩ := bind_eq_ok_iff.mp hRead
        obtain ⟨hSecondRest, hSecondOffset⟩ := Scan.byte_eq_ok_iff.mp hSecond
        obtain ⟨hThirdRest, hThirdOffset⟩ := Scan.byte_eq_ok_iff.mp hThird
        obtain ⟨hLowRest, hLowOffset⟩ := Scan.byte_eq_ok_iff.mp hLow
        obtain ⟨⟨rfl, rfl⟩, rfl⟩ := pure_eq_ok_iff.mp hRead
        have hSecondLt := second.toNat_lt
        have hThirdLt := third.toNat_lt
        have hLowLt := low.toNat_lt
        refine ⟨decide_eq_true (by simp only [Width.span]; omega), ?_, by simp only [Width.size]; omega⟩
        rw [hRest, hSecondRest, hThirdRest, hLowRest]
        simp only [Width.pack, List.cons_append, List.nil_append, List.cons.injEq, and_true,
          ← UInt8.toNat_inj, UInt8.toNat_ofNat']
        omega

end Compressed

namespace Token

theorem codedIndex?_ofRow (table : TypeTable) {row : Nat} (hRow : row < rowLimit) :
    (ofRow table row).codedIndex? = some (row * 4 + table.tag) := by
  have hMod : row % rowLimit = row := Nat.mod_eq_of_lt hRow
  simp [codedIndex?, typeTable?, ofRow, hMod]

/-- A coded index names the table and the row of its token. -/
theorem ofRow_of_codedIndex? {token : Token} {coded : Nat} (hCoded : token.codedIndex? = some coded) :
    ∃ table, TypeTable.ofTag? (coded % 4) = some table ∧ coded / 4 < rowLimit ∧
      ofRow table (coded / 4) = token := by
  obtain ⟨table, hTable, rfl⟩ := Option.map_eq_some_iff.mp hCoded
  have hCode : table.code = token.table := by simpa using List.find?_some hTable
  have hTag : (token.row * 4 + table.tag) % 4 = table.tag := by
    cases table <;> simp only [TypeTable.tag] <;> omega
  have hRow : (token.row * 4 + table.tag) / 4 = token.row := by
    cases table <;> simp only [TypeTable.tag] <;> omega
  refine ⟨table, by simp [hTag], ?_, ?_⟩
  · rw [hRow]
    exact Nat.mod_lt _ (by decide)
  · rw [hRow, ofRow, hCode, ofParts_table_row]

theorem lt_of_codedIndex? {token : Token} {coded : Nat} (hCoded : token.codedIndex? = some coded) :
    coded < 0x4000000 := by
  obtain ⟨table, _, hRow, _⟩ := ofRow_of_codedIndex? hCoded
  simp only [rowLimit] at hRow
  omega

end Token

/-- A byte that starts a type, or nothing if the byte starts no type. -/
def Grammar.opening : ItemLanguage (Option UInt8) := fun items start =>
  (start = none ∧ items = [.absent]) ∨
    ∃ byte, ¬ StartsNothing byte ∧ start = some byte ∧ items = [.byte byte]

/-- What a byte in the place of a type starts. -/
def Opens (byte : UInt8) (start : Option UInt8) : Prop :=
  (StartsNothing byte ∧ start = none) ∨ (¬ StartsNothing byte ∧ start = some byte)

namespace Scan

/-- A reading that accepts what spells a sequence of items of the language, and nothing else. What it
returns agrees with what the items say. -/
structure Recognizes {α β : Type} (reading : Scan α) (language : ItemLanguage β)
    (Agrees : α → β → Prop) : Prop where
  sound : ∀ {before after : Cursor} {value : α}, reading before = .ok value after →
    ∃ lexemes meaning, language (items lexemes) meaning ∧ Agrees value meaning ∧
      before.rest = spell lexemes ++ after.rest ∧
      after.offset = before.offset + (spell lexemes).length
  complete : ∀ {lexemes : List Lexeme} {meaning : β}, language (items lexemes) meaning →
    ∀ rest offset, ∃ value, Agrees value meaning ∧
      reading ⟨spell lexemes ++ rest, offset⟩ = .ok value ⟨rest, offset + (spell lexemes).length⟩

theorem recognizes_byte :
    Recognizes byte (fun items value => items = [.byte value]) (· = ·) where
  sound := by
    intro before after value hRead
    obtain ⟨hRest, hOffset⟩ := byte_eq_ok_iff.mp hRead
    exact ⟨[.byte value], value, rfl, rfl, hRest, hOffset⟩
  complete := by
    intro lexemes value hItems rest offset
    obtain ⟨lexeme, rfl, hItem⟩ := items_eq_singleton hItems
    obtain rfl := item_eq_byte hItem
    exact ⟨value, rfl, rfl⟩

/-- In the place of a type, a byte that starts nothing spells an absent type. -/
theorem recognizes_opening : Recognizes byte opening Opens where
  sound := by
    intro before after value hRead
    obtain ⟨hRest, hOffset⟩ := byte_eq_ok_iff.mp hRead
    by_cases hNothing : StartsNothing value
    · exact ⟨[.absent value hNothing], none, .inl ⟨rfl, rfl⟩, .inl ⟨hNothing, rfl⟩, hRest, hOffset⟩
    · exact ⟨[.byte value], some value, .inr ⟨value, hNothing, rfl, rfl⟩, .inr ⟨hNothing, rfl⟩, hRest,
        hOffset⟩
  complete := by
    rintro lexemes meaning (⟨rfl, hItems⟩ | ⟨value, hSomething, rfl, hItems⟩) rest offset
    · obtain ⟨lexeme, rfl, hItem⟩ := items_eq_singleton hItems
      obtain ⟨value, hNothing, rfl⟩ := item_eq_absent hItem
      exact ⟨value, .inl ⟨hNothing, rfl⟩, rfl⟩
    · obtain ⟨lexeme, rfl, hItem⟩ := items_eq_singleton hItems
      obtain rfl := item_eq_byte hItem
      exact ⟨value, .inr ⟨hSomething, rfl⟩, rfl⟩

end Scan

namespace Compressed

theorem recognizes_unsigned : Scan.Recognizes readUnsigned Grammar.unsigned (· = ·) where
  sound := by
    intro before after value hRead
    obtain ⟨⟨width, n⟩, middle, hPacked, hRead⟩ := bind_eq_ok_iff.mp hRead
    obtain ⟨rfl, rfl⟩ := pure_eq_ok_iff.mp hRead
    obtain ⟨hHolds, hRest, hOffset⟩ := pack_of_readPacked hPacked
    have hValue := Width.toNat_ofNat hHolds
    exact ⟨[.number width n hHolds], _, by simp [Grammar.unsigned, item, hValue], rfl,
      by simpa [bytes] using hRest, by simpa [bytes] using hOffset⟩
  complete := by
    intro lexemes value hItems rest offset
    obtain ⟨lexeme, rfl, hItem⟩ := items_eq_singleton hItems
    obtain ⟨width, hHolds, rfl⟩ := item_eq_number hItem
    have hPacked := readPacked_pack hHolds rest offset
    refine ⟨value, rfl, bind_eq_ok_iff.mpr ⟨_, _, by simpa [bytes] using hPacked, ?_⟩⟩
    simp [pure, EStateM.pure, bytes]

theorem recognizes_signed : Scan.Recognizes readSigned Grammar.signed (· = ·) where
  sound := by
    intro before after value hRead
    obtain ⟨⟨width, n⟩, middle, hPacked, hRead⟩ := bind_eq_ok_iff.mp hRead
    obtain ⟨rfl, rfl⟩ := pure_eq_ok_iff.mp hRead
    obtain ⟨hHolds, hRest, hOffset⟩ := pack_of_readPacked hPacked
    obtain ⟨hSigned, hRotate⟩ := Width.rotate_unrotate hHolds
    have hValue : (Int32.ofInt (width.unrotate n)).toInt = width.unrotate n :=
      Width.toInt_ofInt hSigned
    exact ⟨[.integer width (width.unrotate n) hSigned], _, by simp [Grammar.signed, item, hValue], rfl,
      by simpa [bytes, hRotate] using hRest, by simpa [bytes] using hOffset⟩
  complete := by
    intro lexemes value hItems rest offset
    obtain ⟨lexeme, rfl, hItem⟩ := items_eq_singleton hItems
    obtain ⟨width, hHolds, rfl⟩ := item_eq_integer hItem
    have hPacked := readPacked_pack (Width.holds_rotate hHolds) rest offset
    refine ⟨value, rfl, bind_eq_ok_iff.mpr ⟨_, _, by simpa [bytes] using hPacked, ?_⟩⟩
    simp [pure, EStateM.pure, bytes, Width.unrotate_rotate hHolds]

theorem recognizes_token : Scan.Recognizes readToken Grammar.token (· = ·) where
  sound := by
    intro before after value hRead
    obtain ⟨⟨width, n⟩, middle, hPacked, hRead⟩ := bind_eq_ok_iff.mp hRead
    obtain ⟨hHolds, hRest, hOffset⟩ := pack_of_readPacked hPacked
    cases hTable : TypeTable.ofTag? (n % 4) with
    | none =>
        simp only [hTable] at hRead
        cases hRead
    | some table =>
        simp only [hTable] at hRead
        split at hRead
        case isFalse => cases hRead
        case isTrue hRow =>
          obtain ⟨rfl, rfl⟩ := pure_eq_ok_iff.mp hRead
          have hTag : n % 4 = table.tag := TypeTable.tag_of_ofTag? hTable
          have hCoded : (Token.ofRow table (n / 4)).codedIndex? = some n := by
            rw [Token.codedIndex?_ofRow table hRow]
            congr 1
            omega
          exact ⟨[.number width n hHolds], _, ⟨n, hCoded, rfl⟩, rfl, by simpa [bytes] using hRest,
            by simpa [bytes] using hOffset⟩
  complete := by
    rintro lexemes value ⟨coded, hCoded, hItems⟩ rest offset
    obtain ⟨lexeme, rfl, hItem⟩ := items_eq_singleton hItems
    obtain ⟨width, hHolds, rfl⟩ := item_eq_number hItem
    obtain ⟨table, hTable, hRow, rfl⟩ := Token.ofRow_of_codedIndex? hCoded
    have hPacked := readPacked_pack hHolds rest offset
    refine ⟨_, rfl, bind_eq_ok_iff.mpr ⟨_, _, by simpa [bytes] using hPacked, ?_⟩⟩
    simp [hTable, hRow, pure, EStateM.pure, bytes]

end Compressed

end CliSignature
