import CliSignature.Proofs.Blob.Emission

/-!
The compressed codec on its own. A value that fits is written in the fewest bytes that can be read back as it,
and the bytes tell where they end. A value that does not fit is refused and leaves no trace.
-/

namespace CliSignature.Compressed

open Grammar Lexeme

/-- What has a compressed form. -/
inductive Kind where
  | unsigned
  | signed
  | token
deriving DecidableEq, Repr

inductive Value where
  | unsigned (value : UInt32)
  | signed (value : Int32)
  | token (value : Token)
deriving DecidableEq, Repr

namespace Value

def kind : Value → Kind
  | unsigned _ => .unsigned
  | signed _ => .signed
  | token _ => .token

/-- Whether the value has a compressed form. -/
def Fits : Value → Prop
  | unsigned value => value.toNat ≤ 0x1FFFFFFF
  | signed value => -0x10000000 ≤ value.toInt ∧ value.toInt ≤ 0x0FFFFFFF
  | token value => value.table = 0x01 ∨ value.table = 0x02 ∨ value.table = 0x1B

instance : DecidablePred Fits
  | unsigned _ => inferInstanceAs (Decidable (_ ≤ _))
  | signed _ => inferInstanceAs (Decidable (_ ∧ _))
  | token _ => inferInstanceAs (Decidable (_ ∨ _ ∨ _))

/-- Why a value is refused. -/
def refusal : Value → EncodeError
  | unsigned value => .unsignedRange value
  | signed value => .signedRange value
  | token value => .notCodable value

def emission : Value → Emission
  | unsigned value => .unsigned value
  | signed value => .signed value
  | token value => .token value

/-- Writes a value. -/
def write (value : Value) (writer : Writer) : Except EncodeError Unit × Writer :=
  writer.append value.emission

/-- Writes values one after the other, also after one was refused. -/
def writeEach : List Value → Writer → List (Except EncodeError Unit) × Writer
  | [], writer => ([], writer)
  | value :: others, writer =>
    let (outcome, after) := value.write writer
    let (outcomes, last) := writeEach others after
    (outcome :: outcomes, last)

/-- What the items of a blob say if they say the value. -/
def Said : Value → List Item → Prop
  | unsigned value, items => Grammar.unsigned items value
  | signed value, items => Grammar.signed items value
  | token value, items => Grammar.token items value

end Value

namespace Kind

/-- Reads a value. -/
def read : Kind → Scan Value
  | unsigned => do
    let value ← readUnsigned
    pure (.unsigned value)
  | signed => do
    let value ← readSigned
    pure (.signed value)
  | token => do
    let value ← readToken
    pure (.token value)

/-- Reads values one after the other. -/
def readEach : List Kind → Scan (List Value)
  | [] => pure []
  | kind :: others => do
    let value ← kind.read
    let values ← readEach others
    pure (value :: values)

end Kind

/-- A reading that wraps what another returns recognizes the same items. -/
theorem recognizes_build {α : Type} {reading : Scan α} {language : ItemLanguage α}
    (hReading : reading.Recognizes language (· = ·)) {build : α → Value} {languageWhole : ItemLanguage Value}
    (hWhole : ∀ items whole, languageWhole items whole ↔ ∃ value, build value = whole ∧ language items value) :
    Scan.Recognizes (do let value ← reading; pure (build value)) languageWhole (· = ·) where
  sound := by
    intro before after whole hRead
    obtain ⟨value, _, hPart, hPure⟩ := bind_eq_ok_iff.mp hRead
    obtain ⟨rfl, rfl⟩ := pure_eq_ok_iff.mp hPure
    obtain ⟨lexemes, _, hSaid, rfl, hMove⟩ := hReading.sound hPart
    exact ⟨lexemes, _, (hWhole _ _).mpr ⟨value, rfl, hSaid⟩, rfl, hMove⟩
  complete := by
    intro lexemes whole hSaid tail offset
    obtain ⟨value, rfl, hPart⟩ := (hWhole _ _).mp hSaid
    obtain ⟨_, rfl, hRead⟩ := hReading.complete hPart tail offset
    exact ⟨_, rfl, bind_eq_ok_iff.mpr ⟨_, _, hRead, rfl⟩⟩

/-- A reading takes a spelling of what it returns, and any spelling there is. -/
theorem Kind.recognizes (kind : Kind) :
    kind.read.Recognizes (fun items value => value.kind = kind ∧ value.Said items) (· = ·) := by
  cases kind with
  | unsigned =>
      refine recognizes_build recognizes_unsigned fun items whole => ?_
      cases whole <;> simp [Value.kind, Value.Said]
  | signed =>
      refine recognizes_build recognizes_signed fun items whole => ?_
      cases whole <;> simp [Value.kind, Value.Said]
  | token =>
      refine recognizes_build recognizes_token fun items whole => ?_
      cases whole <;> simp [Value.kind, Value.Said]

theorem Width.fits_of_narrowest? {fits : Width → Bool} {width : Width} (hWidth : narrowest? fits = some width) :
    fits width = true :=
  List.find?_some hWidth

/-- Spellings of a number in the same number of bytes are the same. -/
theorem bytes_eq_of_length_eq {first second : Lexeme} (hItem : first.item = second.item)
    (hSaid : first.item ≠ .absent) (hLength : first.bytes.length = second.bytes.length) :
    first.bytes = second.bytes := by
  cases first <;> cases second <;> simp only [item, reduceCtorEq, Item.byte.injEq, Item.number.injEq,
    Item.integer.injEq] at hItem
  case byte => rw [hItem]
  case absent => exact absurd rfl hSaid
  case number width value _ other _ _ =>
    subst hItem
    obtain rfl : width = other := Width.size_injective (by simpa [bytes] using hLength)
    rfl
  case integer width value _ other _ _ =>
    subst hItem
    obtain rfl : width = other := Width.size_injective (by simpa [bytes] using hLength)
    rfl

namespace Value

variable {value : Value}

theorem emits (value : Value) : value.emission.Emits value.Said := by
  cases value with
  | unsigned value => exact .unsigned value
  | signed value => exact .signed value
  | token value => exact .token value

/-- A value is said by one item, always the same. -/
theorem exists_item (value : Value) :
    ∃ only : Item, only ≠ .absent ∧ ∀ items, value.Said items → items = [only] := by
  cases value with
  | unsigned value => exact ⟨.number value.toNat, nofun, fun _ hSaid => hSaid⟩
  | signed value => exact ⟨.integer value.toInt, nofun, fun _ hSaid => hSaid⟩
  | token value =>
      refine ⟨.number (value.codedIndex?.getD 0), nofun, fun items hSaid => ?_⟩
      obtain ⟨coded, hCoded, rfl⟩ := hSaid
      rw [hCoded, Option.getD_some]

theorem spell_eq_of_length_eq {first second : List Lexeme} (hFirst : value.Said (items first))
    (hSecond : value.Said (items second)) (hLength : (spell first).length = (spell second).length) :
    spell first = spell second := by
  obtain ⟨only, hNotAbsent, hOnly⟩ := value.exists_item
  obtain ⟨lexeme, rfl, rfl⟩ := items_eq_singleton (hOnly _ hFirst)
  obtain ⟨lexeme', rfl, hItem⟩ := items_eq_singleton (hOnly _ hSecond)
  simp only [spell_cons, spell_nil, List.append_nil] at hLength ⊢
  exact bytes_eq_of_length_eq hItem.symm hNotAbsent hLength

theorem table_of_codedIndex? {token : Token} {coded : Nat} (hCoded : token.codedIndex? = some coded) :
    token.table = 0x01 ∨ token.table = 0x02 ∨ token.table = 0x1B := by
  obtain ⟨table, -, -, rfl⟩ := Token.ofRow_of_codedIndex? hCoded
  rw [Token.ofRow, Token.table_ofParts]
  cases table <;> decide

/-- Only values that fit are spelled. -/
theorem fits_of_said {lexemes : List Lexeme} (hSaid : value.Said (items lexemes)) : value.Fits := by
  cases value with
  | unsigned value =>
      obtain ⟨lexeme, -, hItem⟩ := items_eq_singleton hSaid
      obtain ⟨width, hHolds, -⟩ := item_eq_number hItem
      exact Nat.le_of_lt_succ (Width.lt_of_holds hHolds)
  | signed value =>
      obtain ⟨lexeme, -, hItem⟩ := items_eq_singleton hSaid
      obtain ⟨width, hHolds, -⟩ := item_eq_integer hItem
      have hRange : -(width.halfSpan : Int) ≤ value.toInt ∧ value.toInt < width.halfSpan :=
        of_decide_eq_true hHolds
      change -0x10000000 ≤ value.toInt ∧ value.toInt ≤ 0x0FFFFFFF
      cases width <;> simp only [Width.halfSpan] at hRange <;> omega
  | token value =>
      obtain ⟨coded, hCoded, -⟩ := hSaid
      exact table_of_codedIndex? hCoded

/-- What fits can be spelled, in four bytes if not in fewer. -/
theorem exists_said (hFits : value.Fits) : ∃ lexemes, value.Said (items lexemes) := by
  cases value with
  | unsigned value =>
      have hFits : value.toNat ≤ 0x1FFFFFFF := hFits
      exact ⟨[.number .four value.toNat (decide_eq_true (Nat.lt_succ_of_le hFits))], rfl⟩
  | signed value =>
      have hFits : -0x10000000 ≤ value.toInt ∧ value.toInt ≤ 0x0FFFFFFF := hFits
      have hHolds : Width.four.holdsSigned value.toInt = true :=
        decide_eq_true (by simp only [Width.halfSpan]; omega)
      exact ⟨[.integer .four value.toInt hHolds], rfl⟩
  | token value =>
      have hFits : value.table = 0x01 ∨ value.table = 0x02 ∨ value.table = 0x1B := hFits
      obtain ⟨coded, hCoded⟩ : ∃ coded, value.codedIndex? = some coded := by
        rcases hFits with hTable | hTable | hTable <;>
          exact ⟨_, by rw [Token.codedIndex?, Token.typeTable?, hTable]; rfl⟩
      have hHolds : Width.four.holds coded = true :=
        decide_eq_true (Nat.lt_trans (Token.lt_of_codedIndex? hCoded) (by decide))
      exact ⟨[.number .four coded hHolds], coded, hCoded, rfl⟩

/-- A value that fits is written in its shortest spelling. -/
theorem exists_emission (hFits : value.Fits) :
    ∃ lexemes, value.Said (items lexemes) ∧ (∀ lexeme ∈ lexemes, lexeme.IsShortest) ∧
      value.emission = .ofBytes (spell lexemes) := by
  obtain ⟨lexemes, hSaid⟩ := exists_said hFits
  obtain ⟨short, hItems, hShort, -, -⟩ := exists_shortest_spelling lexemes
  rw [← hItems] at hSaid
  exact ⟨short, hSaid, hShort, value.emits.complete short hSaid hShort⟩

theorem emission_of_not_fits (hFits : ¬ value.Fits) : value.emission = .fail value.refusal := by
  cases value with
  | unsigned value =>
      cases hWidth : Width.narrowest? fun width => width.holds value.toNat with
      | none => simp only [emission, Emission.unsigned, Compressed.unsigned, hWidth, Emission.ofExcept, refusal]
      | some width =>
          exact absurd (Nat.le_of_lt_succ (Width.lt_of_holds (Width.fits_of_narrowest? hWidth))) hFits
  | signed value =>
      cases hWidth : Width.narrowest? fun width => width.holdsSigned value.toInt with
      | none => simp only [emission, Emission.signed, Compressed.signed, hWidth, Emission.ofExcept, refusal]
      | some width =>
          have hSaid : (Value.signed value).Said
              (items [.integer width value.toInt (Width.fits_of_narrowest? hWidth)]) := rfl
          exact absurd (fits_of_said hSaid) hFits
  | token value =>
      cases hCoded : value.codedIndex? with
      | none =>
          simp only [emission, Emission.token, Compressed.token, codedIndex, hCoded, bind, Except.bind,
            Emission.ofExcept, refusal]
      | some coded => exact absurd (table_of_codedIndex? hCoded) hFits

/-- The bytes of a value. A value that is refused has none. -/
def bytes (value : Value) : List UInt8 :=
  value.emission.bytes

theorem write_of_fits (hFits : value.Fits) (writer : Writer) :
    value.write writer = (.ok (), { writer with bytes := writer.bytes ++ value.bytes }) := by
  obtain ⟨lexemes, -, -, hEmission⟩ := exists_emission hFits
  simp [write, Writer.append, bytes, hEmission, Emission.ofBytes]

theorem bytes_of_not_fits (hFits : ¬ value.Fits) : value.bytes = [] := by
  rw [bytes, emission_of_not_fits hFits]
  rfl

theorem write_of_not_fits (hFits : ¬ value.Fits) (writer : Writer) :
    value.write writer = (.error value.refusal, writer) := by
  simp [write, Writer.append, emission_of_not_fits hFits, Emission.fail]

/-- What is spelled in any way is read back, whatever stands behind it. -/
theorem read_of_said {lexemes : List Lexeme} (hSaid : value.Said (items lexemes)) (tail : List UInt8)
    (offset : Nat) :
    value.kind.read ⟨spell lexemes ++ tail, offset⟩ = .ok value ⟨tail, offset + (spell lexemes).length⟩ := by
  obtain ⟨_, rfl, hRead⟩ := value.kind.recognizes.complete ⟨rfl, hSaid⟩ tail offset
  exact hRead

theorem read_bytes (hFits : value.Fits) (tail : List UInt8) (offset : Nat) :
    value.kind.read ⟨value.bytes ++ tail, offset⟩ = .ok value ⟨tail, offset + value.bytes.length⟩ := by
  obtain ⟨lexemes, hSaid, -, hEmission⟩ := exists_emission hFits
  rw [bytes, hEmission]
  exact read_of_said hSaid tail offset

/-- By induction on the values. -/
theorem writeEach_eq (values : List Value) (writer : Writer) :
    writeEach values writer =
      (values.map fun value => if value.Fits then .ok () else .error value.refusal,
        { writer with bytes := writer.bytes ++ values.flatMap bytes }) := by
  induction values generalizing writer with
  | nil => simp [writeEach]
  | cons value values ih =>
      by_cases hFits : value.Fits
      · simp [writeEach, write_of_fits hFits, ih, hFits]
      · simp [writeEach, write_of_not_fits hFits, ih, hFits, bytes_of_not_fits hFits]

/-- By induction on the values. Each reading stops where the bytes of its value end. -/
theorem readEach_bytes (values : List Value) (tail : List UInt8) (offset : Nat) :
    Kind.readEach ((values.filter (·.Fits)).map kind) ⟨values.flatMap bytes ++ tail, offset⟩ =
      .ok (values.filter (·.Fits)) ⟨tail, offset + (values.flatMap bytes).length⟩ := by
  induction values generalizing offset with
  | nil => rfl
  | cons value values ih =>
      by_cases hFits : value.Fits
      · have hKeep : (value :: values).filter (·.Fits) = value :: values.filter (·.Fits) :=
          List.filter_cons_of_pos (by simpa using hFits)
        rw [hKeep, List.map_cons, List.flatMap_cons, List.append_assoc, List.length_append, ← Nat.add_assoc]
        refine bind_eq_ok_iff.mpr ⟨value, _, read_bytes hFits _ offset, ?_⟩
        exact bind_eq_ok_iff.mpr ⟨_, _, ih _, rfl⟩
      · have hSkip : (value :: values).filter (·.Fits) = values.filter (·.Fits) :=
          List.filter_cons_of_neg (by simpa using hFits)
        rw [hSkip, List.flatMap_cons, bytes_of_not_fits hFits, List.nil_append]
        exact ih offset

end Value

/-- No spelling of a value takes fewer bytes than writing it does, and no other one takes as many. -/
theorem Value.bytes_shortest {value : Value} {lexemes : List Lexeme} (hSaid : value.Said (items lexemes)) :
    value.bytes.length ≤ (spell lexemes).length ∧
      (value.bytes.length = (spell lexemes).length → value.bytes = spell lexemes) := by
  obtain ⟨short, hItems, hShort, hLe, -⟩ := exists_shortest_spelling lexemes
  have hSaidShort : value.Said (items short) := hItems ▸ hSaid
  have hBytes : value.bytes = spell short := by
    rw [Value.bytes, value.emits.complete short hSaidShort hShort]
    rfl
  rw [hBytes]
  exact ⟨hLe, Value.spell_eq_of_length_eq hSaidShort hSaid⟩

/-- The compressed codec is exact. A value is refused if and only if it does not fit, and then what was written
stays as it was. Values that are written one after the other, each that fits and none that does not, are read
back as they are, up to the end of what was written and whatever stands behind it. And any value that is read, from
a spelling of any width, is written in no more bytes, and in as many only if they are the same. -/
theorem compressed_codec_exact :
    (∀ value : Value,
      (value.Fits → ∃ output, ∀ writer,
        value.write writer = (.ok (), { writer with bytes := writer.bytes ++ output })) ∧
      (¬ value.Fits → ∀ writer, value.write writer = (.error value.refusal, writer))) ∧
    (∀ values : List Value,
      (Value.writeEach values .start).1 =
        (values.map fun value => if value.Fits then .ok () else .error value.refusal) ∧
      ∀ tail, Kind.readEach ((values.filter (·.Fits)).map Value.kind)
          (.start ((Value.writeEach values .start).2.bytes ++ tail)) =
        .ok (values.filter (·.Fits)) ⟨tail, (Value.writeEach values .start).2.bytes.length⟩) ∧
    ∀ (kind : Kind) (before after : Cursor) (value : Value), kind.read before = .ok value after →
      value.kind = kind ∧ ∃ used output, before.rest = used ++ after.rest ∧
        after.offset = before.offset + used.length ∧
        (∀ writer, value.write writer = (.ok (), { writer with bytes := writer.bytes ++ output })) ∧
        output.length ≤ used.length ∧ (output.length = used.length → output = used) := by
  refine ⟨fun value => ⟨fun hFits => ⟨value.bytes, Value.write_of_fits hFits⟩, Value.write_of_not_fits⟩,
    fun values => ?_, fun kind before after value hRead => ?_⟩
  · rw [Value.writeEach_eq]
    refine ⟨rfl, fun tail => ?_⟩
    have hRead := Value.readEach_bytes values tail 0
    rw [Nat.zero_add] at hRead
    exact hRead
  · obtain ⟨lexemes, _, ⟨hKind, hSaid⟩, rfl, hRest, hOffset⟩ := kind.recognizes.sound hRead
    obtain ⟨hLe, hOnly⟩ := Value.bytes_shortest hSaid
    exact ⟨hKind, spell lexemes, value.bytes, hRest, hOffset,
      Value.write_of_fits (Value.fits_of_said hSaid), hLe, hOnly⟩

end CliSignature.Compressed
