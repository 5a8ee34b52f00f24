import CliSignature.Blob.Writer
import CliSignature.Proofs.Blob.Compression

/-!
Writings that emit a language. Such a writing succeeds if and only if some shortest spelling is a word
of the language, and then it appends the bytes of that spelling and keeps no level. A sequence of
writings emits words that follow one another.
-/

namespace CliSignature.Emission

open Grammar Lexeme

theorem ofBytes_andThen (first second : List UInt8) :
    (ofBytes first >> ofBytes second : Emission) = ofBytes (first ++ second) := rfl

theorem done_andThen (emission : Emission) : (done >> emission : Emission) = emission := by
  change andThen done (fun _ => emission) = emission
  simp [andThen, done]

theorem andThen_done (emission : Emission) : (emission >> done : Emission) = emission := by
  change andThen emission (fun _ => done) = emission
  obtain ⟨bytes, heldLevels, failure⟩ := emission
  cases failure <;> simp [andThen, done]

theorem andThen_assoc (first second third : Emission) :
    ((first >> second) >> third : Emission) = first >> (second >> third) := by
  change andThen (andThen first fun _ => second) (fun _ => third) =
    andThen first fun _ => andThen second fun _ => third
  cases hFirst : first.failure <;> cases hSecond : second.failure <;>
    simp [andThen, hFirst, hSecond, List.append_assoc, Nat.add_assoc]

theorem failure_andThen {first second : Emission} :
    (first >> second : Emission).failure = none ↔ first.failure = none ∧ second.failure = none := by
  change (andThen first fun _ => second).failure = none ↔ _
  unfold andThen
  cases hFirst : first.failure <;> simp [hFirst]

theorem failure_each {α : Type} {write : α → Emission} {values : List α} :
    (each write values).failure = none ↔ ∀ value ∈ values, (write value).failure = none := by
  induction values with
  | nil => simp [each, done]
  | cons first others ih => simp [each, failure_andThen, ih]

/-- What a writing emits, as sequences of items. It chooses shortest spellings. -/
structure Emits (emission : Emission) (language : List Item → Prop) : Prop where
  sound : emission.failure = none → ∃ lexemes, language (items lexemes) ∧
    (∀ lexeme ∈ lexemes, lexeme.IsShortest) ∧ emission = ofBytes (spell lexemes)
  complete : ∀ lexemes, language (items lexemes) → (∀ lexeme ∈ lexemes, lexeme.IsShortest) →
    emission = ofBytes (spell lexemes)

namespace Emits

variable {emission first second : Emission} {language language' : List Item → Prop}

theorem congr (hEmits : emission.Emits language) (hIff : ∀ items, language items ↔ language' items) :
    emission.Emits language' where
  sound hSucceeds := by
    obtain ⟨lexemes, hWord, hRest⟩ := hEmits.sound hSucceeds
    exact ⟨lexemes, (hIff _).mp hWord, hRest⟩
  complete lexemes hWord := hEmits.complete lexemes ((hIff _).mpr hWord)

/-- A writing that fails emits nothing. -/
theorem fail (hFails : emission.failure ≠ none) : emission.Emits fun _ => False where
  sound hSucceeds := absurd hSucceeds hFails
  complete _ hWord := hWord.elim

theorem done : done.Emits fun items => items = [] where
  sound _ := ⟨[], rfl, by simp, rfl⟩
  complete lexemes hWord _ := by
    obtain rfl := items_eq_nil hWord
    rfl

/-- A lexeme that is written is the shortest one with its item. -/
theorem lexeme {lexeme : Lexeme} (hShortest : lexeme.IsShortest) :
    (ofBytes lexeme.bytes).Emits fun items => items = [lexeme.item] where
  sound _ := ⟨[lexeme], rfl, by simpa using hShortest, by simp⟩
  complete lexemes hWord hAll := by
    obtain ⟨other, rfl, hItem⟩ := items_eq_singleton hWord
    have hOther : other.IsShortest := hAll other (by simp)
    rw [hOther.eq hShortest hItem]
    simp

theorem byte (value : UInt8) : (ofBytes [value]).Emits fun items => items = [.byte value] :=
  @lexeme (.byte value) trivial

theorem absent : (ofBytes [0x00]).Emits fun items => items = [.absent] :=
  @lexeme (.absent 0 startsNothing_zero) rfl

/-- One writing after another. -/
theorem andThen (hFirst : first.Emits language) (hSecond : second.Emits language') :
    (first >> second : Emission).Emits fun items =>
      ∃ before after, items = before ++ after ∧ language before ∧ language' after where
  sound hSucceeds := by
    obtain ⟨hSucceeds, hSucceeds'⟩ := failure_andThen.mp hSucceeds
    obtain ⟨lexemes, hWord, hShortest, rfl⟩ := hFirst.sound hSucceeds
    obtain ⟨lexemes', hWord', hShortest', rfl⟩ := hSecond.sound hSucceeds'
    refine ⟨lexemes ++ lexemes', ⟨_, _, items_append _ _, hWord, hWord'⟩, ?_, ?_⟩
    · intro lexeme hMem
      rcases List.mem_append.mp hMem with hMem | hMem
      · exact hShortest lexeme hMem
      · exact hShortest' lexeme hMem
    · rw [spell_append, ofBytes_andThen]
  complete := by
    rintro lexemes ⟨before, after, hItems, hWord, hWord'⟩ hShortest
    obtain ⟨lexemes, lexemes', rfl, rfl, rfl⟩ := items_eq_append hItems
    rw [hFirst.complete lexemes hWord fun lexeme hMem => hShortest lexeme (by simp [hMem]),
      hSecond.complete lexemes' hWord' fun lexeme hMem => hShortest lexeme (by simp [hMem]),
      ofBytes_andThen, spell_append]

/-- One item and then the others. -/
theorem cons {item : Item} (hFirst : first.Emits fun items => items = [item])
    (hSecond : second.Emits language') :
    (first >> second : Emission).Emits fun items =>
      ∃ rest, items = item :: rest ∧ language' rest := by
  refine (hFirst.andThen hSecond).congr fun items => ?_
  constructor
  · rintro ⟨_, rest, rfl, rfl, hRest⟩
    exact ⟨rest, rfl, hRest⟩
  · rintro ⟨rest, rfl, hRest⟩
    exact ⟨[item], rest, rfl, rfl, hRest⟩

theorem each {α β : Type} {write : α → Emission} {one : ItemLanguage β} {values : List α}
    {meanings : List β}
    (hEach : List.Forall₂ (fun value meaning => (write value).Emits fun items => one items meaning)
      values meanings) :
    (each write values).Emits fun items => Sequence one items meanings := by
  induction hEach with
  | nil => exact done.congr fun items => sequence_nil_iff.symm
  | cons hHead _ ih => exact (hHead.andThen ih).congr fun items => sequence_cons_iff.symm

/-- A number that is written in the narrowest width that it fits. -/
theorem narrowest {fits : Compressed.Width → Bool} {item : Item}
    {spelling : ∀ width, fits width = true → Lexeme}
    (hItem : ∀ width hFits, (spelling width hFits).item = item)
    (hOnly : ∀ lexeme : Lexeme, lexeme.item = item → ∃ width hFits, lexeme = spelling width hFits)
    (hShortest : ∀ width hFits, (∀ other, fits other = true → width.size ≤ other.size) →
      (spelling width hFits).IsShortest)
    (hSome : ∀ width hFits, Compressed.Width.narrowest? fits = some width →
      emission = ofBytes (spelling width hFits).bytes)
    (hNone : Compressed.Width.narrowest? fits = none → emission.failure ≠ none) :
    emission.Emits fun items => items = [item] := by
  cases hWidth : Compressed.Width.narrowest? fits with
  | none =>
      refine ⟨fun hSucceeds => absurd hSucceeds (hNone hWidth), fun lexemes hWord _ => ?_⟩
      obtain ⟨lexeme, rfl, hLexeme⟩ := items_eq_singleton hWord
      obtain ⟨width, hFits, -⟩ := hOnly lexeme hLexeme
      obtain ⟨least, hLeast, -⟩ := Compressed.Width.exists_narrowest fits hFits
      simp [hWidth] at hLeast
  | some width =>
      have hFits : fits width = true := List.find?_some hWidth
      have hLe : ∀ other, fits other = true → width.size ≤ other.size := by
        intro other hOther
        obtain ⟨least, hLeast, -, hLe⟩ := Compressed.Width.exists_narrowest fits hOther
        obtain rfl : width = least := Option.some.inj (hWidth.symm.trans hLeast)
        exact hLe other hOther
      rw [hSome width hFits hWidth, ← hItem width hFits]
      exact lexeme (hShortest width hFits hLe)

theorem unsigned (value : UInt32) :
    (unsigned value).Emits fun items => Grammar.unsigned items value := by
  refine narrowest (fun _ _ => rfl) (fun _ hItem => item_eq_number hItem) (fun _ _ hLe => hLe)
    (fun width hFits hWidth => ?_) fun hWidth => ?_
  · simp [Emission.unsigned, Compressed.unsigned, hWidth, ofExcept, Lexeme.bytes]
  · simp [Emission.unsigned, Compressed.unsigned, hWidth, ofExcept, Emission.fail]

theorem signed (value : Int32) :
    (signed value).Emits fun items => Grammar.signed items value := by
  refine narrowest (fun _ _ => rfl) (fun _ hItem => item_eq_integer hItem) (fun _ _ hLe => hLe)
    (fun width hFits hWidth => ?_) fun hWidth => ?_
  · simp [Emission.signed, Compressed.signed, hWidth, ofExcept, Lexeme.bytes]
  · simp [Emission.signed, Compressed.signed, hWidth, ofExcept, Emission.fail]

theorem token (value : Token) : (token value).Emits fun items => Grammar.token items value := by
  cases hCoded : value.codedIndex? with
  | none =>
      refine (fail ?_).congr fun items => by simp [Grammar.token, hCoded]
      simp [Emission.token, Compressed.token, Compressed.codedIndex, hCoded, bind, Except.bind,
        ofExcept, Emission.fail]
  | some coded =>
      have hLt := Token.lt_of_codedIndex? hCoded
      have hValue : (UInt32.ofNat coded).toNat = coded := by
        rw [UInt32.toNat_ofNat']
        omega
      have hToken : Emission.token value = Emission.unsigned (UInt32.ofNat coded) := by
        simp [Emission.token, Compressed.token, Compressed.codedIndex, hCoded, bind, Except.bind,
          Emission.unsigned]
      rw [hToken]
      exact (unsigned _).congr fun items => by simp [Grammar.token, Grammar.unsigned, hCoded, hValue]

/-- No count that can be spelled is too large for a word. -/
theorem count (n : Nat) : (count n).Emits fun items => items = [.number n] := by
  unfold Emission.count
  split
  case isTrue hLt =>
    have hValue : (UInt32.ofNat n).toNat = n := UInt32.toNat_ofNat_of_lt' hLt
    exact (unsigned _).congr fun items => by simp [Grammar.unsigned, hValue]
  case isFalse hAbove =>
    refine ⟨fun hSucceeds => by simp [Emission.fail] at hSucceeds, fun lexemes hWord _ => ?_⟩
    obtain ⟨lexeme, rfl, hItem⟩ := items_eq_singleton hWord
    obtain ⟨width, hHolds, rfl⟩ := item_eq_number hItem
    have hLt := Compressed.Width.lt_of_holds hHolds
    exact absurd (Nat.lt_trans hLt (by decide)) hAbove

end Emits

end CliSignature.Emission
