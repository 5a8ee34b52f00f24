import CliSignature.Blob.Reader
import CliSignature.Proofs.Blob.Compression

/-!
Readings that recognize a language. Such a reading accepts what spells a word of the language and
nothing else, moves by exactly the bytes of the word and only ever adds nodes. A sequence of readings
recognizes words that follow one another, where each reading may rely on the nodes that the ones
before it have added.
-/

namespace CliSignature

open Grammar Lexeme

/-- The way of a reader over some lexemes. -/
structure Reader.Advances (before : Reader) (lexemes : List Lexeme) (after : Reader) : Prop where
  rest : before.cursor.rest = spell lexemes ++ after.cursor.rest
  offset : after.cursor.offset = before.cursor.offset + (spell lexemes).length
  held : after.heldLevels = before.heldLevels
  arena : after.arena.Extends before.arena

theorem Reader.Advances.refl (reader : Reader) : reader.Advances [] reader :=
  ⟨rfl, rfl, rfl, .refl _⟩

theorem Reader.Advances.trans {before middle after : Reader} {first second : List Lexeme}
    (hFirst : before.Advances first middle) (hSecond : middle.Advances second after) :
    before.Advances (first ++ second) after where
  rest := by rw [hFirst.rest, hSecond.rest, spell_append, List.append_assoc]
  offset := by rw [hSecond.offset, hFirst.offset, spell_append, List.length_append, Nat.add_assoc]
  held := hSecond.held.trans hFirst.held
  arena := hSecond.arena.trans hFirst.arena

/-- A way from the start of a blob consumes what it spells. -/
theorem Reader.Advances.of_start {arena : Arena} {blob : List UInt8} {lexemes : List Lexeme}
    {after : Reader} (hMove : (Reader.start arena blob).Advances lexemes after) :
    blob = spell lexemes ++ after.cursor.rest ∧ after.cursor.offset = (spell lexemes).length :=
  ⟨hMove.rest, by simpa [Reader.start, Cursor.start] using hMove.offset⟩

namespace Read

/-- What a reading accepts in every arena that extends `base`, with the given number of held levels.
The value that is returned agrees with the meaning of the word in the arena that is left behind. -/
structure Recognizes {α β : Type} (held : Nat) (base : Arena) (reading : Read α)
    (language : ItemLanguage β) (Agrees : Arena → α → β → Prop) : Prop where
  sound : ∀ {before after : Reader} {value : α}, before.heldLevels = held →
    before.arena.Extends base → reading before = .ok value after →
    ∃ lexemes meaning, language (items lexemes) meaning ∧ Agrees after.arena value meaning ∧
      before.Advances lexemes after
  complete : ∀ {before : Reader} {lexemes : List Lexeme} {meaning : β} {rest : List UInt8},
    before.heldLevels = held → before.arena.Extends base → language (items lexemes) meaning →
    before.cursor.rest = spell lexemes ++ rest →
    ∃ value after, reading before = .ok value after ∧ Agrees after.arena value meaning ∧
      before.Advances lexemes after ∧ after.cursor.rest = rest

variable {α β γ δ : Type} {held : Nat} {base : Arena}

/-- Bytes that are scanned one after the other are read one after the other. -/
theorem scan_bind (first : Scan α) (next : α → Scan β) :
    scan (first >>= next) = scan first >>= fun value => scan (next value) := by
  funext reader
  simp only [scan, bind, EStateM.bind]
  cases first reader.cursor <;> rfl

namespace Recognizes

theorem congr {reading : Read α} {language language' : ItemLanguage β} {Agrees : Arena → α → β → Prop}
    (hReading : Recognizes held base reading language Agrees)
    (hIff : ∀ items meaning, language items meaning ↔ language' items meaning) :
    Recognizes held base reading language' Agrees where
  sound hHeld hBase hRead := by
    obtain ⟨lexemes, meaning, hWord, hRest⟩ := hReading.sound hHeld hBase hRead
    exact ⟨lexemes, meaning, (hIff _ _).mp hWord, hRest⟩
  complete hHeld hBase hWord := hReading.complete hHeld hBase ((hIff _ _).mpr hWord)

/-- A reading goes on recognizing its language as the arena grows. -/
theorem later {reading : Read α} {language : ItemLanguage β} {Agrees : Arena → α → β → Prop}
    {larger : Arena} (hReading : Recognizes held base reading language Agrees)
    (hExtends : larger.Extends base) :
    Recognizes held larger reading language Agrees where
  sound hHeld hBase := hReading.sound hHeld (hBase.trans hExtends)
  complete hHeld hBase := hReading.complete hHeld (hBase.trans hExtends)

theorem pure {value : α} (meaning : β) {Agrees : Arena → α → β → Prop}
    (hAgrees : ∀ later : Arena, later.Extends base → Agrees later value meaning) :
    Recognizes held base (Pure.pure value) (fun items said => items = [] ∧ said = meaning) Agrees where
  sound := by
    intro before after result hHeld hBase hRead
    obtain ⟨rfl, rfl⟩ := pure_eq_ok_iff.mp hRead
    exact ⟨[], meaning, ⟨rfl, rfl⟩, hAgrees _ hBase, .refl _⟩
  complete := by
    rintro before lexemes said rest hHeld hBase ⟨hItems, rfl⟩ hRest
    obtain rfl := items_eq_nil hItems
    exact ⟨value, before, rfl, hAgrees _ hBase, .refl _, by simpa using hRest⟩

/-- A reading that always fails accepts nothing. -/
theorem fail {reading : Read α} {Agrees : Arena → α → β → Prop}
    (hFail : ∀ before, ∃ error after, reading before = .error error after) :
    Recognizes held base reading (fun _ _ => False) Agrees where
  sound := by
    intro before after value _ _ hRead
    obtain ⟨error, after', hError⟩ := hFail before
    rw [hError] at hRead
    cases hRead
  complete _ _ hWord := hWord.elim

theorem throw {error : DecodeError} {Agrees : Arena → α → β → Prop} :
    Recognizes held base (MonadExcept.throw error : Read α) (fun _ _ => False) Agrees :=
  fail fun before => ⟨error, before, rfl⟩

/-- One reading after another. The second may use what the first has returned and added. -/
theorem bind {first : Read α} {next : α → Read γ} {language : ItemLanguage β}
    {Agrees : Arena → α → β → Prop} {AgreesNext : Arena → γ → δ → Prop}
    (hFirst : Recognizes held base first language Agrees) (languageNext : β → ItemLanguage δ)
    (hNext : ∀ (later : Arena) (value : α) (meaning : β), later.Extends base →
      Agrees later value meaning →
      Recognizes held later (next value) (languageNext meaning) AgreesNext) :
    Recognizes held base (first >>= next)
      (fun items result => ∃ before after meaning, items = before ++ after ∧
        language before meaning ∧ languageNext meaning after result)
      AgreesNext where
  sound := by
    intro before after result hHeld hBase hRead
    obtain ⟨value, middle, hReadFirst, hReadNext⟩ := bind_eq_ok_iff.mp hRead
    obtain ⟨lexemes, meaning, hWord, hAgrees, hMove⟩ := hFirst.sound hHeld hBase hReadFirst
    obtain ⟨lexemes', result', hWord', hAgrees', hMove'⟩ :=
      (hNext middle.arena value meaning (hMove.arena.trans hBase) hAgrees).sound
        (hMove.held.trans hHeld) (.refl _) hReadNext
    exact ⟨lexemes ++ lexemes', result',
      ⟨items lexemes, items lexemes', meaning, items_append _ _, hWord, hWord'⟩, hAgrees',
      hMove.trans hMove'⟩
  complete := by
    rintro before lexemes result rest hHeld hBase ⟨first', second', meaning, hItems, hWord, hWord'⟩ hRest
    obtain ⟨lexemes, lexemes', rfl, rfl, rfl⟩ := items_eq_append hItems
    rw [spell_append, List.append_assoc] at hRest
    obtain ⟨value, middle, hReadFirst, hAgrees, hMove, hMiddle⟩ :=
      hFirst.complete hHeld hBase hWord hRest
    obtain ⟨result', after, hReadNext, hAgrees', hMove', hAfter⟩ :=
      (hNext middle.arena value meaning (hMove.arena.trans hBase) hAgrees).complete
        (hMove.held.trans hHeld) (.refl _) hWord' hMiddle
    exact ⟨result', after, bind_eq_ok_iff.mpr ⟨value, middle, hReadFirst, hReadNext⟩, hAgrees',
      hMove.trans hMove', hAfter⟩

/-- A reading whose result is built from one part. -/
theorem map {part : Read α} {language : ItemLanguage β} {Agrees : Arena → α → β → Prop} {build : α → γ}
    {AgreesWhole : Arena → γ → δ → Prop} (hPart : Recognizes held base part language Agrees)
    (means : β → δ)
    (hWhole : ∀ (later : Arena) (value : α) (meaning : β), later.Extends base →
      Agrees later value meaning →
      ∀ final : Arena, final.Extends later → AgreesWhole final (build value) (means meaning)) :
    Recognizes held base (do let value ← part; Pure.pure (build value))
      (fun items said => ∃ meaning, said = means meaning ∧ language items meaning) AgreesWhole := by
  refine (hPart.bind (fun meaning items said => items = [] ∧ said = means meaning)
    fun later value meaning hLater hValue =>
      pure (means meaning) (hWhole later value meaning hLater hValue)).congr ?_
  intro items said
  constructor
  · rintro ⟨first, second, meaning, rfl, hWord, rfl, rfl⟩
    exact ⟨meaning, rfl, by simpa using hWord⟩
  · rintro ⟨meaning, rfl, hWord⟩
    exact ⟨items, [], meaning, by simp, hWord, rfl, rfl⟩

/-- A reading whose result is built from two parts, one after the other. -/
theorem map₂ {α' β' : Type} {first : Read α} {second : Read α'} {language : ItemLanguage β}
    {language' : ItemLanguage β'} {Agrees : Arena → α → β → Prop} {Agrees' : Arena → α' → β' → Prop}
    {build : α → α' → γ} {AgreesWhole : Arena → γ → δ → Prop}
    (hFirst : Recognizes held base first language Agrees)
    (hSecond : ∀ later : Arena, later.Extends base → Recognizes held later second language' Agrees')
    (means : β → β' → δ)
    (hWhole : ∀ (early late : Arena) (value : α) (meaning : β) (value' : α') (meaning' : β'),
      late.Extends early → Agrees early value meaning → Agrees' late value' meaning' →
      ∀ final : Arena, final.Extends late →
        AgreesWhole final (build value value') (means meaning meaning')) :
    Recognizes held base
      (do let value ← first; let value' ← second; Pure.pure (build value value'))
      (fun items said => ∃ before after meaning meaning', items = before ++ after ∧
        said = means meaning meaning' ∧ language before meaning ∧ language' after meaning')
      AgreesWhole := by
  refine (hFirst.bind (fun meaning items said => ∃ meaning', said = means meaning meaning' ∧
    language' items meaning') fun early value meaning hEarly hValue =>
      (hSecond early hEarly).map (means meaning) fun late value' meaning' hLate hValue' =>
        hWhole early late value meaning value' meaning' hLate hValue hValue').congr ?_
  intro items said
  constructor
  · rintro ⟨before, after, meaning, rfl, hWord, meaning', rfl, hWord'⟩
    exact ⟨before, after, meaning, meaning', rfl, rfl, hWord, hWord'⟩
  · rintro ⟨before, after, meaning, meaning', rfl, rfl, hWord, hWord'⟩
    exact ⟨before, after, meaning, rfl, hWord, meaning', rfl, hWord'⟩

theorem scan {bytes : Scan α} {language : ItemLanguage β} {Agrees : α → β → Prop}
    (hBytes : bytes.Recognizes language Agrees) :
    Recognizes held base (scan bytes) language (fun _ => Agrees) where
  sound := by
    intro before after value hHeld hBase hRead
    cases hScan : bytes before.cursor with
    | error => simp [Read.scan, hScan] at hRead
    | ok value' cursor =>
        obtain ⟨rfl, rfl⟩ : value' = value ∧ { before with cursor } = after := by
          simpa [Read.scan, hScan] using hRead
        obtain ⟨lexemes, meaning, hWord, hAgrees, hRest, hOffset⟩ := hBytes.sound hScan
        exact ⟨lexemes, meaning, hWord, hAgrees, hRest, hOffset, rfl, .refl _⟩
  complete := by
    intro before lexemes meaning rest hHeld hBase hWord hRest
    obtain ⟨value, hAgrees, hScan⟩ := hBytes.complete hWord rest before.cursor.offset
    rw [← hRest] at hScan
    let cursor : Cursor := ⟨rest, before.cursor.offset + (spell lexemes).length⟩
    exact ⟨value, { before with cursor }, by simp [Read.scan, hScan, cursor], hAgrees,
      ⟨hRest, rfl, rfl, .refl _⟩, rfl⟩

/-- The node that is added is the tree made of the trees of its children. -/
theorem add {node : Node} {trees : List Tree} (hTrees : List.Forall₂ base.Stores node.children trees) :
    Recognizes held base (add node) (fun items tree => items = [] ∧ tree = .node node.label trees)
      (fun arena id tree => arena.Stores (some id) tree) := by
  have hStores (before : Reader) (hBase : before.arena.Extends base) :
      (before.arena.push node).2.Stores (some (before.arena.push node).1) (.node node.label trees) :=
    .of_forall₂ (before.arena.get?_push_self node)
      (hTrees.imp fun _ _ hTree => hTree.mono ((before.arena.extends_push node).trans hBase))
  constructor
  · intro before after id hHeld hBase hRead
    obtain ⟨rfl, rfl⟩ : (before.arena.push node).1 = id ∧
        { before with arena := (before.arena.push node).2 } = after := by
      simpa [Read.add] using hRead
    exact ⟨[], _, ⟨rfl, rfl⟩, hStores before hBase, rfl, rfl, rfl, before.arena.extends_push node⟩
  · rintro before lexemes tree rest hHeld hBase ⟨hItems, rfl⟩ hRest
    obtain rfl := items_eq_nil hItems
    exact ⟨_, _, rfl, hStores before hBase, ⟨rfl, rfl, rfl, before.arena.extends_push node⟩,
      by simpa using hRest⟩

end Recognizes

end Read

end CliSignature
