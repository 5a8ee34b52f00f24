import CliSignature.Proofs.Blob.TypeReading
import CliSignature.Proofs.Blob.TypeWriting

/-!
Round trips. Reader and writer speak of the same language under the same limits, so what is decoded can
be encoded and decoded again, and what is encoded can be decoded if it is readable. Both give back the
tree of a signature. The handles and the shared nodes behind it may be others.
-/

namespace CliSignature

open Grammar Lexeme

/-- Where a decoding starts: at a type, at a signature of a known form, or at a signature whose form
its first byte tells. -/
inductive Entry where
  | type
  | signature (form : Signature.Form)
  | anySignature

/-- What a decoding returns and an encoding takes. -/
inductive Decoded where
  | type (slot : Option NodeId)
  | signature (signature : Signature)

/-- What a type or a signature says, without handles. -/
inductive Meaning where
  | type (tree : Tree)
  | signature (tree : SignatureTree)

namespace Entry

/-- Reads what starts here. -/
def read (context : ReadContext) : Entry → Read Decoded
  | type => do
    let slot ← Read.typeFrom context
    pure (.type slot)
  | signature form => do
    let found ← Read.signatureFrom context form
    pure (.signature found)
  | anySignature => do
    let found ← Read.anySignatureFrom context
    pure (.signature found)

/-- What the grammar says about what starts here. -/
def language (limits : Limits) : Entry → ItemLanguage Meaning
  | type, items, .type tree => typeWithin limits limits.decodeDepth items tree
  | signature form, items, .signature tree =>
    SignatureOf (typeWithin limits limits.decodeDepth) form items tree
  | anySignature, items, .signature tree =>
    ∃ form, SignatureOf (typeWithin limits limits.decodeDepth) form items tree
  | _, _, _ => False

end Entry

namespace Decoded

/-- The entry at which the written form can be read without knowing what it is but that it is a type. -/
def entry : Decoded → Entry
  | type _ => .type
  | signature _ => .anySignature

/-- The written form. -/
def encode (arena : Arena) (limits : Limits) : Decoded → Except EncodeError (List UInt8)
  | type slot => arena.encodeType limits slot
  | signature found => arena.encodeSignature limits found

/-- What the writer does. -/
def emission (arena : Arena) (limits : Limits) : Decoded → Emission
  | type slot => .typeWithin arena limits limits.decodeDepth slot
  | signature found => .signature (.typeWithin arena limits limits.decodeDepth) found

/-- What the handles refer to. -/
def Means (arena : Arena) : Decoded → Meaning → Prop
  | type slot, .type tree => arena.Unfolds slot tree
  | signature found, .signature tree => arena.UnfoldsSignature found tree
  | _, _ => False

/-- The same, if nothing dangles. -/
def Stores (arena : Arena) : Decoded → Meaning → Prop
  | type slot, .type tree => arena.Stores slot tree
  | signature found, .signature tree => arena.StoresSignature found tree
  | _, _ => False

end Decoded

/-- Whether the grammar has a way to say it. -/
def Meaning.Readable (limits : Limits) : Meaning → Prop
  | .type tree => tree.Readable limits
  | .signature tree => tree.Readable limits

theorem Entry.recognizes (entry : Entry) {base : Arena} (context : ReadContext)
    (hCore : context.core.StoredIn base) :
    Read.Recognizes 0 base (entry.read context) (entry.language context.limits) Decoded.Stores := by
  cases entry with
  | type =>
      refine ((Read.Recognizes.typeFrom context hCore).map Meaning.type
        fun _ _ _ _ hTree _ hFinal => Arena.Stores.mono hFinal hTree).congr fun items meaning => ?_
      cases meaning <;> simp [Entry.language]
  | signature form =>
      refine ((Read.Recognizes.signatureFrom context hCore form).map Meaning.signature
        fun _ _ _ _ hTree _ hFinal => Arena.StoresSignature.mono hFinal hTree).congr
          fun items meaning => ?_
      cases meaning <;> simp [Entry.language]
  | anySignature =>
      refine ((Read.Recognizes.anySignatureFrom context hCore).map Meaning.signature
        fun _ _ _ _ hTree _ hFinal => Arena.StoresSignature.mono hFinal hTree).congr
          fun items meaning => ?_
      cases meaning <;> simp [Entry.language]

theorem Decoded.encode_eq_ok_iff {arena : Arena} {limits : Limits} {decoded : Decoded}
    {output : List UInt8} :
    decoded.encode arena limits = .ok output ↔
      (decoded.emission arena limits).failure = none ∧ (decoded.emission arena limits).bytes = output := by
  have hAppend (emission : Emission) :
      ((Writer.start.append emission).1.map fun _ => (Writer.start.append emission).2.bytes) = .ok output ↔
        emission.failure = none ∧ emission.bytes = output := by
    cases hFailure : emission.failure <;> simp [Writer.append, Writer.start, hFailure, Except.map]
  cases decoded with
  | type slot => exact hAppend _
  | signature found => exact hAppend _

namespace Entry

variable {arena : Arena} {limits : Limits}

theorem readable_of_language {entry : Entry} {items : List Item} {meaning : Meaning}
    (hWord : entry.language limits items meaning) : meaning.Readable limits := by
  cases entry with
  | type =>
      cases meaning with
      | type tree => exact readable_of_typeWithin hWord
      | signature tree => exact hWord.elim
  | signature form =>
      cases meaning with
      | type tree => exact hWord.elim
      | signature tree => exact readable_of_signatureOf hWord
  | anySignature =>
      cases meaning with
      | type tree => exact hWord.elim
      | signature tree =>
          obtain ⟨form, hWord⟩ := hWord
          exact readable_of_signatureOf hWord

/-- A signature of a known form is also one whose form its first byte tells. -/
theorem language_entry {entry : Entry} {decoded : Decoded} {items : List Item} {meaning : Meaning}
    (hMeans : decoded.Means arena meaning) (hWord : entry.language limits items meaning) :
    decoded.entry.language limits items meaning := by
  cases decoded <;> cases meaning <;> simp only [Decoded.Means] at hMeans
  case type =>
    cases entry with
    | type => exact hWord
    | _ => exact hWord.elim
  case signature =>
    cases entry with
    | type => exact hWord.elim
    | signature form => exact ⟨form, hWord⟩
    | anySignature => exact hWord

end Entry

namespace Decoded

variable {arena : Arena} {limits : Limits}

theorem Stores.means {decoded : Decoded} {meaning : Meaning} (hStores : decoded.Stores arena meaning) :
    decoded.Means arena meaning := by
  cases decoded <;> cases meaning <;> simp only [Stores] at hStores
  · exact hStores.unfolds
  · exact hStores.unfolds

theorem Means.unique {decoded : Decoded} {first second : Meaning} (hFirst : decoded.Means arena first)
    (hSecond : decoded.Means arena second) : first = second := by
  cases decoded <;> cases first <;> cases second <;> simp only [Means] at hFirst hSecond
  · exact congrArg _ (hFirst.unique hSecond)
  · exact congrArg _ (hFirst.unique hSecond)

/-- Only an absent type is decoded as nothing. -/
theorem Stores.eq_absent_iff {decoded : Decoded} {meaning : Meaning}
    (hStores : decoded.Stores arena meaning) :
    decoded = .type none ↔ meaning = .type .absent := by
  cases decoded <;> cases meaning <;> simp only [Stores] at hStores
  · simpa using hStores.eq_none_iff
  · simp

/-- What is readable is written as the shortest of its spellings. -/
theorem emits {decoded : Decoded} {meaning : Meaning} (hMeans : decoded.Means arena meaning)
    (hReadable : meaning.Readable limits) :
    (decoded.emission arena limits).Emits fun items =>
      decoded.entry.language limits items meaning := by
  cases decoded <;> cases meaning <;> simp only [Means] at hMeans
  · exact Emission.emits_typeWithin limits.decodeDepth hMeans hReadable
  · refine (Emission.emits_signatureWithin limits.decodeDepth hMeans hReadable).congr
      fun items => ⟨fun hWord => ⟨_, hWord⟩, ?_⟩
    rintro ⟨form, hWord⟩
    rw [hWord.form_eq]
    exact hWord

end Decoded

/-- What is decoded can be encoded and decoded again. The output is not longer than what was consumed,
it is consumed as a whole, and it has the same meaning. It is what was consumed, byte for byte, if and
only if each number there was as short as can be and each absent type was a zero byte. -/
theorem Entry.encode_of_read (entry : Entry) {limits : Limits} {core : CoreTypes} {arena : Arena}
    (hCore : core.StoredIn arena) {blob : List UInt8} {decoded : Decoded} {after : Reader}
    (hRead : entry.read ⟨limits, core⟩ (.start arena blob) = .ok decoded after) :
    ∃ meaning output, decoded.Means after.arena meaning ∧
      decoded.encode after.arena limits = .ok output ∧ output.length ≤ after.cursor.offset ∧
      (∀ core' arena', core'.StoredIn arena' → ∃ decoded' after',
        entry.read ⟨limits, core'⟩ (.start arena' output) = .ok decoded' after' ∧
        after'.cursor = ⟨[], output.length⟩ ∧ decoded'.Means after'.arena meaning) ∧
      (∃ lexemes, entry.language limits (items lexemes) meaning ∧
        spell lexemes = blob.take after.cursor.offset) ∧
      ∀ lexemes, entry.language limits (items lexemes) meaning →
        spell lexemes = blob.take after.cursor.offset →
        (output = blob.take after.cursor.offset ↔ ∀ lexeme ∈ lexemes, lexeme.IsShortest) := by
  obtain ⟨lexemes, meaning, hWord, hStores, hMove⟩ :=
    (entry.recognizes ⟨limits, core⟩ hCore).sound rfl (.refl _) hRead
  have hEmits := Decoded.emits hStores.means (readable_of_language hWord)
  obtain ⟨short, hItems, hShort, hLe, -⟩ := exists_shortest_spelling lexemes
  have hEmission : decoded.emission after.arena limits = .ofBytes (spell short) :=
    hEmits.complete short (language_entry hStores.means (hItems ▸ hWord)) hShort
  have hOffset : after.cursor.offset = (spell lexemes).length := by
    simpa [Reader.start, Cursor.start] using hMove.offset
  have hSpell : spell lexemes = blob.take after.cursor.offset := by
    have hBlob : blob = spell lexemes ++ after.cursor.rest := hMove.rest
    rw [hBlob, hOffset, List.take_left]
  refine ⟨meaning, spell short, hStores.means,
    Decoded.encode_eq_ok_iff.mpr ⟨by rw [hEmission]; rfl, by rw [hEmission]; rfl⟩, by omega, ?_,
    ⟨lexemes, hWord, hSpell⟩, fun others hOthers hSame => ?_⟩
  · intro core' arena' hCore'
    obtain ⟨decoded', after', hRead', hStores', hMove', hRest'⟩ :=
      @(entry.recognizes ⟨limits, core'⟩ hCore').complete (.start arena' (spell short)) short meaning []
        rfl (.refl _) (hItems ▸ hWord) (by simp [Reader.start, Cursor.start])
    have hOffset' : after'.cursor.offset = (spell short).length := by
      simpa [Reader.start, Cursor.start] using hMove'.offset
    exact ⟨decoded', after', hRead', by rw [← hRest', ← hOffset'], hStores'.means⟩
  · obtain ⟨short', hItems', hShort', -, hIff⟩ := exists_shortest_spelling others
    have hEmission' : decoded.emission after.arena limits = .ofBytes (spell short') :=
      hEmits.complete short' (language_entry hStores.means (hItems' ▸ hOthers)) hShort'
    have hOutput : spell short = spell short' :=
      congrArg Emission.bytes (hEmission.symm.trans hEmission')
    rw [hOutput, ← hSame]
    exact hIff

/-- An array whose rank takes two bytes where one would do. -/
theorem Entry.encode_of_read_array :
    ∃ decoded after meaning output,
      Entry.type.read ⟨.standard, (CoreTypes.create ⟨0⟩ ⟨0⟩ .empty .empty).1⟩
        (.start (CoreTypes.create ⟨0⟩ ⟨0⟩ .empty .empty).2.1 [0x14, 0x08, 0x80, 0x02, 0x00, 0x00]) =
          .ok decoded after ∧
      decoded.Means after.arena meaning ∧ decoded.encode after.arena .standard = .ok output ∧
      output.length ≤ after.cursor.offset := by
  have hRead : ∃ decoded after,
      Entry.type.read ⟨.standard, (CoreTypes.create ⟨0⟩ ⟨0⟩ .empty .empty).1⟩
        (.start (CoreTypes.create ⟨0⟩ ⟨0⟩ .empty .empty).2.1 [0x14, 0x08, 0x80, 0x02, 0x00, 0x00]) =
          .ok decoded after := ⟨_, _, rfl⟩
  obtain ⟨decoded, after, hRead⟩ := hRead
  obtain ⟨meaning, output, hMeans, hEncode, hLength, -⟩ :=
    Entry.type.encode_of_read (CoreTypes.create_storedIn ⟨0⟩ ⟨0⟩ .empty .empty).1 hRead
  exact ⟨decoded, after, meaning, output, hRead, hMeans, hEncode, hLength⟩

/-- What is encoded has a meaning. It can be decoded, whatever stands behind it, if and only if the
meaning is readable, and then exactly what was written is consumed. -/
theorem Decoded.readable_iff_read_encode {limits : Limits} {arena base : Arena} {core : CoreTypes}
    (hCore : core.StoredIn base) {decoded : Decoded} {output : List UInt8}
    (hEncode : decoded.encode arena limits = .ok output) :
    ∃ meaning, decoded.Means arena meaning ∧
      (meaning.Readable limits ↔ ∀ rest, ∃ decoded' after,
        decoded.entry.read ⟨limits, core⟩ (.start base (output ++ rest)) = .ok decoded' after ∧
        after.cursor = ⟨rest, output.length⟩ ∧ decoded'.Means after.arena meaning ∧
        (decoded' = .type none ↔ meaning = .type .absent)) := by
  obtain ⟨hSucceeds, rfl⟩ := encode_eq_ok_iff.mp hEncode
  obtain ⟨meaning, hMeans⟩ : ∃ meaning, decoded.Means arena meaning := by
    cases decoded with
    | type slot =>
        obtain ⟨tree, hTree⟩ := Emission.exists_unfolds limits.decodeDepth hSucceeds
        exact ⟨.type tree, hTree⟩
    | signature found =>
        obtain ⟨tree, hTree⟩ := Emission.exists_unfoldsSignature limits.decodeDepth hSucceeds
        exact ⟨.signature tree, hTree⟩
  refine ⟨meaning, hMeans, fun hReadable rest => ?_, fun hRoundTrip => ?_⟩
  · obtain ⟨lexemes, hWord, -, hEmission⟩ := (emits hMeans hReadable).sound hSucceeds
    have hBytes : (decoded.emission arena limits).bytes = spell lexemes :=
      congrArg Emission.bytes hEmission
    rw [hBytes]
    obtain ⟨decoded', after, hRead, hStores, hMove, hRest⟩ :=
      @(decoded.entry.recognizes ⟨limits, core⟩ hCore).complete (.start base (spell lexemes ++ rest))
        lexemes meaning rest rfl (.refl _) hWord rfl
    have hOffset : after.cursor.offset = (spell lexemes).length := by
      simpa [Reader.start, Cursor.start] using hMove.offset
    exact ⟨decoded', after, hRead, by rw [← hRest, ← hOffset], hStores.means, hStores.eq_absent_iff⟩
  · obtain ⟨decoded', after, hRead, -, hMeans', -⟩ := hRoundTrip []
    obtain ⟨lexemes, meaning', hWord, hStores, -⟩ :=
      (decoded.entry.recognizes ⟨limits, core⟩ hCore).sound rfl (.refl _) hRead
    rw [hMeans'.unique hStores.means]
    exact Entry.readable_of_language hWord

/-- A vector of an absent type, written to one arena and read into another. -/
theorem Decoded.readable_iff_read_encode_vector :
    ∃ meaning, Decoded.Means ⟨#[.wrapper .vector none]⟩ (.type (some ⟨0⟩)) meaning ∧
      (meaning.Readable .standard ↔ ∀ rest, ∃ decoded' after,
        Entry.type.read ⟨.standard, (CoreTypes.create ⟨0⟩ ⟨0⟩ .empty .empty).1⟩
          (.start (CoreTypes.create ⟨0⟩ ⟨0⟩ .empty .empty).2.1 ([0x1D, 0x00] ++ rest)) =
            .ok decoded' after ∧
        after.cursor = ⟨rest, 2⟩ ∧ decoded'.Means after.arena meaning ∧
        (decoded' = .type none ↔ meaning = .type .absent)) :=
  Decoded.readable_iff_read_encode (CoreTypes.create_storedIn ⟨0⟩ ⟨0⟩ .empty .empty).1 rfl

end CliSignature
