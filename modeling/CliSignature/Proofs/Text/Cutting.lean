import CliSignature.Text.Blank
import CliSignature.Text.Pieces
import Mathlib.Data.List.TakeWhile

/-!
Texts cut into pieces and trimmed. Pieces that do not hold the separator come back when they are joined and
cut again. What is trimmed has no white space at its ends, and a text without it is not changed.
-/

namespace CliSignature.Text

section Pieces

variable {separator : Char}

theorem pieces_cons_self (rest : List Char) :
    pieces separator (separator :: rest) =
      ([], (pieces separator rest).1 :: (pieces separator rest).2) := by
  simp [pieces]

theorem pieces_cons_of_ne {c : Char} (hOther : c ≠ separator) (rest : List Char) :
    pieces separator (c :: rest) = (c :: (pieces separator rest).1, (pieces separator rest).2) := by
  simp [pieces, hOther]

/-- No piece holds the separator. -/
theorem not_mem_of_mem_pieces (separator : Char) (text : List Char) :
    separator ∉ (pieces separator text).1 ∧ ∀ piece ∈ (pieces separator text).2, separator ∉ piece := by
  induction text with
  | nil => simp [pieces]
  | cons c rest ih =>
      obtain ⟨hFirst, hOthers⟩ := ih
      by_cases hSep : c = separator
      · subst hSep
        rw [pieces_cons_self]
        exact ⟨List.not_mem_nil, List.forall_mem_cons.mpr ⟨hFirst, hOthers⟩⟩
      · rw [pieces_cons_of_ne hSep]
        exact ⟨List.not_mem_cons_of_ne_of_not_mem (Ne.symm hSep) hFirst, hOthers⟩

/-- By induction on the pieces, and on the first of them. -/
theorem pieces_joined {first : List Char} {others : List (List Char)} (hFirst : separator ∉ first)
    (hOthers : ∀ piece ∈ others, separator ∉ piece) :
    pieces separator (joined separator first others) = (first, others) := by
  induction others generalizing first with
  | nil =>
      induction first with
      | nil => rfl
      | cons c first ih =>
          obtain ⟨hOther, hRest⟩ := List.ne_and_not_mem_of_not_mem_cons hFirst
          have hJoined : joined separator (c :: first) [] = c :: joined separator first [] := rfl
          rw [hJoined, pieces_cons_of_ne (Ne.symm hOther), ih hRest]
  | cons next others ihOthers =>
      obtain ⟨hNext, hOthers⟩ := List.forall_mem_cons.mp hOthers
      induction first with
      | nil =>
          have hJoined : joined separator [] (next :: others) = separator :: joined separator next others := rfl
          rw [hJoined, pieces_cons_self, ihOthers hNext hOthers]
      | cons c first ih =>
          obtain ⟨hOther, hRest⟩ := List.ne_and_not_mem_of_not_mem_cons hFirst
          have hJoined : joined separator (c :: first) (next :: others) =
              c :: joined separator first (next :: others) := rfl
          rw [hJoined, pieces_cons_of_ne (Ne.symm hOther), ih hRest]

/-- Text behind a separator is cut on its own. -/
theorem pieces_append (first second : List Char) :
    pieces separator (first ++ separator :: second) =
      ((pieces separator first).1,
        (pieces separator first).2 ++ (pieces separator second).1 :: (pieces separator second).2) := by
  induction first with
  | nil =>
      rw [List.nil_append, pieces_cons_self]
      rfl
  | cons c first ih =>
      by_cases hSep : c = separator
      · subst hSep
        rw [List.cons_append, pieces_cons_self, pieces_cons_self, ih]
        rfl
      · rw [List.cons_append, pieces_cons_of_ne hSep, pieces_cons_of_ne hSep, ih]

/-- Pieces that do not hold the separator come back from behind any text. -/
theorem pieces_joined_others (first : List Char) {others : List (List Char)}
    (hOthers : ∀ piece ∈ others, separator ∉ piece) :
    pieces separator (joined separator first others) =
      ((pieces separator first).1, (pieces separator first).2 ++ others) := by
  cases others with
  | nil => simp [joined]
  | cons next others =>
      obtain ⟨hNext, hOthers⟩ := List.forall_mem_cons.mp hOthers
      have hJoined : joined separator first (next :: others) =
          first ++ separator :: joined separator next others := rfl
      rw [hJoined, pieces_append, pieces_joined hNext hOthers]

end Pieces

section Blanks

variable {text : List Char}

/-- The text starts with white space. -/
def StartsBlank (text : List Char) : Prop :=
  ∃ c ∈ text.head?, isBlank c = true

/-- The text ends with white space. -/
def EndsBlank (text : List Char) : Prop :=
  ∃ c ∈ text.getLast?, isBlank c = true

theorem startsBlank_reverse : StartsBlank text.reverse ↔ EndsBlank text := by
  simp [StartsBlank, EndsBlank]

theorem endsBlank_append {start : List Char} (hRest : text ≠ []) : EndsBlank (start ++ text) ↔ EndsBlank text := by
  obtain ⟨last, hLast⟩ := Option.ne_none_iff_exists'.mp (mt List.getLast?_eq_none_iff.mp hRest)
  simp [EndsBlank, List.getLast?_append, hLast]

theorem not_endsBlank_of_forall (hSolid : ∀ c ∈ text, isBlank c = false) : ¬ EndsBlank text := by
  rintro ⟨c, hLast, hBlank⟩
  have hSolid := hSolid c (List.mem_of_getLast? hLast)
  exact Bool.false_ne_true (hSolid.symm.trans hBlank)

theorem dropWhile_of_not_startsBlank (hStart : ¬ StartsBlank text) : text.dropWhile isBlank = text := by
  cases text with
  | nil => rfl
  | cons c rest =>
      have hFirst : isBlank c = false := by simpa [StartsBlank] using hStart
      rw [List.dropWhile_cons_of_neg (by simp [hFirst])]

theorem not_startsBlank_dropWhile (text : List Char) : ¬ StartsBlank (text.dropWhile isBlank) := by
  rintro ⟨c, hFirst, hBlank⟩
  have hNot := List.head?_dropWhile_not isBlank text
  rw [Option.mem_def.mp hFirst] at hNot
  exact Bool.false_ne_true (hNot.symm.trans hBlank)

/-- A text without white space at its ends is not changed by trimming. -/
theorem trim_of_not_blank (hStart : ¬ StartsBlank text) (hEnd : ¬ EndsBlank text) : trim text = text := by
  have hReversed : ¬ StartsBlank text.reverse := mt startsBlank_reverse.mp hEnd
  rw [trim, dropWhile_of_not_startsBlank hStart, trimRight, dropWhile_of_not_startsBlank hReversed,
    List.reverse_reverse]

theorem trim_cons_of_blank {c : Char} (hBlank : isBlank c = true) (text : List Char) :
    trim (c :: text) = trim text := by
  rw [trim, trim, List.dropWhile_cons_of_pos hBlank]

/-- What trimming leaves is a part of the text. -/
theorem mem_of_mem_trim {c : Char} (hMem : c ∈ trim text) : c ∈ text := by
  have hKept : c ∈ (text.dropWhile isBlank).reverse :=
    (List.dropWhile_sublist _).subset (List.mem_reverse.mp hMem)
  exact (List.dropWhile_sublist _).subset (List.mem_reverse.mp hKept)

theorem not_endsBlank_trim (text : List Char) : ¬ EndsBlank (trim text) := by
  rw [← startsBlank_reverse, trim, trimRight, List.reverse_reverse]
  exact not_startsBlank_dropWhile _

theorem not_startsBlank_trim (text : List Char) : ¬ StartsBlank (trim text) := by
  obtain ⟨tail, hTail⟩ : trim text <+: text.dropWhile isBlank := by
    rw [← List.reverse_suffix, trim, trimRight, List.reverse_reverse]
    exact List.dropWhile_suffix _
  rintro ⟨c, hFirst, hBlank⟩
  refine not_startsBlank_dropWhile text ⟨c, ?_, hBlank⟩
  rw [← hTail, List.head?_append, Option.mem_def.mp hFirst]
  rfl

/-- The text with white space around it. -/
def Padded (text padded : List Char) : Prop :=
  ∃ front back, (∀ c ∈ front, isBlank c = true) ∧ (∀ c ∈ back, isBlank c = true) ∧
    padded = front ++ text ++ back

theorem trim_append_left {front : List Char} (hBlank : ∀ c ∈ front, isBlank c = true) (text : List Char) :
    trim (front ++ text) = trim text := by
  rw [trim, trim, List.dropWhile_append_of_pos hBlank]

theorem trim_append_right {back : List Char} (hBlank : ∀ c ∈ back, isBlank c = true) (text : List Char) :
    trim (text ++ back) = trim text := by
  have hReversed : ∀ c ∈ back.reverse, isBlank c = true := fun c hMem => hBlank c (List.mem_reverse.mp hMem)
  have hRight (kept : List Char) : trimRight (kept ++ back) = trimRight kept := by
    rw [trimRight, trimRight, List.reverse_append, List.dropWhile_append_of_pos hReversed]
  rw [trim, trim, List.dropWhile_append]
  split
  case isTrue hAll =>
    rw [List.isEmpty_iff.mp hAll, List.dropWhile_eq_nil_iff.mpr hBlank]
  case isFalse => exact hRight _

/-- White space around a text is lost when it is trimmed. -/
theorem Padded.trim_eq {padded : List Char} (hPadded : Padded text padded) : trim padded = trim text := by
  obtain ⟨front, back, hFront, hBack, rfl⟩ := hPadded
  rw [List.append_assoc, trim_append_left hFront, trim_append_right hBack]

/-- White space around a text brings in nothing that is not white space. -/
theorem Padded.not_mem {padded : List Char} {c : Char} (hPadded : Padded text padded) (hSolid : isBlank c = false)
    (hText : c ∉ text) : c ∉ padded := by
  obtain ⟨front, back, hFront, hBack, rfl⟩ := hPadded
  have hOther {blanks : List Char} (hBlank : ∀ c ∈ blanks, isBlank c = true) : c ∉ blanks := fun hMem =>
    Bool.false_ne_true (hSolid.symm.trans (hBlank c hMem))
  simp [hOther hFront, hOther hBack, hText]

end Blanks

end CliSignature.Text
