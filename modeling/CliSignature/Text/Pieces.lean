/-!
Texts cut at a separator. There is always a first piece, so it stands apart from the others.
-/

namespace CliSignature.Text

/-- Cuts a text at every separator. Empty pieces are kept: the result is the first piece and the
pieces after it, one for each separator. -/
def pieces (separator : Char) : List Char → List Char × List (List Char)
  | [] => ([], [])
  | c :: rest =>
    let (first, others) := pieces separator rest
    if c = separator then ([], first :: others) else (c :: first, others)

/-- Joins pieces again, with the separator between each two. -/
def joined (separator : Char) (first : List Char) (others : List (List Char)) : List Char :=
  first ++ others.flatMap fun piece => separator :: piece

theorem joined_pieces (separator : Char) (text : List Char) :
    joined separator (pieces separator text).1 (pieces separator text).2 = text := by
  induction text with
  | nil => rfl
  | cons c rest ih =>
    by_cases hSep : c = separator
    · simpa [pieces, joined, hSep] using ih
    · simpa [pieces, joined, hSep] using ih

end CliSignature.Text
