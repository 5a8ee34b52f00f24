import CliSignature.Assembly.Identity
import CliSignature.Proofs.Text.Numerals
import Mathlib.Data.List.Basic

/-!
The display form of an assembly, written and read. An identity comes back from its display form exactly
when its name and its culture can be told apart from what stands around them, and what is read from any
text is of that kind.
-/

namespace CliSignature

namespace Version

theorem text_toList (version : Version) :
    version.text.toList = Text.joined '.' (Text.decimal version.major.toNat).toList
      ([version.minor, version.build, version.revision].map fun part => (Text.decimal part.toNat).toList) := by
  simp [text, parts, Text.joined]

theorem readPart_decimal (part : UInt16) : readPart (Text.decimal part.toNat).toList = .ok part := by
  rw [readPart, Text.readUInt16?_decimal]

/-- A version comes back from its text. -/
theorem ofText_text (version : Version) : ofText version.text.toList = .ok version := by
  have hNoDot (part : UInt16) : '.' ∉ (Text.decimal part.toNat).toList := fun hDot =>
    Text.not_figure_dot (Text.figure_of_mem_decimal _ _ hDot)
  have hPieces : Text.pieces '.' version.text.toList = ((Text.decimal version.major.toNat).toList,
      [version.minor, version.build, version.revision].map fun part => (Text.decimal part.toNat).toList) := by
    rw [text_toList]
    exact Text.pieces_joined (hNoDot _) (List.forall_mem_map.mpr fun part _ => hNoDot part)
  rw [ofText, hPieces]
  simp only [List.map_cons, List.map_nil, List.mapM_cons, List.mapM_nil, readPart_decimal]
  rfl

end Version

namespace AssemblyIdentity

/-- The identities whose display form says what they are. The culture may start with white space, since
nothing is removed between a label and its value. -/
structure Displayable (identity : AssemblyIdentity) : Prop where
  name_ne_empty : identity.name ≠ ""
  name_comma : ',' ∉ identity.name.toList
  name_start : ¬ Text.StartsBlank identity.name.toList
  name_end : ¬ Text.EndsBlank identity.name.toList
  culture_ne_empty : identity.culture ≠ some ""
  culture_ne_neutral : identity.culture ≠ some "neutral"
  culture_comma : ∀ culture ∈ identity.culture, ',' ∉ culture.toList
  culture_end : ∀ culture ∈ identity.culture, ¬ Text.EndsBlank culture.toList

section Writing

/-- The public key token as it is displayed. -/
def tokenText (identity : AssemblyIdentity) : List Char :=
  match identity.publicKeyToken with
  | some token => Text.hexDigits 16 token.toNat
  | none => "null".toList

/-- The culture as it is displayed. -/
def shown (identity : AssemblyIdentity) : List Char :=
  (identity.culture.getD "neutral").toList

/-- The components of the display form, without the blank in front of each. -/
def labelled (identity : AssemblyIdentity) : List (List Char) :=
  ["Version=".toList ++ identity.version.text.toList,
   "Culture=".toList ++ identity.shown,
   "PublicKeyToken=".toList ++ identity.tokenText]

theorem display_toList (identity : AssemblyIdentity) :
    identity.display.toList = Text.joined ',' identity.name.toList (identity.labelled.map (' ' :: ·)) := by
  cases hToken : identity.publicKeyToken <;>
    simp [display, Text.joined, labelled, shown, tokenText, hToken, Text.hexPadded]

/-- A text with neither white space nor a comma. -/
def Compact (text : List Char) : Prop :=
  ∀ c ∈ text, Text.isBlank c = false ∧ c ≠ ','

theorem compact_of_all {text : List Char} (hAll : text.all (fun c => !Text.isBlank c && c != ',') = true) :
    Compact text := by
  intro c hMem
  simpa using List.all_eq_true.mp hAll c hMem

theorem compact_of_figures {text : List Char} (hFigures : ∀ c ∈ text, Text.Figure c) : Compact text := by
  intro c hMem
  have hFigure := hFigures c hMem
  refine ⟨hFigure.not_blank, ?_⟩
  rintro rfl
  exact Text.not_figure_comma hFigure

theorem Compact.append {first second : List Char} (hFirst : Compact first) (hSecond : Compact second) :
    Compact (first ++ second) :=
  List.forall_mem_append.mpr ⟨hFirst, hSecond⟩

theorem Compact.comma {text : List Char} (hCompact : Compact text) : ',' ∉ text := fun hMem =>
  (hCompact ',' hMem).2 rfl

theorem Compact.not_endsBlank {text : List Char} (hCompact : Compact text) : ¬ Text.EndsBlank text :=
  Text.not_endsBlank_of_forall fun c hMem => (hCompact c hMem).1

theorem compact_version (version : Version) : Compact version.text.toList := by
  have hPart (part : UInt16) : Compact (Text.decimal part.toNat).toList :=
    compact_of_figures (Text.figure_of_mem_decimal _)
  have hDot : Compact ['.'] := compact_of_all (by decide)
  rw [Version.text_toList]
  simp only [Text.joined, List.map_cons, List.map_nil, List.flatMap_cons, List.flatMap_nil]
  exact (hPart _).append (((hDot.append (hPart _)).append ((hDot.append (hPart _)).append
    ((hDot.append (hPart _)).append (List.forall_mem_nil _)))))

theorem compact_token (identity : AssemblyIdentity) : Compact identity.tokenText := by
  unfold tokenText
  split
  case h_1 => exact compact_of_figures (Text.figure_of_mem_hexDigits _ _)
  case h_2 => exact compact_of_all (by decide)

end Writing

section Components

theorem ofText_version (text : List Char) : Component.ofText ("Version=".toList ++ text) = .version text := by
  rfl

theorem ofText_culture (text : List Char) : Component.ofText ("Culture=".toList ++ text) = .culture text := by
  rfl

theorem ofText_token (text : List Char) : Component.ofText ("PublicKeyToken=".toList ++ text) = .token text := by
  rfl

/-- A culture is read from behind its label only. -/
theorem eq_of_ofText_eq_culture {text value : List Char} (hCulture : Component.ofText text = .culture value) :
    text = "Culture=".toList ++ value := by
  unfold Component.ofText at hCulture
  split at hCulture
  case h_1 => cases hCulture
  case h_2 =>
    split at hCulture
    case h_1 found hPrefix =>
      cases hCulture
      exact (List.isPrefixOf?_eq_some_iff_append_eq.mp hPrefix).symm
    case h_2 =>
      split at hCulture <;> cases hCulture

end Components

section Tokens

/-- Eight bytes in hexadecimal digits are read as they were. -/
theorem readToken_hexDigits (token : UInt64) : readToken (Text.hexDigits 16 token.toNat) = .ok token := by
  have hAscii : (Text.hexDigits 16 token.toNat).all (fun c => c.toNat < 128) = true := by
    have hFigure : ∀ d < 16, (Nat.digitChar d).toNat < 128 := by decide
    apply List.all_eq_true.mpr
    intro c hMem
    obtain ⟨d, hDigit, rfl⟩ := Text.figure_of_mem_hexDigits _ _ c hMem
    exact decide_eq_true (hFigure d hDigit)
  obtain ⟨bytes, hRead, hValue⟩ := Text.readHexBytes?_hexDigits 8 token.toNat
  have hToken : tokenOfBytes bytes = token := by
    have hBound : token.toNat < 256 ^ 8 := token.toNat_lt_size
    change UInt64.ofNat (Text.valueOfBytes bytes) = token
    rw [hValue, Nat.mod_eq_of_lt hBound, UInt64.ofNat_toNat]
  rw [readToken, if_pos ⟨Text.hexDigits_length _ _, hAscii⟩, hRead]
  exact congrArg Except.ok hToken

end Tokens

section RoundTrip

/-- Components are applied one after the other, as long as none is refused. -/
theorem foldlM_cons_eq_ok_iff {before after : AssemblyIdentity} {component : Component} {rest : List Component} :
    (component :: rest).foldlM apply before = .ok after ↔
      ∃ between, before.apply component = .ok between ∧ rest.foldlM apply between = .ok after := by
  rw [List.foldlM_cons]
  cases before.apply component with
  | error => exact ⟨nofun, nofun⟩
  | ok between =>
      constructor
      · intro hRest
        exact ⟨between, rfl, hRest⟩
      · rintro ⟨_, hFirst, hRest⟩
        cases hFirst
        exact hRest

variable {identity : AssemblyIdentity}

/-- A label and its value lose the blank in front of them, and nothing else. -/
theorem trim_labelled {label value : List Char} (hLabel : label.head?.map Text.isBlank = some false)
    (hValue : value ≠ []) (hEnd : ¬ Text.EndsBlank value) :
    Text.trim (' ' :: (label ++ value)) = label ++ value := by
  have hStart : ¬ Text.StartsBlank (label ++ value) := by
    cases label with
    | nil => cases hLabel
    | cons first rest => simpa [Text.StartsBlank] using hLabel
  rw [Text.trim_cons_of_blank (by decide)]
  exact Text.trim_of_not_blank hStart (mt (Text.endsBlank_append hValue).mp hEnd)

theorem compact_neutral : Compact "neutral".toList :=
  compact_of_all (by decide)

theorem shown_of_none (hAbsent : identity.culture = none) : identity.shown = "neutral".toList := by
  rw [shown, hAbsent]
  rfl

theorem shown_of_some {culture : String} (hCulture : identity.culture = some culture) :
    identity.shown = culture.toList := by
  rw [shown, hCulture]
  rfl

/-- What a displayable identity shows as its culture can be told apart from what stands around it. -/
theorem Displayable.shown (hDisplayable : identity.Displayable) :
    identity.shown ≠ [] ∧ ',' ∉ identity.shown ∧ ¬ Text.EndsBlank identity.shown := by
  cases hCulture : identity.culture with
  | none =>
      rw [shown_of_none hCulture]
      exact ⟨by decide, compact_neutral.comma, compact_neutral.not_endsBlank⟩
  | some culture =>
      have hSome : culture ≠ "" := by
        rintro rfl
        exact hDisplayable.culture_ne_empty hCulture
      rw [shown_of_some hCulture]
      exact ⟨by simpa using hSome, hDisplayable.culture_comma culture hCulture,
        hDisplayable.culture_end culture hCulture⟩

theorem Displayable.labelled_comma (hDisplayable : identity.Displayable) :
    ∀ piece ∈ identity.labelled.map (' ' :: ·), ',' ∉ piece := by
  obtain ⟨-, hShown, -⟩ := hDisplayable.shown
  simp [labelled, (compact_version identity.version).comma, identity.compact_token.comma, hShown]

/-- The components that the display form is read as. -/
theorem Displayable.components (hDisplayable : identity.Displayable) :
    (identity.labelled.map (' ' :: ·)).map (fun piece => Component.ofText (Text.trim piece)) =
      [.version identity.version.text.toList, .culture identity.shown, .token identity.tokenText] := by
  obtain ⟨hShown, -, hShownEnd⟩ := hDisplayable.shown
  have hVersion : identity.version.text.toList ≠ [] := by simp [Version.text_toList, Text.joined]
  have hToken : identity.tokenText ≠ [] := by
    unfold tokenText
    split <;> simp [Text.hexDigits]
  simp only [labelled, List.map_cons, List.map_nil]
  rw [trim_labelled (by decide) hVersion (compact_version identity.version).not_endsBlank,
    trim_labelled (by decide) hShown hShownEnd,
    trim_labelled (by decide) hToken identity.compact_token.not_endsBlank,
    ofText_version, ofText_culture, ofText_token]

theorem Displayable.apply_shown (hDisplayable : identity.Displayable) (other : AssemblyIdentity) :
    other.apply (.culture identity.shown) = .ok { other with culture := identity.culture } := by
  apply congrArg Except.ok
  cases hCulture : identity.culture with
  | none =>
      rw [shown_of_none hCulture]
      rfl
  | some culture =>
      have hKept : ¬ (culture = "neutral" ∨ culture = "") := by
        rintro (rfl | rfl)
        · exact hDisplayable.culture_ne_neutral hCulture
        · exact hDisplayable.culture_ne_empty hCulture
      rw [shown_of_some hCulture, String.ofList_toList, AssemblyIdentity.withCulture, if_neg hKept]

theorem apply_version (version : Version) (other : AssemblyIdentity) :
    other.apply (.version version.text.toList) = .ok { other with version } := by
  rw [apply, Version.ofText_text]
  rfl

theorem apply_tokenText {other : AssemblyIdentity} (hNone : other.publicKeyToken = none) :
    other.apply (.token identity.tokenText) = .ok { other with publicKeyToken := identity.publicKeyToken } := by
  cases hToken : identity.publicKeyToken with
  | none =>
      have hNull : identity.tokenText = "null".toList := by rw [tokenText, hToken]
      rw [apply, if_pos (Or.inl hNull), ← hNone]
      rfl
  | some token =>
      have hDigits : identity.tokenText = Text.hexDigits 16 token.toNat := by rw [tokenText, hToken]
      have hLength : identity.tokenText.length = 16 := by rw [hDigits, Text.hexDigits_length]
      have hPresent : ¬ (identity.tokenText = "null".toList ∨ identity.tokenText = []) := by
        rintro (hNull | hNil)
        · rw [hNull] at hLength
          exact absurd hLength (by decide)
        · rw [hNil] at hLength
          cases hLength
      rw [apply, if_neg hPresent, hDigits, readToken_hexDigits]
      rfl

/-- A displayable identity comes back from its display form. -/
theorem Displayable.ofDisplay_display (hDisplayable : identity.Displayable) :
    ofDisplay identity.display = .ok identity := by
  have hName : Text.trim identity.name.toList = identity.name.toList :=
    Text.trim_of_not_blank hDisplayable.name_start hDisplayable.name_end
  have hSome : identity.name.toList ≠ [] := by simpa using hDisplayable.name_ne_empty
  have hApplied : [.version identity.version.text.toList, .culture identity.shown,
      .token identity.tokenText].foldlM apply (plain identity.name Version.zero) = .ok identity :=
    foldlM_cons_eq_ok_iff.mpr ⟨_, apply_version _ _, foldlM_cons_eq_ok_iff.mpr ⟨_, hDisplayable.apply_shown _,
      foldlM_cons_eq_ok_iff.mpr ⟨_, apply_tokenText rfl, rfl⟩⟩⟩
  rw [ofDisplay, display_toList, Text.pieces_joined hDisplayable.name_comma hDisplayable.labelled_comma]
  simpa only [hName, if_neg hSome, hDisplayable.components, String.ofList_toList] using hApplied

end RoundTrip

section Invariant

variable {identity after : AssemblyIdentity}

theorem displayable_plain {name : List Char} {version : Version} (hSome : name ≠ []) (hComma : ',' ∉ name)
    (hStart : ¬ Text.StartsBlank name) (hEnd : ¬ Text.EndsBlank name) :
    (plain (String.ofList name) version).Displayable where
  name_ne_empty := by simpa [plain] using hSome
  name_comma := by simpa [plain] using hComma
  name_start := by simpa [plain] using hStart
  name_end := by simpa [plain] using hEnd
  culture_ne_empty := by simp [plain]
  culture_ne_neutral := by simp [plain]
  culture_comma := by simp [plain]
  culture_end := by simp [plain]

theorem Displayable.withCulture (hDisplayable : identity.Displayable) {culture : List Char}
    (hComma : ',' ∉ culture) (hEnd : ¬ Text.EndsBlank culture) :
    (identity.withCulture (String.ofList culture)).Displayable := by
  unfold AssemblyIdentity.withCulture
  split
  case isTrue =>
    exact { hDisplayable with
      culture_ne_empty := nofun
      culture_ne_neutral := nofun
      culture_comma := nofun
      culture_end := nofun }
  case isFalse hKept =>
    exact { hDisplayable with
      culture_ne_empty := fun h => hKept (Or.inr (Option.some.inj h))
      culture_ne_neutral := fun h => hKept (Or.inl (Option.some.inj h))
      culture_comma := by simpa using hComma
      culture_end := by simpa using hEnd }

/-- A culture that a component sets has no comma and does not end in white space. -/
def Component.Clean (component : Component) : Prop :=
  ∀ culture, component = .culture culture → ',' ∉ culture ∧ ¬ Text.EndsBlank culture

theorem Component.clean_ofText {piece : List Char} (hComma : ',' ∉ piece) :
    (Component.ofText (Text.trim piece)).Clean := by
  intro culture hCulture
  have hPiece := eq_of_ofText_eq_culture hCulture
  have hEnd := Text.not_endsBlank_trim piece
  rw [hPiece] at hEnd
  constructor
  · intro hMem
    exact hComma (Text.mem_of_mem_trim (hPiece ▸ List.mem_append_right _ hMem))
  · intro hBlank
    have hSome : culture ≠ [] := by
      rintro rfl
      obtain ⟨c, hLast, -⟩ := hBlank
      cases hLast
    exact hEnd ((Text.endsBlank_append hSome).mpr hBlank)

theorem Displayable.apply (hDisplayable : identity.Displayable) {component : Component} (hClean : component.Clean)
    (hApply : identity.apply component = .ok after) : after.Displayable := by
  cases component with
  | version text =>
      rw [AssemblyIdentity.apply] at hApply
      cases hVersion : Version.ofText text with
      | error => simp [hVersion] at hApply
      | ok version =>
          rw [hVersion] at hApply
          cases hApply
          exact { hDisplayable with }
  | culture text =>
      obtain ⟨hComma, hEnd⟩ := hClean text rfl
      cases hApply
      exact hDisplayable.withCulture hComma hEnd
  | token text =>
      rw [AssemblyIdentity.apply] at hApply
      split at hApply
      case isTrue =>
        cases hApply
        exact hDisplayable
      case isFalse =>
        cases hToken : readToken text with
        | error =>
            rw [hToken] at hApply
            cases hApply
        | ok token =>
            rw [hToken] at hApply
            cases hApply
            exact { hDisplayable with }
  | unknown =>
      cases hApply
      exact hDisplayable

theorem Displayable.foldlM_apply {components : List Component} (hDisplayable : identity.Displayable)
    (hClean : ∀ component ∈ components, component.Clean)
    (hApply : components.foldlM AssemblyIdentity.apply identity = .ok after) : after.Displayable := by
  induction components generalizing identity with
  | nil =>
      cases hApply
      exact hDisplayable
  | cons component rest ih =>
      obtain ⟨between, hFirst, hRest⟩ := foldlM_cons_eq_ok_iff.mp hApply
      have hBetween := hDisplayable.apply (hClean component List.mem_cons_self) hFirst
      exact ih hBetween (fun other hOther => hClean other (List.mem_cons_of_mem _ hOther)) hRest

/-- What is read from a text is displayable. -/
theorem displayable_of_ofDisplay {text : String} (hRead : ofDisplay text = .ok identity) :
    identity.Displayable := by
  obtain ⟨hFirst, hOthers⟩ := Text.not_mem_of_mem_pieces ',' text.toList
  dsimp only [ofDisplay] at hRead
  split at hRead
  case isTrue => cases hRead
  case isFalse hSome =>
    have hName : (plain (String.ofList (Text.trim (Text.pieces ',' text.toList).1)) Version.zero).Displayable :=
      displayable_plain hSome (mt Text.mem_of_mem_trim hFirst) (Text.not_startsBlank_trim _)
        (Text.not_endsBlank_trim _)
    exact hName.foldlM_apply
      (List.forall_mem_map.mpr fun piece hPiece => Component.clean_ofText (hOthers piece hPiece)) hRead

end Invariant

/-- An identity comes back from its display form exactly if it is displayable, and so does every identity
that is read from a text. -/
theorem ofDisplay_display_iff (identity : AssemblyIdentity) :
    (ofDisplay identity.display = .ok identity ↔ identity.Displayable) ∧
      ∀ text, ofDisplay text = .ok identity →
        identity.Displayable ∧ ofDisplay identity.display = .ok identity := by
  have hBack : ofDisplay identity.display = .ok identity ↔ identity.Displayable :=
    ⟨displayable_of_ofDisplay, Displayable.ofDisplay_display⟩
  refine ⟨hBack, ?_⟩
  intro text hRead
  have hDisplayable := displayable_of_ofDisplay hRead
  exact ⟨hDisplayable, hBack.mpr hDisplayable⟩

/-- Only the white space around a component is removed, not that behind its label. -/
example : (ofDisplay "Tools , Culture= en ").toOption =
    some { plain "Tools" Version.zero with culture := some " en" } := by
  decide

end AssemblyIdentity

end CliSignature
