import CliSignature.Proofs.Assembly.DisplayForm
import CliSignature.Proofs.RelatedLists
import Mathlib.Data.List.Perm.Basic

/-!
The order of the components of a display form. A component sets one field of the identity or none, and what it sets
does not depend on the other fields. So if no two components are for the same field, they may stand in any order
and with any white space around them, and those that are for no field may be left out.
-/

namespace CliSignature.AssemblyIdentity

/-- What components set. -/
inductive Field where
  | version
  | culture
  | token
deriving DecidableEq, Repr

namespace Field

/-- What a component for the field starts with. -/
def label : Field → List Char
  | version => "Version=".toList
  | culture => "Culture=".toList
  | token => "PublicKeyToken=".toList

/-- The component is for the field: it starts with the label, but for white space. -/
def isSetBy (field : Field) (piece : List Char) : Bool :=
  field.label.isPrefixOf (Text.trim piece)

end Field

/-- A field and its value. -/
inductive Setting where
  | version (version : Version)
  | culture (culture : Option String)
  | token (token : UInt64)

namespace Setting

def field : Setting → Field
  | version _ => .version
  | culture _ => .culture
  | token _ => .token

def applyTo (identity : AssemblyIdentity) : Setting → AssemblyIdentity
  | version value => { identity with version := value }
  | culture value => { identity with culture := value }
  | token value => identity.withToken value

/-- Different fields may be set in any order. -/
theorem applyTo_comm {first second : Setting} (hFields : first.field ≠ second.field) (identity : AssemblyIdentity) :
    first.applyTo (second.applyTo identity) = second.applyTo (first.applyTo identity) := by
  cases first <;> cases second <;> simp_all [field, applyTo, withToken]

end Setting

/-- The identity with one field set or none. -/
def set (identity : AssemblyIdentity) : Option Setting → AssemblyIdentity
  | none => identity
  | some setting => setting.applyTo identity

namespace Component

/-- The field that a component sets, even if it sets it to nothing or to what it cannot be. -/
def field? : Component → Option Field
  | version _ => some .version
  | culture _ => some .culture
  | token _ => some .token
  | unknown => none

theorem eq_unknown_of_field? {component : Component} (hNone : component.field? = none) : component = unknown := by
  cases component with
  | unknown => rfl
  | version | culture | token => cases hNone

/-- The component that is read from a piece of a display form. -/
def ofPiece (piece : List Char) : Component :=
  ofText (Text.trim piece)

/-- What a component sets, if anything. This does not depend on the identity. -/
def setting : Component → Except DisplayError (Option Setting)
  | version text => (fun version => some (.version version)) <$> Version.ofText text
  | culture text =>
    pure (some (.culture (if String.ofList text = "neutral" ∨ String.ofList text = "" then none
      else some (String.ofList text))))
  | token text =>
    if text = "null".toList ∨ text = [] then pure none
    else (fun token => some (.token token)) <$> readToken text
  | unknown => pure none

theorem apply_eq_setting (identity : AssemblyIdentity) (component : Component) :
    identity.apply component = identity.set <$> component.setting := by
  cases component with
  | version text =>
      rw [apply, setting]
      cases Version.ofText text <;> rfl
  | culture text => rfl
  | token text =>
      rw [apply, setting]
      split
      case isTrue => rfl
      case isFalse => cases readToken text <;> rfl
  | unknown => rfl

/-- A component sets no other field than its own. -/
theorem field?_eq_of_setting {component : Component} {setting : Setting}
    (hSetting : component.setting = .ok (some setting)) : component.field? = some setting.field := by
  cases component with
  | version text =>
      rw [Component.setting] at hSetting
      cases hVersion : Version.ofText text with
      | error => simp [hVersion] at hSetting
      | ok version =>
          rw [hVersion] at hSetting
          cases hSetting
          rfl
  | culture text =>
      cases hSetting
      rfl
  | token text =>
      rw [Component.setting] at hSetting
      split at hSetting
      case isTrue => cases hSetting
      case isFalse =>
        cases hToken : readToken text with
        | error => simp [hToken] at hSetting
        | ok token =>
            rw [hToken] at hSetting
            cases hSetting
            rfl
  | unknown => cases hSetting

/-- Two components for different fields may change places. If one of them is refused, so it is in the other place. -/
theorem apply_comm {first second : Component} (hFields : first.field? ≠ second.field?) (identity : AssemblyIdentity) :
    ((identity.apply first).bind (·.apply second)).toOption =
      ((identity.apply second).bind (·.apply first)).toOption := by
  simp only [apply_eq_setting]
  cases hFirst : first.setting with
  | error => cases second.setting <;> rfl
  | ok set =>
      cases hSecond : second.setting with
      | error => rfl
      | ok set' =>
          cases set with
          | none => rfl
          | some setting =>
              cases set' with
              | none => rfl
              | some setting' =>
                  rw [field?_eq_of_setting hFirst, field?_eq_of_setting hSecond] at hFields
                  have hOther : setting.field ≠ setting'.field := fun hSame => hFields (congrArg some hSame)
                  exact congrArg some (Setting.applyTo_comm hOther.symm identity)

theorem field?_ofText (text : List Char) :
    (ofText text).field? =
      if Field.version.label.isPrefixOf text then some .version
      else if Field.culture.label.isPrefixOf text then some .culture
      else if Field.token.label.isPrefixOf text then some .token
      else none := by
  simp only [← List.isSome_isPrefixOf?_eq_isPrefixOf]
  unfold ofText Field.label
  cases "Version=".toList.isPrefixOf? text with
  | some => rfl
  | none =>
      cases "Culture=".toList.isPrefixOf? text with
      | some => rfl
      | none => cases "PublicKeyToken=".toList.isPrefixOf? text <;> rfl

theorem isSetBy_of_field? {piece : List Char} {field : Field} (hField : (ofPiece piece).field? = some field) :
    field.isSetBy piece = true := by
  rw [ofPiece, field?_ofText] at hField
  split at hField
  case isTrue hLabel => cases hField; exact hLabel
  case isFalse =>
    split at hField
    case isTrue hLabel => cases hField; exact hLabel
    case isFalse =>
      split at hField
      case isTrue hLabel => cases hField; exact hLabel
      case isFalse => cases hField

theorem ofPiece_eq_unknown {piece : List Char} (hOther : ∀ field : Field, field.isSetBy piece = false) :
    ofPiece piece = unknown := by
  cases hPiece : ofPiece piece with
  | unknown => rfl
  | version | culture | token =>
      have hSet := isSetBy_of_field? (congrArg field? hPiece)
      rw [hOther] at hSet
      cases hSet

end Component

section Folding

/-- One more component, after what came before it has given an identity or has been refused. -/
def step (found : Option AssemblyIdentity) (component : Component) : Option AssemblyIdentity :=
  found.bind fun identity => (identity.apply component).toOption

theorem toOption_bind {ε α β : Type} (result : Except ε α) (next : α → Except ε β) :
    (result.bind next).toOption = result.toOption.bind fun value => (next value).toOption := by
  cases result <;> rfl

theorem foldl_step_none (components : List Component) : components.foldl step none = none := by
  induction components with
  | nil => rfl
  | cons component components ih => exact ih

theorem toOption_foldlM_apply (components : List Component) (identity : AssemblyIdentity) :
    (components.foldlM apply identity).toOption = components.foldl step (some identity) := by
  induction components generalizing identity with
  | nil => rfl
  | cons component components ih =>
      rw [List.foldlM_cons, List.foldl_cons]
      change ((identity.apply component).bind _).toOption = components.foldl step (identity.apply component).toOption
      cases identity.apply component with
      | error => exact (foldl_step_none components).symm
      | ok changed => exact ih changed

theorem step_comm {first second : Component} (hFields : first = second ∨ first.field? ≠ second.field?)
    (found : Option AssemblyIdentity) : step (step found first) second = step (step found second) first := by
  rcases hFields with rfl | hFields
  · rfl
  · cases found with
    | none => rfl
    | some identity =>
        have hComm := Component.apply_comm hFields identity
        rwa [toOption_bind, toOption_bind] at hComm

/-- Components for different fields give the same in every order. -/
theorem foldlM_apply_perm {components others : List Component} (hPerm : components.Perm others)
    (hFields : ∀ first ∈ components, ∀ second ∈ components, first = second ∨ first.field? ≠ second.field?)
    (identity : AssemblyIdentity) :
    (components.foldlM apply identity).toOption = (others.foldlM apply identity).toOption := by
  rw [toOption_foldlM_apply, toOption_foldlM_apply]
  exact hPerm.foldl_eq' (fun first hFirst second hSecond found => step_comm (hFields first hFirst second hSecond) found)
    (some identity)

end Folding

section Listings

/-- The display form with the given components behind the name. -/
def listing (name : List Char) (components : List (List Char)) : String :=
  String.ofList (Text.joined ',' name components)

/-- Components are applied to what the name alone is read as. -/
theorem ofDisplay_listing (name : List Char) {components : List (List Char)}
    (hComma : ∀ piece ∈ components, ',' ∉ piece) :
    ofDisplay (listing name components) =
      (ofDisplay (String.ofList name)).bind fun identity =>
        (components.map Component.ofPiece).foldlM apply identity := by
  dsimp only [ofDisplay, listing]
  rw [String.toList_ofList, String.toList_ofList, Text.pieces_joined_others name hComma]
  split
  case isTrue => rfl
  case isFalse =>
    rw [List.map_append, List.foldlM_append]
    rfl

/-- The components in any order, with any white space around each. -/
def Arranged (components arranged : List (List Char)) : Prop :=
  ∃ permuted, components.Perm permuted ∧ List.Forall₂ Text.Padded permuted arranged

/-- Whether the component is for a field. -/
def isKnown (piece : List Char) : Bool :=
  Field.version.isSetBy piece || Field.culture.isSetBy piece || Field.token.isSetBy piece

variable {components arranged : List (List Char)}

theorem Arranged.comma (hArranged : Arranged components arranged) (hComma : ∀ piece ∈ components, ',' ∉ piece) :
    ∀ piece ∈ arranged, ',' ∉ piece := by
  obtain ⟨permuted, hPerm, hPadded⟩ := hArranged
  exact forall_of_forall₂ hPadded fun piece hMem padded hPiece =>
    hPiece.not_mem (by decide) (hComma piece (hPerm.mem_iff.mpr hMem))

/-- White space around a component is not part of what is read. -/
theorem Arranged.perm (hArranged : Arranged components arranged) :
    (components.map Component.ofPiece).Perm (arranged.map Component.ofPiece) := by
  obtain ⟨permuted, hPerm, hPadded⟩ := hArranged
  have hRead : permuted.map Component.ofPiece = arranged.map Component.ofPiece :=
    map_eq_map_of_forall₂ (hPadded.imp fun piece padded hPiece => congrArg Component.ofText hPiece.trim_eq.symm)
  rw [← hRead]
  exact hPerm.map _

/-- Elements with a property that one element has at most are the same. -/
theorem eq_of_countP_le_one {α : Type} {p : α → Bool} {xs : List α} (hCount : xs.countP p ≤ 1) {x y : α} (hx : x ∈ xs)
    (hpx : p x = true) (hy : y ∈ xs) (hpy : p y = true) : x = y := by
  rw [List.countP_eq_length_filter] at hCount
  have hFirst := List.mem_filter.mpr ⟨hx, hpx⟩
  have hSecond := List.mem_filter.mpr ⟨hy, hpy⟩
  cases hKept : xs.filter p with
  | nil =>
      rw [hKept] at hFirst
      cases hFirst
  | cons only rest =>
      have hRest : rest = [] := List.length_eq_zero_iff.mp (by simpa [hKept] using hCount)
      rw [hKept, hRest, List.mem_singleton] at hFirst hSecond
      rw [hFirst, hSecond]

/-- If there is one component at most for each field, any two are the same or for different fields. -/
theorem distinct_fields (hOnce : ∀ field : Field, components.countP field.isSetBy ≤ 1) :
    ∀ first ∈ components.map Component.ofPiece, ∀ second ∈ components.map Component.ofPiece,
      first = second ∨ first.field? ≠ second.field? := by
  refine List.forall_mem_map.mpr fun piece hPiece => List.forall_mem_map.mpr fun other hOther => ?_
  by_cases hSame : piece = other
  · exact .inl (congrArg Component.ofPiece hSame)
  · cases hField : (Component.ofPiece piece).field? with
    | none =>
        by_cases hNone : (Component.ofPiece other).field? = none
        · exact .inl ((Component.eq_unknown_of_field? hField).trans (Component.eq_unknown_of_field? hNone).symm)
        · exact .inr (Ne.symm hNone)
    | some field =>
        refine .inr fun hOtherField => hSame ?_
        exact eq_of_countP_le_one (hOnce field) hPiece (Component.isSetBy_of_field? hField) hOther
          (Component.isSetBy_of_field? hOtherField.symm)

/-- Components that are for no field change nothing. -/
theorem foldlM_apply_filter (components : List (List Char)) (identity : AssemblyIdentity) :
    ((components.filter isKnown).map Component.ofPiece).foldlM apply identity =
      (components.map Component.ofPiece).foldlM apply identity := by
  induction components generalizing identity with
  | nil => rfl
  | cons piece components ih =>
      cases hKnown : isKnown piece with
      | true =>
          rw [List.filter_cons_of_pos hKnown, List.map_cons, List.map_cons, List.foldlM_cons, List.foldlM_cons]
          exact congrArg (identity.apply (Component.ofPiece piece) >>= ·) (funext ih)
      | false =>
          have hUnknown : Component.ofPiece piece = .unknown := Component.ofPiece_eq_unknown fun field => by
            simp only [isKnown, Bool.or_eq_false_iff] at hKnown
            cases field with
            | version => exact hKnown.1.1
            | culture => exact hKnown.1.2
            | token => exact hKnown.2
          rw [List.filter_cons_of_neg (Bool.eq_false_iff.mp hKnown), List.map_cons, List.foldlM_cons, hUnknown, ih]
          rfl

/-- What is read does not depend on the order of the components or on the white space around them, as long as there is
one at most for each field: either all arrangements are refused or all give the same identity. Components that are for
no field may be left out. -/
theorem components_commute (name : List Char) (hComma : ∀ piece ∈ components, ',' ∉ piece)
    (hOnce : ∀ field : Field, components.countP field.isSetBy ≤ 1) (hArranged : Arranged components arranged) :
    (ofDisplay (listing name arranged)).toOption = (ofDisplay (listing name components)).toOption ∧
      ofDisplay (listing name (arranged.filter isKnown)) = ofDisplay (listing name arranged) := by
  have hOthers := hArranged.comma hComma
  constructor
  · rw [ofDisplay_listing name hOthers, ofDisplay_listing name hComma, toOption_bind, toOption_bind]
    exact congrArg _ (funext fun identity => (foldlM_apply_perm hArranged.perm (distinct_fields hOnce) identity).symm)
  · rw [ofDisplay_listing name hOthers,
      ofDisplay_listing name fun piece hMem => hOthers piece (List.mem_of_mem_filter hMem)]
    exact congrArg _ (funext (foldlM_apply_filter arranged))

/-- A version, a component that is for no field, and a culture. -/
def written : List (List Char) :=
  ["Version=1.2".toList, "Retargetable=Yes".toList, "Culture=en".toList]

/-- The same in another order, with a blank before the one and behind the other. -/
def rewritten : List (List Char) :=
  [" Culture=en".toList, "Version=1.2 ".toList, "Retargetable=Yes".toList]

theorem components_commute_rewritten :
    (∀ piece ∈ written, ',' ∉ piece) ∧ (∀ field : Field, written.countP field.isSetBy ≤ 1) ∧
      Arranged written rewritten ∧
      (ofDisplay (listing "Tools".toList rewritten)).toOption = (ofDisplay (listing "Tools".toList written)).toOption ∧
      (ofDisplay (listing "Tools".toList written)).toOption =
        some { plain "Tools" ⟨1, 2, 0, 0⟩ with culture := some "en" } := by
  have hComma : ∀ piece ∈ written, ',' ∉ piece := by decide
  have hOnce : ∀ field : Field, written.countP field.isSetBy ≤ 1 := by
    intro field
    cases field <;> decide
  have hNone : ∀ c ∈ ([] : List Char), Text.isBlank c = true := List.forall_mem_nil _
  have hBlank : ∀ c ∈ [' '], Text.isBlank c = true := List.forall_mem_singleton.mpr (by decide)
  have hArranged : Arranged written rewritten :=
    ⟨["Culture=en".toList, "Version=1.2".toList, "Retargetable=Yes".toList], by decide,
      .cons ⟨[' '], [], hBlank, hNone, rfl⟩ (.cons ⟨[], [' '], hNone, hBlank, rfl⟩
        (.cons ⟨[], [], hNone, hNone, rfl⟩ .nil))⟩
  exact ⟨hComma, hOnce, hArranged, (components_commute "Tools".toList hComma hOnce hArranged).1, by decide⟩

end Listings

end CliSignature.AssemblyIdentity
