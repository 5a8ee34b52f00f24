import CliSignature.Proofs.Counterparts.Name
import CliSignature.Proofs.Erasure.Owner
import CliSignature.Proofs.Name.VisitBudget

/-!
A type without markers has the same names in the spelling of reflection. Reflection visits a marker and then
its child, but the marker itself gives no text. So the names of the type without markers need no more visits and
no more levels, and where no limit is hit with markers the texts are the same.
-/

namespace CliSignature

open NameEvent (admissions textOf)

/-- The arguments of an instantiation. -/
def Node.args : Node → List NodeId
  | genericInst _ args => args
  | _ => []

variable {R : Option NodeId → Option NodeId → Prop} {formatter : NameFormatter}

theorem Subject.Corresponds.refl (hRefl : ∀ slot, R slot slot) (subject : Subject) :
    subject.Corresponds R subject := by
  cases subject with
  | slot slot => exact .slot (hRefl slot)
  | type token => exact .type token

/-! ### Corresponding parts -/

/-- Parts of names that differ in nothing but corresponding subjects. -/
inductive NamePart.Corresponds (R : Option NodeId → Option NodeId → Prop) : NamePart → NamePart → Prop where
  | text (content : String) : Corresponds R (.text content) (.text content)
  | visit {subject subject' : Subject} (hSame : subject.Corresponds R subject') (isQualified : Bool) :
      Corresponds R (.visit subject isQualified) (.visit subject' isQualified)
  | unlessSpent (content : String) : Corresponds R (.unlessSpent content) (.unlessSpent content)

theorem forall₂_intercalate {α β : Type} {P : α → β → Prop} {separator : List α} {separator' : List β}
    (hSeparator : List.Forall₂ P separator separator') {items : List (List α)} {items' : List (List β)}
    (hItems : List.Forall₂ (List.Forall₂ P) items items') :
    List.Forall₂ P (separator.intercalate items) (separator'.intercalate items') := by
  induction hItems with
  | nil => exact .nil
  | cons hFirst hRest ih =>
      cases hRest with
      | nil => simpa using hFirst
      | cons =>
          rw [List.intercalate_cons_cons, List.intercalate_cons_cons]
          exact List.rel_append (List.rel_append hFirst hSeparator) ih

namespace NamePart

theorem Corresponds.refl (hRefl : ∀ slot, R slot slot) (part : NamePart) : part.Corresponds R part := by
  cases part with
  | text content => exact .text content
  | visit subject isQualified => exact .visit (.refl hRefl subject) isQualified
  | unlessSpent content => exact .unlessSpent content

theorem corresponds_ofAssemblyQualified {a b : NodeId} (hSame : R (some a) (some b))
    (hSuffix : formatter.assemblySuffix? a = formatter.assemblySuffix? b) :
    List.Forall₂ (Corresponds R) (ofAssemblyQualified formatter a) (ofAssemblyQualified formatter b) := by
  rw [ofAssemblyQualified, ofAssemblyQualified, hSuffix]
  refine .cons (.visit (.slot hSame) true) ?_
  cases formatter.assemblySuffix? b with
  | none => exact .nil
  | some suffix => exact .cons (.unlessSpent suffix) .nil

section Reflection

variable (hStyle : formatter.style = .reflection)

include hStyle

theorem corresponds_ofArguments {args args' : List NodeId}
    (hArgs : List.Forall₂ (fun a b => R (some a) (some b) ∧
      formatter.assemblySuffix? a = formatter.assemblySuffix? b) args args') :
    List.Forall₂ (Corresponds R) (ofArguments formatter args) (ofArguments formatter args') := by
  have hClose : List.Forall₂ (Corresponds R) [.text "]"] [.text "]"] := .cons (.text "]") .nil
  simp only [ofArguments, hStyle]
  refine .cons (.text "[") (List.rel_append (forall₂_intercalate (.cons (.text ",") .nil) ?_) hClose)
  rw [List.forall₂_map_left_iff, List.forall₂_map_right_iff]
  exact hArgs.imp fun a b hBoth =>
    .cons (.text "[") (List.rel_append (corresponds_ofAssemblyQualified hBoth.1 hBoth.2) hClose)

/-- Reflection shows corresponding nodes alike, if it finds the same assemblies for their arguments. -/
theorem corresponds_ofNode (isQualified : Bool) {left right : Node} (hNodes : left.Corresponds R right)
    (hSuffix : ∀ a ∈ left.args, ∀ b, R (some a) (some b) →
      formatter.assemblySuffix? a = formatter.assemblySuffix? b) :
    List.Forall₂ (Corresponds R) (ofNode formatter isQualified left) (ofNode formatter isQualified right) := by
  have hInside {child child' : Option NodeId} (hChild : R child child') :
      Corresponds R (.visit (.slot child) isQualified) (.visit (.slot child') isQualified) :=
    .visit (.slot hChild) isQualified
  cases hNodes with
  | named kind token => exact .cons (.visit (.type token) isQualified) .nil
  | primitive | sentinel => exact .cons (.text _) .nil
  | genericParam owner => cases owner <;> exact .cons (.text _) .nil
  | functionPointer =>
      simp only [ofNode, ofFunctionPointer, hStyle]
      exact .cons (.text _) .nil
  | genericInst hDefinition hArgs =>
      refine .cons (hInside hDefinition) (corresponds_ofArguments hStyle ?_)
      refine ((List.forall₂_and_left _ _).mpr ⟨fun a hMem => hMem, hArgs⟩).imp ?_
      exact fun a b hBoth => ⟨hBoth.2, hSuffix a hBoth.1 b hBoth.2⟩
  | wrapper _ hChild | array _ hChild | valueArray _ hChild => exact .cons (hInside hChild) (.cons (.text _) .nil)
  | modified _ _ hChild =>
      simp only [ofNode, ofModifier, hStyle]
      exact .cons (hInside hChild) .nil
  | moduleQualified _ hChild => exact .cons (.text _) (.cons (hInside hChild) .nil)

/-- What looks alike is shown alike. -/
theorem corresponds_ofSubject (isQualified : Bool) {a b : Option NodeId}
    (hAlike : formatter.arena.LooksAlike formatter.arena R a b)
    (hSuffix : ∀ {id node}, formatter.arena.resolve? a = some (id, node) → ∀ arg ∈ node.args, ∀ other,
      R (some arg) (some other) → formatter.assemblySuffix? arg = formatter.assemblySuffix? other) :
    List.Forall₂ (Corresponds R) (ofSubject formatter (.slot a) isQualified)
      (ofSubject formatter (.slot b) isQualified) := by
  cases hAlike with
  | absent hFirst hSecond =>
      simp only [ofSubject, hFirst, hSecond]
      exact .nil
  | nodes hLeft hRight hNodes =>
      simp only [ofSubject, hLeft, hRight]
      exact corresponds_ofNode hStyle isQualified hNodes (hSuffix hLeft)

end Reflection

end NamePart

/-! ### Fewer visits -/

/-- The second events put the same text into a name as the first, and visit no more. -/
structure Shortens (events shorter : List NameEvent) : Prop where
  text : textOf shorter = textOf events
  visits : admissions shorter ≤ admissions events

namespace Shortens

variable {events shorter : List NameEvent}

theorem refl (events : List NameEvent) : Shortens events events :=
  ⟨rfl, Nat.le_refl _⟩

theorem append {others shorter' : List NameEvent} (hFront : Shortens events shorter)
    (hBack : Shortens others shorter') : Shortens (events ++ others) (shorter ++ shorter') where
  text := by rw [NameEvent.textOf_append, NameEvent.textOf_append, hFront.text, hBack.text]
  visits := by
    rw [NameEvent.admissions_append, NameEvent.admissions_append]
    exact Nat.add_le_add hFront.visits hBack.visits

theorem admitted (hShortens : Shortens events shorter) (subject subject' : Subject) :
    Shortens (.admitted subject :: events) (.admitted subject' :: shorter) where
  text := by simpa using hShortens.text
  visits := by simpa using hShortens.visits

/-- A visit that gives no text but that of a visit behind it can be left out. -/
theorem skip {silent : List NameEvent} (hShortens : Shortens events shorter) (hSilent : textOf silent = "")
    (subject : Subject) : Shortens (.admitted subject :: (events ++ silent)) shorter where
  text := by simp [NameEvent.textOf_append, hSilent, hShortens.text]
  visits := by
    have hVisits := hShortens.visits
    simp only [NameEvent.admissions_admitted, NameEvent.admissions_append]
    omega

/-- Names of corresponding parts are shortened where their visits are. -/
theorem flatMap_events {inner inner' : Subject → Bool → List NameEvent} {parts parts' : List NamePart}
    (hParts : List.Forall₂ (NamePart.Corresponds R) parts parts')
    (hInner : ∀ subject subject' isQualified, .visit subject isQualified ∈ parts →
      subject.Corresponds R subject' → Shortens (inner subject isQualified) (inner' subject' isQualified)) :
    Shortens (parts.flatMap (NamePart.events inner)) (parts'.flatMap (NamePart.events inner')) := by
  induction hParts with
  | nil => exact .refl []
  | cons hPart _ ih =>
      refine .append ?_ (ih fun subject subject' isQualified hMem =>
        hInner subject subject' isQualified (List.mem_cons_of_mem _ hMem))
      cases hPart with
      | text | unlessSpent => exact .refl _
      | visit hSame isQualified => exact hInner _ _ isQualified (List.mem_cons_self ..) hSame

end Shortens

/-! ### Limits that are not hit -/

namespace NameFormatter

/-- Whether the bound on walks keeps a name from showing the assembly that defines a type. -/
def AssemblyIsCut (formatter : NameFormatter) (id : NodeId) : Prop :=
  (OwnerQuery.definingAssembly formatter.types).IsCut formatter.arena formatter.types formatter.limits (.node id)

theorem assemblySuffix?_eq_of_erasesTo {x y : NodeId} (hErased : formatter.arena.ErasesTo (some x) (some y))
    (hUncut : ¬ formatter.AssemblyIsCut x) : formatter.assemblySuffix? x = formatter.assemblySuffix? y := by
  rw [assemblySuffix?, assemblySuffix?, OwnerQuery.resolve?_eq_of_erasesTo hErased hUncut]

/-- What happens without a limit in its way: nothing is too deep, and the assembly of an argument is found
if there is one. -/
structure Unlimited (formatter : NameFormatter) (events : List NameEvent) : Prop where
  shallow : ∀ deep, .tooDeep deep ∉ events
  uncut : ∀ {slot id node}, .admitted (.slot slot) ∈ events → formatter.arena.resolve? slot = some (id, node) →
    ∀ arg ∈ node.args, ¬ formatter.AssemblyIsCut arg

theorem Unlimited.of_subset {events others : List NameEvent} (hEvents : formatter.Unlimited events)
    (hSubset : others ⊆ events) : formatter.Unlimited others where
  shallow deep hDeep := hEvents.shallow deep (hSubset hDeep)
  uncut hVisit hNode := hEvents.uncut (hSubset hVisit) hNode

variable {subject subject' : Subject} {isQualified : Bool} {levels more : Nat}

/-- What happens in a visit happens within the visit that leads to it. -/
theorem eventsWithin_subset {next : Subject} {nextQualified : Bool}
    (hPart : .visit next nextQualified ∈ NamePart.ofSubject formatter subject isQualified) :
    formatter.eventsWithin levels next nextQualified ⊆ formatter.eventsWithin (levels + 1) subject isQualified :=
  fun _ hEvent => List.mem_cons_of_mem _ (List.mem_flatMap.mpr ⟨_, hPart, hEvent⟩)

section Reflection

variable (hStyle : formatter.style = .reflection)

include hStyle

/-- Reflection shows a marker as its child. -/
theorem ofSubject_marker {slot : Option NodeId} {id : NodeId} {node : Node}
    (hNode : formatter.arena.resolve? slot = some (id, node)) (hMarker : node.isMarker = true)
    (isQualified : Bool) :
    ∃ silent, NamePart.ofSubject formatter (.slot slot) isQualified =
        .visit (.slot node.child?) isQualified :: silent ∧
      ∀ inner, textOf (silent.flatMap (NamePart.events inner)) = "" := by
  simp only [NamePart.ofSubject, hNode]
  cases node with
  | modified => exact ⟨[], by simp [NamePart.ofNode, NamePart.ofModifier, hStyle, Node.child?], fun _ => rfl⟩
  | wrapper kind child =>
      cases kind with
      | pinned => exact ⟨[.text ""], by simp [NamePart.ofNode, WrapperKind.suffix, hStyle, Node.child?], fun _ => rfl⟩
      | pointer | byRef | vector => cases hMarker
  | _ => cases hMarker

/-- By induction on the levels of the type with markers. Where a marker is left out the type without it has
one level more, so the levels of the two are only compared. -/
theorem shortens_eventsWithin (hLevels : levels ≤ more)
    (hSame : subject.Corresponds formatter.arena.ErasesTo subject')
    (hUnlimited : formatter.Unlimited (formatter.eventsWithin levels subject isQualified)) :
    Shortens (formatter.eventsWithin levels subject isQualified)
      (formatter.eventsWithin more subject' isQualified) := by
  induction levels generalizing more subject subject' isQualified with
  | zero => exact absurd (List.mem_singleton.mpr rfl) (hUnlimited.shallow subject)
  | succ levels ih =>
      have hInner {next next' : Subject} {nextQualified : Bool} {more : Nat} (hMore : levels ≤ more)
          (hPart : .visit next nextQualified ∈ NamePart.ofSubject formatter subject isQualified)
          (hNext : next.Corresponds formatter.arena.ErasesTo next') :
          Shortens (formatter.eventsWithin levels next nextQualified)
            (formatter.eventsWithin more next' nextQualified) :=
        ih hMore hNext (hUnlimited.of_subset (eventsWithin_subset hPart))
      obtain ⟨more, rfl⟩ : ∃ fewer, more = fewer + 1 := ⟨more - 1, by omega⟩
      have hParts (hCorrespond : List.Forall₂ (NamePart.Corresponds formatter.arena.ErasesTo)
            (NamePart.ofSubject formatter subject isQualified)
            (NamePart.ofSubject formatter subject' isQualified)) :
          Shortens (formatter.eventsWithin (levels + 1) subject isQualified)
            (formatter.eventsWithin (more + 1) subject' isQualified) :=
        .admitted (.flatMap_events hCorrespond fun _ _ _ => hInner (Nat.le_of_succ_le_succ hLevels)) _ _
      cases hSame with
      | type token => exact hParts (List.forall₂_same.mpr fun part _ => .refl .refl part)
      | slot hErased =>
          cases hErased.looksErased with
          | marker hNode hMarker hBehind =>
              -- The child is visited one level deeper here, where the other type is still at its top.
              obtain ⟨silent, hMarked, hSilent⟩ := ofSubject_marker hStyle hNode hMarker isQualified
              have hChild := hInner (Nat.le_of_succ_le hLevels) (hMarked ▸ List.mem_cons_self ..)
                (.slot (.of_looksErased hBehind))
              rw [eventsWithin, hMarked, List.flatMap_cons]
              exact hChild.skip (hSilent _) _
          | alike hAlike =>
              refine hParts (NamePart.corresponds_ofSubject hStyle isQualified hAlike ?_)
              intro id node hNode arg hArg other hRelated
              exact assemblySuffix?_eq_of_erasesTo hRelated
                (hUnlimited.uncut (List.mem_cons_self ..) hNode arg hArg)

end Reflection

end NameFormatter

namespace NameQuery

/-- The types whose assembly reflection looks up for an answer: the type that is asked for if its assembly is
to follow its name, and the arguments of every instantiation that is visited. -/
inductive LooksUp (formatter : NameFormatter) : NameQuery → NodeId → Prop where
  | itself (id : NodeId) : LooksUp formatter (.assemblyQualifiedName id) id
  | argument {query : NameQuery} {slot : Option NodeId} {id arg : NodeId} {node : Node}
      (hVisit : .admitted (.slot slot) ∈ query.journal formatter)
      (hNode : formatter.arena.resolve? slot = some (id, node)) (hArg : arg ∈ node.args) :
      LooksUp formatter query arg

/-- An answer in the spelling of reflection for which no limit is hit: not that on nesting or on visits, and
not that on the walks to assemblies. -/
structure HitsNoLimit (formatter : NameFormatter) (query : NameQuery) : Prop where
  whole : query.IsWhole formatter
  uncut : ∀ id, query.LooksUp formatter id → ¬ formatter.AssemblyIsCut id

/-- Queries of one kind for corresponding types. -/
inductive Corresponds (R : Option NodeId → Option NodeId → Prop) : NameQuery → NameQuery → Prop where
  | name {x y : NodeId} (hSame : R (some x) (some y)) : Corresponds R (.name x) (.name y)
  | fullName {x y : NodeId} (hSame : R (some x) (some y)) : Corresponds R (.fullName x) (.fullName y)
  | assemblyQualifiedName {x y : NodeId} (hSame : R (some x) (some y)) :
      Corresponds R (.assemblyQualifiedName x) (.assemblyQualifiedName y)

variable {query query' : NameQuery}

theorem HitsNoLimit.unlimited (hFree : query.HitsNoLimit formatter) :
    formatter.Unlimited (query.events formatter) := by
  rw [← journal_of_le hFree.whole.admissions_le]
  exact ⟨hFree.whole.not_tooDeep, fun hVisit hNode _ hArg => hFree.uncut _ (.argument hVisit hNode hArg)⟩

theorem Corresponds.parts (hSame : query.Corresponds formatter.arena.ErasesTo query')
    (hFree : query.HitsNoLimit formatter) :
    List.Forall₂ (NamePart.Corresponds formatter.arena.ErasesTo) (query.parts formatter)
      (query'.parts formatter) := by
  cases hSame with
  | name hSame => exact .cons (.visit (.slot hSame) false) .nil
  | fullName hSame => exact .cons (.visit (.slot hSame) true) .nil
  | @assemblyQualifiedName x y hSame =>
      have hSuffix := NameFormatter.assemblySuffix?_eq_of_erasesTo hSame (hFree.uncut x (.itself x))
      exact NamePart.corresponds_ofAssemblyQualified hSame hSuffix

/-- The answers for a type with markers and for the same type without them are the same. -/
theorem answer_eq_of_corresponds (hStyle : formatter.style = .reflection)
    (hSame : query.Corresponds formatter.arena.ErasesTo query') (hFree : query.HitsNoLimit formatter) :
    query.answer formatter = query'.answer formatter := by
  have hSpeller (query : NameQuery) : query.speller formatter = formatter := by
    cases query with
    | assemblyQualifiedName => rw [speller, NameFormatter.withStyle, ← hStyle]
    | name | fullName | tokenFullName => rfl
  have hUnlimited := hFree.unlimited
  have hShortens : Shortens (query.events formatter) (query'.events formatter) := by
    simp only [events, hSpeller] at hUnlimited ⊢
    refine .flatMap_events (hSame.parts hFree) fun subject subject' isQualified hPart hSubjects => ?_
    refine NameFormatter.shortens_eventsWithin hStyle (Nat.le_refl _) hSubjects (hUnlimited.of_subset ?_)
    exact fun _ hEvent => List.mem_flatMap.mpr ⟨_, hPart, hEvent⟩
  have hVisits := hFree.whole.admissions_le
  rw [← textOf_journal, ← textOf_journal, journal_of_le hVisits,
    journal_of_le (Nat.le_trans hShortens.visits hVisits), hShortens.text]

end NameQuery

namespace NameFormatter

/-- Each name in the spelling of reflection is the same with and without markers, wherever they stand, if no
limit is hit for the type with markers. -/
theorem reflectionNames_eq_of_erasesTo (hStyle : formatter.style = .reflection) {x y : NodeId}
    (hErased : formatter.arena.ErasesTo (some x) (some y)) :
    ((NameQuery.name x).HitsNoLimit formatter → formatter.name x = formatter.name y) ∧
    ((NameQuery.fullName x).HitsNoLimit formatter → formatter.fullName x = formatter.fullName y) ∧
    ((NameQuery.assemblyQualifiedName x).HitsNoLimit formatter →
      formatter.assemblyQualifiedName x = formatter.assemblyQualifiedName y) :=
  ⟨NameQuery.answer_eq_of_corresponds hStyle (.name hErased),
    NameQuery.answer_eq_of_corresponds hStyle (.fullName hErased),
    NameQuery.answer_eq_of_corresponds hStyle (.assemblyQualifiedName hErased)⟩

/-- A pinned list whose items have a custom modifier, and the list without these markers. The list is defined in
one assembly, its items in another one. -/
def pinnedList : NameFormatter where
  arena := ⟨#[.named .reference ⟨0x01000001⟩, .named .reference ⟨0x01000002⟩,
    .modified false ⟨0x01000003⟩ (some ⟨1⟩), .genericInst (some ⟨0⟩) [⟨2⟩], .wrapper .pinned (some ⟨3⟩),
    .genericInst (some ⟨0⟩) [⟨1⟩]]⟩
  types :=
    { type? := fun token =>
        if token = ⟨0x01000001⟩ then some (.reference ⟨0⟩ (.assembly ⟨0⟩) "Core" "List")
        else if token = ⟨0x01000002⟩ then some (.reference ⟨0⟩ (.assembly ⟨1⟩) "App" "Item")
        else none
      module? := fun _ => none
      assembly? := fun id => some (.plain (if id = ⟨0⟩ then "core" else "app") ⟨1, 0, 0, 0⟩) }
  limits := .standard
  style := .reflection

theorem reflectionNames_pinnedList :
    pinnedList.name ⟨5⟩ =
      "List[[App.Item, app, Version=1.0.0.0, Culture=neutral, PublicKeyToken=null]]" ∧
    pinnedList.fullName ⟨5⟩ =
      "Core.List[[App.Item, app, Version=1.0.0.0, Culture=neutral, PublicKeyToken=null]]" ∧
    pinnedList.assemblyQualifiedName ⟨5⟩ =
      "Core.List[[App.Item, app, Version=1.0.0.0, Culture=neutral, PublicKeyToken=null]], core, " ++
        "Version=1.0.0.0, Culture=neutral, PublicKeyToken=null" := by
  have hItem : pinnedList.arena.ErasesTo (some ⟨2⟩) (some ⟨1⟩) :=
    .of_looksErased (.marker rfl rfl (Arena.ErasesTo.refl _).looksErased)
  have hErased : pinnedList.arena.ErasesTo (some ⟨4⟩) (some ⟨5⟩) :=
    .of_looksErased (.marker rfl rfl (.alike (.nodes rfl rfl (.genericInst (.refl _) (.cons hItem .nil)))))
  have hUncut (id : NodeId) : ¬ pinnedList.AssemblyIsCut id := by
    intro hCut
    have hLimit := OwnerQuery.IsCut.resolve_eq hCut
    match id with
    | ⟨0⟩ | ⟨1⟩ | ⟨2⟩ | ⟨3⟩ | ⟨4⟩ | ⟨5⟩ => cases hLimit
    | ⟨n + 6⟩ => cases hLimit
  have hFree {query : NameQuery} (texts : List String)
      (hTexts : (query.rendering pinnedList ⟨pinnedList.limits.resolutionSteps, false⟩).1 =
        texts.map Fragment.text) : query.HitsNoLimit pinnedList := by
    refine ⟨fun fragment hFragment => ?_, fun id _ => hUncut id⟩
    rw [hTexts] at hFragment
    obtain ⟨content, -, rfl⟩ := List.mem_map.mp hFragment
    exact ⟨content, rfl⟩
  obtain ⟨hName, hFull, hQualified⟩ := reflectionNames_eq_of_erasesTo rfl hErased
  have hShort := hName (hFree ["List", "[", "[", "App.", "Item",
    ", app, Version=1.0.0.0, Culture=neutral, PublicKeyToken=null", "]", "]", ""] rfl)
  have hLong := hFull (hFree ["Core.", "List", "[", "[", "App.", "Item",
    ", app, Version=1.0.0.0, Culture=neutral, PublicKeyToken=null", "]", "]", ""] rfl)
  have hWithAssembly := hQualified (hFree ["Core.", "List", "[", "[", "App.", "Item",
    ", app, Version=1.0.0.0, Culture=neutral, PublicKeyToken=null", "]", "]", "",
    ", core, Version=1.0.0.0, Culture=neutral, PublicKeyToken=null"] rfl)
  rw [← hShort, ← hLong, ← hWithAssembly]
  exact ⟨rfl, rfl, rfl⟩

end NameFormatter

end CliSignature
