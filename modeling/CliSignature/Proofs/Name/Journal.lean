import CliSignature.Proofs.Name.Parts

/-!
What happens while a name is rendered, in the order in which it happens. A recording keeps a journal of
it and gives the same pieces as the program; a journal without a budget is what would happen if visits
cost nothing. The first is the second up to the visit that cannot be paid for, and from there on only
the texts of those types appear whose visits were paid for before.
-/

namespace CliSignature

namespace Fragment

/-- By induction on the pieces, behind any text. -/
theorem foldl_toText (text : String) (fragments : List Fragment) :
    fragments.foldl (fun text fragment => text ++ fragment.toText) text =
      text ++ joinAll fragments := by
  induction fragments generalizing text with
  | nil => simp [joinAll]
  | cons fragment fragments ih =>
      have hCons : joinAll (fragment :: fragments) = fragment.toText ++ joinAll fragments := by
        rw [joinAll, List.foldl_cons, ih, String.empty_append]
      rw [List.foldl_cons, ih, hCons, String.append_assoc]

theorem joinAll_cons (fragment : Fragment) (fragments : List Fragment) :
    joinAll (fragment :: fragments) = fragment.toText ++ joinAll fragments := by
  rw [joinAll, List.foldl_cons, foldl_toText, String.empty_append]

@[simp] theorem joinAll_append (front back : List Fragment) :
    joinAll (front ++ back) = joinAll front ++ joinAll back := by
  rw [joinAll, List.foldl_append, foldl_toText]
  rfl

end Fragment

/-- What happens while a name is rendered. -/
inductive NameEvent where
  | text (content : String)
  /-- A visit that is paid for. -/
  | admitted (subject : Subject)
  /-- A visit that lies too deep, which is marked. -/
  | tooDeep (subject : Subject)
  /-- The first visit that cannot be paid for, which is marked. -/
  | refused (subject : Subject)
  /-- A later visit that cannot be paid for. -/
  | ignored (subject : Subject)
deriving DecidableEq, Repr

namespace NameEvent

/-- What appears in the name. -/
def fragment? : NameEvent → Option Fragment
  | text content => some (.text content)
  | tooDeep _ => some .tooDeep
  | refused _ => some .outOfVisits
  | admitted _ | ignored _ => none

/-- What a journal puts into the name. -/
def fragments (journal : List NameEvent) : List Fragment :=
  journal.filterMap fragment?

@[simp] theorem fragments_append (front back : List NameEvent) :
    fragments (front ++ back) = fragments front ++ fragments back :=
  List.filterMap_append

/-- The text that a journal puts into the name. -/
def textOf (journal : List NameEvent) : String :=
  Fragment.joinAll (fragments journal)

@[simp] theorem textOf_nil : textOf [] = "" := rfl

@[simp] theorem textOf_admitted (subject : Subject) (journal : List NameEvent) :
    textOf (.admitted subject :: journal) = textOf journal := rfl

@[simp] theorem textOf_text (content : String) (journal : List NameEvent) :
    textOf (.text content :: journal) = content ++ textOf journal := by
  simp [textOf, fragments, fragment?, Fragment.joinAll_cons, Fragment.toText]

theorem textOf_append (front back : List NameEvent) :
    textOf (front ++ back) = textOf front ++ textOf back := by
  rw [textOf, fragments_append, Fragment.joinAll_append]
  rfl

theorem textOf_isPrefix {front journal : List NameEvent} (hPrefix : front <+: journal) :
    ∃ rest, textOf journal = textOf front ++ rest := by
  obtain ⟨back, rfl⟩ := hPrefix
  exact ⟨textOf back, textOf_append front back⟩

def isAdmitted : NameEvent → Bool
  | admitted _ => true
  | _ => false

/-- How many visits were paid for. -/
def admissions (journal : List NameEvent) : Nat :=
  journal.countP isAdmitted

@[simp] theorem admissions_nil : admissions [] = 0 := rfl

@[simp] theorem admissions_text (content : String) (journal : List NameEvent) :
    admissions (.text content :: journal) = admissions journal :=
  List.countP_cons_of_neg (by simp [isAdmitted])

@[simp] theorem admissions_append (front back : List NameEvent) :
    admissions (front ++ back) = admissions front + admissions back :=
  List.countP_append

@[simp] theorem admissions_admitted (subject : Subject) (journal : List NameEvent) :
    admissions (.admitted subject :: journal) = admissions journal + 1 :=
  List.countP_cons_of_pos rfl

@[simp] theorem admissions_refused (subject : Subject) (journal : List NameEvent) :
    admissions (.refused subject :: journal) = admissions journal :=
  List.countP_cons_of_neg (by simp [isAdmitted])

/-- What can happen as long as visits are paid for. -/
def IsOpen : NameEvent → Prop
  | text _ | admitted _ | tooDeep _ => True
  | refused _ | ignored _ => False

/-- What can happen after a visit was refused. -/
def IsQuiet : NameEvent → Prop
  | text _ | ignored _ => True
  | admitted _ | tooDeep _ | refused _ => False

theorem admissions_of_quiet {journal : List NameEvent} (hQuiet : ∀ event ∈ journal, event.IsQuiet) :
    admissions journal = 0 := by
  refine List.countP_eq_zero.mpr fun event hEvent => ?_
  have hEvent := hQuiet event hEvent
  cases event <;> simp_all [isAdmitted, IsQuiet]

end NameEvent

/-! ### With a budget -/

/-- A rendering with a journal: what happens, and the budget that is left. -/
def Recording : Type := Budget → List NameEvent × Budget

namespace Recording

/-- The rendering that is recorded. -/
def rendering (recording : Recording) : Rendering := fun budget =>
  (NameEvent.fragments (recording budget).1, (recording budget).2)

/-- A visit of a subject. -/
def visit (subject : Subject) (recording : Recording) : Recording := fun budget =>
  match budget.remaining with
  | 0 =>
    if budget.spent then ([.ignored subject], budget)
    else ([.refused subject], { budget with spent := true })
  | left + 1 =>
    let (journal, after) := recording { budget with remaining := left }
    (.admitted subject :: journal, after)

theorem rendering_visit (subject : Subject) (recording : Recording) :
    (recording.visit subject).rendering = recording.rendering.visit := by
  funext ⟨remaining, spent⟩
  cases remaining with
  | zero => cases spent <;> rfl
  | succ => rfl

end Recording

namespace NamePart

/-- The recording of a part, where `inner` records what lies one level deeper. -/
def record (inner : Subject → Bool → Recording) : NamePart → Recording
  | .text content, budget => ([.text content], budget)
  | .visit subject isQualified, budget => inner subject isQualified budget
  | .unlessSpent content, budget => (if budget.spent then [] else [.text content], budget)

/-- The recording of parts one after the other. -/
def recordAll (inner : Subject → Bool → Recording) : List NamePart → Recording
  | [], budget => ([], budget)
  | part :: parts, budget =>
    let (front, between) := part.record inner budget
    let (back, after) := recordAll inner parts between
    (front ++ back, after)

theorem rendering_record (inner : Subject → Bool → Recording) (part : NamePart) :
    (part.record inner).rendering = part.render fun subject isQualified =>
      (inner subject isQualified).rendering := by
  cases part with
  | text | visit => rfl
  | unlessSpent content =>
      funext ⟨remaining, spent⟩
      cases spent <;> rfl

theorem rendering_recordAll (inner : Subject → Bool → Recording) (parts : List NamePart) :
    (recordAll inner parts).rendering = renderAll (fun subject isQualified =>
      (inner subject isQualified).rendering) parts := by
  induction parts with
  | nil => rfl
  | cons part parts ih =>
      rw [renderAll_cons, ← ih, ← rendering_record]
      funext budget
      simp only [Recording.rendering, recordAll, Rendering.append_apply, NameEvent.fragments_append]

end NamePart

namespace NameFormatter

/-- The recording of a name with the given number of levels left. -/
def recordWithin (formatter : NameFormatter) : Nat → Subject → Bool → Recording
  | 0, subject, _ => fun budget => ([.tooDeep subject], budget)
  | levels + 1, subject, isQualified =>
    (NamePart.recordAll (recordWithin formatter levels)
      (NamePart.ofSubject formatter subject isQualified)).visit subject

/-- By induction on the levels. What is recorded is what the program does. -/
theorem rendering_recordWithin (formatter : NameFormatter) (levels : Nat) :
    (fun subject isQualified => (formatter.recordWithin levels subject isQualified).rendering) =
      formatter.within levels := by
  induction levels with
  | zero => rfl
  | succ levels ih =>
      funext subject isQualified
      rw [recordWithin, Recording.rendering_visit, NamePart.rendering_recordAll, ih,
        NamePart.renderAll_ofSubject, within]

end NameFormatter

/-! ### Without a budget -/

namespace NamePart

/-- What happens in a part if visits cost nothing. -/
def events (inner : Subject → Bool → List NameEvent) : NamePart → List NameEvent
  | .text content => [.text content]
  | .visit subject isQualified => inner subject isQualified
  | .unlessSpent content => [.text content]

theorem isOpen_of_mem_flatMap_events {inner : Subject → Bool → List NameEvent}
    (hInner : ∀ subject isQualified, ∀ event ∈ inner subject isQualified, event.IsOpen)
    (parts : List NamePart) : ∀ event ∈ parts.flatMap (events inner), event.IsOpen := by
  intro event hEvent
  obtain ⟨part, -, hEvent⟩ := List.mem_flatMap.mp hEvent
  cases part with
  | text | unlessSpent =>
      cases List.mem_singleton.mp hEvent
      trivial
  | visit subject isQualified => exact hInner subject isQualified event hEvent

end NamePart

namespace NameFormatter

/-- What happens in a name with the given number of levels left if visits cost nothing. -/
def eventsWithin (formatter : NameFormatter) : Nat → Subject → Bool → List NameEvent
  | 0, subject, _ => [.tooDeep subject]
  | levels + 1, subject, isQualified =>
    .admitted subject :: (NamePart.ofSubject formatter subject isQualified).flatMap
      (NamePart.events (eventsWithin formatter levels))

/-- By induction on the levels. -/
theorem isOpen_of_mem_eventsWithin (formatter : NameFormatter) (levels : Nat) (subject : Subject)
    (isQualified : Bool) :
    ∀ event ∈ formatter.eventsWithin levels subject isQualified, event.IsOpen := by
  induction levels generalizing subject isQualified with
  | zero =>
      intro event hEvent
      cases List.mem_singleton.mp hEvent
      trivial
  | succ levels ih =>
      intro event hEvent
      cases hEvent with
      | head => trivial
      | tail _ hEvent => exact NamePart.isOpen_of_mem_flatMap_events ih _ event hEvent

end NameFormatter

/-! ### What the budget does -/

open NameEvent (admissions IsQuiet)

/-- A journal beside the events that would have happened if visits cost nothing. Either all of them
were paid for, or the journal is theirs up to the first visit for which nothing was left. -/
inductive Metered (events : List NameEvent) (visits : Nat) : List NameEvent × Budget → Prop where
  | complete (left : Nat) (hVisits : admissions events + left = visits) :
      Metered events visits (events, ⟨left, false⟩)
  | cut {before rest after : List NameEvent} {subject : Subject}
      (hEvents : events = before ++ .admitted subject :: rest) (hVisits : admissions before = visits)
      (hQuiet : ∀ event ∈ after, event.IsQuiet) :
      Metered events visits (before ++ .refused subject :: after, ⟨0, true⟩)

namespace Metered

/-- Events that are no visits are always paid for. -/
theorem free {events : List NameEvent} (hFree : admissions events = 0) (visits : Nat) :
    Metered events visits (events, ⟨visits, false⟩) :=
  .complete visits (by omega)

/-- One journal after the other. Once a visit was refused, the second has to be quiet. -/
theorem append {front back : List NameEvent} {visits : Nat} {first : List NameEvent × Budget}
    {second : Recording} (hFirst : Metered front visits first)
    (hOpen : ∀ left, Metered back left (second ⟨left, false⟩))
    (hSpent : first.2.spent = true → (second ⟨0, true⟩).2 = ⟨0, true⟩ ∧
      ∀ event ∈ (second ⟨0, true⟩).1, event.IsQuiet) :
    Metered (front ++ back) visits (first.1 ++ (second first.2).1, (second first.2).2) := by
  cases hFirst with
  | complete left hVisits =>
      have hSecond := hOpen left
      generalize second ⟨left, false⟩ = result at hSecond ⊢
      cases hSecond with
      | complete rest hLeft => exact .complete rest (by rw [NameEvent.admissions_append]; omega)
      | cut hEvents hLeft hQuiet =>
          simp only [← List.append_assoc]
          exact .cut (by rw [hEvents, List.append_assoc])
            (by rw [NameEvent.admissions_append]; omega) hQuiet
  | @cut before rest after subject hEvents hVisits hQuiet =>
      obtain ⟨hAfter, hSecond⟩ := hSpent rfl
      have hAll : front ++ back = before ++ .admitted subject :: (rest ++ back) := by simp [hEvents]
      simp only [hAfter, List.append_assoc, List.cons_append]
      refine .cut hAll hVisits fun event hEvent => ?_
      exact (List.mem_append.mp hEvent).elim (hQuiet event) (hSecond event)

/-- A visit costs one, and is refused if nothing is left. -/
theorem visit {events : List NameEvent} {recording : Recording}
    (hBody : ∀ visits, Metered events visits (recording ⟨visits, false⟩)) (subject : Subject)
    (visits : Nat) :
    Metered (.admitted subject :: events) visits (recording.visit subject ⟨visits, false⟩) := by
  cases visits with
  | zero =>
      have hAll : .admitted subject :: events = [] ++ .admitted subject :: events := rfl
      exact .cut hAll rfl (List.forall_mem_nil _)
  | succ visits =>
      have hBody := hBody visits
      simp only [Recording.visit]
      generalize recording ⟨visits, false⟩ = result at hBody ⊢
      cases hBody with
      | complete left hVisits => exact .complete left (by rw [NameEvent.admissions_admitted]; omega)
      | @cut before rest after refused hEvents hVisits hQuiet =>
          have hAll : .admitted subject :: events =
              (.admitted subject :: before) ++ .admitted refused :: rest := by
            rw [hEvents, List.cons_append]
          exact .cut hAll (by rw [NameEvent.admissions_admitted, hVisits]) hQuiet

/-- With visits enough for all of them, all events happen. -/
theorem eq_of_le {events : List NameEvent} {visits : Nat} {result : List NameEvent × Budget}
    (hMetered : Metered events visits result) (hLe : admissions events ≤ visits) :
    result.1 = events := by
  cases hMetered with
  | complete => rfl
  | cut hEvents hVisits =>
      rw [hEvents, NameEvent.admissions_append, NameEvent.admissions_admitted] at hLe
      omega

/-- What comes before the visit that cannot be paid for is paid for with any larger budget. -/
theorem isPrefix {events before rest : List NameEvent} {subject : Subject} {visits : Nat}
    {result : List NameEvent × Budget} (hEvents : events = before ++ .admitted subject :: rest)
    (hLe : admissions before ≤ visits) (hMetered : Metered events visits result) :
    before <+: result.1 := by
  subst hEvents
  cases hMetered with
  | complete => exact List.prefix_append _ _
  | @cut before' rest' after' subject' hEvents hVisits hQuiet =>
      refine List.IsPrefix.trans ?_ (List.prefix_append before' _)
      have hPrefix' : before' <+: before ++ .admitted subject :: rest := ⟨_, hEvents.symm⟩
      obtain hPrefix | ⟨more, rfl⟩ :=
        List.prefix_or_prefix_of_prefix (List.prefix_append before _) hPrefix'
      · exact hPrefix
      · -- Otherwise the refused visit is one of those that were paid for.
        cases more with
        | nil => exact ⟨[], by simp⟩
        | cons event more =>
            simp only [List.append_assoc, List.cons_append, List.append_cancel_left_eq,
              List.cons.injEq] at hEvents
            obtain ⟨rfl, -⟩ := hEvents
            rw [NameEvent.admissions_append, NameEvent.admissions_admitted] at hLe
            omega

end Metered

namespace NamePart

variable {inner : Subject → Bool → List NameEvent} {recorded : Subject → Bool → Recording}

/-- If every visit that comes too late is ignored, then only texts are left of what follows. -/
theorem recordAll_spent
    (hIgnored : ∀ subject isQualified,
      recorded subject isQualified ⟨0, true⟩ = ([.ignored subject], ⟨0, true⟩))
    (parts : List NamePart) :
    (recordAll recorded parts ⟨0, true⟩).2 = ⟨0, true⟩ ∧
      ∀ event ∈ (recordAll recorded parts ⟨0, true⟩).1, event.IsQuiet := by
  induction parts with
  | nil => exact ⟨rfl, by simp [recordAll]⟩
  | cons part parts ih =>
      obtain ⟨hAfter, hQuiet⟩ := ih
      cases part with
      | text => exact ⟨hAfter, List.forall_mem_cons.mpr ⟨trivial, hQuiet⟩⟩
      | unlessSpent => exact ⟨hAfter, hQuiet⟩
      | visit =>
          simp only [recordAll, record, hIgnored]
          exact ⟨hAfter, List.forall_mem_cons.mpr ⟨trivial, hQuiet⟩⟩

/-- By induction on the parts. A refusal in one part comes from a visit; the visits of the parts behind
it lie on the same level, and there `hIgnored` applies to them. -/
theorem metered_recordAll
    (hInner : ∀ subject isQualified visits,
      Metered (inner subject isQualified) visits (recorded subject isQualified ⟨visits, false⟩))
    (hIgnored : ∀ subject isQualified visits,
      (recorded subject isQualified ⟨visits, false⟩).2.spent = true → ∀ subject' isQualified',
        recorded subject' isQualified' ⟨0, true⟩ = ([.ignored subject'], ⟨0, true⟩))
    (parts : List NamePart) (visits : Nat) :
    Metered (parts.flatMap (events inner)) visits (recordAll recorded parts ⟨visits, false⟩) := by
  induction parts generalizing visits with
  | nil => exact .free rfl visits
  | cons part parts ih =>
      have hPart : Metered (part.events inner) visits (part.record recorded ⟨visits, false⟩) := by
        cases part with
        | text | unlessSpent => exact .free rfl visits
        | visit subject isQualified => exact hInner subject isQualified visits
      refine hPart.append ih fun hSpent => ?_
      cases part with
      | text | unlessSpent => cases hSpent
      | visit subject isQualified =>
          exact recordAll_spent (hIgnored subject isQualified visits hSpent) parts

end NamePart

namespace NameFormatter

variable (formatter : NameFormatter)

/-- A visit can be refused only where levels are left, and there a visit that comes too late is
ignored before its depth could be marked. -/
theorem recordWithin_ignored {levels : Nat} {subject : Subject} {isQualified : Bool} {visits : Nat}
    (hSpent : (formatter.recordWithin levels subject isQualified ⟨visits, false⟩).2.spent = true)
    (subject' : Subject) (isQualified' : Bool) :
    formatter.recordWithin levels subject' isQualified' ⟨0, true⟩ =
      ([.ignored subject'], ⟨0, true⟩) := by
  cases levels with
  | zero => cases hSpent
  | succ => rfl

/-- By induction on the levels. -/
theorem metered_recordWithin (levels : Nat) (subject : Subject) (isQualified : Bool) (visits : Nat) :
    Metered (formatter.eventsWithin levels subject isQualified) visits
      (formatter.recordWithin levels subject isQualified ⟨visits, false⟩) := by
  induction levels generalizing subject isQualified visits with
  | zero => exact .free rfl visits
  | succ levels ih =>
      exact .visit (NamePart.metered_recordAll ih (fun _ _ _ => formatter.recordWithin_ignored) _)
        subject visits

end NameFormatter

end CliSignature
