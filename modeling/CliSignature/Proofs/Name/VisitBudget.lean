import CliSignature.Proofs.Name.Journal

/-!
The budget of visits stops a rendering cleanly. Of each way to ask for a name the journal shows no more
visits than the budget has, at most one of which is refused with a mark; after the mark nothing is
visited any more, and no depth is marked. How names are spelled in source does not depend on the budget,
so what stands before the mark is how the name with a larger budget begins.
-/

namespace CliSignature

open NameEvent (admissions fragments textOf)

/-- A name that is asked for. -/
inductive NameQuery where
  | name (id : NodeId)
  | fullName (id : NodeId)
  | tokenFullName (token : Token)
  | assemblyQualifiedName (id : NodeId)

/-- The formatter with other limits. -/
def NameFormatter.withLimits (formatter : NameFormatter) (limits : Limits) : NameFormatter :=
  { formatter with limits }

section WithLimits

variable (formatter : NameFormatter) (limits : Limits)

@[simp] theorem NameFormatter.withLimits_arena :
    (formatter.withLimits limits).arena = formatter.arena := rfl

@[simp] theorem NameFormatter.withLimits_style :
    (formatter.withLimits limits).style = formatter.style := rfl

@[simp] theorem NameFormatter.withLimits_limits : (formatter.withLimits limits).limits = limits := rfl

end WithLimits

namespace NameQuery

def answer (formatter : NameFormatter) : NameQuery → String
  | name id => formatter.name id
  | fullName id => formatter.fullName id
  | tokenFullName token => formatter.tokenFullName token
  | assemblyQualifiedName id => formatter.assemblyQualifiedName id

/-- The formatter that spells the answer. An assembly-qualified name is always spelled as reflection
does. -/
def speller (formatter : NameFormatter) : NameQuery → NameFormatter
  | assemblyQualifiedName _ => formatter.withStyle .reflection
  | _ => formatter

/-- The rendering that gives the answer. -/
def rendering (formatter : NameFormatter) : NameQuery → Rendering
  | name id => formatter.render (.slot (some id)) false
  | fullName id => formatter.render (.slot (some id)) true
  | tokenFullName token => formatter.render (.type token) true
  | assemblyQualifiedName id =>
    let reflection := formatter.withStyle .reflection
    NameFormatter.assemblyQualified reflection.render reflection id

theorem answer_eq_run (formatter : NameFormatter) (query : NameQuery) :
    query.answer formatter = (query.rendering formatter).run formatter.limits.resolutionSteps := by
  cases query <;> rfl

/-- What is asked for, as parts of a name. -/
def parts (formatter : NameFormatter) : NameQuery → List NamePart
  | name id => [.visit (.slot (some id)) false]
  | fullName id => [.visit (.slot (some id)) true]
  | tokenFullName token => [.visit (.type token) true]
  | assemblyQualifiedName id => NamePart.ofAssemblyQualified (formatter.withStyle .reflection) id

/-- The recording of an answer. -/
def record (formatter : NameFormatter) (query : NameQuery) : Recording :=
  NamePart.recordAll ((query.speller formatter).recordWithin formatter.limits.formatDepth)
    (query.parts formatter)

/-- What is recorded of an answer is what the program does. -/
theorem rendering_record (formatter : NameFormatter) (query : NameQuery) :
    (query.record formatter).rendering = query.rendering formatter := by
  rw [record, NamePart.rendering_recordAll, NameFormatter.rendering_recordWithin]
  cases query with
  | name | fullName | tokenFullName => exact Rendering.append_nothing _
  | assemblyQualifiedName id => exact NamePart.renderAll_ofAssemblyQualified _ _ id

/-- What happens while an answer is rendered with the budget of the limits. -/
def journal (formatter : NameFormatter) (query : NameQuery) : List NameEvent :=
  (query.record formatter ⟨formatter.limits.resolutionSteps, false⟩).1

theorem textOf_journal (formatter : NameFormatter) (query : NameQuery) :
    textOf (query.journal formatter) = query.answer formatter := by
  rw [answer_eq_run, ← rendering_record]
  rfl

/-- What would happen if visits cost nothing. -/
def events (formatter : NameFormatter) (query : NameQuery) : List NameEvent :=
  (query.parts formatter).flatMap
    (NamePart.events ((query.speller formatter).eventsWithin formatter.limits.formatDepth))

theorem isOpen_of_mem_events (formatter : NameFormatter) (query : NameQuery) :
    ∀ event ∈ query.events formatter, event.IsOpen :=
  NamePart.isOpen_of_mem_flatMap_events
    ((query.speller formatter).isOpen_of_mem_eventsWithin formatter.limits.formatDepth) _

theorem metered_record (formatter : NameFormatter) (query : NameQuery) (visits : Nat) :
    Metered (query.events formatter) visits (query.record formatter ⟨visits, false⟩) :=
  NamePart.metered_recordAll
    ((query.speller formatter).metered_recordWithin formatter.limits.formatDepth)
    (fun _ _ _ => (query.speller formatter).recordWithin_ignored) _ visits

/-- Either everything happens that would happen if visits cost nothing, or the same happens up to the
visit for which nothing is left. -/
theorem journal_cases (formatter : NameFormatter) (query : NameQuery) :
    let steps := formatter.limits.resolutionSteps
    let journal := query.journal formatter
    (query.rendering formatter ⟨steps, false⟩ = (fragments journal, ⟨steps - admissions journal, false⟩) ∧
        journal = query.events formatter ∧ admissions journal ≤ steps) ∨
      query.rendering formatter ⟨steps, false⟩ = (fragments journal, ⟨0, true⟩) ∧
        ∃ before subject rest after, query.events formatter = before ++ .admitted subject :: rest ∧
          journal = before ++ .refused subject :: after ∧ admissions before = steps ∧
          ∀ event ∈ after, event.IsQuiet := by
  intro steps journal
  have hMetered := query.metered_record formatter steps
  have hResult : query.rendering formatter ⟨steps, false⟩ =
      (fragments journal, (query.record formatter ⟨steps, false⟩).2) := by
    rw [← rendering_record]
    rfl
  have hJournal : journal = (query.record formatter ⟨steps, false⟩).1 := rfl
  clear_value journal
  rw [hResult]
  generalize query.record formatter ⟨steps, false⟩ = result at hMetered hJournal ⊢
  cases hMetered with
  | complete left hVisits =>
      replace hJournal : journal = query.events formatter := hJournal
      have hLeft : left = steps - admissions journal := by rw [hJournal]; omega
      exact .inl ⟨by rw [hLeft], hJournal, by rw [hJournal]; omega⟩
  | cut hEvents hVisits hQuiet =>
      exact .inr ⟨rfl, _, _, _, _, hEvents, hJournal, hVisits, hQuiet⟩

end NameQuery

/-! ### Other limits -/

section Source

variable {formatter : NameFormatter} (hStyle : formatter.style = .source) (limits : Limits)

include hStyle

/-- Only the assembly behind an argument is looked up within limits, and source names have none. -/
theorem NamePart.ofSubject_withLimits (subject : Subject) (isQualified : Bool) :
    ofSubject (formatter.withLimits limits) subject isQualified =
      ofSubject formatter subject isQualified := by
  have hArguments (args : List NodeId) :
      ofArguments (formatter.withLimits limits) args = ofArguments formatter args := by
    simp only [ofArguments, NameFormatter.withLimits_style, hStyle]
  have hNode (node : Node) :
      ofNode (formatter.withLimits limits) isQualified node = ofNode formatter isQualified node := by
    cases node with
    | genericParam owner => cases owner <;> rfl
    | genericInst => simp only [ofNode, hArguments]
    | _ => rfl
  cases subject with
  | slot slot => simp only [ofSubject, hNode, NameFormatter.withLimits_arena]
  | type token => rfl

/-- By induction on the levels. -/
theorem NameFormatter.eventsWithin_withLimits (levels : Nat) :
    (formatter.withLimits limits).eventsWithin levels = formatter.eventsWithin levels := by
  induction levels with
  | zero => rfl
  | succ levels ih =>
      funext subject isQualified
      rw [eventsWithin, eventsWithin, ih, NamePart.ofSubject_withLimits hStyle limits]

end Source

namespace NameQuery

/-- Whether an answer is spelled as assembly source spells it. -/
def IsSource (formatter : NameFormatter) (query : NameQuery) : Prop :=
  (query.speller formatter).style = .source

variable {formatter : NameFormatter} {query : NameQuery} {limits : Limits}

theorem events_withLimits (hSource : query.IsSource formatter)
    (hDepth : limits.formatDepth = formatter.limits.formatDepth) :
    query.events (formatter.withLimits limits) = query.events formatter := by
  cases query with
  | name | fullName | tokenFullName =>
      have hStyle : formatter.style = .source := hSource
      simp only [events, speller, parts, NameFormatter.withLimits_limits, hDepth,
        NameFormatter.eventsWithin_withLimits hStyle]
  | assemblyQualifiedName => cases hSource

/-- The recording with other limits, beside what would happen with these if visits cost nothing. -/
theorem metered_withLimits (hSource : query.IsSource formatter)
    (hDepth : limits.formatDepth = formatter.limits.formatDepth) :
    Metered (query.events formatter) limits.resolutionSteps
      (query.record (formatter.withLimits limits) ⟨limits.resolutionSteps, false⟩) :=
  events_withLimits hSource hDepth ▸ query.metered_record (formatter.withLimits limits) _

theorem journal_withLimits_of_le (hSource : query.IsSource formatter)
    (hDepth : limits.formatDepth = formatter.limits.formatDepth)
    (hSteps : admissions (query.events formatter) ≤ limits.resolutionSteps) :
    query.journal (formatter.withLimits limits) = query.events formatter := by
  rw [journal, NameFormatter.withLimits_limits]
  exact (metered_withLimits hSource hDepth).eq_of_le hSteps

theorem answer_withLimits_of_cut (hSource : query.IsSource formatter)
    (hDepth : limits.formatDepth = formatter.limits.formatDepth) {before others : List NameEvent}
    {subject : Subject} (hEvents : query.events formatter = before ++ .admitted subject :: others)
    (hSteps : admissions before ≤ limits.resolutionSteps) :
    ∃ rest, query.answer (formatter.withLimits limits) = textOf before ++ rest := by
  rw [← textOf_journal]
  exact NameEvent.textOf_isPrefix
    ((metered_withLimits hSource hDepth).isPrefix hEvents hSteps)

end NameQuery

/-- The journal of an answer shows what the program does and costs no more than the budget. Either no
visit was refused, and then the answer spelled as source is the same with any larger budget. Or one
visit was refused and marked, and then nothing was visited and no limit was marked after it; the answer
spelled as source begins with what stands before the mark, with any larger budget. -/
theorem NameQuery.stops_cleanly (formatter : NameFormatter) (query : NameQuery) :
    let steps := formatter.limits.resolutionSteps
    let journal := query.journal formatter
    query.answer formatter = textOf journal ∧ admissions journal ≤ steps ∧
    (query.rendering formatter ⟨steps, false⟩ = (fragments journal, ⟨steps - admissions journal, false⟩) ∧
        (∀ event ∈ journal, event.IsOpen) ∧
        (query.IsSource formatter → ∀ limits : Limits,
          limits.formatDepth = formatter.limits.formatDepth → steps ≤ limits.resolutionSteps →
            query.answer (formatter.withLimits limits) = query.answer formatter) ∨
      query.rendering formatter ⟨steps, false⟩ = (fragments journal, ⟨0, true⟩) ∧
        ∃ before subject after, journal = before ++ .refused subject :: after ∧
          admissions before = steps ∧
          (∀ event ∈ before, event.IsOpen) ∧ (∀ event ∈ after, event.IsQuiet) ∧
          (query.IsSource formatter → ∀ limits : Limits,
            limits.formatDepth = formatter.limits.formatDepth → steps ≤ limits.resolutionSteps →
              ∃ rest, query.answer (formatter.withLimits limits) = textOf before ++ rest)) := by
  intro steps journal
  have hAnswer : query.answer formatter = textOf journal := (query.textOf_journal formatter).symm
  have hOpen := query.isOpen_of_mem_events formatter
  rcases query.journal_cases formatter with
    ⟨hRendering, hJournal, hVisits⟩ |
    ⟨hRendering, before, subject, rest, after, hEvents, hJournal, hVisits, hQuiet⟩
  · replace hJournal : journal = query.events formatter := hJournal
    refine ⟨hAnswer, hVisits, .inl ⟨hRendering, hJournal ▸ hOpen, ?_⟩⟩
    intro hSource limits hDepth hSteps
    have hWider := journal_withLimits_of_le hSource hDepth (hJournal ▸ Nat.le_trans hVisits hSteps)
    rw [← textOf_journal, hWider, ← hJournal, hAnswer]
  · replace hJournal : journal = before ++ .refused subject :: after := hJournal
    have hAdmissions : admissions journal = steps := by
      rw [hJournal, NameEvent.admissions_append, hVisits, NameEvent.admissions_refused,
        NameEvent.admissions_of_quiet hQuiet, Nat.add_zero]
    have hBefore : ∀ event ∈ before, event.IsOpen := fun event hEvent =>
      hOpen event (hEvents ▸ List.mem_append_left _ hEvent)
    refine ⟨hAnswer, Nat.le_of_eq hAdmissions, .inr ⟨hRendering, before, subject, after, hJournal,
      hVisits, hBefore, hQuiet, ?_⟩⟩
    intro hSource limits hDepth hSteps
    exact answer_withLimits_of_cut hSource hDepth hEvents (Nat.le_trans (Nat.le_of_eq hVisits) hSteps)

-- A pointer to itself with two visits. Both pointers that were visited still get their asterisk.
example : (NameQuery.name ⟨0⟩).journal ⟨⟨#[.wrapper .pointer (some ⟨0⟩)]⟩,
    ⟨fun _ => none, fun _ => none, fun _ => none⟩, { resolutionSteps := 2 }, .source⟩ =
    [.admitted (.slot (some ⟨0⟩)), .admitted (.slot (some ⟨0⟩)), .refused (.slot (some ⟨0⟩)),
      .text "*", .text "*"] := rfl

/-- Whether no limit cuts an answer: the program gives nothing but texts. -/
def NameQuery.IsWhole (formatter : NameFormatter) (query : NameQuery) : Prop :=
  ∀ fragment ∈ (query.rendering formatter ⟨formatter.limits.resolutionSteps, false⟩).1,
    ∃ content, fragment = .text content

namespace NameQuery

variable {formatter : NameFormatter} {query : NameQuery}

theorem IsWhole.isText_of_mem (hWhole : query.IsWhole formatter) {event : NameEvent}
    (hEvent : event ∈ query.journal formatter) {fragment : Fragment}
    (hFragment : event.fragment? = some fragment) : ∃ content, fragment = .text content := by
  rw [IsWhole, ← rendering_record] at hWhole
  exact hWhole fragment (List.mem_filterMap.mpr ⟨event, hEvent, hFragment⟩)

theorem IsWhole.not_tooDeep (hWhole : query.IsWhole formatter) (subject : Subject) :
    .tooDeep subject ∉ query.journal formatter := by
  intro hEvent
  obtain ⟨content, hText⟩ := hWhole.isText_of_mem hEvent rfl
  cases hText

theorem IsWhole.not_refused (hWhole : query.IsWhole formatter) (subject : Subject) :
    .refused subject ∉ query.journal formatter := by
  intro hEvent
  obtain ⟨content, hText⟩ := hWhole.isText_of_mem hEvent rfl
  cases hText

theorem journal_of_le (hVisits : admissions (query.events formatter) ≤ formatter.limits.resolutionSteps) :
    query.journal formatter = query.events formatter :=
  (query.metered_record formatter _).eq_of_le hVisits

/-- Where no limit cuts an answer, everything happens that would happen if visits cost nothing. -/
theorem IsWhole.admissions_le (hWhole : query.IsWhole formatter) :
    admissions (query.events formatter) ≤ formatter.limits.resolutionSteps := by
  rcases query.journal_cases formatter with
    ⟨-, hJournal, hVisits⟩ | ⟨-, before, subject, rest, after, -, hJournal, -⟩
  · exact hJournal ▸ hVisits
  · have hRefused := hWhole.not_refused subject
    simp [hJournal] at hRefused

end NameQuery

end CliSignature
