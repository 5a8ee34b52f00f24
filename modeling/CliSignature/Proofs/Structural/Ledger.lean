import CliSignature.Structural.Book
import Mathlib.Data.List.Nodup

/-!
Ledgers of walks. A walk enters keys and leaves them again. It never enters what it has not left yet, nor what it has
kept for later, and it stops entering at a limit. This is all that is needed to say how often it enters anything.
-/

namespace CliSignature

/-- A walk enters a key, or leaves it and perhaps keeps it for later. -/
inductive WalkEvent (κ : Type) where
  | entered (key : κ)
  | left (key : κ) (kept : Bool)
deriving DecidableEq, Repr

variable {κ : Type}

namespace WalkEvent

def entry? : WalkEvent κ → Option κ
  | entered key => some key
  | left _ _ => none

/-- The keys that were entered, in their order. -/
def entries (events : List (WalkEvent κ)) : List κ :=
  events.filterMap entry?

variable {key : κ} {kept : Bool} {events others : List (WalkEvent κ)}

@[simp] theorem entries_entered : entries (.entered key :: events) = key :: entries events := rfl

@[simp] theorem entries_left : entries (.left key kept :: events) = entries events := rfl

@[simp] theorem entries_append : entries (events ++ others) = entries events ++ entries others :=
  List.filterMap_append

theorem mem_entries : key ∈ entries events ↔ .entered key ∈ events := by
  rw [entries, List.mem_filterMap]
  constructor
  · rintro ⟨event, hMem, hEntry⟩
    cases event with
    | entered => cases hEntry; exact hMem
    | left => cases hEntry
  · exact fun hMem => ⟨_, hMem, rfl⟩

/-- A key that was kept is not entered later. -/
def Bars (first second : WalkEvent κ) : Prop :=
  ∀ key, first = left key true → second ≠ entered key

/-- After a key that was left without being kept, none is entered. -/
def BarsAll (first second : WalkEvent κ) : Prop :=
  ∀ key other, first = left key false → second ≠ entered other

/-- A key that was left is not entered later. -/
def Closes (first second : WalkEvent κ) : Prop :=
  ∀ key kept, first = left key kept → second ≠ entered key

theorem Bars.closes {first second : WalkEvent κ} (hBars : Bars first second) (hBarsAll : BarsAll first second) :
    Closes first second := by
  intro key kept hLeft
  cases kept with
  | true => exact hBars key hLeft
  | false => exact hBarsAll key key hLeft

end WalkEvent

open WalkEvent

/-- The keys that are entered and not left yet, those that are kept, and how many were entered so far. -/
structure Ledger (κ : Type) where
  active : List κ
  kept : List κ
  steps : Nat
deriving DecidableEq, Repr

namespace Ledger

def enter (ledger : Ledger κ) (key : κ) : Ledger κ :=
  { ledger with active := key :: ledger.active, steps := ledger.steps + 1 }

variable [BEq κ]

def leave (ledger : Ledger κ) (key : κ) (kept : Bool) : Ledger κ :=
  { ledger with
    active := ledger.active.erase key
    kept := if kept then key :: ledger.kept else ledger.kept }

/-- The ledger after an event. -/
def after (ledger : Ledger κ) : WalkEvent κ → Ledger κ
  | .entered key => ledger.enter key
  | .left key kept => ledger.leave key kept

theorem mem_kept_leave {ledger : Ledger κ} {key other : κ} (kept : Bool) (hKept : key ∈ ledger.kept) :
    key ∈ (ledger.leave other kept).kept := by
  unfold leave
  split
  case isTrue => exact List.mem_cons_of_mem _ hKept
  case isFalse => exact hKept

/-- Events that lead from one ledger to another. What is entered is left after everything that was entered in between.
It is neither active nor kept, and there are steps left. -/
inductive Runs (limit : Nat) : Ledger κ → List (WalkEvent κ) → Ledger κ → Prop where
  | done (ledger : Ledger κ) : Runs limit ledger [] ledger
  | visit {ledger middle last : Ledger κ} {key : κ} {kept : Bool} {inner rest : List (WalkEvent κ)}
      (hSteps : ledger.steps < limit) (hActive : key ∉ ledger.active) (hNew : key ∉ ledger.kept)
      (hInner : Runs limit (ledger.enter key) inner middle) (hRest : Runs limit (middle.leave key kept) rest last) :
      Runs limit ledger (.entered key :: (inner ++ .left key kept :: rest)) last

namespace Runs

variable {limit : Nat} {ledger middle last : Ledger κ} {events others : List (WalkEvent κ)} {key : κ}

-- The inductions below are on the run: a visit has one run between its entry and its leave, and one after it.

theorem append (hFirst : Runs limit ledger events middle) (hSecond : Runs limit middle others last) :
    Runs limit ledger (events ++ others) last := by
  induction hFirst with
  | done => exact hSecond
  | visit hSteps hActive hNew hInner _ _ ih =>
      rw [List.cons_append, List.append_assoc, List.cons_append]
      exact .visit hSteps hActive hNew hInner (ih hSecond)

/-- The events account for the whole difference between the two ledgers. -/
theorem foldl_after (hRuns : Runs limit ledger events last) : events.foldl after ledger = last := by
  induction hRuns with
  | done => rfl
  | visit _ _ _ _ _ ihInner ihRest =>
      rw [List.foldl_cons, List.foldl_append, List.foldl_cons, after, ihInner, after, ihRest]

theorem steps_eq (hRuns : Runs limit ledger events last) : last.steps = ledger.steps + (entries events).length := by
  induction hRuns with
  | done => rfl
  | visit _ _ _ _ _ ihInner ihRest =>
      simp only [ihRest, leave, ihInner, enter, entries_entered, entries_append, entries_left, List.length_cons,
        List.length_append]
      omega

/-- The limit is not passed. -/
theorem steps_le (hRuns : Runs limit ledger events last) (hStart : ledger.steps ≤ limit) : last.steps ≤ limit := by
  induction hRuns with
  | done => exact hStart
  | visit hSteps _ _ _ _ ihInner ihRest => exact ihRest (ihInner hSteps)

theorem entries_le (hRuns : Runs limit ledger events last) (hStart : ledger.steps = 0) :
    (entries events).length ≤ limit :=
  calc (entries events).length = last.steps := by rw [hRuns.steps_eq, hStart, Nat.zero_add]
    _ ≤ limit := hRuns.steps_le (hStart ▸ Nat.zero_le limit)

/-- What is kept is kept for good. -/
theorem kept_of_kept (hRuns : Runs limit ledger events last) (hKept : key ∈ ledger.kept) : key ∈ last.kept := by
  induction hRuns with
  | done => exact hKept
  | visit _ _ _ _ _ ihInner ihRest => exact ihRest (mem_kept_leave _ (ihInner hKept))

theorem kept_of_left (hRuns : Runs limit ledger events last) (hLeft : .left key true ∈ events) : key ∈ last.kept := by
  induction hRuns with
  | done => cases hLeft
  | @visit _ _ _ other kept _ _ _ _ _ hInner hRest ihInner ihRest =>
      simp only [List.mem_cons, List.mem_append, reduceCtorEq, false_or, WalkEvent.left.injEq] at hLeft
      rcases hLeft with hLeft | ⟨rfl, rfl⟩ | hLeft
      · exact hRest.kept_of_kept (mem_kept_leave kept (ihInner hLeft))
      · exact hRest.kept_of_kept (List.mem_cons_self ..)
      · exact ihRest hLeft

/-- What was entered was left. -/
theorem exists_left (hRuns : Runs limit ledger events last) (hMem : key ∈ entries events) :
    ∃ kept, .left key kept ∈ events := by
  induction hRuns with
  | done => cases hMem
  | @visit _ _ _ other kept _ _ _ _ _ _ _ ihInner ihRest =>
      simp only [entries_entered, entries_append, entries_left, List.mem_cons, List.mem_append] at hMem
      rcases hMem with rfl | hMem | hMem
      · exact ⟨kept, by simp⟩
      · obtain ⟨kept', hLeft⟩ := ihInner hMem
        exact ⟨kept', by simp [hLeft]⟩
      · obtain ⟨kept', hLeft⟩ := ihRest hMem
        exact ⟨kept', by simp [hLeft]⟩

variable [LawfulBEq κ]

/-- Everything that was entered is left again. -/
theorem active_eq (hRuns : Runs limit ledger events last) : last.active = ledger.active := by
  induction hRuns with
  | done => rfl
  | visit _ _ _ _ _ ihInner ihRest =>
      rw [ihRest, leave, ihInner, enter, List.erase_cons_head]

theorem active_leave (hInner : Runs limit (ledger.enter key) events middle) (kept : Bool) :
    (middle.leave key kept).active = ledger.active := by
  rw [leave, hInner.active_eq, enter, List.erase_cons_head]

/-- What is active or kept is not entered. -/
theorem not_mem_entries (hRuns : Runs limit ledger events last) (hBarred : key ∈ ledger.active ∨ key ∈ ledger.kept) :
    key ∉ entries events := by
  induction hRuns with
  | done => exact List.not_mem_nil
  | @visit _ _ _ other kept _ _ _ hActive hNew hInner _ ihInner ihRest =>
      have hOther : key ≠ other := by
        rintro rfl
        exact hBarred.elim hActive hNew
      have hBetween := ihInner (hBarred.imp_left (List.mem_cons_of_mem _))
      have hLater := ihRest (hBarred.imp (fun hMem => by rwa [hInner.active_leave kept]) fun hMem =>
        mem_kept_leave kept (hInner.kept_of_kept hMem))
      simp [hOther, hBetween, hLater]

/-- What was kept is not entered again. -/
theorem pairwise_bars (hRuns : Runs limit ledger events last) : events.Pairwise Bars := by
  induction hRuns with
  | done => exact .nil
  | @visit _ middle _ other kept inner rest _ _ _ hInner hRest ihInner ihRest =>
      have hLater {key : κ} (hKept : key ∈ (middle.leave other kept).kept) : .entered key ∉ rest := fun hMem =>
        hRest.not_mem_entries (.inr hKept) (mem_entries.mpr hMem)
      have hHead {event : WalkEvent κ} : Bars (.entered other) event := by
        intro key hLeft
        cases hLeft
      refine List.pairwise_cons.mpr ⟨fun _ _ => hHead, List.pairwise_append.mpr ⟨ihInner,
        List.pairwise_cons.mpr ⟨?_, ihRest⟩, ?_⟩⟩
      · rintro event hMem key hLeft rfl
        cases hLeft
        exact hLater (List.mem_cons_self ..) hMem
      · rintro event hFirst event' hSecond key rfl rfl
        have hKept : key ∈ (middle.leave other kept).kept := mem_kept_leave kept (hInner.kept_of_left hFirst)
        exact hLater hKept (by simpa using hSecond)

/-- If nothing is entered any more after it was left, nothing is entered twice. -/
theorem nodup_entries (hRuns : Runs limit ledger events last) (hCloses : events.Pairwise Closes) :
    (entries events).Nodup := by
  induction hRuns with
  | done => exact .nil
  | @visit _ _ _ other kept inner rest _ _ _ hInner _ ihInner ihRest =>
      obtain ⟨-, hCloses⟩ := List.pairwise_cons.mp hCloses
      obtain ⟨hClosesInner, hClosesRest, hCross⟩ := List.pairwise_append.mp hCloses
      obtain ⟨hLeave, hClosesRest⟩ := List.pairwise_cons.mp hClosesRest
      have hOther : other ∉ entries rest := fun hMem => hLeave _ (mem_entries.mp hMem) other kept rfl rfl
      simp only [entries_entered, entries_append, entries_left, List.nodup_cons, List.mem_append, not_or]
      refine ⟨⟨hInner.not_mem_entries (.inl (List.mem_cons_self ..)), hOther⟩,
        List.nodup_append'.mpr ⟨ihInner hClosesInner, ihRest hClosesRest, fun key hFirst hSecond => ?_⟩⟩
      obtain ⟨result, hLeft⟩ := hInner.exists_left hFirst
      exact hCross _ hLeft _ (List.mem_cons_of_mem _ (mem_entries.mp hSecond)) key result rfl rfl

end Runs

end Ledger

/-- The state of a walk, together with what happened on it so far. -/
structure Journal (σ κ : Type) where
  walk : σ
  events : List (WalkEvent κ)
deriving DecidableEq, Repr

namespace Journal

variable {σ ω α : Type}

def record (change : σ → σ) (event : WalkEvent κ) (journal : Journal σ κ) : Journal σ κ :=
  ⟨change journal.walk, journal.events ++ [event]⟩

/-- A book that is kept as another one is, and the journal with it. -/
def book (base : Book σ ω κ α) (kept : α → Bool) : Book (Journal σ κ) ω κ α where
  read journal := base.read journal.walk
  enter journal key := journal.record (base.enter · key) (.entered key)
  leave journal key found := journal.record (base.leave · key found) (.left key (kept found))

section Book

variable (base : Book σ ω κ α) (kept : α → Bool) (journal : Journal σ κ) (key : κ) (found : α)

@[simp] theorem walk_enter : ((book base kept).enter journal key).walk = base.enter journal.walk key := rfl

@[simp] theorem walk_leave : ((book base kept).leave journal key found).walk = base.leave journal.walk key found :=
  rfl

@[simp] theorem events_enter : ((book base kept).enter journal key).events = journal.events ++ [.entered key] := rfl

@[simp] theorem events_leave :
    ((book base kept).leave journal key found).events = journal.events ++ [.left key (kept found)] := rfl

end Book

/-- What a step adds to the journal leads from the ledger before it to the ledger after it. `Result` says more about
what is added, given what the step finds. -/
def Logs [BEq κ] (ledger : σ → Ledger κ) (limit : Nat) (step : StateM (Journal σ κ) α)
    (Result : List (WalkEvent κ) → α → Prop) (journal : Journal σ κ) : Prop :=
  ∃ events, (step journal).2.events = journal.events ++ events ∧
    (ledger journal.walk).Runs limit events (ledger (step journal).2.walk) ∧ Result events (step journal).1

/-- With a journal, a step finds the same as without one. It leaves the same walk, at least if `R` holds of what it
finds. -/
def Follows (R : α → Prop) (recorded : StateM (Journal σ κ) α) (plain : StateM σ α) : Prop :=
  ∀ journal, (recorded journal).1 = (plain journal.walk).1 ∧
    (R (plain journal.walk).1 → (recorded journal).2.walk = (plain journal.walk).2)

variable {base : Book σ ω κ α} {kept : α → Bool} {key : κ} {body : StateM (Journal σ κ) α}

theorem Follows.pure {R : α → Prop} (value : α) :
    Follows R (Pure.pure value : StateM (Journal σ κ) α) (Pure.pure value) :=
  fun _ => ⟨rfl, fun _ => rfl⟩

theorem Follows.visit {R : α → Prop} {plain : StateM σ α} (hBody : Follows R body plain) :
    Follows R ((Journal.book base kept).visit key body) (base.visit key plain) := by
  intro journal
  obtain ⟨hFound, hWalk⟩ := hBody ((book base kept).enter journal key)
  rw [walk_enter] at hFound hWalk
  rw [Book.visit_run, Book.visit_run]
  refine ⟨hFound, fun hResult => ?_⟩
  rw [walk_leave, hFound, hWalk hResult]

variable [BEq κ] {ledger : σ → Ledger κ} {limit : Nat} {Result : List (WalkEvent κ) → α → Prop}
  {journal : Journal σ κ}

/-- Where nothing is done, nothing is added. -/
theorem Logs.idle {step : StateM (Journal σ κ) α} {value : α} (hRun : step journal = (value, journal))
    (hResult : Result [] value) : Logs ledger limit step Result journal := by
  rw [Logs, hRun]
  exact ⟨[], (List.append_nil _).symm, .done _, hResult⟩

theorem Logs.congr {step other : StateM (Journal σ κ) α} (hRun : step journal = other journal)
    (hOther : Logs ledger limit other Result journal) : Logs ledger limit step Result journal := by
  rwa [Logs, hRun]

/-- A step that does what `first` does and then what `next` does. -/
theorem Logs.trans {β : Type} {first : StateM (Journal σ κ) β} {step next : StateM (Journal σ κ) α}
    {ResultFirst : List (WalkEvent κ) → β → Prop} {ResultNext : List (WalkEvent κ) → α → Prop}
    (hFirst : Logs ledger limit first ResultFirst journal) (hRun : step journal = next (first journal).2)
    (hNext : Logs ledger limit next ResultNext (first journal).2)
    (hResult : ∀ events others value, ResultFirst events (first journal).1 → ResultNext others value →
      Result (events ++ others) value) : Logs ledger limit step Result journal := by
  obtain ⟨events, hEvents, hRuns, hFound⟩ := hFirst
  obtain ⟨others, hOthers, hRunsNext, hFoundNext⟩ := hNext
  rw [Logs, hRun]
  exact ⟨events ++ others, by rw [hOthers, hEvents, List.append_assoc], hRuns.append hRunsNext,
    hResult _ _ _ hFound hFoundNext⟩

theorem Logs.imp {step : StateM (Journal σ κ) α} {Result' : List (WalkEvent κ) → α → Prop}
    (hLogs : Logs ledger limit step Result journal)
    (hImp : ∀ events value, Result events value → Result' events value) :
    Logs ledger limit step Result' journal := by
  obtain ⟨events, hEvents, hRuns, hResult⟩ := hLogs
  exact ⟨events, hEvents, hRuns, hImp _ _ hResult⟩

theorem Logs.visit (hEnter : ∀ walk, ledger (base.enter walk key) = (ledger walk).enter key)
    (hLeave : ∀ walk found, ledger (base.leave walk key found) = (ledger walk).leave key (kept found))
    (hSteps : (ledger journal.walk).steps < limit) (hActive : key ∉ (ledger journal.walk).active)
    (hNew : key ∉ (ledger journal.walk).kept)
    (hBody : Logs ledger limit body Result ((book base kept).enter journal key)) :
    Logs ledger limit ((book base kept).visit key body)
      (fun events found => ∃ inner, Result inner found ∧
        events = .entered key :: (inner ++ [.left key (kept found)])) journal := by
  obtain ⟨inner, hEvents, hRuns, hResult⟩ := hBody
  rw [Logs, Book.visit_run]
  refine ⟨.entered key :: (inner ++ [.left key (kept _)]), ?_, ?_, inner, hResult, rfl⟩
  · rw [events_leave, hEvents, events_enter, List.append_assoc, List.append_assoc]
    rfl
  · rw [walk_leave, hLeave]
    rw [walk_enter, hEnter] at hRuns
    exact .visit hSteps hActive hNew hRuns (.done _)

/-- Of a journal that was empty at first, everything was added. -/
theorem Logs.of_empty {step : StateM (Journal σ κ) α} {walk : σ} (hLogs : Logs ledger limit step Result ⟨walk, []⟩) :
    (ledger walk).Runs limit (step ⟨walk, []⟩).2.events (ledger (step ⟨walk, []⟩).2.walk) ∧
      Result (step ⟨walk, []⟩).2.events (step ⟨walk, []⟩).1 := by
  obtain ⟨events, hEvents, hRuns, hResult⟩ := hLogs
  rw [hEvents]
  exact ⟨hRuns, hResult⟩

end Journal

end CliSignature
