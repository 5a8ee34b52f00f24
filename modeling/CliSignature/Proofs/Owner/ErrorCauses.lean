import CliSignature.Proofs.Owner.UnboundedWalk

/-!
What the errors of a walk tell. A walk fails for one of three reasons: it may not stand at any more places,
or it is back at a token, or back at an instantiation. Whichever comes first on the unbounded walk is the
reason. A return to an instantiation is reported like a limit, but with the number of places so far where
the limit belongs, so that a caller can not tell the two apart.
-/

namespace CliSignature

/-- Whether a walk remembers the place: it remembers tokens and instantiations. -/
def Place.isRemembered (arena : Arena) : Place → Bool
  | .node id => Trail.isInstantiation arena id
  | .type _ => true

/-- How a walk reports that its place number `step` is one it remembers. -/
def Place.refusal (step : Nat) : Place → WalkError
  | .node _ => .recursionLimit step
  | .type token => .cyclicReference token

/-- The places on a trail. -/
def Trail.Marks (trail : Trail) : Place → Prop
  | .node id => id ∈ trail.instantiations
  | .type token => token ∈ trail.types

namespace Trail

/-- A place that is on the trail is refused. Any other is put on the trail if it is one to remember. -/
theorem visit_cases (arena : Arena) (trail : Trail) (step : Nat) (place : Place) :
    (place.isRemembered arena = true ∧ trail.Marks place ∧
      trail.visit arena step place = .error (place.refusal step)) ∨
    (¬ (place.isRemembered arena = true ∧ trail.Marks place) ∧
      ∃ longer, trail.visit arena step place = .ok longer ∧
        ∀ other, longer.Marks other ↔ trail.Marks other ∨ (other = place ∧ place.isRemembered arena = true)) := by
  cases place with
  | node id =>
      by_cases hInside : isInstantiation arena id = true
      · by_cases hKnown : id ∈ trail.instantiations
        · exact .inl ⟨hInside, hKnown, by simp [visit, hInside, hKnown, Place.refusal]⟩
        · refine .inr ⟨fun hBoth => hKnown hBoth.2, ⟨trail.types, id :: trail.instantiations⟩,
            by simp [visit, hInside, hKnown], fun other => ?_⟩
          cases other <;> simp [Marks, Place.isRemembered, hInside, or_comm]
      · refine .inr ⟨fun hBoth => hInside hBoth.1, trail, by simp [visit, hInside], fun other => ?_⟩
        simp [Place.isRemembered, hInside]
  | type token =>
      by_cases hKnown : token ∈ trail.types
      · exact .inl ⟨rfl, hKnown, by simp [visit, hKnown, Place.refusal]⟩
      · refine .inr ⟨fun hBoth => hKnown hBoth.2, ⟨token :: trail.types, trail.instantiations⟩,
          by simp [visit, hKnown], fun other => ?_⟩
        cases other <;> simp [Marks, Place.isRemembered, or_comm]

end Trail

namespace OwnerQuery

variable {α : Type} {query : OwnerQuery α} {arena : Arena} {source : TypeSource} {start place : Place}

namespace Follows

/-- The links determine the way, so a longer walk passes where a shorter one ends. -/
theorem rest {last : Place} {n k : Nat} (hFirst : query.Follows arena source start n place)
    (hWhole : query.Follows arena source start (n + k) last) : query.Follows arena source place k last := by
  induction hFirst with
  | start => rwa [Nat.zero_add] at hWhole
  | link hLeads _ ih =>
      rw [Nat.succ_add] at hWhole
      cases hWhole with
      | link hLeads' hRest =>
          obtain rfl := hLeads.unique hLeads'
          exact ih hRest

theorem unique {other : Place} {n : Nat} (hFirst : query.Follows arena source start n place)
    (hSecond : query.Follows arena source start n other) : place = other := by
  cases hFirst.rest (k := 0) hSecond with
  | start => rfl

end Follows

/-- After the given number of links, the unbounded walk is at a place that it has passed before. -/
def Returns (query : OwnerQuery α) (arena : Arena) (source : TypeSource) (start : Place) (links : Nat)
    (place : Place) : Prop :=
  query.Follows arena source start links place ∧ ∃ earlier < links, query.Follows arena source start earlier place

/-- Up to the given number of links, the unbounded walk does not return to any place that is to be
remembered. -/
def Fresh (query : OwnerQuery α) (arena : Arena) (source : TypeSource) (start : Place) (links : Nat) : Prop :=
  ∀ earlier < links, ∀ place, place.isRemembered arena = true → ¬ query.Returns arena source start earlier place

/-- The first return of the unbounded walk to a place that is to be remembered. -/
structure FirstReturn (query : OwnerQuery α) (arena : Arena) (source : TypeSource) (start : Place) (links : Nat)
    (place : Place) : Prop where
  remembered : place.isRemembered arena = true
  returns : query.Returns arena source start links place
  fresh : query.Fresh arena source start links

theorem Returns.cycle {links : Nat} (hReturns : query.Returns arena source start links place) :
    ∃ earlier rounds, query.Follows arena source start earlier place ∧
      query.Follows arena source place (rounds + 1) place := by
  obtain ⟨hFollows, earlier, hEarlier, hPassed⟩ := hReturns
  obtain ⟨rounds, rfl⟩ : ∃ rounds, links = earlier + (rounds + 1) := ⟨links - earlier - 1, by omega⟩
  exact ⟨earlier, rounds, hPassed, hPassed.rest hFollows⟩

/-- A walk that returns goes on, since it went on the first time. -/
theorem Returns.goes_on {links : Nat} (hReturns : query.Returns arena source start links place) :
    ∃ next, query.Follows arena source start (links + 1) next := by
  obtain ⟨earlier, rounds, -, hCycle⟩ := hReturns.cycle
  cases hCycle with
  | link hLeads _ => exact ⟨_, hReturns.1.snoc hLeads⟩

/-- A walk that stops never returns. -/
theorem Stops.not_returns {links places : Nat} {answer : Option α}
    (hStops : query.Stops arena source start places answer) :
    ¬ query.Returns arena source start links place := by
  intro hReturns
  obtain ⟨earlier, rounds, hPassed, hCycle⟩ := hReturns.cycle
  obtain ⟨_, -, hRest⟩ := hStops.behind hPassed
  exact hRest.not_cycle hCycle

theorem FirstReturn.unique {links links' : Nat} {place place' : Place}
    (hFirst : query.FirstReturn arena source start links place)
    (hSecond : query.FirstReturn arena source start links' place') : links = links' ∧ place = place' := by
  obtain hLt | rfl | hGt := Nat.lt_trichotomy links links'
  · exact absurd hFirst.returns (hSecond.fresh links hLt place hFirst.remembered)
  · exact ⟨rfl, hFirst.returns.1.unique hSecond.returns.1⟩
  · exact absurd hSecond.returns (hFirst.fresh links' hGt place' hSecond.remembered)

/-- A walk that returns somewhere has a first return. -/
theorem Returns.exists_first {links : Nat} (hReturns : query.Returns arena source start links place)
    (hRemembered : place.isRemembered arena = true) :
    ∃ first ≤ links, ∃ other, query.FirstReturn arena source start first other := by
  induction links using Nat.strongRecOn generalizing place with
  | _ links ih =>
      by_cases hFresh : query.Fresh arena source start links
      · exact ⟨links, Nat.le_refl links, place, hRemembered, hReturns, hFresh⟩
      · simp only [Fresh, Classical.not_forall, Classical.not_not] at hFresh
        obtain ⟨earlier, hEarlier, other, hOther, hBefore⟩ := hFresh
        obtain ⟨first, hFirst, found, hFound⟩ := ih earlier hEarlier hBefore hOther
        exact ⟨first, by omega, found, hFound⟩

/-- How a walk under a bound may end, told along the unbounded one. -/
inductive Ends (query : OwnerQuery α) (arena : Arena) (source : TypeSource) (bound : Nat) (start : Place) :
    Except WalkError (Option α) → Prop where
  | answered {places : Nat} {answer : Option α} (hWithin : places ≤ bound)
      (hStops : query.Stops arena source start places answer) : Ends query arena source bound start (.ok answer)
  | exhausted {place : Place} (hFollows : query.Follows arena source start bound place)
      (hFresh : query.Fresh arena source start bound) :
      Ends query arena source bound start (.error (.recursionLimit bound))
  | returned {links : Nat} {place : Place} (hWithin : links < bound)
      (hFirst : query.FirstReturn arena source start links place) :
      Ends query arena source bound start (.error (place.refusal (links + 1)))

theorem Stops.of_follows {places links : Nat} {answer : Option α}
    (hFollows : query.Follows arena source start links place)
    (hStops : query.Stops arena source place places answer) :
    query.Stops arena source start (places + links) answer := by
  induction hFollows with
  | start => exact hStops
  | link hLeads _ ih => exact .later hLeads (ih hStops)

theorem Stops.pos {places : Nat} {answer : Option α} (hStops : query.Stops arena source start places answer) :
    0 < places := by
  cases hStops <;> exact Nat.succ_pos _

/-- The trail of a walk that has followed the given number of links. -/
def RecordedBy (query : OwnerQuery α) (arena : Arena) (source : TypeSource) (start : Place) (links : Nat)
    (trail : Trail) : Prop :=
  ∀ place, trail.Marks place ↔
    place.isRemembered arena = true ∧ ∃ earlier < links, query.Follows arena source start earlier place

/-- Where the trail does not refuse the place of the walk, the next place is met with a trail of the whole
way to it. -/
theorem RecordedBy.next {trail longer : Trail} {links : Nat}
    (hTrail : query.RecordedBy arena source start links trail)
    (hFollows : query.Follows arena source start links place)
    (hLonger : ∀ other, longer.Marks other ↔ trail.Marks other ∨ (other = place ∧ place.isRemembered arena = true)) :
    query.RecordedBy arena source start (links + 1) longer := by
  intro other
  rw [hLonger, hTrail]
  constructor
  · rintro (⟨hRemembered, earlier, hEarlier, hPassed⟩ | ⟨rfl, hRemembered⟩)
    · exact ⟨hRemembered, earlier, Nat.lt_succ_of_lt hEarlier, hPassed⟩
    · exact ⟨hRemembered, links, Nat.lt_succ_self links, hFollows⟩
  · rintro ⟨hRemembered, earlier, hEarlier, hPassed⟩
    rcases Nat.lt_succ_iff_lt_or_eq.mp hEarlier with hBefore | rfl
    · exact .inl ⟨hRemembered, earlier, hBefore, hPassed⟩
    · obtain rfl := hPassed.unique hFollows
      exact .inr ⟨rfl, hRemembered⟩

theorem Fresh.next {trail : Trail} {links : Nat} (hFresh : query.Fresh arena source start links)
    (hTrail : query.RecordedBy arena source start links trail)
    (hFollows : query.Follows arena source start links place)
    (hNew : ¬ (place.isRemembered arena = true ∧ trail.Marks place)) :
    query.Fresh arena source start (links + 1) := by
  intro earlier hEarlier other hRemembered hReturns
  rcases Nat.lt_succ_iff_lt_or_eq.mp hEarlier with hBefore | rfl
  · exact hFresh earlier hBefore other hRemembered hReturns
  · obtain rfl := hReturns.1.unique hFollows
    exact hNew ⟨hRemembered, (hTrail other).mpr ⟨hRemembered, hReturns.2⟩⟩

/-- By induction on the places that are left. Up to here the walk has not returned, and its trail is that of
the whole way from the start. -/
theorem ends_walk {bound remaining links : Nat} {trail : Trail} (hBound : links + remaining = bound)
    (hFollows : query.Follows arena source start links place)
    (hTrail : query.RecordedBy arena source start links trail) (hFresh : query.Fresh arena source start links) :
    query.Ends arena source bound start (query.walk arena source bound remaining trail place) := by
  induction remaining generalizing links trail place with
  | zero =>
      obtain rfl : links = bound := hBound
      exact .exhausted hFollows hFresh
  | succ remaining ih =>
      have hStep : bound - remaining = links + 1 := by omega
      rw [walk, hStep]
      rcases trail.visit_cases arena (links + 1) place with
        ⟨hRemembered, hMarked, hVisit⟩ | ⟨hNew, longer, hVisit, hLonger⟩
      · rw [hVisit]
        exact .returned (by omega) ⟨hRemembered, ⟨hFollows, ((hTrail place).mp hMarked).2⟩, hFresh⟩
      · simp only [hVisit]
        cases hMove : query.move arena source place with
        | stop answer =>
            obtain ⟨hEnd, rfl⟩ := move_eq_stop_iff.mp hMove
            exact .answered (by omega) ((Stops.here hEnd).of_follows hFollows)
        | go next =>
            exact ih (by omega) (hFollows.snoc (move_eq_go_iff.mp hMove)) (hTrail.next hFollows hLonger)
              (hFresh.next hTrail hFollows hNew)

theorem Stops.answer_unique {first second : Nat} {answer other : Option α}
    (hFirst : query.Stops arena source start first answer)
    (hSecond : query.Stops arena source start second other) : answer = other := by
  obtain rfl := hFirst.unique hSecond
  have hWalk {found : Option α} (hStops : query.Stops arena source start first found) :
      query.walk arena source first first .empty start = .ok found := by
    rw [walk_of_stops hStops (Trail.behind_empty start), if_pos (Nat.le_refl first)]
  exact Except.ok.inj ((hWalk hFirst).symm.trans (hWalk hSecond))

theorem Stops.not_exhausted {bound places : Nat} {answer : Option α} (hWithin : places ≤ bound)
    (hStops : query.Stops arena source start places answer) :
    ¬ query.Follows arena source start bound place := by
  intro hFollows
  obtain ⟨left, rfl, hRest⟩ := hStops.behind hFollows
  have hSome := hRest.pos
  omega

/-- The three endings exclude each other. -/
theorem Ends.unique {bound : Nat} {result result' : Except WalkError (Option α)}
    (hEnds : query.Ends arena source bound start result) (hEnds' : query.Ends arena source bound start result') :
    result = result' := by
  cases hEnds with
  | answered hWithin hStops =>
      cases hEnds' with
      | answered _ hStops' => rw [hStops.answer_unique hStops']
      | exhausted hFollows _ => exact absurd hFollows (hStops.not_exhausted hWithin)
      | returned _ hFirst => exact absurd hFirst.returns hStops.not_returns
  | exhausted hFollows hFresh =>
      cases hEnds' with
      | answered hWithin hStops => exact absurd hFollows (hStops.not_exhausted hWithin)
      | exhausted => rfl
      | returned hWithin hFirst => exact absurd hFirst.returns (hFresh _ hWithin _ hFirst.remembered)
  | returned hWithin hFirst =>
      cases hEnds' with
      | answered _ hStops => exact absurd hFirst.returns hStops.not_returns
      | exhausted _ hFresh => exact absurd hFirst.returns (hFresh _ hWithin _ hFirst.remembered)
      | returned _ hFirst' =>
          obtain ⟨rfl, rfl⟩ := hFirst.unique hFirst'
          rfl

/-- A bounded walk ends in the one way that the unbounded walk lets it end. -/
theorem resolve_eq_iff_ends {limits : Limits} {result : Except WalkError (Option α)} :
    query.resolve arena source limits start = result ↔
      query.Ends arena source limits.resolutionSteps start result := by
  have hEmpty : query.RecordedBy arena source start 0 .empty := by
    rintro (id | token) <;> simp [Trail.Marks, Trail.empty]
  have hEnds : query.Ends arena source limits.resolutionSteps start (query.resolve arena source limits start) :=
    ends_walk (Nat.zero_add _) (.start start) hEmpty nofun
  constructor
  · rintro rfl
    exact hEnds
  · exact hEnds.unique

/-- The token at which the unbounded walk is back for the first time, instantiations left aside. -/
def FirstCyclic (query : OwnerQuery α) (arena : Arena) (source : TypeSource) (start : Place) (links : Nat)
    (token : Token) : Prop :=
  query.Returns arena source start links (.type token) ∧
    ∀ earlier < links, ∀ other, ¬ query.Returns arena source start earlier (.type other)

/-- A caller learns from the error what happened: a limit is the one that was given, and the walk stood at as
many places without an answer, and a token is cyclic exactly if it is the first to which the walk comes back
within the limit. -/
structure ErrorsTell (query : OwnerQuery α) (arena : Arena) (source : TypeSource) (limits : Limits)
    (start : Place) : Prop where
  recursionLimit : ∀ limit, query.resolve arena source limits start = .error (.recursionLimit limit) →
    limit = limits.resolutionSteps ∧ ∃ place, query.Follows arena source start limit place
  cyclicReference : ∀ token, query.resolve arena source limits start = .error (.cyclicReference token) ↔
    ∃ links < limits.resolutionSteps, query.FirstCyclic arena source start links token

theorem FirstReturn.firstCyclic {links : Nat} {token : Token}
    (hFirst : query.FirstReturn arena source start links (.type token)) :
    query.FirstCyclic arena source start links token :=
  ⟨hFirst.returns, fun earlier hEarlier other => hFirst.fresh earlier hEarlier (.type other) rfl⟩

theorem resolve_eq_cyclicReference_iff {limits : Limits} {token : Token} :
    query.resolve arena source limits start = .error (.cyclicReference token) ↔
      ∃ links < limits.resolutionSteps, query.FirstReturn arena source start links (.type token) := by
  rw [resolve_eq_iff_ends]
  constructor
  · intro hEnds
    generalize hResult : Except.error (WalkError.cyclicReference token) = result at hEnds
    cases hEnds with
    | answered | exhausted => cases hResult
    | @returned links place hWithin hFirst =>
        cases place with
        | node id => cases hResult
        | type other =>
            cases hResult
            exact ⟨links, hWithin, hFirst⟩
  · rintro ⟨links, hWithin, hFirst⟩
    exact .returned hWithin hFirst

theorem resolve_eq_recursionLimit_iff {limits : Limits} {limit : Nat} :
    query.resolve arena source limits start = .error (.recursionLimit limit) ↔
      (limit = limits.resolutionSteps ∧ query.Fresh arena source start limit ∧
        ∃ place, query.Follows arena source start limit place) ∨
      ∃ links < limits.resolutionSteps, limit = links + 1 ∧
        ∃ id, query.FirstReturn arena source start links (.node id) := by
  rw [resolve_eq_iff_ends]
  constructor
  · intro hEnds
    generalize hResult : Except.error (WalkError.recursionLimit limit) = result at hEnds
    cases hEnds with
    | answered => cases hResult
    | @exhausted place hFollows hFresh =>
        cases hResult
        exact .inl ⟨rfl, hFresh, place, hFollows⟩
    | @returned links place hWithin hFirst =>
        cases place with
        | node id =>
            cases hResult
            exact .inr ⟨links, hWithin, rfl, id, hFirst⟩
        | type other => cases hResult
  · rintro (⟨rfl, hFresh, place, hFollows⟩ | ⟨links, hWithin, rfl, id, hFirst⟩)
    · exact .exhausted hFollows hFresh
    · exact .returned hWithin hFirst

/-- If no instantiation is in the way, a token to which the walk comes back first of all tokens is the first
return at all. -/
theorem FirstCyclic.firstReturn {limits : Limits} {links : Nat} {token : Token}
    (hLate : ∀ first id, query.FirstReturn arena source start first (.node id) →
      limits.resolutionSteps ≤ first + 1)
    (hWithin : links < limits.resolutionSteps)
    (hCyclic : query.FirstCyclic arena source start links token) :
    query.FirstReturn arena source start links (.type token) := by
  refine ⟨rfl, hCyclic.1, fun earlier hEarlier other hRemembered hReturns => ?_⟩
  obtain ⟨first, hBefore, found, hFirst⟩ := hReturns.exists_first hRemembered
  cases found with
  | type other => exact hCyclic.2 first (by omega) other hFirst.returns
  | node id =>
      have hBound := hLate first id hFirst
      omega

/-- What the errors of a walk say, for any query and from any place. A limit is reported if the walk stood at
as many places as it may and did not come back, and also, with the number of places so far, if what it first
comes back to is an instantiation. A token is reported as cyclic if it is what the walk first comes back to.
So the errors tell what happened if and only if the walk does not come back to an instantiation before the
last place that the limit lets it stand at. -/
theorem errorsTell_iff (query : OwnerQuery α) (arena : Arena) (source : TypeSource) (limits : Limits)
    (start : Place) :
    (∀ limit, query.resolve arena source limits start = .error (.recursionLimit limit) ↔
      (limit = limits.resolutionSteps ∧ query.Fresh arena source start limit ∧
        ∃ place, query.Follows arena source start limit place) ∨
      ∃ links < limits.resolutionSteps, limit = links + 1 ∧
        ∃ id, query.FirstReturn arena source start links (.node id)) ∧
    (∀ token, query.resolve arena source limits start = .error (.cyclicReference token) ↔
      ∃ links < limits.resolutionSteps, query.FirstReturn arena source start links (.type token)) ∧
    (query.ErrorsTell arena source limits start ↔
      ∀ links id, query.FirstReturn arena source start links (.node id) →
        limits.resolutionSteps ≤ links + 1) := by
  refine ⟨fun _ => resolve_eq_recursionLimit_iff, fun _ => resolve_eq_cyclicReference_iff,
    fun hTell links id hFirst => ?_, fun hLate => ⟨fun limit hResolve => ?_, fun token => ?_⟩⟩
  · refine Nat.le_of_not_lt fun hShort => ?_
    have hResolve : query.resolve arena source limits start = .error (.recursionLimit (links + 1)) :=
      resolve_eq_recursionLimit_iff.mpr (.inr ⟨links, by omega, rfl, id, hFirst⟩)
    have hLimit := (hTell.recursionLimit _ hResolve).1
    omega
  · rcases resolve_eq_recursionLimit_iff.mp hResolve with
      ⟨rfl, -, hFollows⟩ | ⟨links, hWithin, rfl, id, hFirst⟩
    · exact ⟨rfl, hFollows⟩
    · have hBound := hLate links id hFirst
      exact ⟨by omega, hFirst.returns.goes_on⟩
  · rw [resolve_eq_cyclicReference_iff]
    constructor
    · rintro ⟨links, hWithin, hFirst⟩
      exact ⟨links, hWithin, hFirst.firstCyclic⟩
    · rintro ⟨links, hWithin, hCyclic⟩
      exact ⟨links, hWithin, hCyclic.firstReturn hLate hWithin⟩

/-- An instantiation whose open type is the instantiation itself. -/
def selfInstantiation : Arena :=
  ⟨#[.genericInst (some ⟨0⟩) []]⟩

/-- The walk gives up at its second place, and names that number as its limit. -/
theorem not_errorsTell_selfInstantiation :
    ¬ ∀ (source : TypeSource) (limits : Limits) (start : Place),
      owningModule.ErrorsTell selfInstantiation source limits start := by
  intro hTell
  have hResolve : owningModule.resolve selfInstantiation ⟨fun _ => none, fun _ => none, fun _ => none⟩ .standard
      (.node ⟨0⟩) = .error (.recursionLimit 2) := rfl
  have hLimit := ((hTell _ _ _).recursionLimit 2 hResolve).1
  exact absurd hLimit (by decide)

end OwnerQuery

end CliSignature
