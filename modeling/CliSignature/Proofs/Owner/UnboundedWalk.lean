import CliSignature.Owner

/-!
The walk without a bound. It follows the links from place to place, remembers nothing of its way and may
never end. The walk that is cut gives the same answer wherever the bound suffices for all places of the
unbounded one. Its trail never gets in the way there: the links determine the way, so a place that is met
again is met again and again.
-/

namespace CliSignature

namespace OwnerQuery

variable {α : Type} {query : OwnerQuery α} {arena : Arena} {source : TypeSource}

/-- The links along which an owner is looked for. What a query does at a reference is its own matter: the
defining assembly of a nested type is looked for at the type around it, the owning module is not looked
for any further. -/
inductive Leads (query : OwnerQuery α) (arena : Arena) (source : TypeSource) : Place → Place → Prop where
  | child {id child : NodeId} {node : Node} (hNode : arena.get? id = some node)
      (hChild : node.child? = some child) : Leads query arena source (.node id) (.node child)
  | openType {id definition : NodeId} {args : List NodeId}
      (hNode : arena.get? id = some (.genericInst (some definition) args)) :
      Leads query arena source (.node id) (.node definition)
  | token {id : NodeId} {node : Node} {token : Token} (hNode : arena.get? id = some node)
      (hToken : node.token? = some token) : Leads query arena source (.node id) (.type token)
  | specification {token : Token} {signature : NodeId}
      (hEntry : source.type? token = some (.specification (some signature))) :
      Leads query arena source (.type token) (.node signature)
  | reference {token : Token} {owner : ModuleId} {scope : ResolutionScope} {namespaceName name : String}
      {next : Place} (hEntry : source.type? token = some (.reference owner scope namespaceName name))
      (hScope : query.ofReference owner scope = .go next) : Leads query arena source (.type token) next

/-- The answer at a place from which no link leads on. Only definitions and references have one. -/
def answerAt (query : OwnerQuery α) (source : TypeSource) : Place → Option α
  | .node _ => none
  | .type token =>
    match source.type? token with
    | some (.definition owner _ _ _) => query.ofDefinition owner
    | some (.reference owner scope _ _) =>
      match query.ofReference owner scope with
      | .stop answer => answer
      | .go _ => none
    | _ => none

/-- The unbounded walk from the first place is at the second after exactly the given number of links. -/
inductive Follows (query : OwnerQuery α) (arena : Arena) (source : TypeSource) :
    Place → Nat → Place → Prop where
  | start (place : Place) : Follows query arena source place 0 place
  | link {place next last : Place} {links : Nat} (hLeads : query.Leads arena source place next)
      (hRest : Follows query arena source next links last) :
      Follows query arena source place (links + 1) last

/-- The unbounded walk ends with the answer. The number counts the places where it stands, both ends
included. -/
inductive Stops (query : OwnerQuery α) (arena : Arena) (source : TypeSource) :
    Place → Nat → Option α → Prop where
  | here {place : Place} (hEnd : ∀ next, ¬ query.Leads arena source place next) :
      Stops query arena source place 1 (query.answerAt source place)
  | later {place next : Place} {places : Nat} {answer : Option α}
      (hLeads : query.Leads arena source place next)
      (hRest : Stops query arena source next places answer) :
      Stops query arena source place (places + 1) answer

theorem toSlot_eq_go_iff {slot : Option NodeId} {next : Place} :
    (Move.toSlot slot : Move α) = .go next ↔ ∃ id, slot = some id ∧ next = .node id := by
  cases slot <;> simp [Move.toSlot, eq_comm]

/-- A step of a walk goes on exactly along the links. -/
theorem move_eq_go_iff {place next : Place} :
    query.move arena source place = .go next ↔ query.Leads arena source place next := by
  constructor
  · intro hMove
    cases place with
    | node id =>
        cases hNode : arena.get? id with
        | none => simp [move, atNode, hNode] at hMove
        | some node =>
            cases node with
            | named | primitive =>
                obtain rfl : Place.type _ = next := by simpa [move, atNode, hNode] using hMove
                exact .token hNode rfl
            | genericInst definition args =>
                simp only [move, atNode, hNode, toSlot_eq_go_iff] at hMove
                obtain ⟨open', rfl, rfl⟩ := hMove
                exact .openType hNode
            | _ =>
                simp only [move, atNode, hNode, toSlot_eq_go_iff] at hMove
                obtain ⟨child, hChild, rfl⟩ := hMove
                exact .child hNode hChild
    | type token =>
        cases hEntry : source.type? token with
        | none => simp [move, atType, hEntry] at hMove
        | some entry =>
            cases entry with
            | definition => simp [move, atType, hEntry] at hMove
            | reference owner scope namespaceName name =>
                exact .reference hEntry (by simpa [move, atType, hEntry] using hMove)
            | specification signature =>
                simp only [move, atType, hEntry, toSlot_eq_go_iff] at hMove
                obtain ⟨id, rfl, rfl⟩ := hMove
                exact .specification hEntry
  · intro hLeads
    cases hLeads with
    | @child id child node hNode hChild =>
        cases node <;> simp_all [move, atNode, Node.child?, Move.toSlot]
    | openType hNode => simp [move, atNode, hNode, Move.toSlot]
    | @token id node token hNode hToken =>
        cases node <;> simp_all [move, atNode, Node.token?]
    | specification hEntry => simp [move, atType, hEntry, Move.toSlot]
    | reference hEntry hScope => simp [move, atType, hEntry, hScope]

theorem eq_none_of_toSlot_eq_stop {slot : Option NodeId} {answer : Option α}
    (hStop : Move.toSlot slot = .stop answer) : answer = none := by
  cases slot with
  | none => exact (Move.stop.inj hStop).symm
  | some id => cases hStop

theorem answerAt_of_move {place : Place} {answer : Option α}
    (hStop : query.move arena source place = .stop answer) : query.answerAt source place = answer := by
  cases place with
  | node id =>
      simp only [move, atNode] at hStop
      split at hStop
      case h_1 => exact Move.stop.inj hStop
      case h_4 | h_5 => exact (eq_none_of_toSlot_eq_stop hStop).symm
      all_goals cases hStop
  | type token =>
      simp only [move, atType] at hStop
      cases hEntry : source.type? token with
      | none => simp_all [answerAt]
      | some entry =>
          cases entry with
          | definition | reference => simp_all [answerAt]
          | specification signature =>
              simp only [hEntry] at hStop
              simp [answerAt, hEntry, eq_none_of_toSlot_eq_stop hStop]

/-- A step ends with the answer of the place exactly where no link leads on. -/
theorem move_eq_stop_iff {place : Place} {answer : Option α} :
    query.move arena source place = .stop answer ↔
      (∀ next, ¬ query.Leads arena source place next) ∧ query.answerAt source place = answer := by
  constructor
  · intro hStop
    refine ⟨fun next hLeads => ?_, answerAt_of_move hStop⟩
    rw [move_eq_go_iff.mpr hLeads] at hStop
    cases hStop
  · rintro ⟨hEnd, rfl⟩
    cases hMove : query.move arena source place with
    | go next => exact absurd (move_eq_go_iff.mp hMove) (hEnd next)
    | stop found => rw [answerAt_of_move hMove]

theorem Leads.unique {place first second : Place} (hFirst : query.Leads arena source place first)
    (hSecond : query.Leads arena source place second) : first = second :=
  Move.go.inj ((move_eq_go_iff.mpr hFirst).symm.trans (move_eq_go_iff.mpr hSecond))

namespace Follows

theorem trans {first second third : Place} {m n : Nat} (hFirst : query.Follows arena source first m second)
    (hSecond : query.Follows arena source second n third) :
    query.Follows arena source first (m + n) third := by
  induction hFirst with
  | start => rwa [Nat.zero_add]
  | @link place next last links hLeads _ ih =>
      rw [Nat.succ_add]
      exact .link hLeads (ih hSecond)

theorem snoc {first second third : Place} {n : Nat} (hFollows : query.Follows arena source first n second)
    (hLeads : query.Leads arena source second third) :
    query.Follows arena source first (n + 1) third :=
  hFollows.trans (.link hLeads (.start third))

/-- A walk that comes back to a place comes back any number of times. -/
theorem again {place : Place} {links : Nat} (hCycle : query.Follows arena source place links place)
    (rounds : Nat) : query.Follows arena source place (rounds * links) place := by
  induction rounds with
  | zero =>
      rw [Nat.zero_mul]
      exact .start place
  | succ rounds ih =>
      rw [Nat.succ_mul]
      exact ih.trans hCycle

/-- A walk that comes back to a place is there infinitely often. -/
theorem infinitelyOften {start place : Place} {before links : Nat}
    (hReached : query.Follows arena source start before place)
    (hCycle : query.Follows arena source place (links + 1) place) (n : Nat) :
    ∃ m, n ≤ m ∧ query.Follows arena source start m place := by
  refine ⟨before + n * (links + 1), ?_, hReached.trans (hCycle.again n)⟩
  have hRounds : n ≤ n * (links + 1) := Nat.le_mul_of_pos_right n (Nat.succ_pos links)
  omega

end Follows

namespace Stops

theorem unique {place : Place} {first second : Nat} {answer other : Option α}
    (hFirst : query.Stops arena source place first answer)
    (hSecond : query.Stops arena source place second other) : first = second := by
  induction hFirst generalizing second other with
  | here hEnd =>
      cases hSecond with
      | here => rfl
      | later hLeads => exact absurd hLeads (hEnd _)
  | later hLeads _ ih =>
      cases hSecond with
      | here hEnd => exact absurd hLeads (hEnd _)
      | later hLeads' hRest =>
          obtain rfl := hLeads.unique hLeads'
          rw [ih hRest]

/-- A walk that stops goes on to stop from each place on its way, with fewer places to come. -/
theorem behind {place later : Place} {links places : Nat} {answer : Option α}
    (hFollows : query.Follows arena source place links later)
    (hStops : query.Stops arena source place places answer) :
    ∃ rest, places = rest + links ∧ query.Stops arena source later rest answer := by
  induction hFollows generalizing places with
  | start => exact ⟨places, rfl, hStops⟩
  | link hLeads _ ih =>
      cases hStops with
      | here hEnd => exact absurd hLeads (hEnd _)
      | later hLeads' hRest =>
          obtain rfl := hLeads.unique hLeads'
          obtain ⟨rest, rfl, hLater⟩ := ih hRest
          exact ⟨rest, rfl, hLater⟩

/-- A walk that comes back to a place does not stop. -/
theorem not_cycle {place : Place} {links places : Nat} {answer : Option α}
    (hStops : query.Stops arena source place places answer) :
    ¬ query.Follows arena source place (links + 1) place := by
  intro hCycle
  obtain ⟨rest, hPlaces, hRest⟩ := hStops.behind hCycle
  have hSame := hStops.unique hRest
  omega

end Stops

end OwnerQuery

namespace Trail

variable {α : Type} {query : OwnerQuery α} {arena : Arena} {source : TypeSource}

/-- What is on the trail lies behind the place where the walk stands now, at least one link back. -/
structure Behind (query : OwnerQuery α) (arena : Arena) (source : TypeSource) (trail : Trail)
    (place : Place) : Prop where
  types : ∀ token ∈ trail.types, ∃ links, query.Follows arena source (.type token) (links + 1) place
  instantiations :
    ∀ id ∈ trail.instantiations, ∃ links, query.Follows arena source (.node id) (links + 1) place

theorem behind_empty (place : Place) : Trail.empty.Behind query arena source place :=
  ⟨nofun, nofun⟩

/-- A place that is refused is on the trail, so the walk has come back to it. -/
theorem Behind.cycle {trail : Trail} {place : Place} {step : Nat} {error : WalkError}
    (hBehind : trail.Behind query arena source place) (hVisit : trail.visit arena step place = .error error) :
    (∃ links, query.Follows arena source place (links + 1) place) ∧
      ∀ token, error = .cyclicReference token → place = .type token := by
  cases place with
  | node id =>
      simp only [visit] at hVisit
      split at hVisit
      case isFalse => cases hVisit
      case isTrue =>
        split at hVisit
        case isFalse => cases hVisit
        case isTrue hKnown =>
          cases hVisit
          exact ⟨hBehind.instantiations id (by simpa using hKnown), nofun⟩
  | type token =>
      simp only [visit] at hVisit
      split at hVisit
      case isFalse => cases hVisit
      case isTrue hKnown =>
        cases hVisit
        refine ⟨hBehind.types token (by simpa using hKnown), ?_⟩
        rintro _ ⟨⟩
        rfl

/-- The trail grows by no more than the place that the walk leaves. -/
theorem Behind.visit {trail longer : Trail} {place next : Place} {step : Nat}
    (hBehind : trail.Behind query arena source place) (hVisit : trail.visit arena step place = .ok longer)
    (hLeads : query.Leads arena source place next) : longer.Behind query arena source next := by
  have hTypes : ∀ token ∈ trail.types, ∃ links, query.Follows arena source (.type token) (links + 1) next := by
    intro token hMem
    obtain ⟨links, hFollows⟩ := hBehind.types token hMem
    exact ⟨links + 1, hFollows.snoc hLeads⟩
  have hInstantiations : ∀ id ∈ trail.instantiations,
      ∃ links, query.Follows arena source (.node id) (links + 1) next := by
    intro id hMem
    obtain ⟨links, hFollows⟩ := hBehind.instantiations id hMem
    exact ⟨links + 1, hFollows.snoc hLeads⟩
  have hHere : ∃ links, query.Follows arena source place (links + 1) next :=
    ⟨0, .link hLeads (.start next)⟩
  cases place with
  | node id =>
      simp only [Trail.visit] at hVisit
      split at hVisit
      case isFalse =>
        cases hVisit
        exact ⟨hTypes, hInstantiations⟩
      case isTrue =>
        split at hVisit
        case isTrue => cases hVisit
        case isFalse =>
          cases hVisit
          exact ⟨hTypes, List.forall_mem_cons.mpr ⟨hHere, hInstantiations⟩⟩
  | type token =>
      simp only [Trail.visit] at hVisit
      split at hVisit
      case isTrue => cases hVisit
      case isFalse =>
        cases hVisit
        exact ⟨List.forall_mem_cons.mpr ⟨hHere, hTypes⟩, hInstantiations⟩

end Trail

namespace OwnerQuery

variable {α : Type} {query : OwnerQuery α} {arena : Arena} {source : TypeSource}

/-- Where the unbounded walk stops, the bounded one gives the same answer if it may stand at as many
places, and otherwise says that it may not. -/
theorem walk_of_stops {bound remaining places : Nat} {trail : Trail} {place : Place} {answer : Option α}
    (hStops : query.Stops arena source place places answer)
    (hBehind : trail.Behind query arena source place) :
    query.walk arena source bound remaining trail place =
      if places ≤ remaining then .ok answer else .error (.recursionLimit bound) := by
  induction hStops generalizing remaining trail with
  | @here place hEnd =>
      cases remaining with
      | zero => rfl
      | succ remaining =>
          cases hVisit : trail.visit arena (bound - remaining) place with
          | error error =>
              obtain ⟨⟨links, hCycle⟩, -⟩ := hBehind.cycle hVisit
              exact absurd hCycle (Stops.here hEnd).not_cycle
          | ok longer =>
              have hMove := move_eq_stop_iff.mpr ⟨hEnd, rfl⟩
              rw [walk, hVisit, hMove, if_pos (Nat.succ_le_succ (Nat.zero_le remaining))]
  | @later place next places answer hLeads hRest ih =>
      cases remaining with
      | zero => rfl
      | succ remaining =>
          cases hVisit : trail.visit arena (bound - remaining) place with
          | error error =>
              obtain ⟨⟨links, hCycle⟩, -⟩ := hBehind.cycle hVisit
              exact absurd hCycle (Stops.later hLeads hRest).not_cycle
          | ok longer =>
              rw [walk, hVisit, move_eq_go_iff.mpr hLeads]
              simp only [ih (hBehind.visit hVisit hLeads), Nat.succ_le_succ_iff]

/-- An answer of the bounded walk is that of the unbounded one. -/
theorem stops_of_walk {bound remaining : Nat} {trail : Trail} {place : Place} {answer : Option α}
    (hWalk : query.walk arena source bound remaining trail place = .ok answer) :
    ∃ places, query.Stops arena source place places answer := by
  induction remaining generalizing trail place with
  | zero => cases hWalk
  | succ remaining ih =>
      rw [walk] at hWalk
      split at hWalk
      case h_1 => cases hWalk
      case h_2 =>
        split at hWalk
        case h_1 found hMove =>
          cases hWalk
          obtain ⟨hEnd, rfl⟩ := move_eq_stop_iff.mp hMove
          exact ⟨1, .here hEnd⟩
        case h_2 next hMove =>
          obtain ⟨places, hStops⟩ := ih hWalk
          exact ⟨places + 1, .later (move_eq_go_iff.mp hMove) hStops⟩

/-- A token that is reported as cyclic is one that the unbounded walk comes back to. -/
theorem cycle_of_walk {bound remaining : Nat} {trail : Trail} {place : Place} {token : Token}
    (hBehind : trail.Behind query arena source place)
    (hWalk : query.walk arena source bound remaining trail place = .error (.cyclicReference token)) :
    ∃ before links, query.Follows arena source place before (.type token) ∧
      query.Follows arena source (.type token) (links + 1) (.type token) := by
  induction remaining generalizing trail place with
  | zero => cases hWalk
  | succ remaining ih =>
      rw [walk] at hWalk
      split at hWalk
      case h_1 error hVisit =>
        cases hWalk
        obtain ⟨⟨links, hCycle⟩, hPlace⟩ := hBehind.cycle hVisit
        obtain rfl := hPlace token rfl
        exact ⟨0, links, .start _, hCycle⟩
      case h_2 longer hVisit =>
        split at hWalk
        case h_1 => cases hWalk
        case h_2 next hMove =>
          have hLeads := move_eq_go_iff.mp hMove
          obtain ⟨before, links, hReached, hCycle⟩ := ih (hBehind.visit hVisit hLeads) hWalk
          exact ⟨before + 1, links, .link hLeads hReached, hCycle⟩

/-- If the unbounded walk stops, its answer is the result wherever the number of its places is within the bound,
and the bound is the error wherever it is not. -/
theorem resolve_of_stops {limits : Limits} {place : Place} {places : Nat} {answer : Option α}
    (hStops : query.Stops arena source place places answer) :
    query.resolve arena source limits place =
      if places ≤ limits.resolutionSteps then .ok answer else .error (.recursionLimit limits.resolutionSteps) :=
  walk_of_stops hStops (Trail.behind_empty place)

/-- If the unbounded walk never stops, the result is an error, and a token is only reported as cyclic if the
unbounded walk is there infinitely often. -/
theorem resolve_of_endless {limits : Limits} {place : Place}
    (hEndless : ∀ places answer, ¬ query.Stops arena source place places answer) :
    ∃ error, query.resolve arena source limits place = .error error ∧
      ∀ token, error = .cyclicReference token →
        ∀ n, ∃ m, n ≤ m ∧ query.Follows arena source place m (.type token) := by
  cases hResolve : query.resolve arena source limits place with
  | ok answer =>
      obtain ⟨places, hStops⟩ := stops_of_walk hResolve
      exact absurd hStops (hEndless places answer)
  | error error =>
      refine ⟨error, rfl, ?_⟩
      rintro token rfl
      obtain ⟨before, links, hReached, hCycle⟩ := cycle_of_walk (Trail.behind_empty place) hResolve
      exact hReached.infinitelyOften hCycle

/-- A query that may not fail finds exactly the answers that the unbounded walk comes to within the
bound. -/
theorem resolve?_eq_some_iff {limits : Limits} {place : Place} {answer : α} :
    query.resolve? arena source limits place = some answer ↔
      ∃ places, places ≤ limits.resolutionSteps ∧ query.Stops arena source place places (some answer) := by
  constructor
  · intro hFound
    have hResolve : query.resolve arena source limits place = .ok (some answer) := by
      rw [resolve?] at hFound
      split at hFound
      case h_1 found hOk => rw [hOk, hFound]
      case h_2 => cases hFound
    obtain ⟨places, hStops⟩ := stops_of_walk hResolve
    rw [resolve_of_stops hStops] at hResolve
    split at hResolve
    case isTrue hWithin => exact ⟨places, hWithin, hStops⟩
    case isFalse => cases hResolve
  · rintro ⟨places, hWithin, hStops⟩
    rw [resolve?, resolve_of_stops hStops, if_pos hWithin]

/-- A specification whose signature names the specification itself. -/
example : owningModule.resolve ⟨#[.named .reference ⟨0x1B000001⟩]⟩
    ⟨fun _ => some (.specification (some ⟨0⟩)), fun _ => none, fun _ => none⟩ .standard
    (.type ⟨0x1B000001⟩) = .error (.cyclicReference ⟨0x1B000001⟩) := rfl

end OwnerQuery

end CliSignature
