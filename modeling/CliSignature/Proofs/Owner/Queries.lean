import CliSignature.Proofs.Owner.UnboundedWalk

/-!
The unbounded walks behind the two questions, each told by the links it follows and by what it answers where no
link leads on. Both look inside a node, at the type a token names and inside a specification. They part at a
reference: the owning module is the one that holds the reference, the defining assembly lies where its scope
says, which for a nested type is where the type around it lies.
-/

namespace CliSignature

/-- A walk that is not cut and remembers nothing of its way. At most one link leads on from a place. -/
structure FreeWalk (α : Type) where
  Link : Place → Place → Prop
  /-- The answer at a place from which no link leads on. -/
  answer : Place → Option α
  unique : ∀ {place first second : Place}, Link place first → Link place second → first = second

namespace FreeWalk

variable {α : Type}

/-- The walk from the first place is at the second after exactly the given number of links. -/
inductive Visits (walk : FreeWalk α) : Place → Nat → Place → Prop where
  | start (place : Place) : Visits walk place 0 place
  | later {place next last : Place} {links : Nat} (hLink : walk.Link place next)
      (hRest : Visits walk next links last) : Visits walk place (links + 1) last

/-- The walk ends with the answer. The number counts the places where it stands, both ends included. -/
def Ends (walk : FreeWalk α) (start : Place) (places : Nat) (answer : Option α) : Prop :=
  ∃ links last, places = links + 1 ∧ walk.Visits start links last ∧
    (∀ next, ¬ walk.Link last next) ∧ walk.answer last = answer

end FreeWalk

/-- The links that are followed whatever is asked for. -/
inductive InwardLink (arena : Arena) (source : TypeSource) : Place → Place → Prop where
  | child {id child : NodeId} {node : Node} (hNode : arena.get? id = some node)
      (hChild : node.child? = some child) : InwardLink arena source (.node id) (.node child)
  | openType {id definition : NodeId} {args : List NodeId}
      (hNode : arena.get? id = some (.genericInst (some definition) args)) :
      InwardLink arena source (.node id) (.node definition)
  | named {id : NodeId} {kind : NamedKind} {token : Token} (hNode : arena.get? id = some (.named kind token)) :
      InwardLink arena source (.node id) (.type token)
  | primitive {id : NodeId} {token : Token} {code : Primitive}
      (hNode : arena.get? id = some (.primitive token code)) :
      InwardLink arena source (.node id) (.type token)
  | specification {token : Token} {signature : NodeId}
      (hEntry : source.type? token = some (.specification (some signature))) :
      InwardLink arena source (.type token) (.node signature)

/-- The links on the way to a defining assembly, which leads from a nested type to the type around it. -/
inductive ScopeLink (arena : Arena) (source : TypeSource) : Place → Place → Prop where
  | inward {place next : Place} (hInward : InwardLink arena source place next) :
      ScopeLink arena source place next
  | outer {token outer : Token} {owner : ModuleId} {namespaceName name : String}
      (hEntry : source.type? token = some (.reference owner (.nested outer) namespaceName name)) :
      ScopeLink arena source (.type token) (.type outer)

namespace TypeSource

/-- The module that holds the definition a token names, or the reference. -/
def moduleAt (source : TypeSource) : Place → Option ModuleId
  | .node _ => none
  | .type token =>
    match source.type? token with
    | some (.definition owner _ _ _) => some owner
    | some (.reference owner _ _ _) => some owner
    | _ => none

/-- The assembly that the definition a token names is part of, or that the scope of a reference names. -/
def assemblyAt (source : TypeSource) : Place → Option AssemblyId
  | .node _ => none
  | .type token =>
    match source.type? token with
    | some (.definition owner _ _ _) => source.moduleAssembly? owner
    | some (.reference _ (.assembly id) _ _) => some id
    | some (.reference _ (.sameAssembly id) _ _) => source.moduleAssembly? id
    | _ => none

end TypeSource

namespace OwnerQuery

section Links

variable {α : Type} {query : OwnerQuery α} {arena : Arena} {source : TypeSource} {place next : Place}

/-- Every query follows the inward links. -/
theorem Leads.of_inward (hInward : InwardLink arena source place next) : query.Leads arena source place next := by
  cases hInward with
  | child hNode hChild => exact .child hNode hChild
  | openType hNode => exact .openType hNode
  | named hNode | primitive hNode => exact .token hNode rfl
  | specification hEntry => exact .specification hEntry

/-- A query follows the inward links and, at a reference, those of its own. -/
theorem leads_iff : query.Leads arena source place next ↔
    InwardLink arena source place next ∨
      ∃ token owner scope namespaceName name, place = .type token ∧
        source.type? token = some (.reference owner scope namespaceName name) ∧
        query.ofReference owner scope = .go next := by
  constructor
  · intro hLeads
    cases hLeads with
    | child hNode hChild => exact .inl (.child hNode hChild)
    | openType hNode => exact .inl (.openType hNode)
    | @token id node token hNode hToken =>
        cases node with
        | named => cases hToken; exact .inl (.named hNode)
        | primitive => cases hToken; exact .inl (.primitive hNode)
        | _ => cases hToken
    | reference hEntry hScope => exact .inr ⟨_, _, _, _, _, rfl, hEntry, hScope⟩
    | specification hEntry => exact .inl (.specification hEntry)
  · rintro (hInward | ⟨token, owner, scope, namespaceName, name, rfl, hEntry, hScope⟩)
    · exact .of_inward hInward
    · exact .reference hEntry hScope

theorem leads_owningModule_iff :
    owningModule.Leads arena source place next ↔ InwardLink arena source place next := by
  rw [leads_iff, or_iff_left]
  rintro ⟨_, _, _, _, _, -, -, ⟨⟩⟩

theorem leads_definingAssembly_iff :
    (definingAssembly source).Leads arena source place next ↔ ScopeLink arena source place next := by
  rw [leads_iff]
  constructor
  · rintro (hInward | ⟨token, owner, scope, namespaceName, name, rfl, hEntry, hScope⟩)
    · exact .inward hInward
    · cases scope with
      | nested outer =>
          cases hScope
          exact .outer hEntry
      | _ => cases hScope
  · intro hLink
    cases hLink with
    | inward hInward => exact .inl hInward
    | outer hEntry => exact .inr ⟨_, _, _, _, _, rfl, hEntry, rfl⟩

end Links

theorem answerAt_owningModule (source : TypeSource) (place : Place) :
    owningModule.answerAt source place = source.moduleAt place := by
  cases place with
  | node id => rfl
  | type token =>
      simp only [answerAt, TypeSource.moduleAt]
      cases hEntry : source.type? token with
      | none => rfl
      | some entry => cases entry <;> rfl

theorem answerAt_definingAssembly (source : TypeSource) (place : Place) :
    (definingAssembly source).answerAt source place = source.assemblyAt place := by
  cases place with
  | node id => rfl
  | type token =>
      simp only [answerAt, TypeSource.assemblyAt]
      cases hEntry : source.type? token with
      | none => rfl
      | some entry =>
          cases entry with
          | definition | specification => rfl
          | reference owner scope => cases scope <;> rfl

end OwnerQuery

namespace FreeWalk

/-- The walk to the module that holds the type's definition or the reference to it. -/
def toModule (arena : Arena) (source : TypeSource) : FreeWalk ModuleId where
  Link := InwardLink arena source
  answer := source.moduleAt
  unique hFirst hSecond := (OwnerQuery.Leads.of_inward hFirst : OwnerQuery.owningModule.Leads _ _ _ _).unique
    (.of_inward hSecond)

/-- The walk to the assembly that the type is defined in. -/
def toAssembly (arena : Arena) (source : TypeSource) : FreeWalk AssemblyId where
  Link := ScopeLink arena source
  answer := source.assemblyAt
  unique hFirst hSecond := (OwnerQuery.leads_definingAssembly_iff.mpr hFirst).unique
    (OwnerQuery.leads_definingAssembly_iff.mpr hSecond)

end FreeWalk

namespace OwnerQuery

variable {α : Type} {query : OwnerQuery α} {walk : FreeWalk α} {arena : Arena} {source : TypeSource}

/-- The bounded walk of the query computes the unbounded one, from any place. -/
structure Computes (query : OwnerQuery α) (arena : Arena) (source : TypeSource) (limits : Limits)
    (walk : FreeWalk α) : Prop where
  /-- Where the bound allows for all places of the unbounded walk, its answer is the result. -/
  within : ∀ start places answer, walk.Ends start places answer → places ≤ limits.resolutionSteps →
    query.resolve arena source limits start = .ok answer ∧ query.resolve? arena source limits start = answer
  /-- Where it does not, the bound is the error. -/
  beyond : ∀ start places answer, walk.Ends start places answer → limits.resolutionSteps < places →
    query.resolve arena source limits start = .error (.recursionLimit limits.resolutionSteps) ∧
      query.resolve? arena source limits start = none
  /-- Where the unbounded walk never ends there is an error, and a token is only reported as cyclic if the
  unbounded walk is there infinitely often. -/
  endless : ∀ start, (∀ places answer, ¬ walk.Ends start places answer) →
    (∃ error, query.resolve arena source limits start = .error error ∧
      ∀ token, error = .cyclicReference token → ∀ n, ∃ m, n ≤ m ∧ walk.Visits start m (.type token)) ∧
    query.resolve? arena source limits start = none

/-- A walk that follows the links of a query visits the same places. -/
theorem visits_iff_follows (hLinks : ∀ {place next}, walk.Link place next ↔ query.Leads arena source place next)
    {start last : Place} {links : Nat} :
    walk.Visits start links last ↔ query.Follows arena source start links last := by
  constructor
  · intro hVisits
    induction hVisits with
    | start place => exact .start place
    | later hLink _ ih => exact .link (hLinks.mp hLink) ih
  · intro hFollows
    induction hFollows with
    | start place => exact .start place
    | link hLeads _ ih => exact .later (hLinks.mpr hLeads) ih

/-- A walk stops behind the last link of its way. -/
theorem stops_iff {start : Place} {places : Nat} {answer : Option α} :
    query.Stops arena source start places answer ↔
      ∃ links last, places = links + 1 ∧ query.Follows arena source start links last ∧
        (∀ next, ¬ query.Leads arena source last next) ∧ query.answerAt source last = answer := by
  constructor
  · intro hStops
    induction hStops with
    | @here place hEnd => exact ⟨0, place, rfl, .start place, hEnd, rfl⟩
    | later hLeads _ ih =>
        obtain ⟨links, last, rfl, hFollows, hEnd, hAnswer⟩ := ih
        exact ⟨links + 1, last, rfl, .link hLeads hFollows, hEnd, hAnswer⟩
  · rintro ⟨links, last, rfl, hFollows, hEnd, rfl⟩
    induction hFollows with
    | start => exact .here hEnd
    | link hLeads _ ih => exact .later hLeads (ih hEnd)

/-- A query computes the walk that follows its links and gives its answers. -/
theorem computes_of_links (hLinks : ∀ {place next}, walk.Link place next ↔ query.Leads arena source place next)
    (hAnswers : ∀ place, query.answerAt source place = walk.answer place) (limits : Limits) :
    query.Computes arena source limits walk := by
  have hStops : ∀ {start places answer},
      walk.Ends start places answer ↔ query.Stops arena source start places answer := by
    intro start places answer
    simp only [FreeWalk.Ends, stops_iff, visits_iff_follows hLinks, hLinks, hAnswers]
  constructor
  case within =>
    intro start places answer hEnds hWithin
    have hResolve := (resolve_of_stops (hStops.mp hEnds)).trans (if_pos hWithin)
    exact ⟨hResolve, by rw [resolve?, hResolve]⟩
  case beyond =>
    intro start places answer hEnds hBeyond
    have hResolve := (resolve_of_stops (hStops.mp hEnds)).trans (if_neg (Nat.not_le.mpr hBeyond))
    exact ⟨hResolve, by rw [resolve?, hResolve]⟩
  case endless =>
    intro start hEndless
    obtain ⟨error, hResolve, hCyclic⟩ := resolve_of_endless fun places answer hStop =>
      hEndless places answer (hStops.mpr hStop)
    refine ⟨⟨error, hResolve, fun token hToken n => ?_⟩, by rw [resolve?, hResolve]⟩
    obtain ⟨m, hLater, hFollows⟩ := hCyclic token hToken n
    exact ⟨m, hLater, (visits_iff_follows hLinks).mpr hFollows⟩

/-- Both queries compute their unbounded walks, whatever the arena, the types and the bound. -/
theorem queries_compute_walks (arena : Arena) (source : TypeSource) (limits : Limits) :
    owningModule.Computes arena source limits (.toModule arena source) ∧
      (definingAssembly source).Computes arena source limits (.toAssembly arena source) :=
  ⟨computes_of_links leads_owningModule_iff.symm (answerAt_owningModule source) limits,
    computes_of_links leads_definingAssembly_iff.symm (answerAt_definingAssembly source) limits⟩

/-- A type that is nested in a type of another assembly, and a pointer to it. -/
def pointerToNested : Arena :=
  ⟨#[.named .value ⟨0x01000002⟩, .wrapper .pointer (some ⟨0⟩)]⟩

def nestedReference : TypeSource where
  type? token :=
    if token = ⟨0x01000001⟩ then some (.reference ⟨0⟩ (.assembly ⟨1⟩) "System" "Environment")
    else if token = ⟨0x01000002⟩ then some (.reference ⟨0⟩ (.nested ⟨0x01000001⟩) "" "SpecialFolder")
    else none
  module? _ := none
  assembly? _ := none

/-- The module is found at the third place, the assembly only at the fourth. -/
theorem queries_compute_walks_nested :
    owningModule.resolve pointerToNested nestedReference { resolutionSteps := 3 } (.node ⟨1⟩) = .ok (some ⟨0⟩) ∧
    (definingAssembly nestedReference).resolve pointerToNested nestedReference { resolutionSteps := 3 }
      (.node ⟨1⟩) = .error (.recursionLimit 3) ∧
    (definingAssembly nestedReference).resolve pointerToNested nestedReference { resolutionSteps := 4 }
      (.node ⟨1⟩) = .ok (some ⟨1⟩) := by
  have hNested : InwardLink pointerToNested nestedReference (.node ⟨1⟩) (.node ⟨0⟩) := .child rfl rfl
  have hToken : InwardLink pointerToNested nestedReference (.node ⟨0⟩) (.type ⟨0x01000002⟩) := .named rfl
  have hModule : (FreeWalk.toModule pointerToNested nestedReference).Ends (.node ⟨1⟩) 3 (some ⟨0⟩) := by
    refine ⟨2, .type ⟨0x01000002⟩, rfl, .later hNested (.later hToken (.start _)), ?_, rfl⟩
    rintro next (_ | _ | _ | _ | hEntry)
    simp [nestedReference] at hEntry
  have hAssembly : (FreeWalk.toAssembly pointerToNested nestedReference).Ends (.node ⟨1⟩) 4 (some ⟨1⟩) := by
    have hOuter : ScopeLink pointerToNested nestedReference (.type ⟨0x01000002⟩) (.type ⟨0x01000001⟩) := .outer rfl
    refine ⟨3, .type ⟨0x01000001⟩, rfl, .later (.inward hNested) (.later (.inward hToken) (.later hOuter (.start _))),
      ?_, rfl⟩
    rintro next ((_ | _ | _ | _ | hEntry) | hEntry) <;> simp [nestedReference] at hEntry
  refine ⟨?_, ?_, ?_⟩
  · exact ((queries_compute_walks _ _ { resolutionSteps := 3 }).1.within _ _ _ hModule (Nat.le_refl 3)).1
  · exact ((queries_compute_walks _ _ { resolutionSteps := 3 }).2.beyond _ _ _ hAssembly (Nat.lt_succ_self 3)).1
  · exact ((queries_compute_walks _ _ { resolutionSteps := 4 }).2.within _ _ _ hAssembly (Nat.le_refl 4)).1

end OwnerQuery

end CliSignature
