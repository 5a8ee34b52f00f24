import CliSignature.Proofs.Counterparts.Basic
import CliSignature.Proofs.Owner.UnboundedWalk

/-!
Corresponding types have the same owner. The two walks need not be equally long: where one stands at a
handle that refers to nothing, the other may have found an empty place one step earlier. But no walk that
comes there has an answer.
-/

namespace CliSignature

variable {A B : Arena} {R : Option NodeId → Option NodeId → Prop}

/-- Two walks that stand at corresponding nodes, or at the same token. -/
inductive Place.Corresponds (R : Option NodeId → Option NodeId → Prop) : Place → Place → Prop where
  | node {a b : NodeId} (hSame : R (some a) (some b)) : Corresponds R (.node a) (.node b)
  | type (token : Token) : Corresponds R (.type token) (.type token)

theorem Place.Corresponds.self (hAlike : A.Counterparts B R) (place : Place) : place.Corresponds R place := by
  cases place with
  | node id => exact .node (hAlike.self (some id))
  | type token => exact .type token

theorem Place.Corresponds.flip {place place' : Place} (hSame : place.Corresponds R place') :
    place'.Corresponds (fun a b => R b a) place := by
  cases hSame with
  | node hSame => exact .node hSame
  | type token => exact .type token

namespace OwnerQuery

variable {α : Type} {query : OwnerQuery α} {source : TypeSource} {place place' next : Place}
  {places : Nat} {answer : α}

/-- A walk that finds an answer never stands at a handle that refers to nothing. -/
theorem Stops.exists_node {id : NodeId} (hStops : query.Stops A source (.node id) places (some answer)) :
    ∃ node, A.get? id = some node := by
  cases hStops with
  | later hLeads =>
      cases hLeads with
      | child hNode | openType hNode | token hNode => exact ⟨_, hNode⟩

/-- The links from a token lead through no arena. -/
theorem leads_type_iff {token : Token} :
    query.Leads A source (.type token) next ↔ query.Leads B source (.type token) next := by
  rw [← move_eq_go_iff, ← move_eq_go_iff]
  rfl

/-- A slot that leads to an answer has a counterpart that is not empty either. -/
theorem Stops.exists_counterpart (hAlike : A.Counterparts B R) {id : NodeId} {slot : Option NodeId}
    (hSame : R (some id) slot) (hStops : query.Stops A source (.node id) places (some answer)) :
    ∃ other, slot = some other ∧ Place.Corresponds R (.node id) (.node other) := by
  obtain ⟨node, hNode⟩ := hStops.exists_node
  obtain ⟨other, held, rfl, -, -⟩ := hAlike.held hSame hNode
  exact ⟨other, rfl, .node hSame⟩

/-- From corresponding places, links that lead to an answer lead to corresponding places. -/
theorem Leads.counterpart (hAlike : A.Counterparts B R) (hSame : place.Corresponds R place')
    (hLeads : query.Leads A source place next) (hStops : query.Stops A source next places (some answer)) :
    ∃ next', query.Leads B source place' next' ∧ next.Corresponds R next' := by
  cases hSame with
  | type token => exact ⟨next, leads_type_iff.mp hLeads, .self hAlike next⟩
  | node hSame =>
      cases hLeads with
      | @child _ _ node hNode hChild =>
          obtain ⟨other, held, ⟨⟩, hHeld, hNodes⟩ := hAlike.held hSame hNode
          have hInside : node.isTerminal = false :=
            Bool.eq_false_iff.mpr fun hTerminal => by simp [Node.child?_of_isTerminal hTerminal] at hChild
          have hChildren := hNodes.child? hInside
          rw [hChild] at hChildren
          obtain ⟨below, hBelow, hPlaces⟩ := hStops.exists_counterpart hAlike hChildren
          exact ⟨.node below, .child hHeld hBelow, hPlaces⟩
      | openType hNode =>
          obtain ⟨other, held, ⟨⟩, hHeld, hNodes⟩ := hAlike.held hSame hNode
          cases hNodes with
          | genericInst hDefinition hArgs =>
              obtain ⟨below, rfl, hPlaces⟩ := hStops.exists_counterpart hAlike hDefinition
              exact ⟨.node below, .openType hHeld, hPlaces⟩
      | @token _ _ token hNode hToken =>
          obtain ⟨other, held, ⟨⟩, hHeld, hNodes⟩ := hAlike.held hSame hNode
          rw [hNodes.token?_eq] at hToken
          exact ⟨.type token, .token hHeld hToken, .type token⟩

/-- By induction on the walk. An answer that is found from one place is found from its counterpart, after
as many places. -/
theorem Stops.counterpart (hAlike : A.Counterparts B R)
    (hStops : query.Stops A source place places (some answer)) (hSame : place.Corresponds R place') :
    query.Stops B source place' places (some answer) := by
  generalize hAnswer : some answer = found at hStops
  induction hStops generalizing place' with
  | @here place hEnd =>
      cases hSame with
      | node => cases hAnswer
      | type token => exact .here fun next hLeads => hEnd next (leads_type_iff.mp hLeads)
  | later hLeads hRest ih =>
      subst hAnswer
      obtain ⟨next', hLeads', hPlaces⟩ := hLeads.counterpart hAlike hSame hRest
      exact .later hLeads' (ih hPlaces rfl)

/-- Queries that may not fail have the same answer at corresponding places, under the same bound. -/
theorem resolve?_congr (hAlike : A.Counterparts B R) (query : OwnerQuery α) (source : TypeSource)
    (limits : Limits) (hSame : place.Corresponds R place') :
    query.resolve? A source limits place = query.resolve? B source limits place' := by
  apply Option.ext
  intro answer
  rw [resolve?_eq_some_iff, resolve?_eq_some_iff]
  constructor
  · rintro ⟨places, hWithin, hStops⟩
    exact ⟨places, hWithin, hStops.counterpart hAlike hSame⟩
  · rintro ⟨places, hWithin, hStops⟩
    exact ⟨places, hWithin, hStops.counterpart hAlike.flip hSame.flip⟩

end OwnerQuery

end CliSignature
