import CliSignature.Proofs.Erasure.Basic
import CliSignature.Proofs.Owner.UnboundedWalk

/-!
A type without markers has the same owner. The walk from it stands at the same places but for the markers, so
it is no longer, and it comes to the same answer.
-/

namespace CliSignature

/-- The slot on which a walk goes from a node that names no token. -/
def Node.inward? : Node → Option NodeId
  | genericInst definition _ => definition
  | node => node.child?

theorem Node.inward?_of_child? {node : Node} {child : NodeId} (hChild : node.child? = some child) :
    node.inward? = some child := by
  cases node <;> first | exact hChild | cases hChild

theorem Node.inward?_of_isMarker {node : Node} (hMarker : node.isMarker = true) :
    node.inward? = node.child? ∧ node.token? = none := by
  cases node <;> first | exact ⟨rfl, rfl⟩ | cases hMarker

theorem Node.Corresponds.inward? {R : Option NodeId → Option NodeId → Prop} (hNone : R none none)
    {left right : Node} (hNodes : left.Corresponds R right) : R left.inward? right.inward? := by
  cases hNodes with
  | genericInst hDefinition => exact hDefinition
  | wrapper _ hChild | array _ hChild | modified _ _ hChild | valueArray _ hChild | moduleQualified _ hChild =>
      exact hChild
  | named | primitive | genericParam | sentinel | functionPointer => exact hNone

namespace OwnerQuery

variable {α : Type} {query : OwnerQuery α} {arena : Arena} {source : TypeSource} {a b : Option NodeId}
  {places : Nat} {answer : α}

/-- The walk from the node in the slot comes to the answer. -/
def StopsFrom (query : OwnerQuery α) (arena : Arena) (source : TypeSource) (slot : Option NodeId) (places : Nat)
    (answer : α) : Prop :=
  ∃ id, slot = some id ∧ query.Stops arena source (.node id) places (some answer)

theorem not_stopsFrom_of_absent (hNone : arena.resolve? a = none) :
    ¬ query.StopsFrom arena source a places answer := by
  rintro ⟨id, rfl, hStops⟩
  generalize hAnswer : some answer = found at hStops
  cases hStops with
  | here => cases hAnswer
  | later hLeads =>
      cases hLeads with
      | child hNode | openType hNode | token hNode => cases hNone.symm.trans (Arena.resolve?_of_get? hNode)

/-- A walk comes from a node to an answer by the node's token or by what lies inside the node. -/
theorem stopsFrom_iff {id : NodeId} {node : Node} (hNode : arena.resolve? a = some (id, node)) :
    query.StopsFrom arena source a places answer ↔
      ∃ rest, places = rest + 1 ∧
        ((∃ token, node.token? = some token ∧ query.Stops arena source (.type token) rest (some answer)) ∨
          query.StopsFrom arena source node.inward? rest answer) := by
  obtain ⟨rfl, hHeld⟩ := Arena.resolve?_eq_some hNode
  constructor
  · rintro ⟨_, ⟨⟩, hStops⟩
    generalize hAnswer : some answer = found at hStops
    cases hStops with
    | here => cases hAnswer
    | later hLeads hRest =>
        subst hAnswer
        refine ⟨_, rfl, ?_⟩
        cases hLeads with
        | child hFound hChild =>
            cases hHeld.symm.trans hFound
            exact .inr ⟨_, Node.inward?_of_child? hChild, hRest⟩
        | openType hFound =>
            cases hHeld.symm.trans hFound
            exact .inr ⟨_, rfl, hRest⟩
        | token hFound hToken =>
            cases hHeld.symm.trans hFound
            exact .inl ⟨_, hToken, hRest⟩
  · rintro ⟨rest, rfl, ⟨token, hToken, hRest⟩ | ⟨inside, hInward, hRest⟩⟩
    · exact ⟨id, rfl, .later (.token hHeld hToken) hRest⟩
    · refine ⟨id, rfl, .later ?_ hRest⟩
      cases node with
      | genericInst definition args =>
          obtain rfl : definition = some inside := hInward
          exact .openType hHeld
      | _ => exact .child hHeld hInward

/-- A marker lies one place before its child. -/
theorem stopsFrom_marker_iff {id : NodeId} {node : Node} (hNode : arena.resolve? a = some (id, node))
    (hMarker : node.isMarker = true) :
    query.StopsFrom arena source a places answer ↔
      ∃ rest, places = rest + 1 ∧ query.StopsFrom arena source node.child? rest answer := by
  obtain ⟨hInward, hToken⟩ := Node.inward?_of_isMarker hMarker
  simp only [stopsFrom_iff hNode, hInward, hToken, reduceCtorEq, false_and, exists_const, false_or]

/-- By induction on the walk. Without markers it comes to the same answer, at no more places. -/
theorem StopsFrom.erased (hStops : query.StopsFrom arena source a places answer)
    (hErased : arena.ErasesTo a b) :
    ∃ fewer, fewer ≤ places ∧ query.StopsFrom arena source b fewer answer := by
  induction places using Nat.strongRecOn generalizing a b with
  | ind places ih =>
      cases hErased.looksErased with
      | marker hNode hMarker hBehind =>
          obtain ⟨rest, rfl, hRest⟩ := (stopsFrom_marker_iff hNode hMarker).mp hStops
          obtain ⟨fewer, hFewer, hErasedStops⟩ := ih rest rest.lt_succ_self hRest (.of_looksErased hBehind)
          exact ⟨fewer, Nat.le_succ_of_le hFewer, hErasedStops⟩
      | alike hAlike =>
          cases hAlike with
          | absent hFirst => exact absurd hStops (not_stopsFrom_of_absent hFirst)
          | nodes hLeft hRight hNodes =>
              obtain ⟨rest, rfl, ⟨token, hToken, hRest⟩ | hInside⟩ := (stopsFrom_iff hLeft).mp hStops
              · rw [hNodes.token?_eq] at hToken
                exact ⟨rest + 1, Nat.le_refl _, (stopsFrom_iff hRight).mpr ⟨rest, rfl, .inl ⟨token, hToken, hRest⟩⟩⟩
              · obtain ⟨fewer, hFewer, hErasedStops⟩ :=
                  ih rest rest.lt_succ_self hInside (hNodes.inward? (.refl none))
                exact ⟨fewer + 1, Nat.succ_le_succ hFewer,
                  (stopsFrom_iff hRight).mpr ⟨fewer, rfl, .inr hErasedStops⟩⟩

/-- By induction on the walk without markers, and at each of its places on the markers that were left out
there. With them the walk comes to the same answer. -/
theorem StopsFrom.of_erased (hStops : query.StopsFrom arena source b places answer)
    (hErased : arena.ErasesTo a b) :
    ∃ more, query.StopsFrom arena source a more answer := by
  induction places using Nat.strongRecOn generalizing a b with
  | ind places ih =>
      have hLooks := hErased.looksErased
      clear hErased
      induction hLooks with
      | marker hNode hMarker _ ihBehind =>
          obtain ⟨more, hMore⟩ := ihBehind
          exact ⟨more + 1, (stopsFrom_marker_iff hNode hMarker).mpr ⟨more, rfl, hMore⟩⟩
      | alike hAlike =>
          cases hAlike with
          | absent _ hSecond => exact absurd hStops (not_stopsFrom_of_absent hSecond)
          | nodes hLeft hRight hNodes =>
              obtain ⟨rest, rfl, ⟨token, hToken, hRest⟩ | hInside⟩ := (stopsFrom_iff hRight).mp hStops
              · rw [← hNodes.token?_eq] at hToken
                exact ⟨rest + 1, (stopsFrom_iff hLeft).mpr ⟨rest, rfl, .inl ⟨token, hToken, hRest⟩⟩⟩
              · obtain ⟨more, hMore⟩ := ih rest rest.lt_succ_self hInside (hNodes.inward? (.refl none))
                exact ⟨more + 1, (stopsFrom_iff hLeft).mpr ⟨more, rfl, .inr hMore⟩⟩

/-- Whether nothing but the bound keeps a walk from its end. -/
def IsCut (query : OwnerQuery α) (arena : Arena) (source : TypeSource) (limits : Limits) (place : Place) :
    Prop :=
  ∃ places answer, query.Stops arena source place places answer ∧ limits.resolutionSteps < places

/-- A walk that is cut says so. -/
theorem IsCut.resolve_eq {limits : Limits} {place : Place} (hCut : query.IsCut arena source limits place) :
    query.resolve arena source limits place = .error (.recursionLimit limits.resolutionSteps) := by
  obtain ⟨places, found, hStops, hAbove⟩ := hCut
  rw [resolve_of_stops hStops, if_neg (Nat.not_le.mpr hAbove)]

/-- A type without markers has the same owner, unless the walk from the type with markers is cut. -/
theorem resolve?_eq_of_erasesTo {limits : Limits} {x y : NodeId} (hErased : arena.ErasesTo (some x) (some y))
    (hUncut : ¬ query.IsCut arena source limits (.node x)) :
    query.resolve? arena source limits (.node x) = query.resolve? arena source limits (.node y) := by
  apply Option.ext
  intro answer
  rw [resolve?_eq_some_iff, resolve?_eq_some_iff]
  constructor
  · rintro ⟨places, hWithin, hStops⟩
    have hFrom : query.StopsFrom arena source (some x) places answer := ⟨x, rfl, hStops⟩
    obtain ⟨fewer, hFewer, _, ⟨⟩, hErasedStops⟩ := hFrom.erased hErased
    exact ⟨fewer, Nat.le_trans hFewer hWithin, hErasedStops⟩
  · rintro ⟨places, -, hStops⟩
    have hFrom : query.StopsFrom arena source (some y) places answer := ⟨y, rfl, hStops⟩
    obtain ⟨more, _, ⟨⟩, hMore⟩ := hFrom.of_erased hErased
    exact ⟨more, Nat.not_lt.mp fun hAbove => hUncut ⟨more, some answer, hMore, hAbove⟩, hMore⟩

end OwnerQuery

end CliSignature
