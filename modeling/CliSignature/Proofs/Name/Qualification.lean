import CliSignature.Proofs.ChildPath
import CliSignature.Proofs.Name.VisitBudget
import Mathlib.Logic.Relation

/-!
What a full name has before the short name: the namespace, and the types that the declared type is nested
in. The full name finds them step by step while it is rendered, and the namespace is looked up by a walk of
its own, which passes whole chains of child links at once. They agree on every name that starts with a
type, however deep it lies within wrappers, instantiations and specifications.
-/

namespace CliSignature

open NameEvent (admissions textOf)

/-! ### What a name starts with -/

/-- The type that the name of the node starts with, if it lies one level deeper. -/
def Node.head? : Node → Option Subject
  | named _ token => some (.type token)
  | genericInst definition _ => some (.slot definition)
  | wrapper _ child | array child _ | modified _ _ child | valueArray child _ | moduleQualified _ child =>
    some (.slot child)
  | primitive _ _ | genericParam _ _ | sentinel | functionPointer _ => none

/-- The type behind a specification. -/
def TypeEntry.head? : TypeEntry → Option Subject
  | specification signature => some (.slot signature)
  | definition _ _ _ _ | reference _ _ _ _ => none

/-- Whether a node names no type: it is a variable, a sentinel or a function pointer. -/
def Node.IsNameless : Node → Prop
  | genericParam _ _ | sentinel | functionPointer _ => True
  | _ => False

/-- The type that a type is nested in. -/
def TypeSource.outer? (types : TypeSource) (token : Token) : Option Token :=
  (types.type? token).bind TypeEntry.declaringType?

/-- The types around a type, from the outermost inwards. -/
inductive TypeSource.Around (types : TypeSource) : Token → List TypeEntry → Prop where
  | outermost {token : Token} (hOuter : types.outer? token = none) : Around types token []
  | nested {token outer : Token} {entry : TypeEntry} {around : List TypeEntry}
      (hOuter : types.outer? token = some outer) (hEntry : types.type? outer = some entry)
      (hAround : Around types outer around) : Around types token (around ++ [entry])

/-- The types around a subject. Only tokens have any. -/
def Subject.Around (types : TypeSource) : Subject → List TypeEntry → Prop
  | .slot _, around => around = []
  | .type token, around => types.Around token around

/-- What a full name has before the short name: the namespace, if it is not empty, and the names of the
types around. -/
def NameStyle.qualification (style : NameStyle) (namespaceName : String) (around : List TypeEntry) : String :=
  (if namespaceName = "" then "" else namespaceName ++ ".") ++
    String.join (around.map fun entry => entry.name ++ style.nesting)

theorem NameStyle.qualification_append (style : NameStyle) (namespaceName : String)
    (around : List TypeEntry) (entry : TypeEntry) :
    style.qualification namespaceName (around ++ [entry]) =
      style.qualification namespaceName around ++ (entry.name ++ style.nesting) := by
  simp [qualification, String.append_assoc]

namespace NameFormatter

/-- What the name of a subject starts with, if that lies one level deeper. -/
def head? (formatter : NameFormatter) : Subject → Option Subject
  | .slot slot => (formatter.arena.resolve? slot).bind fun (_, node) => node.head?
  | .type token => (formatter.types.type? token).bind TypeEntry.head?

/-- The name of the first subject starts with that of the second. -/
def StartsWith (formatter : NameFormatter) : Subject → Subject → Prop :=
  Relation.ReflTransGen fun subject next => formatter.head? subject = some next

theorem StartsWith.eq_of_head?_eq_none {formatter : NameFormatter} {subject other : Subject}
    (hStarts : formatter.StartsWith subject other) (hEnds : formatter.head? subject = none) :
    other = subject := by
  rcases Relation.ReflTransGen.cases_head hStarts with rfl | ⟨next, hHead, -⟩
  · rfl
  · cases hEnds.symm.trans hHead

/-- Whether a subject names no type: an absent node, a variable, a sentinel, a function pointer, or a
token that nothing is known of. -/
def IsNameless (formatter : NameFormatter) : Subject → Prop
  | .slot slot => ∀ id node, formatter.arena.resolve? slot = some (id, node) → node.IsNameless
  | .type token => formatter.types.type? token = none

/-- Whether a subject is a node that puts its module before the name. -/
def IsModuleQualified (formatter : NameFormatter) : Subject → Prop
  | .slot slot => ∃ id index child, formatter.arena.resolve? slot = some (id, .moduleQualified index child)
  | .type _ => False

/-- Whether all types around a subject are known, and none of them is a specification. -/
def HasDeclaredSurroundings (formatter : NameFormatter) : Subject → Prop
  | .slot _ => True
  | .type token => ∀ outer,
    Relation.TransGen (fun inner outer => formatter.types.outer? inner = some outer) token outer →
      ∃ entry, formatter.types.type? outer = some entry ∧ entry.table ≠ .specification

variable {formatter : NameFormatter}

/-- The name of the head comes first, and what comes after it is the same whether or not the name is
qualified. -/
theorem ofSubject_of_head {subject next : Subject} (hHead : formatter.head? subject = some next)
    (hModule : ¬ formatter.IsModuleQualified subject) :
    ∃ rest, ∀ isQualified,
      NamePart.ofSubject formatter subject isQualified = .visit next isQualified :: rest := by
  cases subject with
  | slot slot =>
      obtain ⟨⟨id, node⟩, hNode, hHead⟩ := Option.bind_eq_some_iff.mp hHead
      simp only [NamePart.ofSubject, hNode]
      cases node with
      | primitive | genericParam | sentinel | functionPointer => cases hHead
      | moduleQualified index child => exact absurd ⟨id, index, child, hNode⟩ hModule
      | named | genericInst | wrapper | array | modified | valueArray =>
          cases hHead
          exact ⟨_, fun _ => rfl⟩
  | type token =>
      obtain ⟨entry, hEntry, hHead⟩ := Option.bind_eq_some_iff.mp hHead
      simp only [NamePart.ofSubject, hEntry]
      cases entry with
      | definition | reference => cases hHead
      | specification =>
          cases hHead
          exact ⟨_, fun _ => rfl⟩

theorem ofNode_of_nameless {node : Node} (hNameless : node.IsNameless) :
    NamePart.ofNode formatter true node = NamePart.ofNode formatter false node := by
  cases node with
  | genericParam owner => cases owner <;> rfl
  | sentinel | functionPointer => rfl
  | _ => exact hNameless.elim

/-! ### The walk for the namespace -/

section Namespace

variable {subject next : Subject} {namespaceName : String} {levels : Nat}

theorem namespaceWithin_child {id : NodeId} {node : Node} (hNode : formatter.arena.get? id = some node)
    (hInside : node.isTerminal = false) (levels : Nat) :
    formatter.namespaceWithin levels (.slot (some id)) = formatter.namespaceWithin levels (.slot node.child?) := by
  cases levels with
  | zero => rfl
  | succ levels =>
      simp only [namespaceWithin, Option.bind_some, Arena.leaf?_eq_bind_child hNode hInside]

theorem namespaceWithin_of_succ
    (hSucc : ∀ more, levels ≤ more → formatter.namespaceWithin (more + 1) subject = namespaceName)
    (more : Nat) (hMore : levels + 1 ≤ more) : formatter.namespaceWithin more subject = namespaceName := by
  obtain ⟨others, rfl⟩ : ∃ others, more = others + 1 := ⟨more - 1, by omega⟩
  exact hSucc others (Nat.le_of_succ_le_succ hMore)

/-- A subject has the namespace of what its name starts with, once there are levels enough. -/
theorem namespaceWithin_of_head (hHead : formatter.head? subject = some next)
    (hNext : ∀ more, levels ≤ more → formatter.namespaceWithin more next = namespaceName) :
    ∀ more, levels + 1 ≤ more → formatter.namespaceWithin more subject = namespaceName := by
  refine namespaceWithin_of_succ fun more hMore => ?_
  have hHere := hNext more hMore
  cases subject with
  | slot slot =>
      obtain ⟨⟨id, node⟩, hNode, hHead⟩ := Option.bind_eq_some_iff.mp hHead
      obtain ⟨rfl, hHeld⟩ := Arena.resolve?_eq_some hNode
      cases node with
      | primitive | genericParam | sentinel | functionPointer => cases hHead
      | named | genericInst =>
          cases hHead
          simp only [namespaceWithin, Arena.terminal_of_isTerminal hHeld rfl]
          exact hHere
      | wrapper | array | modified | valueArray | moduleQualified =>
          cases hHead
          rw [namespaceWithin_child hHeld rfl]
          exact hNext (more + 1) (Nat.le_succ_of_le hMore)
  | type token =>
      obtain ⟨entry, hEntry, hHead⟩ := Option.bind_eq_some_iff.mp hHead
      cases entry with
      | definition | reference => cases hHead
      | specification =>
          cases hHead
          simp only [namespaceWithin, hEntry]
          exact hHere

end Namespace

/-! ### Declared types -/

section Declared

variable {token : Token} {entry : TypeEntry} (hEntry : formatter.types.type? token = some entry)

include hEntry

theorem declared_of_head?_eq_none (hEnds : formatter.head? (.type token) = none) :
    entry.table ≠ .specification := by
  cases entry with
  | definition | reference => nofun
  | specification => simp [head?, hEntry, TypeEntry.head?] at hEnds

variable (hDeclared : entry.table ≠ .specification)

include hDeclared

theorem head?_of_declared : formatter.head? (.type token) = none := by
  cases entry with
  | definition | reference => simp [head?, hEntry, TypeEntry.head?]
  | specification => exact absurd rfl hDeclared

theorem ofSubject_of_declared (isQualified : Bool) :
    NamePart.ofSubject formatter (.type token) isQualified =
      (if isQualified then NamePart.ofQualifier formatter entry else []) ++ [.text entry.name] := by
  cases entry with
  | definition | reference => simp only [NamePart.ofSubject, hEntry, NamePart.ofEntry]
  | specification => exact absurd rfl hDeclared

theorem namespaceWithin_of_outermost (hOuter : entry.declaringType? = none) (levels : Nat) :
    formatter.namespaceWithin (levels + 1) (.type token) = entry.namespaceName := by
  cases entry with
  | definition | reference => simp only [namespaceWithin, hEntry, hOuter]
  | specification => exact absurd rfl hDeclared

theorem namespaceWithin_of_nested {outer : Token} (hOuter : entry.declaringType? = some outer)
    (levels : Nat) :
    formatter.namespaceWithin (levels + 1) (.type token) =
      formatter.namespaceWithin levels (.type outer) := by
  cases entry with
  | definition | reference => simp only [namespaceWithin, hEntry, hOuter]
  | specification => exact absurd rfl hDeclared

/-- The short name of a declared type is the name it is declared with. -/
theorem textOf_eventsWithin_of_declared {levels : Nat}
    (hShallow : ∀ deep, .tooDeep deep ∉ formatter.eventsWithin levels (.type token) true) :
    textOf (formatter.eventsWithin levels (.type token) false) = entry.name := by
  cases levels with
  | zero => exact absurd (List.mem_singleton.mpr rfl) (hShallow (.type token))
  | succ levels =>
      rw [eventsWithin, ofSubject_of_declared hEntry hDeclared]
      simp [NamePart.events]

end Declared

/-! ### What the full name has before the short name -/

/-- How the full name of a subject differs from the short name, with the given number of levels: what its
name starts with in the end, the namespace of that, and the types around it. -/
structure Qualified (formatter : NameFormatter) (levels : Nat) (subject ending : Subject)
    (namespaceName : String) (around : List TypeEntry) : Prop where
  startsWith : formatter.StartsWith subject ending
  ends : formatter.head? ending = none
  surroundings : ending.Around formatter.types around
  nameless : formatter.IsNameless ending → namespaceName = "" ∧ around = []
  walk : ∀ more, levels ≤ more → formatter.namespaceWithin more subject = namespaceName
  text : textOf (formatter.eventsWithin levels subject true) =
    formatter.style.qualification namespaceName around ++
      textOf (formatter.eventsWithin levels subject false)
  visits : admissions (formatter.eventsWithin levels subject false) ≤
    admissions (formatter.eventsWithin levels subject true)

namespace Qualified

variable {subject next ending : Subject} {namespaceName : String} {around : List TypeEntry} {levels : Nat}

/-- What a name starts with is qualified as the name itself. -/
theorem of_head (hNext : formatter.Qualified levels next ending namespaceName around)
    (hHead : formatter.head? subject = some next) (hModule : ¬ formatter.IsModuleQualified subject) :
    formatter.Qualified (levels + 1) subject ending namespaceName around where
  startsWith := .head hHead hNext.startsWith
  ends := hNext.ends
  surroundings := hNext.surroundings
  nameless := hNext.nameless
  walk := namespaceWithin_of_head hHead hNext.walk
  text := by
    obtain ⟨rest, hParts⟩ := ofSubject_of_head hHead hModule
    simp only [eventsWithin, hParts, List.flatMap_cons, NamePart.events, NameEvent.textOf_admitted,
      NameEvent.textOf_append, hNext.text, String.append_assoc]
  visits := by
    obtain ⟨rest, hParts⟩ := ofSubject_of_head hHead hModule
    have hVisits := hNext.visits
    simp only [eventsWithin, hParts, List.flatMap_cons, NamePart.events,
      NameEvent.admissions_admitted, NameEvent.admissions_append]
    omega

/-- What has no namespace is named the same way whether or not the name is qualified. -/
theorem of_plain (hEnds : formatter.head? subject = none) (hAround : subject.Around formatter.types [])
    (hParts : NamePart.ofSubject formatter subject true = NamePart.ofSubject formatter subject false)
    (hWalk : ∀ more, formatter.namespaceWithin (more + 1) subject = "") :
    formatter.Qualified (levels + 1) subject subject "" [] where
  startsWith := .refl
  ends := hEnds
  surroundings := hAround
  nameless _ := ⟨rfl, rfl⟩
  walk := namespaceWithin_of_succ fun more _ => hWalk more
  text := by simp [eventsWithin, hParts, NameStyle.qualification]
  visits := by simp only [eventsWithin, hParts, Nat.le_refl]

theorem of_primitive {id : NodeId} {token : Token} {code : Primitive}
    (hNode : formatter.arena.resolve? (some id) = some (id, .primitive token code)) :
    formatter.Qualified (levels + 1) (.slot (some id)) (.slot (some id)) Primitive.namespaceName [] where
  startsWith := .refl
  ends := by simp [head?, hNode, Node.head?]
  surroundings := rfl
  nameless hNameless := (hNameless id _ hNode).elim
  walk := namespaceWithin_of_succ fun more _ => by
    simp only [namespaceWithin, Arena.terminal_of_isTerminal (Arena.resolve?_eq_some hNode).2 rfl]
  text := by
    simp [eventsWithin, NamePart.ofSubject, hNode, NamePart.ofNode, NamePart.events,
      NameStyle.qualification, Primitive.namespaceName]
  visits := by simp [eventsWithin, NamePart.ofSubject, hNode, NamePart.ofNode, NamePart.events]

/-- A name that starts with a node has the namespace of primitives, or none. -/
theorem of_slot {slot : Option NodeId} (hEnds : formatter.head? (.slot slot) = none) :
    ∃ namespaceName, formatter.Qualified (levels + 1) (.slot slot) (.slot slot) namespaceName [] := by
  cases hNode : formatter.arena.resolve? slot with
  | none =>
      refine ⟨"", of_plain hEnds rfl (by simp only [NamePart.ofSubject, hNode]) fun more => ?_⟩
      simp only [namespaceWithin, Arena.terminal_of_absent hNode]
  | some found =>
      obtain ⟨id, node⟩ := found
      obtain ⟨rfl, hHeld⟩ := Arena.resolve?_eq_some hNode
      cases node with
      | named | genericInst | wrapper | array | modified | valueArray | moduleQualified =>
          simp [head?, hNode, Node.head?] at hEnds
      | primitive token code => exact ⟨_, of_primitive hNode⟩
      | genericParam | sentinel | functionPointer =>
          refine ⟨"", of_plain hEnds rfl ?_ fun more => ?_⟩
          · simp only [NamePart.ofSubject, hNode]
            exact ofNode_of_nameless trivial
          · simp only [namespaceWithin, Arena.terminal_of_isTerminal hHeld rfl]

theorem of_unknown {token : Token} (hEntry : formatter.types.type? token = none) :
    formatter.Qualified (levels + 1) (.type token) (.type token) "" [] :=
  of_plain (by simp [head?, hEntry]) (.outermost (by simp [TypeSource.outer?, hEntry]))
    (by simp only [NamePart.ofSubject, hEntry]) fun more => by simp only [namespaceWithin, hEntry]

section Declared

variable {token : Token} {entry : TypeEntry} (hEntry : formatter.types.type? token = some entry)
  (hDeclared : entry.table ≠ .specification)

include hEntry hDeclared

theorem of_outermost (hOuter : entry.declaringType? = none) :
    formatter.Qualified (levels + 1) (.type token) (.type token) entry.namespaceName [] where
  startsWith := .refl
  ends := head?_of_declared hEntry hDeclared
  surroundings := .outermost (by simp [TypeSource.outer?, hEntry, hOuter])
  nameless hUnknown := by cases hEntry.symm.trans hUnknown
  walk := namespaceWithin_of_succ fun more _ => namespaceWithin_of_outermost hEntry hDeclared hOuter more
  text := by
    simp only [eventsWithin, ofSubject_of_declared hEntry hDeclared, NamePart.ofQualifier, hOuter]
    by_cases hSpace : entry.namespaceName = "" <;>
      simp [NamePart.events, NameStyle.qualification, hSpace]
  visits := by simp [eventsWithin, ofSubject_of_declared hEntry hDeclared]

/-- A nested type has the namespace of the type around it, whose short name stands before its own. -/
theorem of_nested {outer : Token} {outerEntry : TypeEntry} (hOuter : entry.declaringType? = some outer)
    (hOuterEntry : formatter.types.type? outer = some outerEntry)
    (hOuterDeclared : outerEntry.table ≠ .specification)
    (hShallow : ∀ deep, .tooDeep deep ∉ formatter.eventsWithin levels (.type outer) true)
    (hAround : formatter.Qualified levels (.type outer) (.type outer) namespaceName around) :
    formatter.Qualified (levels + 1) (.type token) (.type token) namespaceName (around ++ [outerEntry]) where
  startsWith := .refl
  ends := head?_of_declared hEntry hDeclared
  surroundings := .nested (by simp [TypeSource.outer?, hEntry, hOuter]) hOuterEntry hAround.surroundings
  nameless hUnknown := by cases hEntry.symm.trans hUnknown
  walk := namespaceWithin_of_succ fun more hMore =>
    (namespaceWithin_of_nested hEntry hDeclared hOuter more).trans (hAround.walk more hMore)
  text := by
    simp [eventsWithin, ofSubject_of_declared hEntry hDeclared, NamePart.ofQualifier, hOuter,
      NamePart.events, NameEvent.textOf_append, hAround.text,
      textOf_eventsWithin_of_declared hOuterEntry hOuterDeclared hShallow,
      NameStyle.qualification_append, String.append_assoc]
  visits := by simp [eventsWithin, ofSubject_of_declared hEntry hDeclared]

end Declared

end Qualified

/-! ### Names that are not cut -/

/-- Names whose qualification can be told: no module stands before what the name starts with, the types
around that are declared, and the full name is not too deep. -/
structure Qualifiable (formatter : NameFormatter) (levels : Nat) (subject : Subject) : Prop where
  noModule : ∀ other, formatter.StartsWith subject other → ¬ formatter.IsModuleQualified other
  declared : ∀ other, formatter.StartsWith subject other → formatter.HasDeclaredSurroundings other
  shallow : ∀ deep, .tooDeep deep ∉ formatter.eventsWithin levels subject true

namespace Qualifiable

variable {subject next : Subject} {levels : Nat}

theorem pos (hSubject : formatter.Qualifiable levels subject) : levels ≠ 0 := by
  rintro rfl
  exact hSubject.shallow subject (List.mem_singleton.mpr rfl)

theorem of_head (hSubject : formatter.Qualifiable (levels + 1) subject)
    (hHead : formatter.head? subject = some next) : formatter.Qualifiable levels next where
  noModule other hOther := hSubject.noModule other (.head hHead hOther)
  declared other hOther := hSubject.declared other (.head hHead hOther)
  shallow deep hDeep := by
    obtain ⟨rest, hParts⟩ := ofSubject_of_head hHead (hSubject.noModule subject .refl)
    refine hSubject.shallow deep (List.mem_cons_of_mem _ ?_)
    rw [hParts]
    exact List.mem_append_left _ hDeep

theorem of_nested {token outer : Token} {entry : TypeEntry}
    (hSubject : formatter.Qualifiable (levels + 1) (.type token))
    (hEntry : formatter.types.type? token = some entry) (hDeclared : entry.table ≠ .specification)
    (hOuter : entry.declaringType? = some outer) :
    ∃ outerEntry, formatter.types.type? outer = some outerEntry ∧ outerEntry.table ≠ .specification ∧
      formatter.Qualifiable levels (.type outer) := by
  have hEncloses : formatter.types.outer? token = some outer := by
    simp [TypeSource.outer?, hEntry, hOuter]
  have hAbove := hSubject.declared (.type token) .refl
  obtain ⟨outerEntry, hOuterEntry, hOuterDeclared⟩ := hAbove outer (.single hEncloses)
  have hEnds := head?_of_declared hOuterEntry hOuterDeclared
  refine ⟨outerEntry, hOuterEntry, hOuterDeclared, fun other hOther => ?_, fun other hOther => ?_,
    fun deep hDeep => hSubject.shallow deep (List.mem_cons_of_mem _ ?_)⟩
  · cases hOther.eq_of_head?_eq_none hEnds
    exact id
  · cases hOther.eq_of_head?_eq_none hEnds
    exact fun above hOuterAbove => hAbove above (.head hEncloses hOuterAbove)
  · rw [ofSubject_of_declared hEntry hDeclared]
    simp [NamePart.ofQualifier, hOuter, NamePart.events, hDeep]

end Qualifiable

/-- By induction on the levels, which follows the name to what it starts with and then the types around
that outwards. -/
theorem exists_qualified (levels : Nat) {subject : Subject}
    (hSubject : formatter.Qualifiable levels subject) :
    ∃ ending namespaceName around, formatter.Qualified levels subject ending namespaceName around := by
  induction levels generalizing subject with
  | zero => exact absurd rfl hSubject.pos
  | succ levels ih =>
      cases hHead : formatter.head? subject with
      | some next =>
          obtain ⟨ending, namespaceName, around, hNext⟩ := ih (hSubject.of_head hHead)
          exact ⟨ending, namespaceName, around, hNext.of_head hHead (hSubject.noModule subject .refl)⟩
      | none =>
          cases subject with
          | slot slot =>
              obtain ⟨namespaceName, hSlot⟩ := Qualified.of_slot hHead
              exact ⟨_, namespaceName, [], hSlot⟩
          | type token =>
              cases hEntry : formatter.types.type? token with
              | none => exact ⟨_, "", [], .of_unknown hEntry⟩
              | some entry =>
                  have hDeclared := declared_of_head?_eq_none hEntry hHead
                  cases hOuter : entry.declaringType? with
                  | none => exact ⟨_, _, [], .of_outermost hEntry hDeclared hOuter⟩
                  | some outer =>
                      obtain ⟨outerEntry, hOuterEntry, hOuterDeclared, hQualifiable⟩ :=
                        hSubject.of_nested hEntry hDeclared hOuter
                      obtain ⟨ending, namespaceName, around, hAround⟩ := ih hQualifiable
                      cases hAround.startsWith.eq_of_head?_eq_none
                        (head?_of_declared hOuterEntry hOuterDeclared)
                      exact ⟨_, namespaceName, around ++ [outerEntry], .of_nested hEntry hDeclared hOuter
                        hOuterEntry hOuterDeclared hQualifiable.shallow hAround⟩

/-- A vector of a type that is nested in another one. -/
def nestedVector : NameFormatter where
  arena := ⟨#[.named .reference ⟨0x02000003⟩, .wrapper .vector (some ⟨0⟩)]⟩
  types :=
    { type? := fun token =>
        if token = ⟨0x02000003⟩ then some (.definition ⟨0⟩ "" "Inner" (some ⟨0x02000002⟩))
        else if token = ⟨0x02000002⟩ then some (.definition ⟨0⟩ "App" "Outer" none)
        else none
      module? := fun _ => none
      assembly? := fun _ => none }
  limits := .standard
  style := .reflection

end NameFormatter

end CliSignature
