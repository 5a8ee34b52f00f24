import CliSignature.Name.Formatter
import CliSignature.Proofs.Counterparts.Owner

/-!
Corresponding types have the same names. They are rendered with the same pieces in the same order, and
with the same visits, so it does not matter where a limit cuts them.
-/

namespace CliSignature

variable {A B : Arena} {R : Option NodeId → Option NodeId → Prop}

namespace Arena

/-- The terminal at the end of the chain of child links from a slot. -/
def terminal? (arena : Arena) (visits : Nat) (slot : Option NodeId) : Option Node :=
  (slot.bind (arena.leafWithin visits)).bind arena.get?

theorem bind_leaf? (arena : Arena) (slot : Option NodeId) :
    (slot.bind arena.leaf?).bind arena.get? = arena.terminal? (arena.size + 1) slot := rfl

/-- By induction on the visits. The chains of child links from corresponding slots end at corresponding
terminals, or neither ends. -/
theorem terminal?_counterpart (hAlike : A.Counterparts B R) (visits : Nat) {a b : Option NodeId}
    (hSame : R a b) : Option.Rel (Node.Corresponds R) (A.terminal? visits a) (B.terminal? visits b) := by
  induction visits generalizing a b with
  | zero => cases a <;> cases b <;> exact .none
  | succ visits ih =>
      cases hAlike.looksAlike hSame with
      | absent hFirst hSecond =>
          simp only [terminal?, bind_leafWithin_of_absent hFirst, bind_leafWithin_of_absent hSecond]
          exact .none
      | nodes hLeft hRight hNodes =>
          obtain ⟨rfl, hGetLeft⟩ := resolve?_eq_some hLeft
          obtain ⟨rfl, hGetRight⟩ := resolve?_eq_some hRight
          simp only [terminal?, Option.bind_some, leafWithin_succ hGetLeft, leafWithin_succ hGetRight,
            ← hNodes.isTerminal_eq]
          split
          case isTrue => simpa only [Option.bind_some, hGetLeft, hGetRight] using .some hNodes
          case isFalse hInside => exact ih (hNodes.child? (Bool.eq_false_iff.mpr hInside))

end Arena

/-- Subjects that are corresponding slots, or the same token. -/
inductive Subject.Corresponds (R : Option NodeId → Option NodeId → Prop) : Subject → Subject → Prop where
  | slot {a b : Option NodeId} (hSame : R a b) : Corresponds R (.slot a) (.slot b)
  | type (token : Token) : Corresponds R (.type token) (.type token)

namespace NameFormatter

open Rendering (nothing text separated each)

variable {types : TypeSource} {limits : Limits} {style : NameStyle}

section OneLevel

variable {inner inner' : Subject → Bool → Rendering}
  (hInner : ∀ subject subject', Subject.Corresponds R subject subject' → inner subject = inner' subject')

include hInner

theorem qualified_congr {a b : Option NodeId} (hSame : R a b) : qualified inner a = qualified inner' b := by
  rw [qualified, qualified, hInner _ _ (.slot hSame)]

theorem map_qualified_congr {ids ids' : List NodeId} (hIds : ListCorresponds R ids ids') :
    (ids.map fun id => qualified inner (some id)) = ids'.map fun id => qualified inner' (some id) :=
  hIds.map_eq fun _ _ hSame => qualified_congr hInner hSame

theorem varargs_congr {params params' : List NodeId} {varargs varargs' : Option (List NodeId)}
    (hParams : ListCorresponds R params params') (hVarargs : Option.Rel (ListCorresponds R) varargs varargs') :
    NameFormatter.varargs inner params varargs = NameFormatter.varargs inner' params' varargs' := by
  cases hVarargs with
  | none => rfl
  | some hIds =>
      have hEmpty : params.isEmpty = params'.isEmpty := by
        cases hParams <;> rfl
      simp only [NameFormatter.varargs, hEmpty, map_qualified_congr hInner hIds]

theorem modifier_congr (required : Bool) (token : Token) :
    modifier inner ⟨A, types, limits, style⟩ required token =
      modifier inner' ⟨B, types, limits, style⟩ required token := by
  rw [modifier, modifier, hInner _ _ (.type token)]

theorem functionPointer_congr {signature signature' : Signature}
    (hSignature : signature.Corresponds R signature') :
    functionPointer inner ⟨A, types, limits, style⟩ signature =
      functionPointer inner' ⟨B, types, limits, style⟩ signature' := by
  cases style with
  | reflection => rfl
  | source =>
      cases hSignature with
      | method hMethod | property hMethod =>
          cases hMethod with
          | mk convention genericCount hResult hParams hVarargs =>
              simp only [functionPointer, Signature.method?, qualified_congr hInner hResult,
                map_qualified_congr hInner hParams, varargs_congr hInner hParams hVarargs]
      | field | locals | methodSpec => rfl

theorem qualifier_congr (entry : TypeEntry) :
    qualifier inner ⟨A, types, limits, style⟩ entry = qualifier inner' ⟨B, types, limits, style⟩ entry := by
  simp only [qualifier]
  split
  case h_1 outer _ => rw [hInner _ _ (.type outer)]
  case h_2 => rfl

theorem entry_congr (hSelf : ∀ slot, R slot slot) (isQualified : Bool) (entry : TypeEntry) :
    NameFormatter.entry inner ⟨A, types, limits, style⟩ isQualified entry =
      NameFormatter.entry inner' ⟨B, types, limits, style⟩ isQualified entry := by
  cases entry with
  | specification signature => simp only [NameFormatter.entry, hInner _ _ (.slot (hSelf signature))]
  | definition | reference => simp only [NameFormatter.entry, qualifier_congr (B := B) hInner]

end OneLevel

section Owners

variable (hAlike : A.Counterparts B R)

include hAlike

theorem assemblySuffix_congr {a b : NodeId} (hSame : R (some a) (some b)) :
    assemblySuffix ⟨A, types, limits, style⟩ a = assemblySuffix ⟨B, types, limits, style⟩ b := by
  funext budget
  simp only [assemblySuffix, assemblySuffix?,
    OwnerQuery.resolve?_congr hAlike (.definingAssembly types) types limits (.node hSame)]

variable {inner inner' : Subject → Bool → Rendering}
  (hInner : ∀ subject subject', Subject.Corresponds R subject subject' → inner subject = inner' subject')

include hInner

theorem assemblyQualified_congr {a b : NodeId} (hSame : R (some a) (some b)) :
    assemblyQualified inner ⟨A, types, limits, style⟩ a =
      assemblyQualified inner' ⟨B, types, limits, style⟩ b := by
  rw [assemblyQualified, assemblyQualified, qualified_congr hInner hSame, assemblySuffix_congr hAlike hSame]

theorem arguments_congr {args args' : List NodeId} (hArgs : ListCorresponds R args args') :
    arguments inner ⟨A, types, limits, style⟩ args = arguments inner' ⟨B, types, limits, style⟩ args' := by
  cases style with
  | source => simp only [arguments, map_qualified_congr hInner hArgs]
  | reflection =>
      simp only [arguments]
      rw [hArgs.map_eq fun a b hSame => by rw [assemblyQualified_congr hAlike hInner hSame]]

theorem node_congr (isQualified : Bool) {left right : Node} (hNodes : left.Corresponds R right) :
    NameFormatter.node inner ⟨A, types, limits, style⟩ isQualified left =
      NameFormatter.node inner' ⟨B, types, limits, style⟩ isQualified right := by
  cases hNodes with
  | named kind token => simp only [NameFormatter.node, hInner _ _ (.type token)]
  | primitive | sentinel => rfl
  | genericParam owner number => cases owner <;> rfl
  | functionPointer hSignature => exact functionPointer_congr hInner hSignature
  | genericInst hDefinition hArgs =>
      simp only [NameFormatter.node, hInner _ _ (.slot hDefinition), arguments_congr hAlike hInner hArgs]
  | modified required modifier hChild =>
      simp only [NameFormatter.node, hInner _ _ (.slot hChild), modifier_congr (B := B) hInner]
  | wrapper kind hChild | array shape hChild | valueArray size hChild | moduleQualified index hChild =>
      simp only [NameFormatter.node, hInner _ _ (.slot hChild)]

end Owners

variable (hAlike : A.Counterparts B R)

include hAlike

/-- By induction on the levels. -/
theorem within_congr (levels : Nat) (subject subject' : Subject) (hSame : subject.Corresponds R subject') :
    within ⟨A, types, limits, style⟩ levels subject = within ⟨B, types, limits, style⟩ levels subject' := by
  induction levels generalizing subject subject' with
  | zero => rfl
  | succ levels ih =>
      funext isQualified
      cases hSame with
      | slot hSame =>
          cases hAlike.looksAlike hSame with
          | absent hFirst hSecond => simp only [within, body, hFirst, hSecond]
          | nodes hLeft hRight hNodes =>
              simp only [within, body, hLeft, hRight, node_congr hAlike ih isQualified hNodes]
      | type token =>
          simp only [within, body, entry_congr (B := B) ih hAlike.self]

theorem render_congr {subject subject' : Subject} (hSame : subject.Corresponds R subject') :
    render ⟨A, types, limits, style⟩ subject = render ⟨B, types, limits, style⟩ subject' :=
  within_congr hAlike limits.formatDepth subject subject' hSame

theorem name_congr {a b : NodeId} (hSame : R (some a) (some b)) :
    name ⟨A, types, limits, style⟩ a = name ⟨B, types, limits, style⟩ b := by
  rw [name, name, render_congr hAlike (.slot hSame)]

theorem fullName_congr {a b : NodeId} (hSame : R (some a) (some b)) :
    fullName ⟨A, types, limits, style⟩ a = fullName ⟨B, types, limits, style⟩ b := by
  rw [fullName, fullName, render_congr hAlike (.slot hSame)]

theorem assemblyQualifiedName_congr {a b : NodeId} (hSame : R (some a) (some b)) :
    assemblyQualifiedName ⟨A, types, limits, style⟩ a =
      assemblyQualifiedName ⟨B, types, limits, style⟩ b := by
  simp only [assemblyQualifiedName, withStyle]
  rw [assemblyQualified_congr hAlike (fun _ _ => render_congr hAlike) hSame]

/-- By induction on the levels. The search for the terminal is bounded by the number of nodes, so the two
arenas have to be equally large. -/
theorem namespaceWithin_congr (hSize : A.size = B.size) (levels : Nat)
    {subject subject' : Subject} (hSame : subject.Corresponds R subject') :
    namespaceWithin ⟨A, types, limits, style⟩ levels subject =
      namespaceWithin ⟨B, types, limits, style⟩ levels subject' := by
  induction levels generalizing subject subject' with
  | zero => rfl
  | succ levels ih =>
      cases hSame with
      | slot hSame =>
          have hTerminals := A.terminal?_counterpart hAlike (A.size + 1) hSame
          simp only [namespaceWithin, Arena.bind_leaf?, ← hSize]
          generalize A.terminal? _ _ = left at hTerminals
          generalize B.terminal? _ _ = right at hTerminals
          cases hTerminals with
          | none => rfl
          | some hNodes =>
              cases hNodes with
              | named kind token => exact ih (.type token)
              | genericInst hDefinition => exact ih (.slot hDefinition)
              | _ => rfl
      | type token =>
          simp only [namespaceWithin]
          split
          case h_1 => rfl
          case h_2 signature _ => exact ih (.slot (hAlike.self signature))
          case h_3 =>
            split
            case h_1 outer _ => exact ih (.type outer)
            case h_2 => rfl

theorem namespaceName_congr (hSize : A.size = B.size) {a b : NodeId} (hSame : R (some a) (some b)) :
    namespaceName ⟨A, types, limits, style⟩ a = namespaceName ⟨B, types, limits, style⟩ b :=
  namespaceWithin_congr hAlike hSize limits.formatDepth (.slot hSame)

end NameFormatter

end CliSignature
