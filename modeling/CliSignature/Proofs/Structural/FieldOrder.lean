import CliSignature.Structural.Equality

/-!
What a comparison of two nodes looks at, in its order: fields and types take turns, and the lengths of two lists are
compared where the lists are reached. Two nodes have the same label if all fields agree, and then the types are their
children one by one. So a label may as well be compared as a whole and before the children.
-/

namespace CliSignature

/-- A part of what is compared of two nodes: fields, which agree or not, or the types in two places. -/
inductive Check where
  | fields (agree : Bool)
  | types (a b : Option NodeId)
deriving DecidableEq, Repr

namespace Check

def agrees : Check → Bool
  | fields agree => agree
  | types _ _ => true

/-- Whether all fields agree. -/
def allAgree (checks : List Check) : Bool :=
  checks.all agrees

def places? : Check → Option (Option NodeId × Option NodeId)
  | fields _ => none
  | types a b => some (a, b)

/-- The places whose types are compared, in their order. -/
def places (checks : List Check) : List (Option NodeId × Option NodeId) :=
  checks.filterMap places?

/-- Types that are compared one by one. -/
def inPairs (as bs : List (Option NodeId)) : List Check :=
  (as.zip bs).map fun pair => types pair.1 pair.2

/-- Two lists of types, first their lengths. -/
def lists (as bs : List NodeId) : List Check :=
  fields (as.length == bs.length) :: inPairs (as.map some) (bs.map some)

/-- Two lists of types that may both be missing. -/
def optionalLists : Option (List NodeId) → Option (List NodeId) → List Check
  | none, none => []
  | some as, some bs => lists as bs
  | _, _ => [fields false]

variable {first second : List Check} {as bs : List (Option NodeId)} {xs ys : List NodeId}

@[simp] theorem allAgree_nil : allAgree [] = true := rfl

@[simp] theorem allAgree_fields (agree : Bool) (rest : List Check) :
    allAgree (fields agree :: rest) = (agree && allAgree rest) := rfl

@[simp] theorem allAgree_types (a b : Option NodeId) (rest : List Check) :
    allAgree (types a b :: rest) = allAgree rest :=
  Bool.true_and _

@[simp] theorem allAgree_append : allAgree (first ++ second) = (allAgree first && allAgree second) :=
  List.all_append

@[simp] theorem places_nil : places [] = [] := rfl

@[simp] theorem places_fields (agree : Bool) (rest : List Check) : places (fields agree :: rest) = places rest := rfl

@[simp] theorem places_types (a b : Option NodeId) (rest : List Check) :
    places (types a b :: rest) = (a, b) :: places rest := rfl

@[simp] theorem places_append : places (first ++ second) = places first ++ places second :=
  List.filterMap_append

@[simp] theorem allAgree_inPairs : allAgree (inPairs as bs) = true := by
  simp [allAgree, inPairs, agrees]

@[simp] theorem places_inPairs : places (inPairs as bs) = as.zip bs := by
  rw [places, inPairs, List.filterMap_map]
  exact List.filterMap_some

@[simp] theorem allAgree_lists : allAgree (lists xs ys) = (xs.length == ys.length) := by
  simp [lists]

@[simp] theorem places_lists : places (lists xs ys) = (xs.map some).zip (ys.map some) := by
  simp [lists]

end Check

/-- The convention, the number of generic parameters, the result, and the parameters on either side of the sentinel. -/
def MethodSignature.checks (m n : MethodSignature) : List Check :=
  .fields (m.convention == n.convention) :: .fields (m.genericCount == n.genericCount) :: .types m.result n.result
    :: Check.lists m.params n.params ++ Check.optionalLists m.varargs n.varargs

def Signature.checks : Signature → Signature → List Check
  | method m, method n => m.checks n
  | property m, property n => m.checks n
  | field c type, field d other => [.fields (c == d), .types type other]
  | locals c types, locals d others => .fields (c == d) :: Check.lists types others
  | methodSpec c args, methodSpec d others => .fields (c == d) :: Check.lists args others
  | _, _ => [.fields false]

/-- What is compared of two nodes, in its order. -/
def Node.checks : Node → Node → List Check
  | named kind token, named kind' token' => [.fields (kind == kind'), .fields (token == token')]
  | primitive _ code, primitive _ code' => [.fields (code == code')]
  | genericParam owner number, genericParam owner' number' => [.fields (owner == owner'), .fields (number == number')]
  | sentinel, sentinel => []
  | functionPointer signature, functionPointer signature' => signature.checks signature'
  | genericInst definition args, genericInst definition' args' =>
    .types definition definition' :: Check.lists args args'
  | wrapper kind child, wrapper kind' child' => [.fields (kind == kind'), .types child child']
  | array child shape, array child' shape' =>
    [.fields (shape.rank == shape'.rank), .fields (shape.sizes == shape'.sizes),
     .fields (shape.lowerBounds == shape'.lowerBounds), .types child child']
  | modified required modifier child, modified required' modifier' child' =>
    [.fields (required == required'), .fields (modifier == modifier'), .types child child']
  | valueArray child size, valueArray child' size' => [.fields (size == size'), .types child child']
  | moduleQualified index child, moduleQualified index' child' => [.fields (index == index'), .types child child']
  | _, _ => [.fields false]

/-- The other order: the whole label, and then the children. -/
def Node.labelFirst (left right : Node) : List Check :=
  .fields (left.label == right.label) :: Check.inPairs left.children right.children

variable {left right : Node}

theorem Check.allAgree_optionalLists {as bs : Option (List NodeId)} :
    allAgree (optionalLists as bs) = true ↔ as.map List.length = bs.map List.length := by
  cases as <;> cases bs <;> simp [optionalLists]

theorem Check.places_optionalLists {as bs : Option (List NodeId)}
    (hLengths : as.map List.length = bs.map List.length) :
    places (optionalLists as bs) = ((as.getD []).map some).zip ((bs.getD []).map some) := by
  cases as <;> cases bs <;> simp_all [optionalLists]

theorem MethodSignature.allAgree_checks {m n : MethodSignature} :
    Check.allAgree (m.checks n) = true ↔ m.convention = n.convention ∧ m.genericCount = n.genericCount ∧
      m.params.length = n.params.length ∧ m.varargs.map List.length = n.varargs.map List.length := by
  simp [checks, Check.allAgree_optionalLists]

theorem MethodSignature.places_checks {m n : MethodSignature} (hParams : m.params.length = n.params.length)
    (hVarargs : m.varargs.map List.length = n.varargs.map List.length) :
    Check.places (m.checks n) = (m.result :: m.allParams.map some).zip (n.result :: n.allParams.map some) := by
  simp only [checks, allParams, List.cons_append, Check.places_fields, Check.places_types, Check.places_append,
    Check.places_lists, Check.places_optionalLists hVarargs, List.map_append, List.zip_cons_cons]
  rw [List.zip_append (by simpa using hParams)]

theorem Signature.allAgree_checks {a b : Signature} : Check.allAgree (a.checks b) = true ↔ a.label = b.label := by
  cases a <;> cases b <;> simp [checks, label, MethodSignature.allAgree_checks]

theorem Signature.places_checks {a b : Signature} (hLabel : a.label = b.label) :
    Check.places (a.checks b) = a.children.zip b.children := by
  cases a <;> cases b <;> simp_all [checks, label, children, MethodSignature.places_checks]

theorem ArrayShape.eq_iff {a b : ArrayShape} :
    a = b ↔ a.rank = b.rank ∧ a.sizes = b.sizes ∧ a.lowerBounds = b.lowerBounds := by
  cases a
  cases b
  simp

/-- Two nodes have the same label if all fields agree that are compared. -/
theorem Node.allAgree_checks : Check.allAgree (left.checks right) = true ↔ left.label = right.label := by
  cases left <;> cases right <;> simp [checks, label, Signature.allAgree_checks, ArrayShape.eq_iff]

/-- The types that are compared are the children one by one, if the labels are the same. -/
theorem Node.places_checks (hLabel : left.label = right.label) :
    Check.places (left.checks right) = left.children.zip right.children := by
  cases left <;> cases right <;> simp_all [checks, label, children, Signature.places_checks]

end CliSignature
