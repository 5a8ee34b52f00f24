import CliSignature.Proofs.Acyclicity
import CliSignature.Proofs.Blob.CompressedItems

/-!
What can be written. A node is refused for a number or a token without a compressed form, for an array with more
sizes or bounds than dimensions, and for a function pointer that holds no method. Otherwise it is written if the
types inside it are. So a type can be written if and only if it has a tree that is not too high, where no node is
refused.
-/

namespace CliSignature

open Compressed (Value)

/-- Whether the shape of an array can be written. -/
structure ArrayShape.Codable (shape : ArrayShape) : Prop where
  fits : shape.Fits
  rank : shape.rank.toNat ≤ 0x1FFFFFFF
  sizes : ∀ size ∈ shape.sizes, size.toNat ≤ 0x1FFFFFFF
  lowerBounds : ∀ bound ∈ shape.lowerBounds, -0x10000000 ≤ bound.toInt ∧ bound.toInt ≤ 0x0FFFFFFF

/-- The number of places on both sides of the sentinel, the result apart. -/
def Signature.Label.paramCount (label : Signature.Label) : Nat :=
  label.fixed + label.varargs.getD 0

/-- Whether a function pointer can hold the signature, the types in it aside. -/
structure Signature.Label.Codable (label : Signature.Label) : Prop where
  isMethod : label.form = .method
  params : label.paramCount ≤ 0x1FFFFFFF
  /-- A number of generic parameters that is not written may be any. -/
  generic : label.convention.isGeneric = true → label.genericCount.toNat ≤ 0x1FFFFFFF

/-- Whether a token can be written: it names a row of one of the tables that hold types. -/
def Token.Codable (token : Token) : Prop :=
  token.table = TypeTable.reference.code ∨ token.table = TypeTable.definition.code ∨
    token.table = TypeTable.specification.code

/-- Whether a node can be written, the types in it aside. -/
def Node.Label.Codable : Node.Label → Prop
  | .named _ token => token.Codable
  | .primitive _ => True
  | .genericParam _ number => number.toNat ≤ 0x1FFFFFFF
  | .sentinel => True
  | .functionPointer signature => signature.Codable
  | .genericInst arity => arity ≤ 0x1FFFFFFF
  | .wrapper _ => True
  | .array shape => shape.Codable
  | .modified _ modifier => modifier.Codable
  | .valueArray size => size.toNat ≤ 0x1FFFFFFF
  | .moduleQualified index => index.toNat ≤ 0x1FFFFFFF

/-- Whether each node of a tree can be written. -/
inductive Tree.Codable : Tree → Prop where
  | absent : Codable .absent
  | node {label : Node.Label} {children : List Tree} (hLabel : label.Codable)
      (hChildren : ∀ child ∈ children, Codable child) : Codable (.node label children)

theorem Tree.codable_node_iff {label : Node.Label} {children : List Tree} :
    (Tree.node label children).Codable ↔ label.Codable ∧ ∀ child ∈ children, child.Codable := by
  constructor
  · intro h
    cases h with
    | node hLabel hChildren => exact ⟨hLabel, hChildren⟩
  · rintro ⟨hLabel, hChildren⟩
    exact .node hLabel hChildren

namespace Emission

variable {type : Option NodeId → Emission}

theorem failure_value (value : Value) : value.emission.failure = none ↔ value.Fits := by
  constructor
  · intro hSucceeds
    by_contra hFits
    rw [Value.emission_of_not_fits hFits] at hSucceeds
    cases hSucceeds
  · intro hFits
    obtain ⟨lexemes, -, -, hEmission⟩ := Value.exists_emission hFits
    rw [hEmission]
    rfl

theorem failure_unsigned {value : UInt32} : (unsigned value).failure = none ↔ value.toNat ≤ 0x1FFFFFFF :=
  failure_value (.unsigned value)

theorem failure_signed {value : Int32} :
    (signed value).failure = none ↔ -0x10000000 ≤ value.toInt ∧ value.toInt ≤ 0x0FFFFFFF :=
  failure_value (.signed value)

theorem failure_token {value : Token} : (token value).failure = none ↔ value.Codable :=
  failure_value (.token value)

theorem failure_count {n : Nat} : (count n).failure = none ↔ n ≤ 0x1FFFFFFF := by
  unfold count
  split
  case isTrue hLt => rw [failure_unsigned, UInt32.toNat_ofNat_of_lt' hLt]
  case isFalse hAbove =>
    have hSize : UInt32.size = 0x100000000 := rfl
    simp only [fail, reduceCtorEq, false_iff]
    omega

/-- The counts of sizes and bounds need no condition of their own, since they are at most the rank. -/
theorem failure_shape {value : ArrayShape} (hFits : value.Fits) :
    (shape value).failure = none ↔ value.Codable := by
  simp only [shape, failure_andThen, failure_each, failure_unsigned, failure_count, failure_signed]
  constructor
  · rintro ⟨hRank, -, hSizes, -, hBounds⟩
    exact ⟨hFits, hRank, hSizes, hBounds⟩
  · rintro ⟨⟨hSizeCount, hBoundCount⟩, hRank, hSizes, hBounds⟩
    exact ⟨hRank, Nat.le_trans hSizeCount hRank, hSizes, Nat.le_trans hBoundCount hRank, hBounds⟩

theorem failure_types {ids : List NodeId} :
    (types type ids).failure = none ↔ ∀ slot ∈ ids.map some, (type slot).failure = none := by
  simp only [types, failure_each, List.forall_mem_map]

theorem failure_list {ids : List NodeId} :
    (list type ids).failure = none ↔
      ids.length ≤ 0x1FFFFFFF ∧ ∀ slot ∈ ids.map some, (type slot).failure = none := by
  simp only [list, failure_andThen, failure_count, failure_types]

theorem failure_varargs {ids : Option (List NodeId)} :
    (varargs type ids).failure = none ↔ ∀ slot ∈ (ids.getD []).map some, (type slot).failure = none := by
  cases ids with
  | none => simp [varargs, done]
  | some ids => simp only [varargs, failure_andThen, failure_types, Option.getD_some, ofBytes, true_and]

theorem failure_methodBody {m : MethodSignature} :
    (methodBody type m).failure = none ↔
      m.paramCount ≤ 0x1FFFFFFF ∧ ∀ slot ∈ m.result :: m.allParams.map some, (type slot).failure = none := by
  simp only [methodBody, failure_andThen, failure_count, failure_types, failure_varargs,
    MethodSignature.allParams, List.map_append, List.forall_mem_cons, List.forall_mem_append]

theorem failure_method {m : MethodSignature} :
    (method type m).failure = none ↔
      (Signature.method m).label.Codable ∧
        ∀ slot ∈ (Signature.method m).children, (type slot).failure = none := by
  have hCount : (Signature.method m).label.paramCount = m.paramCount := by
    cases hVarargs : m.varargs <;>
      simp [Signature.label, Signature.Label.paramCount, MethodSignature.paramCount, MethodSignature.allParams,
        hVarargs]
  have hGeneric : (if m.convention.isGeneric then unsigned m.genericCount else done).failure = none ↔
      (m.convention.isGeneric = true → m.genericCount.toNat ≤ 0x1FFFFFFF) := by
    split
    case isTrue hFlag => simp only [failure_unsigned, hFlag, forall_const]
    case isFalse hFlag => simp [done, hFlag]
  simp only [method, failure_andThen, convention, ofBytes, true_and, hGeneric, failure_methodBody]
  constructor
  · rintro ⟨hGeneric, hParams, hTypes⟩
    exact ⟨⟨rfl, hCount ▸ hParams, hGeneric⟩, hTypes⟩
  · rintro ⟨⟨-, hParams, hGeneric⟩, hTypes⟩
    exact ⟨hGeneric, hCount ▸ hParams, hTypes⟩

/-- A node is written if nothing in it is refused and the types inside it are written. -/
theorem failure_payload {node : Node} :
    (payload type node).failure = none ↔
      node.label.Codable ∧ ∀ slot ∈ node.children, (type slot).failure = none := by
  cases node with
  | named kind token => simp [payload, failure_token, Node.label, Node.Label.Codable, Node.children]
  | primitive token code => simp [payload, done, Node.label, Node.Label.Codable, Node.children]
  | genericParam owner number =>
      simp [payload, failure_unsigned, Node.label, Node.Label.Codable, Node.children]
  | sentinel => simp [payload, done, Node.label, Node.Label.Codable, Node.children]
  | functionPointer signature =>
      cases signature with
      | method m => exact failure_method
      | property | field | locals | methodSpec =>
          simp only [payload, fail, reduceCtorEq, Node.label, Node.Label.Codable, false_iff, not_and]
          intro hCodable
          cases hCodable.isMethod
  | genericInst definition args =>
      simp only [payload, failure_andThen, failure_list, Node.label, Node.Label.Codable, Node.children,
        List.forall_mem_cons]
      exact and_left_comm
  | wrapper kind child => simp [payload, Node.label, Node.Label.Codable, Node.children]
  | array child value =>
      by_cases hFits : value.Fits
      · simp [payload, hFits, failure_andThen, failure_shape hFits, Node.label, Node.Label.Codable, Node.children,
          and_comm]
      · have hOther : ¬ value.Codable := fun hCodable => hFits hCodable.fits
        simp [payload, hFits, fail, Node.label, Node.Label.Codable, hOther]
  | modified required modifier child =>
      simp [payload, failure_andThen, failure_token, Node.label, Node.Label.Codable, Node.children]
  | valueArray child size =>
      simp [payload, failure_andThen, failure_unsigned, Node.label, Node.Label.Codable, Node.children, and_comm]
  | moduleQualified index child =>
      simp [payload, failure_andThen, failure_unsigned, Node.label, Node.Label.Codable, Node.children]

/-- By induction on the levels. A node that refers back to itself has no tree, and is too deep for any limit. -/
theorem failure_typeWithin {arena : Arena} {limits : Limits} (levels : Nat) {slot : Option NodeId} :
    (typeWithin arena limits levels slot).failure = none ↔
      ∃ tree, arena.Unfolds slot tree ∧ tree.height 1 ≤ levels ∧ tree.Codable := by
  induction levels generalizing slot with
  | zero =>
      simp only [typeWithin, tooDeep, reduceCtorEq, false_iff]
      rintro ⟨tree, -, hHeight, -⟩
      cases tree with
      | absent => exact absurd hHeight (by decide)
      | node label children => exact Nat.not_le.mpr (Tree.height_node_pos 1 label children) hHeight
  | succ levels ih =>
      cases hNode : arena.resolve? slot with
      | none =>
          simp only [typeWithin, typeBody, hNode, ofBytes, true_iff]
          exact ⟨.absent, .absent hNode, Nat.succ_le_succ (Nat.zero_le _), .absent⟩
      | some entry =>
          obtain ⟨id, node⟩ := entry
          simp only [typeWithin, typeBody, hNode, failure_andThen, ofBytes, true_and, failure_payload, ih]
          constructor
          · rintro ⟨hLabel, hChildren⟩
            obtain ⟨trees, hTrees⟩ := exists_forall₂ hChildren
            have hEach := forall_of_forall₂ hTrees fun _ _ _ hTree => hTree.2
            exact ⟨_, .of_forall₂ hNode (hTrees.imp fun _ _ hTree => hTree.1),
              Tree.height_node_le_iff.mpr fun tree hMem => (hEach tree hMem).1,
              .node hLabel fun tree hMem => (hEach tree hMem).2⟩
          · rintro ⟨tree, hTree, hHeight, hCodable⟩
            obtain ⟨trees, rfl, hTrees⟩ := hTree.exists_trees hNode
            obtain ⟨hLabel, hEach⟩ := Tree.codable_node_iff.mp hCodable
            refine ⟨hLabel, fun slot hMem => ?_⟩
            obtain ⟨tree, hMemTree, hTree⟩ := exists_of_forall₂ hTrees hMem
            exact ⟨tree, hTree, Tree.height_node_le_iff.mp hHeight tree hMemTree, hEach tree hMemTree⟩

end Emission

namespace Arena

/-- Encoding fails exactly on what the grammar can not express. A type is written by a fresh writer if and only if
it has a tree, the tree does not nest deeper than the limit, where an absent type counts as a level, and no node in it
is one that can not be written. -/
theorem writeType_succeeds_iff (arena : Arena) (limits : Limits) (slot : Option NodeId) :
    (Writer.start.writeType arena limits slot).1 = .ok () ↔
      ∃ tree, arena.Unfolds slot tree ∧ tree.height 1 ≤ limits.decodeDepth ∧ tree.Codable := by
  have hOutcome : (Writer.start.writeType arena limits slot).1 = .ok () ↔
      (Emission.typeWithin arena limits limits.decodeDepth slot).failure = none := by
    simp only [Writer.writeType, Writer.append, Writer.emitType, Writer.start, Nat.sub_zero]
    cases (Emission.typeWithin arena limits limits.decodeDepth slot).failure <;> simp
  rw [hOutcome, Emission.failure_typeWithin]

end Arena

end CliSignature
