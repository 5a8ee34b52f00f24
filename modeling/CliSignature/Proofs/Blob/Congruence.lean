import CliSignature.Proofs.Blob.TypeReading
import CliSignature.Proofs.Counterparts.Basic

/-!
Relations between runs. What holds of a byte, of corresponding nodes that are added, of a failure, and of one
reading after another, holds of all that is made of them. So two readings of signatures are related as soon
as the readings of the types inside them are.
-/

namespace CliSignature.Read

/-- A relation of readings that all building blocks have to themselves and that lasts from one reading to the
next. It also says how the values are related that are returned; those that hold handles are when they differ
in nothing but handles that `S` relates. Nothing is asked about nesting too deep. -/
structure Congruence (S : NodeId → NodeId → Prop)
    (R : ∀ {α : Type}, (α → α → Prop) → Read α → Read α → Prop) : Prop where
  pure {α : Type} {V : α → α → Prop} {value value' : α} (hValues : V value value') :
    R V (Pure.pure value) (Pure.pure value')
  bind {α β : Type} {V : α → α → Prop} {W : β → β → Prop} {first first' : Read α}
    {next next' : α → Read β} (hFirst : R V first first')
    (hNext : ∀ value value', V value value' → R W (next value) (next' value')) :
    R W (first >>= next) (first' >>= next')
  throw {α : Type} {V : α → α → Prop} (error : DecodeError)
    (hOther : ∀ limit, error ≠ .recursionLimit limit) :
    R V (MonadExcept.throw error : Read α) (MonadExcept.throw error)
  absent {V : NodeId → NodeId → Prop} (role : ListRole) :
    R V (do MonadExcept.throw (.absentElement role (← get).cursor.offset) : Read NodeId)
      (do MonadExcept.throw (.absentElement role (← get).cursor.offset))
  byte : R Eq (scan Scan.byte) (scan Scan.byte)
  peek : R Eq (scan Scan.peek) (scan Scan.peek)
  remaining : R Eq (scan Scan.remaining) (scan Scan.remaining)
  add {node node' : Node} (hNodes : node.Corresponds (Option.Rel S) node') : R S (add node) (add node')

namespace Congruence

variable {S : NodeId → NodeId → Prop} {R : ∀ {α : Type}, (α → α → Prop) → Read α → Read α → Prop}
  (hR : Congruence S @R)

include hR

/-- What returns the same value, and what is read after it. -/
theorem bindEq {α β : Type} {W : β → β → Prop} {first first' : Read α} {next next' : α → Read β}
    (hFirst : R Eq first first') (hNext : ∀ value, R W (next value) (next' value)) :
    R W (first >>= next) (first' >>= next') :=
  hR.bind hFirst fun value _ hSame => hSame ▸ hNext value

theorem skip : R Eq (scan Scan.skip) (scan Scan.skip) := by
  rw [Scan.skip, scan_bind]
  exact hR.bindEq hR.byte fun _ => hR.pure rfl

theorem packed : R Eq (scan Compressed.readPacked) (scan Compressed.readPacked) := by
  have hByte {α : Type} {next : UInt8 → Scan α} (hNext : ∀ value, R Eq (scan (next value)) (scan (next value))) :
      R Eq (scan (Scan.byte >>= next)) (scan (Scan.byte >>= next)) := by
    rw [scan_bind]
    exact hR.bindEq hR.byte hNext
  rw [Compressed.readPacked]
  refine hByte fun lead => ?_
  split
  case isTrue => exact hR.pure rfl
  case isFalse =>
    split
    case isTrue => exact hByte fun _ => hR.pure rfl
    case isFalse =>
      split
      case isTrue => exact hByte fun _ => hByte fun _ => hByte fun _ => hR.pure rfl
      case isFalse => exact hR.throw _ (by simp)

theorem unsigned : R Eq (scan Compressed.readUnsigned) (scan Compressed.readUnsigned) := by
  rw [Compressed.readUnsigned, scan_bind]
  exact hR.bindEq hR.packed fun _ => hR.pure rfl

theorem signed : R Eq (scan Compressed.readSigned) (scan Compressed.readSigned) := by
  rw [Compressed.readSigned, scan_bind]
  exact hR.bindEq hR.packed fun _ => hR.pure rfl

theorem token : R Eq (scan Compressed.readToken) (scan Compressed.readToken) := by
  rw [Compressed.readToken, scan_bind]
  refine hR.bindEq hR.packed fun found => ?_
  obtain ⟨width, coded⟩ := found
  dsimp only
  split
  case h_1 => exact hR.throw _ nofun
  case h_2 =>
    split
    case isTrue => exact hR.pure rfl
    case isFalse => exact hR.throw _ nofun

theorem count : R Eq count count := by
  unfold Read.count
  refine hR.bindEq hR.unsigned fun n => hR.bindEq hR.remaining fun remaining => ?_
  split
  case isTrue => exact hR.throw _ nofun
  case isFalse => exact hR.pure rfl

theorem atSentinel : R Eq atSentinel atSentinel :=
  hR.bindEq hR.peek fun _ => hR.pure rfl

theorem start (form : Signature.Form) : R Eq (start form) (start form) := by
  refine hR.bindEq hR.byte fun first => ?_
  dsimp only
  split
  case isTrue => exact hR.pure rfl
  case isFalse => exact hR.throw _ nofun

theorem genericCount (convention : CallingConvention) :
    R Eq (genericCount convention) (genericCount convention) := by
  unfold Read.genericCount
  split
  case isTrue => exact hR.unsigned
  case isFalse => exact hR.pure rfl

theorem replicate {α : Type} {value : Read α} (hValue : R Eq value value) (n : Nat) :
    R Eq (replicate value n) (replicate value n) := by
  induction n with
  | zero => exact hR.pure rfl
  | succ n ih => exact hR.bindEq hValue fun _ => hR.bindEq ih fun _ => hR.pure rfl

theorem dimensions {α : Type} {value : Read α} (hValue : R Eq value value) (rank : UInt32)
    {error : Nat → DecodeError} (hOther : ∀ n limit, error n ≠ .recursionLimit limit) :
    R Eq (dimensions value rank error) (dimensions value rank error) := by
  refine hR.bindEq hR.unsigned fun n => ?_
  split
  case isTrue => exact hR.throw _ (hOther n.toNat)
  case isFalse => exact hR.replicate hValue n.toNat

section Types

variable {type type' : Read (Option NodeId)} (hType : R (Option.Rel S) type type')

include hType

theorem element (role : ListRole) : R S (element type role) (element type' role) := by
  refine hR.bind hType fun slot slot' hSlots => ?_
  cases hSlots with
  | none => exact hR.absent role
  | some hIds => exact hR.pure hIds

theorem elements (role : ListRole) (n : Nat) :
    R (ListCorresponds (Option.Rel S)) (elements type role n) (elements type' role n) := by
  induction n with
  | zero => exact hR.pure .nil
  | succ n ih =>
      exact hR.bind (hR.element hType role) fun _ _ hFirst => hR.bind ih fun _ _ hOthers =>
        hR.pure (.cons (.some hFirst) hOthers)

theorem list (role : ListRole) : R (ListCorresponds (Option.Rel S)) (list type role) (list type' role) :=
  hR.bindEq hR.count (hR.elements hType role)

theorem varargs (n : Nat) : R (ListCorresponds (Option.Rel S)) (varargs type n) (varargs type' n) := by
  induction n with
  | zero => exact hR.pure .nil
  | succ n ih =>
      refine hR.bindEq hR.atSentinel fun marked => ?_
      cases marked with
      | true => exact hR.bindEq hR.skip fun _ => hR.throw _ nofun
      | false =>
          exact hR.bind (hR.element hType .parameter) fun _ _ hFirst => hR.bind ih fun _ _ hOthers =>
            hR.pure (.cons (.some hFirst) hOthers)

theorem params (n : Nat) :
    R (fun read read' => ListCorresponds (Option.Rel S) read.1 read'.1 ∧
        Option.Rel (ListCorresponds (Option.Rel S)) read.2 read'.2)
      (params type n) (params type' n) := by
  induction n with
  | zero => exact hR.pure ⟨.nil, .none⟩
  | succ n ih =>
      refine hR.bindEq hR.atSentinel fun marked => ?_
      cases marked with
      | true =>
          exact hR.bindEq hR.skip fun _ => hR.bind (hR.varargs hType (n + 1)) fun _ _ hRest =>
            hR.pure ⟨.nil, .some hRest⟩
      | false =>
          exact hR.bind (hR.element hType .parameter) fun _ _ hFirst => hR.bind ih fun _ _ hOthers =>
            hR.pure ⟨.cons (.some hFirst) hOthers.1, hOthers.2⟩

theorem methodBody (convention : CallingConvention) (genericCount : UInt32) :
    R (MethodSignature.Corresponds (Option.Rel S)) (methodBody type convention genericCount)
      (methodBody type' convention genericCount) :=
  hR.bindEq hR.count fun n => hR.bind hType fun _ _ hResult => hR.bind (hR.params hType n) fun _ _ hParams =>
    hR.pure (.mk convention genericCount hResult hParams.1 hParams.2)

theorem method : R (MethodSignature.Corresponds (Option.Rel S)) (method type) (method type') := by
  rw [method_eq, method_eq]
  exact hR.bindEq (hR.start .method) fun convention => hR.bindEq (hR.genericCount convention) fun generic =>
    hR.methodBody hType convention generic

theorem property : R (MethodSignature.Corresponds (Option.Rel S)) (property type) (property type') :=
  hR.bindEq (hR.start .property) fun convention => hR.methodBody hType convention 0

theorem signatureOf (form : Signature.Form) :
    R (Signature.Corresponds (Option.Rel S)) (signatureOf type form) (signatureOf type' form) := by
  cases form with
  | method => exact hR.bind (hR.method hType) fun _ _ hMethod => hR.pure (.method hMethod)
  | property => exact hR.bind (hR.property hType) fun _ _ hMethod => hR.pure (.property hMethod)
  | field =>
      exact hR.bindEq (hR.start .field) fun convention => hR.bind hType fun _ _ hField =>
        hR.pure (.field convention hField)
  | locals =>
      exact hR.bindEq (hR.start .locals) fun convention => hR.bind (hR.list hType .localVariable) fun _ _ hTypes =>
        hR.pure (.locals convention hTypes)
  | methodSpec =>
      exact hR.bindEq (hR.start .methodSpec) fun convention =>
        hR.bind (hR.list hType .methodArgument) fun _ _ hArgs => hR.pure (.methodSpec convention hArgs)

theorem anySignature : R (Signature.Corresponds (Option.Rel S)) (anySignature type) (anySignature type') := by
  refine hR.bindEq hR.peek fun byte => ?_
  cases (CallingConvention.mk byte).kind? with
  | some kind => exact hR.signatureOf hType (.ofKind kind)
  | none => exact hR.throw _ nofun

/-- What follows the byte of a production, where `hShape` speaks of the only part that depends on limits. -/
theorem production {limits limits' : Limits} (hShape : R Eq (shape limits) (shape limits')) (found : Production) :
    R (Node.Corresponds (Option.Rel S)) (production type limits found) (production type' limits' found) := by
  cases found with
  | named kind => exact hR.bindEq hR.token fun token => hR.pure (.named kind token)
  | genericParam owner => exact hR.bindEq hR.unsigned fun number => hR.pure (.genericParam owner number)
  | sentinel => exact hR.pure .sentinel
  | functionPointer =>
      exact hR.bind (hR.method hType) fun _ _ hMethod => hR.pure (.functionPointer (.method hMethod))
  | genericInst =>
      exact hR.bind hType fun _ _ hDefinition => hR.bind (hR.list hType .genericArgument) fun _ _ hArgs =>
        hR.pure (.genericInst hDefinition hArgs)
  | wrapper kind => exact hR.bind hType fun _ _ hChild => hR.pure (.wrapper kind hChild)
  | array =>
      exact hR.bind hType fun _ _ hChild => hR.bindEq hShape fun shape => hR.pure (.array shape hChild)
  | modified required =>
      exact hR.bindEq hR.token fun modifier => hR.bind hType fun _ _ hChild =>
        hR.pure (.modified required modifier hChild)
  | valueArray =>
      exact hR.bind hType fun _ _ hChild => hR.bindEq hR.unsigned fun size => hR.pure (.valueArray size hChild)
  | moduleQualified =>
      exact hR.bindEq hR.unsigned fun index => hR.bind hType fun _ _ hChild =>
        hR.pure (.moduleQualified index hChild)

/-- A type, where the shared nodes of primitives correspond to themselves. -/
theorem typeBody {context context' : ReadContext} (hCore : context.core = context'.core)
    (hShared : ∀ code, S (context'.core.node code) (context'.core.node code))
    (hShape : R Eq (shape context.limits) (shape context'.limits)) :
    R (Option.Rel S) (typeBody type context) (typeBody type' context') := by
  refine hR.bindEq hR.byte fun first => ?_
  rw [hCore]
  cases hPrimitive : context'.core.ofElementType? first with
  | some id =>
      obtain ⟨code, -, rfl⟩ := Option.map_eq_some_iff.mp hPrimitive
      exact hR.pure (.some (hShared code))
  | none =>
      cases Production.ofElementType? first with
      | none => exact hR.pure .none
      | some found =>
          exact hR.bind (hR.production hType hShape found) fun _ _ hNodes => hR.bind (hR.add hNodes) fun _ _ hIds =>
            hR.pure (.some hIds)

end Types

/-- Limits matter to a shape only for the rank. -/
theorem shape {limits limits' : Limits} (hRank : limits.arrayRank = limits'.arrayRank) :
    R Eq (shape limits) (shape limits') := by
  rw [shape_eq, shape_eq, hRank]
  refine hR.bindEq hR.unsigned fun rank => ?_
  split
  case isTrue => exact hR.throw _ nofun
  case isFalse =>
    exact hR.bindEq (hR.dimensions hR.unsigned rank fun _ => nofun) fun _ =>
      hR.bindEq (hR.dimensions hR.signed rank fun _ => nofun) fun _ => hR.pure rfl

end Congruence

end CliSignature.Read
