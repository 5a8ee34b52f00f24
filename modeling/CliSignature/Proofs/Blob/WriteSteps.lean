import CliSignature.Proofs.Blob.Emission

/-!
What a writing does in order. To write a signature is to emit some bytes, write a type, emit some bytes and so
on, where all that is not in the types is neither deep nor keeps a level. So what holds of one step after
another holds of every writing.
-/

namespace CliSignature

/-- A step of a writing: it emits something itself, or it writes a type. -/
inductive WriteStep where
  | emit (emission : Emission)
  | type (slot : Option NodeId)

namespace WriteStep

/-- What the step emits, where `type` writes a type. -/
def emission (type : Option NodeId → Emission) : WriteStep → Emission
  | .emit emission => emission
  | .type slot => type slot

/-- Writes types one after the other. -/
def types (ids : List NodeId) : List WriteStep :=
  ids.map fun id => .type (some id)

/-- Writes the number of types and then the types. -/
def list (ids : List NodeId) : List WriteStep :=
  .emit (.count ids.length) :: types ids

/-- Writes the parameters behind the sentinel, and the sentinel itself if there is one. -/
def varargs : Option (List NodeId) → List WriteStep
  | none => []
  | some ids => .emit (.ofBytes [Production.sentinel.elementType]) :: types ids

end WriteStep

/-- The steps of what follows the convention and the number of generic parameters. -/
def MethodSignature.bodySteps (method : MethodSignature) : List WriteStep :=
  .emit (.count method.paramCount) :: .type method.result ::
    (WriteStep.types method.params ++ WriteStep.varargs method.varargs)

def MethodSignature.steps (method : MethodSignature) : List WriteStep :=
  .emit (.convention method.convention) ::
    ((if method.convention.isGeneric then [.emit (.unsigned method.genericCount)] else []) ++ method.bodySteps)

def Signature.steps : Signature → List WriteStep
  | .method m => m.steps
  | .property m => .emit (.convention m.convention) :: m.bodySteps
  | .field c fieldType => [.emit (.convention c), .type fieldType]
  | .locals c ids => .emit (.convention c) :: WriteStep.list ids
  | .methodSpec c ids => .emit (.convention c) :: WriteStep.list ids

/-- The steps of what follows the first byte of a node. -/
def Node.steps : Node → List WriteStep
  | .named _ value => [.emit (.token value)]
  | .primitive _ _ => []
  | .genericParam _ number => [.emit (.unsigned number)]
  | .sentinel => []
  | .functionPointer (.method m) => m.steps
  | .functionPointer other => [.emit (.fail (.notAMethod other.convention))]
  | .genericInst definition args => .type definition :: WriteStep.list args
  | .wrapper _ child => [.type child]
  | .array child value =>
    if value.Fits then [.type child, .emit (.shape value)]
    else [.emit (.fail (.shapeMismatch value.sizes.length value.lowerBounds.length value.rank.toNat))]
  | .modified _ modifier child => [.emit (.token modifier), .type child]
  | .valueArray child size => [.type child, .emit (.unsigned size)]
  | .moduleQualified index child => [.emit (.unsigned index), .type child]

/-- The steps of a type, apart from those of the types inside it. -/
def Arena.steps (arena : Arena) (slot : Option NodeId) : List WriteStep :=
  match arena.resolve? slot with
  | none => [.emit (.ofBytes [0x00])]
  | some (_, node) => .emit (.ofBytes [node.elementType]) :: node.steps

namespace Emission

variable {type : Option NodeId → Emission}

theorem each_append {α : Type} (write : α → Emission) (first second : List α) :
    each write (first ++ second) = (each write first >> each write second) := by
  induction first with
  | nil => rw [List.nil_append, each, done_andThen]
  | cons value first ih => rw [List.cons_append, each, each, ih, andThen_assoc]

theorem types_eq (ids : List NodeId) :
    types type ids = each (WriteStep.emission type) (WriteStep.types ids) := by
  induction ids with
  | nil => rfl
  | cons id ids ih =>
      rw [types] at ih
      rw [types, each, ih]
      rfl

theorem list_eq (ids : List NodeId) : list type ids = each (WriteStep.emission type) (WriteStep.list ids) := by
  rw [list, types_eq]
  rfl

theorem varargs_eq (ids : Option (List NodeId)) :
    varargs type ids = each (WriteStep.emission type) (WriteStep.varargs ids) := by
  cases ids with
  | none => rfl
  | some ids =>
      rw [varargs, types_eq]
      rfl

theorem methodBody_eq (m : MethodSignature) :
    methodBody type m = each (WriteStep.emission type) m.bodySteps := by
  rw [methodBody, types_eq, varargs_eq, ← each_append]
  rfl

theorem method_eq (m : MethodSignature) : method type m = each (WriteStep.emission type) m.steps := by
  rw [method, methodBody_eq, MethodSignature.steps, each, each_append]
  split
  · simp only [each, andThen_done, WriteStep.emission]
  · rfl

theorem signature_eq (signature : Signature) :
    Emission.signature type signature = each (WriteStep.emission type) signature.steps := by
  cases signature with
  | method m => exact method_eq m
  | property m =>
      rw [Emission.signature, methodBody_eq]
      rfl
  | field => simp only [Emission.signature, Signature.steps, each, andThen_done, WriteStep.emission]
  | locals | methodSpec =>
      rw [Emission.signature, list_eq]
      rfl

theorem payload_eq (node : Node) : payload type node = each (WriteStep.emission type) node.steps := by
  cases node with
  | primitive | sentinel => rfl
  | named | genericParam | wrapper | modified | valueArray | moduleQualified =>
      simp only [payload, Node.steps, each, andThen_done, WriteStep.emission]
  | functionPointer signature =>
      cases signature with
      | method m => exact method_eq m
      | property | field | locals | methodSpec =>
          simp only [payload, Node.steps, each, andThen_done, WriteStep.emission]
  | genericInst definition args =>
      rw [payload, list_eq]
      rfl
  | array child value =>
      by_cases hFits : value.Fits
      · simp only [payload, Node.steps, if_pos hFits, each, andThen_done, WriteStep.emission]
      · simp only [payload, Node.steps, if_neg hFits, each, andThen_done, WriteStep.emission]

theorem typeBody_eq (arena : Arena) (slot : Option NodeId) :
    typeBody type arena slot = each (WriteStep.emission type) (arena.steps slot) := by
  cases hNode : arena.resolve? slot with
  | none => simp only [typeBody, Arena.steps, hNode, each, andThen_done, WriteStep.emission]
  | some entry => simp only [typeBody, Arena.steps, hNode, each, WriteStep.emission, payload_eq]

/-- An emission that keeps no level and does not fail for nesting too deep. -/
structure Plain (emission : Emission) : Prop where
  held : emission.heldLevels = 0
  failure : ∀ limit, emission.failure ≠ some (.recursionLimit limit)

namespace Plain

theorem done : done.Plain := ⟨rfl, nofun⟩

theorem ofBytes (bytes : List UInt8) : (ofBytes bytes).Plain := ⟨rfl, nofun⟩

theorem fail {error : EncodeError} (hOther : ∀ limit, error ≠ .recursionLimit limit) : (fail error).Plain :=
  ⟨rfl, fun limit hFailure => hOther limit (Option.some.inj hFailure)⟩

theorem andThen {first second : Emission} (hFirst : first.Plain) (hSecond : second.Plain) :
    (first >> second : Emission).Plain := by
  change (Emission.andThen first fun _ => second).Plain
  unfold Emission.andThen
  split
  case h_1 => exact hFirst
  case h_2 => exact ⟨by simp [hFirst.held, hSecond.held], hSecond.failure⟩

theorem each {α : Type} {write : α → Emission} (hWrite : ∀ value, (write value).Plain) (values : List α) :
    (each write values).Plain := by
  induction values with
  | nil => exact done
  | cons value values ih => exact (hWrite value).andThen ih

theorem unsigned (value : UInt32) : (unsigned value).Plain := by
  unfold Emission.unsigned Compressed.unsigned
  split
  case h_1 => exact ofBytes _
  case h_2 => exact fail nofun

theorem signed (value : Int32) : (signed value).Plain := by
  unfold Emission.signed Compressed.signed
  split
  case h_1 => exact ofBytes _
  case h_2 => exact fail nofun

theorem token (value : Token) : (token value).Plain := by
  unfold Emission.token Compressed.token Compressed.codedIndex
  split
  case h_1 index _ => exact unsigned (UInt32.ofNat index)
  case h_2 => exact fail nofun

theorem count (n : Nat) : (count n).Plain := by
  unfold Emission.count
  split
  case isTrue => exact unsigned _
  case isFalse => exact fail nofun

theorem shape (value : ArrayShape) : (shape value).Plain :=
  (unsigned _).andThen ((count _).andThen ((each unsigned _).andThen ((count _).andThen (each signed _))))

end Plain

end Emission

namespace WriteStep

/-- Whether the step is plain itself, whatever happens in the type that it may write. -/
def Plain : WriteStep → Prop
  | .emit emission => emission.Plain
  | .type _ => True

theorem plain_types (ids : List NodeId) : ∀ step ∈ types ids, step.Plain := by
  intro step hMem
  obtain ⟨id, -, rfl⟩ := List.mem_map.mp hMem
  trivial

theorem plain_list (ids : List NodeId) : ∀ step ∈ list ids, step.Plain :=
  List.forall_mem_cons.mpr ⟨Emission.Plain.count _, plain_types ids⟩

theorem plain_varargs (ids : Option (List NodeId)) : ∀ step ∈ varargs ids, step.Plain := by
  cases ids with
  | none => exact nofun
  | some ids => exact List.forall_mem_cons.mpr ⟨Emission.Plain.ofBytes _, plain_types ids⟩

end WriteStep

theorem MethodSignature.plain_bodySteps (m : MethodSignature) : ∀ step ∈ m.bodySteps, step.Plain := by
  refine List.forall_mem_cons.mpr ⟨Emission.Plain.count _, List.forall_mem_cons.mpr ⟨trivial, ?_⟩⟩
  exact List.forall_mem_append.mpr ⟨WriteStep.plain_types _, WriteStep.plain_varargs _⟩

theorem MethodSignature.plain_steps (m : MethodSignature) : ∀ step ∈ m.steps, step.Plain := by
  refine List.forall_mem_cons.mpr ⟨Emission.Plain.ofBytes _, List.forall_mem_append.mpr ⟨?_, m.plain_bodySteps⟩⟩
  split
  · exact List.forall_mem_singleton.mpr (Emission.Plain.unsigned _)
  · exact nofun

theorem Signature.plain_steps (signature : Signature) : ∀ step ∈ signature.steps, step.Plain := by
  cases signature with
  | method m => exact m.plain_steps
  | property m => exact List.forall_mem_cons.mpr ⟨Emission.Plain.ofBytes _, m.plain_bodySteps⟩
  | field => exact List.forall_mem_cons.mpr ⟨Emission.Plain.ofBytes _, List.forall_mem_singleton.mpr trivial⟩
  | locals | methodSpec => exact List.forall_mem_cons.mpr ⟨Emission.Plain.ofBytes _, WriteStep.plain_list _⟩

theorem Node.plain_steps (node : Node) : ∀ step ∈ node.steps, step.Plain := by
  cases node with
  | primitive | sentinel => exact nofun
  | named | genericParam | wrapper | modified | valueArray | moduleQualified =>
      simp [steps, WriteStep.Plain, Emission.Plain.token, Emission.Plain.unsigned]
  | functionPointer signature =>
      cases signature with
      | method m => exact m.plain_steps
      | property | field | locals | methodSpec => exact List.forall_mem_singleton.mpr (Emission.Plain.fail nofun)
  | genericInst definition args => exact List.forall_mem_cons.mpr ⟨trivial, WriteStep.plain_list args⟩
  | array child value =>
      by_cases hFits : value.Fits
      · rw [steps, if_pos hFits]
        exact List.forall_mem_cons.mpr ⟨trivial, List.forall_mem_singleton.mpr (Emission.Plain.shape value)⟩
      · rw [steps, if_neg hFits]
        exact List.forall_mem_singleton.mpr (Emission.Plain.fail nofun)

theorem Arena.plain_steps (arena : Arena) (slot : Option NodeId) : ∀ step ∈ arena.steps slot, step.Plain := by
  unfold steps
  split
  case h_1 => exact List.forall_mem_singleton.mpr (Emission.Plain.ofBytes _)
  case h_2 id node _ => exact List.forall_mem_cons.mpr ⟨Emission.Plain.ofBytes _, node.plain_steps⟩

end CliSignature
