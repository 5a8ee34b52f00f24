import CliSignature.Proofs.Blob.ReaderDepth
import CliSignature.Proofs.Blob.WriteSteps

/-!
Depth over the whole life of a writer, which counts levels like a reader does. What a writing appends does not
depend on the counter, so only the levels that are left and the limit that an error names have to be followed.
-/

namespace CliSignature

namespace EncodeError

/-- Whether the error is for nesting too deep. -/
def isTooDeep : EncodeError → Bool
  | recursionLimit _ => true
  | _ => false

/-- The error, with another limit where it names one. -/
def naming (limit : Nat) : EncodeError → EncodeError
  | recursionLimit _ => recursionLimit limit
  | error => error

theorem naming_of_other {error : EncodeError} (hOther : ∀ limit, error ≠ recursionLimit limit) (limit : Nat) :
    error.naming limit = error ∧ error.isTooDeep = false := by
  cases error with
  | recursionLimit other => exact absurd rfl (hOther other)
  | _ => exact ⟨rfl, rfl⟩

end EncodeError

namespace Emission

/-- An emission that keeps a level if and only if it fails for nesting too deep. The other one is the same with
another limit. -/
inductive Mirrored (limit : Nat) : Emission → Emission → Prop where
  | ok (bytes : List UInt8) : Mirrored limit ⟨bytes, 0, none⟩ ⟨bytes, 0, none⟩
  | tooDeep (bytes : List UInt8) (other : Nat) :
      Mirrored limit ⟨bytes, 1, some (.recursionLimit other)⟩ ⟨bytes, 1, some (.recursionLimit limit)⟩
  | error (bytes : List UInt8) {error : EncodeError} (hOther : ∀ other, error ≠ .recursionLimit other) :
      Mirrored limit ⟨bytes, 0, some error⟩ ⟨bytes, 0, some error⟩

theorem Plain.mirrored {emission : Emission} (hPlain : emission.Plain) (limit : Nat) :
    emission.Mirrored limit emission := by
  obtain ⟨bytes, held, failure⟩ := emission
  obtain rfl : held = 0 := hPlain.held
  cases failure with
  | none => exact .ok bytes
  | some error => exact .error bytes fun other hSame => hPlain.failure other (congrArg some hSame)

theorem Mirrored.andThen {limit : Nat} {first first' second second' : Emission}
    (hFirst : first.Mirrored limit first') (hSecond : second.Mirrored limit second') :
    (first >> second : Emission).Mirrored limit (first' >> second') := by
  cases hFirst with
  | tooDeep bytes other => exact .tooDeep bytes other
  | error bytes hOther => exact .error bytes hOther
  | ok bytes =>
      cases hSecond with
      | ok later => exact .ok (bytes ++ later)
      | tooDeep later other => exact .tooDeep (bytes ++ later) other
      | error later hOther => exact .error (bytes ++ later) hOther

/-- Step by step, if the types inside are mirrored. -/
theorem Mirrored.each {limit : Nat} {type type' : Option NodeId → Emission}
    (hType : ∀ slot, (type slot).Mirrored limit (type' slot)) {steps : List WriteStep}
    (hPlain : ∀ step ∈ steps, step.Plain) :
    (each (WriteStep.emission type) steps).Mirrored limit (each (WriteStep.emission type') steps) := by
  induction steps with
  | nil => exact .ok []
  | cons step steps ih =>
      obtain ⟨hStep, hSteps⟩ := List.forall_mem_cons.mp hPlain
      refine Mirrored.andThen ?_ (ih hSteps)
      cases step with
      | emit emission => exact hStep.mirrored limit
      | type slot => exact hType slot

/-- By induction on the levels that are left, which are the same in both writings. -/
theorem Mirrored.typeWithin (arena : Arena) (limits limits' : Limits) (left : Nat) (slot : Option NodeId) :
    (typeWithin arena limits left slot).Mirrored limits'.decodeDepth (typeWithin arena limits' left slot) := by
  induction left generalizing slot with
  | zero => exact .tooDeep [] limits.decodeDepth
  | succ left ih =>
      rw [Emission.typeWithin, Emission.typeWithin, typeBody_eq, typeBody_eq]
      exact .each ih (arena.plain_steps slot)

theorem keeps_typeWithin (arena : Arena) (limits : Limits) (left : Nat) (slot : Option NodeId) :
    (typeWithin arena limits left slot).failure = none → (typeWithin arena limits left slot).heldLevels = 0 := by
  have hSelf := Mirrored.typeWithin arena limits limits left slot
  generalize typeWithin arena limits left slot = emission at hSelf
  cases hSelf <;> simp

end Emission

namespace Writer

/-- The writer with more levels held. -/
def deeper (writer : Writer) (levels : Nat) : Writer :=
  { writer with heldLevels := writer.heldLevels + levels }

/-- An outcome with more levels held and another limit. -/
def deepened (levels limit : Nat) (result : Except EncodeError Unit × Writer) : Except EncodeError Unit × Writer :=
  (result.1.mapError (EncodeError.naming limit), result.2.deeper levels)

theorem append_deepened {limit : Nat} {emission emission' : Emission} (hMirrored : emission.Mirrored limit emission')
    (writer : Writer) (levels : Nat) :
    (writer.deeper levels).append emission' = deepened levels limit (writer.append emission) := by
  cases hMirrored with
  | ok | tooDeep => simp [append, deeper, deepened, Except.mapError, EncodeError.naming, Nat.add_right_comm]
  | error bytes hOther =>
      simp [append, deeper, deepened, Except.mapError, (EncodeError.naming_of_other hOther limit).1]

theorem append_andThen (writer : Writer) (first second : Emission) :
    writer.append (first >> second) =
      match writer.append first with
      | (.ok (), after) => after.append second
      | (.error error, after) => (.error error, after) := by
  change writer.append (first.andThen fun _ => second) = _
  obtain ⟨bytes, held, failure⟩ := first
  cases failure with
  | none => simp [append, Emission.andThen, List.append_assoc, Nat.add_assoc]
  | some error => simp [append, Emission.andThen]

end Writer

/-- A step done by a writer, where `type` writes a type. -/
def WriteStep.write (type : Option NodeId → Writer → Except EncodeError Unit × Writer) :
    WriteStep → Writer → Except EncodeError Unit × Writer
  | .emit emission, writer => writer.append emission
  | .type slot, writer => type slot writer

namespace Writer

/-- Steps done one after the other, until one of them fails. -/
def inTurn (write : WriteStep → Writer → Except EncodeError Unit × Writer) :
    List WriteStep → Writer → Except EncodeError Unit × Writer
  | [], writer => (.ok (), writer)
  | step :: steps, writer =>
    match write step writer with
    | (.ok (), after) => inTurn write steps after
    | (.error error, after) => (.error error, after)

/-- On the way out of a type, one level less. What becomes of a counter that is at zero there is left open. -/
def leave (underflow result : Except EncodeError Unit × Writer) : Except EncodeError Unit × Writer :=
  match result.2.heldLevels with
  | 0 => underflow
  | held + 1 => (result.1, { result.2 with heldLevels := held })

theorem leave_append (underflow : Except EncodeError Unit × Writer) (writer : Writer) (emission : Emission) :
    leave underflow ((writer.deeper 1).append emission) = writer.append emission := by
  have hHeld : ((writer.deeper 1).append emission).2.heldLevels = writer.heldLevels + emission.heldLevels + 1 :=
    Nat.add_right_comm ..
  simp only [leave, hHeld]
  rfl

/-- Writes a type with a counter that goes up on the way in, where it is compared with the limit, and down on the
way out. The first argument is what becomes of a counter below zero, the last number a bound on the recursion. -/
def typeCounted (underflow : Except EncodeError Unit × Writer) (arena : Arena) (limits : Limits) :
    Nat → Option NodeId → Writer → Except EncodeError Unit × Writer
  | 0, _, _ => underflow
  | bound + 1, slot, writer =>
    let inside := writer.deeper 1
    if limits.decodeDepth < inside.heldLevels then (.error (.recursionLimit limits.decodeDepth), inside)
    else leave underflow (inTurn (WriteStep.write (typeCounted underflow arena limits bound)) (arena.steps slot) inside)

/-- By induction on the steps. Where the types inside are written as they are emitted, so is the whole. -/
theorem inTurn_eq {held : Nat} {type : Option NodeId → Emission}
    {write : Option NodeId → Writer → Except EncodeError Unit × Writer}
    (hType : ∀ slot writer, writer.heldLevels = held → write slot writer = writer.append (type slot))
    (hKeeps : ∀ slot, (type slot).failure = none → (type slot).heldLevels = 0) {steps : List WriteStep}
    (hPlain : ∀ step ∈ steps, step.Plain) (writer : Writer) (hHeld : writer.heldLevels = held) :
    inTurn (WriteStep.write write) steps writer =
      writer.append (Emission.each (WriteStep.emission type) steps) := by
  induction steps generalizing writer with
  | nil => simp [inTurn, Emission.each, append, Emission.done]
  | cons step steps ih =>
      obtain ⟨hStep, hSteps⟩ := List.forall_mem_cons.mp hPlain
      have hWrite : step.write write writer = writer.append (step.emission type) := by
        cases step with
        | emit emission => rfl
        | type slot => exact hType slot writer hHeld
      have hSame : (step.emission type).failure = none → (step.emission type).heldLevels = 0 := by
        cases step with
        | emit emission => exact fun _ => hStep.held
        | type slot => exact hKeeps slot
      rw [inTurn, hWrite, Emission.each, append_andThen]
      cases hFailure : (step.emission type).failure with
      | none =>
          simp only [append, hFailure]
          refine ih hSteps _ ?_
          simp [hSame hFailure, hHeld]
      | some error => simp only [append, hFailure]

/-- By induction on the bound, which suffices for the levels that are left. Counting never goes below zero, and
comes to the same as handing out the levels that are left. -/
theorem typeCounted_eq (underflow : Except EncodeError Unit × Writer) (arena : Arena) (limits : Limits) {bound : Nat}
    (slot : Option NodeId) (writer : Writer) (hBound : limits.decodeDepth - writer.heldLevels < bound) :
    typeCounted underflow arena limits bound slot writer = writer.writeType arena limits slot := by
  induction bound generalizing slot writer with
  | zero => exact absurd hBound (Nat.not_lt_zero _)
  | succ bound ih =>
      rw [writeType, emitType]
      simp only [typeCounted]
      split
      case isTrue hDeep =>
        have hDeep : limits.decodeDepth < writer.heldLevels + 1 := hDeep
        have hNone : limits.decodeDepth - writer.heldLevels = 0 := by omega
        rw [hNone]
        simp [Emission.typeWithin, append, Emission.tooDeep, deeper]
      case isFalse hWithin =>
        have hWithin : ¬ limits.decodeDepth < writer.heldLevels + 1 := hWithin
        obtain ⟨others, hOthers⟩ : ∃ others, limits.decodeDepth - writer.heldLevels = others + 1 :=
          ⟨limits.decodeDepth - (writer.heldLevels + 1), by omega⟩
        have hType (slot : Option NodeId) (inner : Writer) (hInner : inner.heldLevels = writer.heldLevels + 1) :
            typeCounted underflow arena limits bound slot inner =
              inner.append (Emission.typeWithin arena limits others slot) := by
          have hInside : limits.decodeDepth - inner.heldLevels = others := by omega
          rw [ih slot inner (by omega), writeType, emitType, hInside]
        have hKeeps := Emission.keeps_typeWithin arena limits others
        rw [hOthers, Emission.typeWithin, Emission.typeBody_eq,
          inTurn_eq hType hKeeps (arena.plain_steps slot) (writer.deeper 1) rfl, leave_append]

end Writer

namespace Decoded

/-- Writes what was decoded. -/
def write (arena : Arena) (limits : Limits) : Decoded → Writer → Except EncodeError Unit × Writer
  | .type slot, writer => writer.writeType arena limits slot
  | .signature found, writer => writer.writeSignature arena limits found

/-- Writes it step by step, where `type` writes a type. -/
def writeWith (type : Option NodeId → Writer → Except EncodeError Unit × Writer) :
    Decoded → Writer → Except EncodeError Unit × Writer
  | .type slot, writer => type slot writer
  | .signature found, writer => Writer.inTurn (WriteStep.write type) found.steps writer

/-- What is appended, where `type` writes a type. -/
def emissionWith (type : Option NodeId → Emission) : Decoded → Emission
  | .type slot => type slot
  | .signature found => .signature type found

theorem write_eq_append (decoded : Decoded) (arena : Arena) (limits : Limits) (writer : Writer) :
    decoded.write arena limits writer = writer.append (decoded.emissionWith (writer.emitType arena limits)) := by
  cases decoded <;> rfl

theorem emissionWith_mirrored (decoded : Decoded) {limit : Nat} {type type' : Option NodeId → Emission}
    (hType : ∀ slot, (type slot).Mirrored limit (type' slot)) :
    (decoded.emissionWith type).Mirrored limit (decoded.emissionWith type') := by
  cases decoded with
  | type slot => exact hType slot
  | signature found =>
      rw [emissionWith, emissionWith, Emission.signature_eq, Emission.signature_eq]
      exact .each hType found.plain_steps

/-- Writings by one writer, one after the other, also after an error. -/
def writeEach (arena : Arena) (limits : Limits) :
    List Decoded → Writer → List (Except EncodeError Unit) × Writer
  | [], writer => ([], writer)
  | decoded :: others, writer =>
    let (outcome, after) := decoded.write arena limits writer
    let (outcomes, last) := writeEach arena limits others after
    (outcome :: outcomes, last)

/-- How many of the calls have failed for nesting too deep. -/
def tooDeepCount (outcomes : List (Except EncodeError Unit)) : Nat :=
  outcomes.countP fun
    | .ok _ => false
    | .error error => error.isTooDeep

/-- By induction on the calls. -/
theorem writeEach_held (arena : Arena) (limits : Limits) (decodeds : List Decoded) (writer : Writer) :
    (writeEach arena limits decodeds writer).2.heldLevels =
      writer.heldLevels + tooDeepCount (writeEach arena limits decodeds writer).1 := by
  induction decodeds generalizing writer with
  | nil => rfl
  | cons decoded decodeds ih =>
      have hSelf := decoded.emissionWith_mirrored
        (Emission.Mirrored.typeWithin arena limits limits (limits.decodeDepth - writer.heldLevels))
      simp only [writeEach, write_eq_append, ih]
      rw [Writer.emitType]
      generalize decoded.emissionWith _ = emission at hSelf
      cases hSelf with
      | ok bytes => simp [Writer.append, tooDeepCount]
      | tooDeep bytes other =>
          simp only [Writer.append, tooDeepCount, List.countP_cons, EncodeError.isTooDeep, ↓reduceIte]
          omega
      | error bytes hOther =>
          simp [Writer.append, tooDeepCount, (EncodeError.naming_of_other hOther 0).2]

/-- A call does what it would do with no levels held and as many less to go. -/
theorem write_eq_deepened (decoded : Decoded) (arena : Arena) (limits : Limits) (writer : Writer) :
    decoded.write arena limits writer =
      Writer.deepened writer.heldLevels limits.decodeDepth
        (decoded.write arena (limits.lowered writer.heldLevels) { writer with heldLevels := 0 }) := by
  have hMirrored := decoded.emissionWith_mirrored (Emission.Mirrored.typeWithin arena
    (limits.lowered writer.heldLevels) limits (limits.decodeDepth - writer.heldLevels))
  have hWriter : Writer.deeper { writer with heldLevels := 0 } writer.heldLevels = writer := by
    simp only [Writer.deeper, Nat.zero_add]
  have hAppend := Writer.append_deepened hMirrored { writer with heldLevels := 0 } writer.heldLevels
  rw [hWriter] at hAppend
  rw [write_eq_append, write_eq_append]
  exact hAppend

/-- A writing that counts its levels is the same. -/
theorem writeWith_typeCounted (decoded : Decoded) (underflow : Except EncodeError Unit × Writer) (arena : Arena)
    (limits : Limits) {bound : Nat} (hBound : limits.decodeDepth < bound) :
    decoded.writeWith (Writer.typeCounted underflow arena limits bound) = decoded.write arena limits := by
  funext writer
  cases decoded with
  | type slot => exact Writer.typeCounted_eq underflow arena limits slot writer (by omega)
  | signature found =>
      have hType (slot : Option NodeId) (inner : Writer) (hInner : inner.heldLevels = writer.heldLevels) :
          Writer.typeCounted underflow arena limits bound slot inner =
            inner.append (writer.emitType arena limits slot) := by
        rw [Writer.typeCounted_eq underflow arena limits slot inner (by omega), Writer.writeType, Writer.emitType,
          Writer.emitType, hInner]
      rw [writeWith, write, Writer.writeSignature, Emission.signature_eq]
      exact Writer.inTurn_eq hType (Emission.keeps_typeWithin arena limits _) found.plain_steps writer rfl

end Decoded

/-- Depth accounting over the life of a reader and of a writer. Between calls the counter stands at the number of
calls that have failed for nesting too deep, whatever else has failed or succeeded. The next call gives what it
would give with no levels held and as many less to go, but for the limit that its error names. And a counter that
goes up on the way into each type and down on the way out gives all this, whatever would become of it below
zero, so it never gets there. -/
theorem depth_accounting (limits : Limits) :
    (∀ (core : CoreTypes) (arena : Arena) (blob : List UInt8) (entries : List Entry)
        (outcomes : List (Except DecodeError Decoded)) (after : Reader),
      Entry.readEach ⟨limits, core⟩ entries (.start arena blob) = (outcomes, after) →
      after.heldLevels = Entry.tooDeepCount outcomes ∧
        ∀ entry : Entry, entry.read ⟨limits, core⟩ after =
          Read.deepened (Entry.tooDeepCount outcomes) limits.decodeDepth
            (entry.read ⟨limits.lowered (Entry.tooDeepCount outcomes), core⟩ { after with heldLevels := 0 })) ∧
    (∀ (arena : Arena) (decodeds : List Decoded) (outcomes : List (Except EncodeError Unit)) (after : Writer),
      Decoded.writeEach arena limits decodeds .start = (outcomes, after) →
      after.heldLevels = Decoded.tooDeepCount outcomes ∧
        ∀ decoded : Decoded, decoded.write arena limits after =
          Writer.deepened (Decoded.tooDeepCount outcomes) limits.decodeDepth
            (decoded.write arena (limits.lowered (Decoded.tooDeepCount outcomes)) { after with heldLevels := 0 })) ∧
    ∀ bound, limits.decodeDepth < bound →
      (∀ (underflow : EStateM.Result DecodeError Reader (Option NodeId)) (core : CoreTypes) (entry : Entry),
        entry.readWith (Read.typeCounted underflow ⟨limits, core⟩ bound) = entry.read ⟨limits, core⟩) ∧
      (∀ (underflow : Except EncodeError Unit × Writer) (arena : Arena) (decoded : Decoded),
        decoded.writeWith (Writer.typeCounted underflow arena limits bound) = decoded.write arena limits) := by
  refine ⟨fun core arena blob entries outcomes after hRead => ?_, fun arena decodeds outcomes after hWrite => ?_,
    fun bound hBound => ⟨fun underflow core entry => ?_, fun underflow arena decoded => ?_⟩⟩
  · have hHeld : after.heldLevels = Entry.tooDeepCount outcomes := by
      have hCount := Entry.readEach_held ⟨limits, core⟩ entries (.start arena blob)
      rw [hRead] at hCount
      exact hCount.trans (Nat.zero_add _)
    refine ⟨hHeld, fun entry => ?_⟩
    rw [← hHeld]
    exact entry.read_eq_deepened ⟨limits, core⟩ after
  · have hHeld : after.heldLevels = Decoded.tooDeepCount outcomes := by
      have hCount := Decoded.writeEach_held arena limits decodeds .start
      rw [hWrite] at hCount
      exact hCount.trans (Nat.zero_add _)
    refine ⟨hHeld, fun decoded => ?_⟩
    rw [← hHeld]
    exact decoded.write_eq_deepened arena limits after
  · rw [Read.typeCounted_eq underflow ⟨limits, core⟩ hBound, entry.readWith_typeFrom]
  · exact decoded.writeWith_typeCounted underflow arena limits hBound

/-- A pointer that nests too deep costs the number after it the only level there is. -/
example : (Entry.readEach ⟨{ decodeDepth := 1 }, Entry.sharedPrimitives.core⟩ [.type, .type]
    (.start .empty [0x0F, 0x08])).2.heldLevels = 2 := by decide

end CliSignature
