import CliSignature.Proofs.Blob.BottomUp
import CliSignature.Proofs.Blob.Congruence

/-!
Depth over the whole life of a reader. Levels of nesting are counted up on the way into a type and down on the
way out, but a type that nests too deep is left without counting down. So the counter stands at the number of
such failures between calls, and each of them costs the calls after it one level, and nothing else.
-/

namespace CliSignature

/-- The limits with fewer levels of nesting, but not fewer than none. -/
def Limits.lowered (limits : Limits) (levels : Nat) : Limits :=
  { limits with decodeDepth := limits.decodeDepth - levels }

/-- The reader with more levels held. -/
def Reader.deeper (reader : Reader) (levels : Nat) : Reader :=
  { reader with heldLevels := reader.heldLevels + levels }

theorem Reader.deeper_right_comm (reader : Reader) (levels others : Nat) :
    (reader.deeper levels).deeper others = (reader.deeper others).deeper levels := by
  simp only [deeper, Nat.add_right_comm]

namespace DecodeError

/-- Whether the error is for nesting too deep. -/
def isTooDeep : DecodeError → Bool
  | recursionLimit _ => true
  | _ => false

/-- The error, with another limit where it names one. -/
def naming (limit : Nat) : DecodeError → DecodeError
  | recursionLimit _ => recursionLimit limit
  | error => error

theorem naming_of_other {error : DecodeError} (hOther : ∀ limit, error ≠ recursionLimit limit) (limit : Nat) :
    error.naming limit = error ∧ error.isTooDeep = false := by
  cases error with
  | recursionLimit other => exact absurd rfl (hOther other)
  | _ => exact ⟨rfl, rfl⟩

end DecodeError

namespace Read

variable {α β : Type}

/-- A result with more levels held and another limit. -/
def deepened (levels limit : Nat) : EStateM.Result DecodeError Reader α → EStateM.Result DecodeError Reader α
  | .ok value after => .ok value (after.deeper levels)
  | .error error after => .error (error.naming limit) (after.deeper levels)

/-- A result with the given number of levels held, or one more if the failure is for nesting too deep. The other
result is the same with `levels` more levels held and another limit, where `V` says what the same value is. -/
inductive Mirrored (levels limit held : Nat) (V : α → α → Prop) :
    EStateM.Result DecodeError Reader α → EStateM.Result DecodeError Reader α → Prop where
  | ok {value value' : α} {after : Reader} (hValues : V value value') (hHeld : after.heldLevels = held) :
      Mirrored levels limit held V (.ok value after) (.ok value' (after.deeper levels))
  | tooDeep {other : Nat} {after : Reader} (hHeld : after.heldLevels = held + 1) :
      Mirrored levels limit held V (.error (.recursionLimit other) after)
        (.error (.recursionLimit limit) (after.deeper levels))
  | error {error : DecodeError} {after : Reader} (hOther : ∀ other, error ≠ .recursionLimit other)
      (hHeld : after.heldLevels = held) :
      Mirrored levels limit held V (.error error after) (.error error (after.deeper levels))

theorem Mirrored.eq_deepened {levels limit held : Nat} {result result' : EStateM.Result DecodeError Reader α}
    (hMirrored : Mirrored levels limit held Eq result result') : result' = deepened levels limit result := by
  cases hMirrored with
  | ok hValues => rw [deepened, hValues]
  | tooDeep => rfl
  | error hOther => rw [deepened, (DecodeError.naming_of_other hOther limit).1]

/-- Wherever the first reading starts with the given number of levels held, the second does the same from
`levels` more. -/
def Mirrors (levels limit held : Nat) (V : α → α → Prop) (reading reading' : Read α) : Prop :=
  ∀ before, before.heldLevels = held → Mirrored levels limit held V (reading before) (reading' (before.deeper levels))

variable {levels limit held : Nat}

theorem rel_eq : Option.Rel (Eq : NodeId → NodeId → Prop) = Eq := by
  funext a b
  cases a <;> cases b <;> simp

/-- Both readings add the same nodes. -/
theorem mirrors_congruence : Congruence Eq fun {_} => Mirrors levels limit held where
  pure hValues _ hHeld := .ok hValues hHeld
  bind {α β V W first first' next next'} hFirst hNext before hHeld := by
    have hMirrored := hFirst before hHeld
    simp only [Bind.bind, EStateM.bind]
    generalize first before = result at hMirrored
    generalize first' (before.deeper levels) = result' at hMirrored
    cases hMirrored with
    | ok hValues hAfter => exact hNext _ _ hValues _ hAfter
    | tooDeep hAfter => exact .tooDeep hAfter
    | error hOther hAfter => exact .error hOther hAfter
  throw _ hOther _ hHeld := .error hOther hHeld
  absent _ _ hHeld := .error (by simp) hHeld
  byte before hHeld := by
    cases hRest : before.cursor.rest with
    | nil =>
        simp only [scan, Scan.byte, Reader.deeper, hRest]
        exact .error (by simp) hHeld
    | cons first tail =>
        simp only [scan, Scan.byte, Reader.deeper, hRest]
        exact .ok rfl hHeld
  peek before hHeld := by
    cases hRest : before.cursor.rest with
    | nil =>
        simp only [scan, Scan.peek, Reader.deeper, hRest]
        exact .error (by simp) hHeld
    | cons first tail =>
        simp only [scan, Scan.peek, Reader.deeper, hRest]
        exact .ok rfl hHeld
  remaining _ hHeld := .ok rfl hHeld
  add hNodes _ hHeld := by
    rw [rel_eq] at hNodes
    obtain rfl := hNodes.eq fun _ _ => id
    exact .ok rfl hHeld

section Types

variable {context context' : ReadContext} (hCore : context.core = context'.core)
  (hRank : context.limits.arrayRank = context'.limits.arrayRank)

include hCore hRank

theorem Mirrors.typeBody {type type' : Read (Option NodeId)} (hType : Mirrors levels limit held Eq type type') :
    Mirrors levels limit held Eq (typeBody type context) (typeBody type' context') := by
  rw [← rel_eq] at hType ⊢
  exact mirrors_congruence.typeBody hType hCore (fun _ => rfl) (mirrors_congruence.shape hRank)

/-- By induction on the levels that are left, which are the same in both readings. -/
theorem Mirrors.typeWithin (left : Nat) :
    Mirrors levels context'.limits.decodeDepth held Eq (typeWithin context left) (typeWithin context' left) := by
  induction left with
  | zero =>
      rintro before rfl
      change Mirrored _ _ _ Eq (.error _ (before.deeper 1)) (.error _ ((before.deeper levels).deeper 1))
      rw [Reader.deeper_right_comm]
      exact .tooDeep rfl
  | succ left ih => exact ih.typeBody hCore hRank

/-- Readings that leave each other as many levels do the same. -/
theorem Mirrors.typeFrom
    (hLeft : context.limits.decodeDepth - held = context'.limits.decodeDepth - (held + levels)) :
    Mirrors levels context'.limits.decodeDepth held Eq (typeFrom context) (typeFrom context') := by
  rintro before rfl
  change Mirrored _ _ _ Eq (Read.typeWithin context (context.limits.decodeDepth - before.heldLevels) before)
    (Read.typeWithin context' (context'.limits.decodeDepth - (before.heldLevels + levels)) (before.deeper levels))
  rw [hLeft]
  exact Mirrors.typeWithin hCore hRank _ before rfl

end Types

/-- On the way out of a type, one level less. What becomes of a counter that is at zero there is left open. -/
def leave (underflow : EStateM.Result DecodeError Reader α) :
    EStateM.Result DecodeError Reader α → EStateM.Result DecodeError Reader α
  | .ok value after =>
    match after.heldLevels with
    | 0 => underflow
    | held + 1 => .ok value { after with heldLevels := held }
  | .error error after =>
    match after.heldLevels with
    | 0 => underflow
    | held + 1 => .error error { after with heldLevels := held }

/-- Reads a type with a counter that goes up on the way in, where it is compared with the limit, and down on the
way out. The first argument is what becomes of a counter below zero, the last a bound on the recursion. -/
def typeCounted (underflow : EStateM.Result DecodeError Reader (Option NodeId)) (context : ReadContext) :
    Nat → Read (Option NodeId)
  | 0 => fun _ => underflow
  | bound + 1 => fun before =>
    let inside := before.deeper 1
    if context.limits.decodeDepth < inside.heldLevels then
      .error (.recursionLimit context.limits.decodeDepth) inside
    else leave underflow (typeBody (typeCounted underflow context bound) context inside)

/-- A type that is left is one level up again. -/
theorem Mirrored.leave {underflow : EStateM.Result DecodeError Reader α} {levels limit held : Nat}
    {V : α → α → Prop} {result result' : EStateM.Result DecodeError Reader α}
    (hMirrored : Mirrored (levels + 1) limit held V result result') :
    Mirrored levels limit held V result (leave underflow result') := by
  cases hMirrored with
  | ok hValues hHeld => exact .ok hValues hHeld
  | tooDeep hHeld => exact .tooDeep hHeld
  | error hOther hHeld => exact .error hOther hHeld

/-- By induction on the bound, which suffices for the levels that are left. The counter stands at the held levels
and those of the types around. -/
theorem Mirrors.typeCounted {underflow : EStateM.Result DecodeError Reader (Option NodeId)} {context : ReadContext}
    {bound levels held : Nat} (hBound : context.limits.decodeDepth - (held + levels) < bound) :
    Mirrors levels context.limits.decodeDepth held Eq
      (Read.typeWithin context (context.limits.decodeDepth - (held + levels)))
      (Read.typeCounted underflow context bound) := by
  induction bound generalizing levels with
  | zero => exact absurd hBound (Nat.not_lt_zero _)
  | succ bound ih =>
      rintro before rfl
      simp only [Read.typeCounted]
      split
      case isTrue hDeep =>
        have hDeep : context.limits.decodeDepth < before.heldLevels + levels + 1 := hDeep
        have hNone : context.limits.decodeDepth - (before.heldLevels + levels) = 0 := by omega
        rw [hNone, before.deeper_right_comm]
        exact .tooDeep rfl
      case isFalse hWithin =>
        have hWithin : ¬ context.limits.decodeDepth < before.heldLevels + levels + 1 := hWithin
        obtain ⟨others, hOthers⟩ :
            ∃ others, context.limits.decodeDepth - (before.heldLevels + levels) = others + 1 :=
          ⟨context.limits.decodeDepth - (before.heldLevels + (levels + 1)), by omega⟩
        have hInside : context.limits.decodeDepth - (before.heldLevels + (levels + 1)) = others := by omega
        have hType : Mirrors (levels + 1) context.limits.decodeDepth before.heldLevels Eq
            (Read.typeWithin context others) (Read.typeCounted underflow context bound) :=
          hInside ▸ ih (by omega)
        rw [hOthers]
        exact ((hType.typeBody rfl rfl) before rfl).leave

/-- Counting never goes below zero, and comes to the same as handing out the levels that are left. -/
theorem typeCounted_eq (underflow : EStateM.Result DecodeError Reader (Option NodeId)) (context : ReadContext)
    {bound : Nat} (hBound : context.limits.decodeDepth < bound) :
    typeCounted underflow context bound = typeFrom context := by
  funext reader
  have hCounted : Mirrors 0 context.limits.decodeDepth reader.heldLevels Eq
      (typeWithin context (context.limits.decodeDepth - reader.heldLevels)) (typeCounted underflow context bound) :=
    Mirrors.typeCounted (by omega)
  have hSame : Mirrors 0 context.limits.decodeDepth reader.heldLevels Eq
      (typeWithin context (context.limits.decodeDepth - reader.heldLevels))
      (typeWithin context (context.limits.decodeDepth - reader.heldLevels)) := Mirrors.typeWithin rfl rfl _
  exact (hCounted reader rfl).eq_deepened.trans (hSame reader rfl).eq_deepened.symm

end Read

namespace Entry

/-- Reads what starts here, where `type` reads a type. -/
def readWith (type : Read (Option NodeId)) : Entry → Read Decoded
  | .type => do
    let slot ← type
    pure (.type slot)
  | .signature form => do
    let found ← Read.signatureOf type form
    pure (.signature found)
  | .anySignature => do
    let found ← Read.anySignature type
    pure (.signature found)

theorem readWith_typeFrom (entry : Entry) (context : ReadContext) :
    entry.readWith (Read.typeFrom context) = entry.read context := by
  cases entry <;> rfl

/-- Readings of types that are related make readings of all that starts here that are. -/
theorem readWith_related (entry : Entry) {R : ∀ {α : Type}, (α → α → Prop) → Read α → Read α → Prop}
    (hR : Read.Congruence Eq @R) {type type' : Read (Option NodeId)} (hType : R Eq type type') :
    R Eq (entry.readWith type) (entry.readWith type') := by
  have hType' : R (Option.Rel Eq) type type' := by rwa [Read.rel_eq]
  have hDecoded {found found' : Signature} (hSame : found.Corresponds (Option.Rel Eq) found') :
      Decoded.signature found = .signature found' := by
    rw [Read.rel_eq] at hSame
    rw [hSame.eq fun _ _ => id]
  cases entry with
  | type => exact hR.bindEq hType fun _ => hR.pure rfl
  | signature form => exact hR.bind (hR.signatureOf hType' form) fun _ _ hSame => hR.pure (hDecoded hSame)
  | anySignature => exact hR.bind (hR.anySignature hType') fun _ _ hSame => hR.pure (hDecoded hSame)

/-- How many of the calls have failed for nesting too deep. -/
def tooDeepCount (outcomes : List (Except DecodeError Decoded)) : Nat :=
  outcomes.countP fun
    | .ok _ => false
    | .error error => error.isTooDeep

/-- By induction on the calls. -/
theorem readEach_held (context : ReadContext) (entries : List Entry) (reader : Reader) :
    (readEach context entries reader).2.heldLevels =
      reader.heldLevels + tooDeepCount (readEach context entries reader).1 := by
  induction entries generalizing reader with
  | nil => rfl
  | cons entry entries ih =>
      have hType : Read.Mirrors 0 context.limits.decodeDepth reader.heldLevels Eq (Read.typeFrom context)
          (Read.typeFrom context) := .typeFrom rfl rfl rfl
      have hMirrored := entry.readWith_related Read.mirrors_congruence hType reader rfl
      rw [readWith_typeFrom] at hMirrored
      simp only [readEach]
      generalize entry.read context reader = result at hMirrored
      generalize entry.read context (reader.deeper 0) = result' at hMirrored
      cases hMirrored with
      | ok _ hHeld => simp [ih, hHeld, tooDeepCount]
      | tooDeep hHeld =>
          simp only [ih, hHeld, tooDeepCount, List.countP_cons, DecodeError.isTooDeep, ↓reduceIte]
          omega
      | error hOther hHeld =>
          simp [ih, hHeld, tooDeepCount, (DecodeError.naming_of_other hOther 0).2]

/-- A call does what it would do with no levels held and as many less to go. -/
theorem read_eq_deepened (entry : Entry) (context : ReadContext) (reader : Reader) :
    entry.read context reader =
      Read.deepened reader.heldLevels context.limits.decodeDepth
        (entry.read { context with limits := context.limits.lowered reader.heldLevels }
          { reader with heldLevels := 0 }) := by
  have hType : Read.Mirrors reader.heldLevels context.limits.decodeDepth 0 Eq
      (Read.typeFrom { context with limits := context.limits.lowered reader.heldLevels })
      (Read.typeFrom context) := .typeFrom rfl rfl (by simp [Limits.lowered])
  have hMirrored := entry.readWith_related Read.mirrors_congruence hType { reader with heldLevels := 0 } rfl
  have hReader : Reader.deeper { reader with heldLevels := 0 } reader.heldLevels = reader := by
    simp only [Reader.deeper, Nat.zero_add]
  rw [hReader, readWith_typeFrom, readWith_typeFrom] at hMirrored
  exact hMirrored.eq_deepened

end Entry

end CliSignature
