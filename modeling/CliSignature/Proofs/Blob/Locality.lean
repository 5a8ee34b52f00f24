import CliSignature.Proofs.Blob.RoundTrip

/-!
Readings are local. A reading that succeeds takes some bytes and depends on no others: behind these bytes
may stand anything. Without the last of them it runs out of bytes, and fails in no other way.
-/

namespace CliSignature

/-- The reader at the same place of another blob, where the given bytes are next. -/
def Reader.facing (reader : Reader) (bytes : List UInt8) : Reader :=
  { reader with cursor := { reader.cursor with rest := bytes } }

theorem bind_eq_error_of_first {ε σ α β : Type} {first : EStateM ε σ α} {next : α → EStateM ε σ β}
    {before after : σ} {error : ε} (hFirst : first before = .error error after) :
    (first >>= next) before = .error error after := by
  simp only [bind, EStateM.bind, hFirst]

theorem bind_eq_of_first {ε σ α β : Type} {first : EStateM ε σ α} {next : α → EStateM ε σ β}
    {before middle : σ} {value : α} (hFirst : first before = .ok value middle) :
    (first >>= next) before = next value middle := by
  simp only [bind, EStateM.bind, hFirst]

namespace Read

variable {α β : Type}

/-- The run of a reading over the given bytes, which are all that it depends on. -/
structure RunsOn (reading : Read α) (before : Reader) (used : List UInt8) (value : α) (after : Reader) :
    Prop where
  offset : after.cursor.offset = before.cursor.offset + used.length
  replay : ∀ rest, reading (before.facing (used ++ rest)) = .ok value (after.facing rest)
  cut : ∀ n < used.length, ∃ reader, reading (before.facing (used.take n)) = .error .outOfBounds reader

/-- Wherever the reading succeeds, it depends on the bytes that it takes alone, of which there are at least
the given number. -/
def Local (least : Nat) (reading : Read α) : Prop :=
  ∀ before value after, reading before = .ok value after →
    ∃ used, before.cursor.rest = used ++ after.cursor.rest ∧ least ≤ used.length ∧
      reading.RunsOn before used value after

namespace Local

variable {least leastNext : Nat} {reading first : Read α} {next : α → Read β}

theorem weaken {fewer : Nat} (hReading : Local least reading) (hFewer : fewer ≤ least) :
    Local fewer reading := by
  intro before value after hRead
  obtain ⟨used, hRest, hLeast, hRun⟩ := hReading before value after hRead
  exact ⟨used, hRest, Nat.le_trans hFewer hLeast, hRun⟩

theorem any (hReading : Local least reading) : Local 0 reading :=
  hReading.weaken (Nat.zero_le _)

/-- A reading that never succeeds. -/
theorem fail (hFail : ∀ before, ∃ error after, reading before = .error error after) :
    Local least reading := by
  intro before value after hRead
  obtain ⟨error, after', hError⟩ := hFail before
  cases hRead.symm.trans hError

theorem throw {error : DecodeError} : Local least (MonadExcept.throw error : Read α) :=
  fail fun before => ⟨error, before, rfl⟩

/-- A reading that takes no bytes and does not look at them. -/
theorem silent (hSame : ∀ before value after, reading before = .ok value after →
      after.cursor = before.cursor ∧ ∀ bytes, reading (before.facing bytes) = .ok value (after.facing bytes)) :
    Local 0 reading := by
  intro before value after hRead
  obtain ⟨hCursor, hReplay⟩ := hSame before value after hRead
  exact ⟨[], by rw [hCursor]; rfl, Nat.le_refl _, by rw [hCursor]; rfl, hReplay, by simp⟩

theorem pure (value : α) : Local 0 (Pure.pure value : Read α) := by
  apply silent
  intro before result after hRead
  obtain ⟨rfl, rfl⟩ := pure_eq_ok_iff.mp hRead
  exact ⟨rfl, fun _ => rfl⟩

theorem add (node : Node) : Local 0 (add node) := by
  apply silent
  intro before id after hRead
  cases hRead
  exact ⟨rfl, fun _ => rfl⟩

/-- A look at the next byte, which what follows has to take. -/
theorem peek {next : UInt8 → Read β} (hNext : ∀ byte, Local (least + 1) (next byte)) :
    Local (least + 1) (scan Scan.peek >>= next) := by
  intro before result after hRead
  obtain ⟨first, middle, hPeek, hReadNext⟩ := bind_eq_ok_iff.mp hRead
  obtain ⟨tail, hTail, rfl⟩ := scan_peek_eq_ok_iff.mp hPeek
  obtain ⟨used, hRest, hLeast, hRun⟩ := hNext first before result after hReadNext
  obtain ⟨used, rfl⟩ : ∃ others, used = first :: others := by
    cases used with
    | nil => cases hLeast
    | cons other others =>
        obtain ⟨rfl, -⟩ := List.cons.inj (hTail.symm.trans hRest)
        exact ⟨others, rfl⟩
  have hFirst (bytes : List UInt8) : scan Scan.peek (before.facing (first :: bytes)) =
      .ok first (before.facing (first :: bytes)) := rfl
  refine ⟨first :: used, hRest, hLeast, hRun.offset, fun rest => ?_, fun n hLt => ?_⟩
  · rw [List.cons_append, bind_eq_of_first (hFirst _)]
    exact hRun.replay rest
  · cases n with
    | zero => exact ⟨before.facing [], bind_eq_error_of_first rfl⟩
    | succ n =>
        rw [List.take_succ_cons, bind_eq_of_first (hFirst _)]
        exact hRun.cut (n + 1) hLt

theorem byte : Local 1 (scan Scan.byte) := by
  intro before value after hRead
  obtain ⟨⟨bytes, offset⟩, arena, held⟩ := before
  cases bytes with
  | nil => cases hRead
  | cons first tail =>
      cases hRead
      refine ⟨[value], rfl, Nat.le_refl _, rfl, fun _ => rfl, fun n hLt => ?_⟩
      obtain rfl : n = 0 := Nat.lt_one_iff.mp hLt
      exact ⟨_, rfl⟩

/-- One run after another. A cut in the bytes of both is a cut in those of one of them. -/
theorem bind (hFirst : Local least first) (hNext : ∀ value, Local leastNext (next value)) :
    Local (least + leastNext) (first >>= next) := by
  intro before result after hRead
  obtain ⟨value, middle, hReadFirst, hReadNext⟩ := bind_eq_ok_iff.mp hRead
  obtain ⟨used, hRest, hLeast, hRun⟩ := hFirst before value middle hReadFirst
  obtain ⟨used', hRest', hLeast', hRun'⟩ := hNext value middle result after hReadNext
  refine ⟨used ++ used', by rw [hRest, hRest', List.append_assoc], ?_, ?_, fun rest => ?_, fun n hLt => ?_⟩
  · rw [List.length_append]
    exact Nat.add_le_add hLeast hLeast'
  · rw [hRun'.offset, hRun.offset, List.length_append, Nat.add_assoc]
  · rw [List.append_assoc, bind_eq_of_first (hRun.replay _)]
    exact hRun'.replay rest
  · rw [List.length_append] at hLt
    rw [List.take_append]
    rcases Nat.lt_or_ge n used.length with hShort | hLong
    · obtain ⟨reader, hError⟩ := hRun.cut n hShort
      rw [Nat.sub_eq_zero_of_le (Nat.le_of_lt hShort), List.take_zero, List.append_nil]
      exact ⟨reader, bind_eq_error_of_first hError⟩
    · obtain ⟨reader, hError⟩ := hRun'.cut (n - used.length) (by omega)
      rw [List.take_of_length_le hLong, bind_eq_of_first (hRun.replay _)]
      exact ⟨reader, hError⟩

theorem skip : Local 1 (scan Scan.skip) := by
  rw [Scan.skip, scan_bind]
  exact byte.bind fun _ => pure _

theorem packed : Local 1 (scan Compressed.readPacked) := by
  have hByte {α : Type} {next : UInt8 → Scan α} (hNext : ∀ value, Local 0 (scan (next value))) :
      Local 0 (scan (Scan.byte >>= next)) := by
    rw [scan_bind]
    exact (byte.bind hNext).any
  rw [Compressed.readPacked, scan_bind]
  refine (byte.bind fun lead => ?_ : Local (1 + 0) _)
  split
  case isTrue => exact pure _
  case isFalse =>
    split
    case isTrue => exact hByte fun _ => pure _
    case isFalse =>
      split
      case isTrue => exact hByte fun _ => hByte fun _ => hByte fun _ => pure _
      case isFalse => exact throw

theorem unsigned : Local 1 (scan Compressed.readUnsigned) := by
  rw [Compressed.readUnsigned, scan_bind]
  exact packed.bind fun _ => pure _

theorem signed : Local 1 (scan Compressed.readSigned) := by
  rw [Compressed.readSigned, scan_bind]
  exact packed.bind fun _ => pure _

theorem token : Local 1 (scan Compressed.readToken) := by
  rw [Compressed.readToken, scan_bind]
  refine (packed.bind fun found => ?_ : Local (1 + 0) _)
  obtain ⟨width, coded⟩ := found
  dsimp only
  split
  case h_1 => exact throw
  case h_2 =>
    split
    case isTrue => exact pure _
    case isFalse => exact throw

/-- A comparison of the bytes that remain with those that a reading takes at least. -/
theorem enough {reading : Read β} {n : Nat} (hReading : Local n reading) :
    Local n (do
      let remaining ← scan Scan.remaining
      if remaining < n then MonadExcept.throw DecodeError.outOfBounds else reading) := by
  have hRun (before : Reader) :
      (do
        let remaining ← scan Scan.remaining
        if remaining < n then MonadExcept.throw DecodeError.outOfBounds else reading) before =
      if before.cursor.rest.length < n then .error .outOfBounds before else reading before := by
    have hRemaining : scan Scan.remaining before = .ok before.cursor.rest.length before := rfl
    rw [bind_eq_of_first hRemaining]
    split <;> rfl
  intro before value after hRead
  rw [hRun] at hRead
  split at hRead
  case isTrue => cases hRead
  case isFalse =>
    obtain ⟨used, hRest, hLeast, hLocal⟩ := hReading before value after hRead
    refine ⟨used, hRest, hLeast, hLocal.offset, fun rest => ?_, fun cut hLt => ?_⟩
    · have hEnough : ¬ (before.facing (used ++ rest)).cursor.rest.length < n := by
        simp only [Reader.facing, List.length_append]
        omega
      rw [hRun, if_neg hEnough]
      exact hLocal.replay rest
    · rw [hRun]
      split
      case isTrue => exact ⟨_, rfl⟩
      case isFalse => exact hLocal.cut cut hLt

/-- A count refuses too few bytes before they are read, but in the same way. -/
theorem count {next : Nat → Read β} (hNext : ∀ n, Local n (next n)) : Local 1 (count >>= next) := by
  rw [count_bind]
  exact unsigned.bind fun n => (enough (hNext n.toNat)).any

/-- Two readings, between which the next byte decides. -/
theorem ifSentinel {marked unmarked : Read β} (hMarked : Local least marked)
    (hUnmarked : Local (least + 1) unmarked) :
    Local (least + 1) (do if ← atSentinel then scan Scan.skip; marked else unmarked) := by
  rw [atSentinel, bind_assoc]
  refine peek fun first => ?_
  rw [pure_bind]
  split
  case isTrue => exact (skip.bind fun _ => hMarked).weaken (by omega)
  case isFalse => exact hUnmarked

theorem start (form : Signature.Form) : Local 1 (start form) := by
  refine (byte.bind fun first => ?_ : Local (1 + 0) _)
  dsimp only
  split
  case isTrue => exact pure _
  case isFalse => exact throw

theorem genericCount (convention : CallingConvention) : Local 0 (genericCount convention) := by
  unfold Read.genericCount
  split
  case isTrue => exact unsigned.any
  case isFalse => exact pure 0

theorem replicate {α : Type} {value : Read α} (hValue : Local 1 value) (n : Nat) :
    Local 0 (replicate value n) := by
  induction n with
  | zero => exact pure []
  | succ n ih => exact (hValue.bind fun _ => ih.bind fun _ => pure _).any

theorem dimensions {α : Type} {value : Read α} (hValue : Local 1 value) (rank : UInt32)
    (error : Nat → DecodeError) : Local 0 (dimensions value rank error) := by
  refine (unsigned.bind fun n => ?_ : Local (1 + 0) _).any
  split
  case isTrue => exact throw
  case isFalse => exact hValue.replicate n.toNat

theorem shape (limits : Limits) : Local 0 (shape limits) := by
  rw [shape_eq]
  refine (unsigned.bind fun rank => ?_ : Local (1 + 0) _).any
  split
  case isTrue => exact throw
  case isFalse =>
    exact (unsigned.dimensions rank _).bind fun _ => (signed.dimensions rank _).bind fun _ => pure _

section Types

variable {type : Read (Option NodeId)} (hType : Local 1 type)

include hType

theorem element (role : ListRole) : Local 1 (element type role) := by
  refine (hType.bind fun slot => ?_ : Local (1 + 0) _)
  cases slot with
  | none => exact fail fun before => ⟨_, before, rfl⟩
  | some id => exact pure id

theorem elements (role : ListRole) (n : Nat) : Local n (elements type role n) := by
  induction n with
  | zero => exact pure []
  | succ n ih =>
      exact ((hType.element role).bind fun _ => ih.bind fun _ => pure _).weaken (by omega)

theorem list (role : ListRole) : Local 1 (list type role) :=
  count (hType.elements role)

theorem varargs (n : Nat) : Local n (varargs type n) := by
  induction n with
  | zero => exact pure []
  | succ n ih =>
      refine ifSentinel throw (weaken ?_ (Nat.le_of_eq (Nat.add_comm n 1)))
      exact (hType.element .parameter).bind fun _ => ih.bind fun _ => pure _

theorem params (n : Nat) : Local n (params type n) := by
  induction n with
  | zero => exact pure ([], none)
  | succ n ih =>
      refine ifSentinel (weaken ?_ (Nat.le_succ n)) (weaken ?_ (Nat.le_of_eq (Nat.add_comm n 1)))
      · exact (hType.varargs (n + 1)).bind fun _ => pure _
      · exact (hType.element .parameter).bind fun _ => ih.bind fun _ => pure _

theorem methodBody (convention : CallingConvention) (genericCount : UInt32) :
    Local 1 (methodBody type convention genericCount) :=
  count fun n => (hType.bind fun _ => (hType.params n).bind fun _ => pure _).weaken (by omega)

theorem method : Local 1 (method type) := by
  rw [method_eq]
  refine ((start .method).bind fun convention => ?_ : Local (1 + 0) _)
  exact ((genericCount convention).bind fun generic => hType.methodBody convention generic).any

theorem property : Local 1 (property type) :=
  (start .property).bind fun convention => (hType.methodBody convention 0).any

theorem signatureOf (form : Signature.Form) : Local 1 (signatureOf type form) := by
  cases form with
  | method => exact hType.method.bind fun _ => pure _
  | property => exact hType.property.bind fun _ => pure _
  | field => exact (start .field).bind fun _ => (hType.bind fun _ => pure _).any
  | locals => exact (start .locals).bind fun _ => ((hType.list .localVariable).bind fun _ => pure _).any
  | methodSpec => exact (start .methodSpec).bind fun _ => ((hType.list .methodArgument).bind fun _ => pure _).any

theorem anySignature : Local 1 (anySignature type) := by
  refine (peek fun byte => ?_ : Local (0 + 1) _)
  cases (CallingConvention.mk byte).kind? with
  | some kind => exact hType.signatureOf (.ofKind kind)
  | none => exact throw

/-- What follows the byte of a production. -/
theorem production (limits : Limits) (found : Production) : Local 0 (production type limits found) := by
  cases found with
  | named kind => exact (token.bind fun _ => pure _).any
  | genericParam owner => exact (unsigned.bind fun _ => pure _).any
  | sentinel => exact pure _
  | functionPointer => exact (hType.method.bind fun _ => pure _).any
  | genericInst => exact (hType.bind fun _ => (hType.list .genericArgument).bind fun _ => pure _).any
  | wrapper kind => exact (hType.bind fun _ => pure _).any
  | array => exact (hType.bind fun _ => (shape limits).bind fun _ => pure _).any
  | modified required => exact (token.bind fun _ => hType.bind fun _ => pure _).any
  | valueArray => exact (hType.bind fun _ => unsigned.bind fun _ => pure _).any
  | moduleQualified => exact (unsigned.bind fun _ => hType.bind fun _ => pure _).any

theorem typeBody (context : ReadContext) : Local 1 (typeBody type context) := by
  refine (byte.bind fun first => ?_ : Local (1 + 0) _)
  cases context.core.ofElementType? first with
  | some id => exact pure _
  | none =>
      cases Production.ofElementType? first with
      | none => exact pure _
      | some found =>
          exact ((hType.production context.limits found).bind fun node => (add node).bind fun _ => pure _).any

end Types

/-- By induction on the levels. -/
theorem typeWithin (context : ReadContext) (levels : Nat) : Local 1 (typeWithin context levels) := by
  induction levels with
  | zero => exact fail fun before => ⟨_, _, rfl⟩
  | succ levels ih => exact ih.typeBody context

theorem typeFrom (context : ReadContext) : Local 1 (typeFrom context) := by
  intro before slot after hRead
  obtain ⟨used, hRest, hLeast, hRun⟩ := typeWithin context _ before slot after hRead
  exact ⟨used, hRest, hLeast, hRun.offset, hRun.replay, hRun.cut⟩

end Local

end Read

namespace Entry

/-- Wherever a decoding starts, it is local. -/
theorem read_local (entry : Entry) (context : ReadContext) : Read.Local 1 (entry.read context) := by
  have hType := Read.Local.typeFrom context
  cases entry with
  | type => exact hType.bind fun _ => .pure _
  | signature form => exact (hType.signatureOf form).bind fun _ => .pure _
  | anySignature => exact hType.anySignature.bind fun _ => .pure _

/-- A decoding that succeeds depends on the bytes that it consumes alone. Whatever follows them, it has the
same result, adds the same nodes and stops at the same place. Without some of them it runs out of bytes. -/
theorem read_depends_on_consumed (entry : Entry) (context : ReadContext) (arena : Arena) {blob : List UInt8}
    {decoded : Decoded} {after : Reader} (hRead : entry.read context (.start arena blob) = .ok decoded after) :
    (∀ rest, entry.read context (.start arena (blob.take after.cursor.offset ++ rest)) =
      .ok decoded { after with cursor := ⟨rest, after.cursor.offset⟩ }) ∧
    ∀ n < after.cursor.offset, ∃ reader,
      entry.read context (.start arena (blob.take n)) = .error .outOfBounds reader := by
  obtain ⟨used, hRest, -, hRun⟩ := entry.read_local context _ decoded after hRead
  have hBlob : blob = used ++ after.cursor.rest := hRest
  have hOffset : after.cursor.offset = used.length := hRun.offset.trans (Nat.zero_add _)
  refine ⟨fun rest => ?_, fun n hLt => ?_⟩
  · rw [hBlob, hOffset, List.take_left, ← hOffset]
    exact hRun.replay rest
  · rw [hBlob, List.take_append_of_le_length (by omega)]
    exact hRun.cut n (by omega)

/-- A pointer to a number takes two of three bytes, and can not be read from one. -/
theorem read_depends_on_consumed_pointer :
    ∃ decoded after,
      Entry.type.read ⟨.standard, (CoreTypes.create ⟨0⟩ ⟨0⟩ .empty .empty).1⟩
        (.start (CoreTypes.create ⟨0⟩ ⟨0⟩ .empty .empty).2.1 [0x0F, 0x08, 0x55]) = .ok decoded after ∧
      after.cursor.offset = 2 ∧
      ∃ reader, Entry.type.read ⟨.standard, (CoreTypes.create ⟨0⟩ ⟨0⟩ .empty .empty).1⟩
        (.start (CoreTypes.create ⟨0⟩ ⟨0⟩ .empty .empty).2.1 [0x0F]) = .error .outOfBounds reader := by
  have hRead : ∃ decoded after,
      Entry.type.read ⟨.standard, (CoreTypes.create ⟨0⟩ ⟨0⟩ .empty .empty).1⟩
        (.start (CoreTypes.create ⟨0⟩ ⟨0⟩ .empty .empty).2.1 [0x0F, 0x08, 0x55]) = .ok decoded after ∧
      after.cursor.offset = 2 := ⟨_, _, rfl, rfl⟩
  obtain ⟨decoded, after, hRead, hOffset⟩ := hRead
  have hCut := (read_depends_on_consumed .type _ _ hRead).2 1 (by omega)
  exact ⟨decoded, after, hRead, hOffset, hCut⟩

end Entry

end CliSignature
