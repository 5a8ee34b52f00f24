import CliSignature.Proofs.Blob.RoundTrip

/-!
Readings build signatures bottom-up. A node refers to nodes before it and to the shared nodes of primitives,
also where the reading fails later and leaves the node behind. Every node has a byte of its own, so no blob
makes the arena grow by more than its length.
-/

namespace CliSignature

/-- A slot is empty, or refers to one of the given number of nodes or to the shared node of a primitive. -/
def CoreTypes.Knows (core : CoreTypes) (size : Nat) (slot : Option NodeId) : Prop :=
  ∀ id, slot = some id → id.index < size ∨ ∃ code, id = core.node code

theorem CoreTypes.Knows.mono {core : CoreTypes} {size larger : Nat} {slot : Option NodeId}
    (hKnown : core.Knows size slot) (hLe : size ≤ larger) : core.Knows larger slot :=
  fun id hSlot => (hKnown id hSlot).imp_left fun hLt => Nat.lt_of_lt_of_le hLt hLe

/-- One slot, and others that are known when the arena has grown. -/
theorem CoreTypes.knows_cons {core : CoreTypes} {size larger : Nat} {first : Option NodeId}
    {rest : List (Option NodeId)} (hFirst : ∀ slot ∈ [first], core.Knows size slot) (hLe : size ≤ larger)
    (hRest : ∀ slot ∈ rest, core.Knows larger slot) : ∀ slot ∈ first :: rest, core.Knows larger slot :=
  List.forall_mem_cons.mpr ⟨(hFirst first (List.mem_singleton_self _)).mono hLe, hRest⟩

/-- What a reading may do to a reader: it moves forward in the blob and adds nodes that refer to known ones,
of which no more than `spare` have no byte of their own. -/
structure Reader.Grows (core : CoreTypes) (spare : Nat) (before after : Reader) : Prop where
  forward : before.cursor.offset ≤ after.cursor.offset
  length : after.cursor.offset + after.cursor.rest.length = before.cursor.offset + before.cursor.rest.length
  larger : before.arena.size ≤ after.arena.size
  kept : ∀ id, id.index < before.arena.size → after.arena.get? id = before.arena.get? id
  added : ∀ id node, before.arena.size ≤ id.index → after.arena.get? id = some node →
    ∀ child ∈ node.children, core.Knows id.index child
  paid : after.arena.size + before.cursor.offset ≤ before.arena.size + after.cursor.offset + spare

namespace Reader.Grows

variable {core : CoreTypes} {spare spare' : Nat} {before middle after : Reader}

/-- A reading that adds nothing. -/
theorem of_arena_eq (hArena : after.arena = before.arena) (hForward : before.cursor.offset ≤ after.cursor.offset)
    (hLength : after.cursor.offset + after.cursor.rest.length =
      before.cursor.offset + before.cursor.rest.length) : before.Grows core 0 after where
  forward := hForward
  length := hLength
  larger := Nat.le_of_eq (congrArg Arena.size hArena.symm)
  kept id _ := by rw [hArena]
  added id node hNew hNode := by
    have hOld : id.index < before.arena.size := by
      rw [hArena] at hNode
      exact Arena.lt_size_of_get? hNode
    omega
  paid := by
    rw [hArena]
    omega

theorem refl (reader : Reader) : reader.Grows core 0 reader :=
  of_arena_eq rfl (Nat.le_refl _) rfl

theorem trans (hFirst : before.Grows core spare middle) (hSecond : middle.Grows core spare' after) :
    before.Grows core (spare + spare') after where
  forward := Nat.le_trans hFirst.forward hSecond.forward
  length := hSecond.length.trans hFirst.length
  larger := Nat.le_trans hFirst.larger hSecond.larger
  kept id hOld := by rw [hSecond.kept id (Nat.lt_of_lt_of_le hOld hFirst.larger), hFirst.kept id hOld]
  added id node hNew hNode := by
    rcases Nat.lt_or_ge id.index middle.arena.size with hOld | hNewer
    · rw [hSecond.kept id hOld] at hNode
      exact hFirst.added id node hNew hNode
    · exact hSecond.added id node hNewer hNode
  paid := by
    have hPaid := hFirst.paid
    have hPaid' := hSecond.paid
    omega

theorem weaken (hGrows : before.Grows core spare after) (hLe : spare ≤ spare') :
    before.Grows core spare' after :=
  { hGrows with paid := Nat.le_trans hGrows.paid (Nat.add_le_add_left hLe _) }

theorem push {node : Node} (hKnown : ∀ child ∈ node.children, core.Knows before.arena.size child) :
    before.Grows core 1 { before with arena := (before.arena.push node).2 } where
  forward := Nat.le_refl _
  length := rfl
  larger := by simp
  kept id hOld := before.arena.get?_push_of_lt node hOld
  added id held hNew hHeld := by
    have hLast : id.index = before.arena.size := by
      have hInside := Arena.lt_size_of_get? hHeld
      rw [Arena.size_push] at hInside
      omega
    obtain rfl : id = (before.arena.push node).1 := congrArg NodeId.mk hLast
    obtain rfl := Option.some.inj (hHeld.symm.trans (before.arena.get?_push_self node))
    exact hKnown
  paid := by
    simp only [Arena.size_push]
    omega

/-- A byte that is consumed pays for one node that is added later. -/
theorem of_byte {first : UInt8} {tail : List UInt8} (hRest : before.cursor.rest = first :: tail)
    (hGrows : Reader.Grows core (spare + 1) { before with cursor := ⟨tail, before.cursor.offset + 1⟩ } after) :
    before.Grows core spare after := by
  obtain ⟨hForward, hLength, hLarger, hKept, hAdded, hPaid⟩ := hGrows
  have hForward : before.cursor.offset + 1 ≤ after.cursor.offset := hForward
  have hLength : after.cursor.offset + after.cursor.rest.length = before.cursor.offset + 1 + tail.length := hLength
  have hPaid : after.arena.size + (before.cursor.offset + 1) ≤
      before.arena.size + after.cursor.offset + (spare + 1) := hPaid
  refine ⟨by omega, ?_, hLarger, hKept, hAdded, by omega⟩
  rw [hLength, hRest, List.length_cons]
  omega

end Reader.Grows

namespace Reader

variable {α : Type} {core : CoreTypes} {spare spare' : Nat} {slots : α → List (Option NodeId)}
  {before middle : Reader} {result : EStateM.Result DecodeError Reader α}

/-- What comes of a reading that only grows the reader, whether it succeeds or fails. The slots in what it
returns are known from then on. -/
inductive GrowsTo (core : CoreTypes) (spare : Nat) (slots : α → List (Option NodeId)) (before : Reader) :
    EStateM.Result DecodeError Reader α → Prop
  | ok {value : α} {after : Reader} (hGrows : before.Grows core spare after)
      (hKnown : ∀ slot ∈ slots value, core.Knows after.arena.size slot) :
      GrowsTo core spare slots before (.ok value after)
  | error {error : DecodeError} {after : Reader} (hGrows : before.Grows core spare after) :
      GrowsTo core spare slots before (.error error after)

/-- What is reached from a later reader is reached from the one before it. -/
theorem GrowsTo.imp (hGrows : ∀ after, middle.Grows core spare after → before.Grows core spare' after)
    (hResult : middle.GrowsTo core spare slots result) : before.GrowsTo core spare' slots result := by
  cases hResult with
  | ok hAfter hKnown => exact .ok (hGrows _ hAfter) hKnown
  | error hAfter => exact .error (hGrows _ hAfter)

end Reader

namespace Read

variable {α β : Type} {core : CoreTypes} {size spare spare' : Nat}

/-- The reading builds bottom-up in an arena of at least the given size. -/
def BuildsUp (core : CoreTypes) (size spare : Nat) (slots : α → List (Option NodeId)) (reading : Read α) :
    Prop :=
  ∀ before : Reader, size ≤ before.arena.size → before.GrowsTo core spare slots (reading before)

/-- What has no slots. -/
def noSlots {α : Type} : α → List (Option NodeId) := fun _ => []

namespace BuildsUp

variable {slots : α → List (Option NodeId)} {slots' : β → List (Option NodeId)} {reading first : Read α}
  {next : α → Read β}

/-- A reading goes on building up as the arena grows. -/
theorem later {larger : Nat} (hReading : BuildsUp core size spare slots reading) (hLe : size ≤ larger) :
    BuildsUp core larger spare slots reading :=
  fun before hSize => hReading before (Nat.le_trans hLe hSize)

theorem weaken (hReading : BuildsUp core size spare slots reading) (hLe : spare ≤ spare') :
    BuildsUp core size spare' slots reading :=
  fun before hSize => (hReading before hSize).imp fun _ hGrows => hGrows.weaken hLe

theorem pure {value : α} (hKnown : ∀ slot ∈ slots value, core.Knows size slot) :
    BuildsUp core size 0 slots (Pure.pure value) :=
  fun before hSize => .ok (.refl before) fun slot hMem => (hKnown slot hMem).mono hSize

theorem throw {error : DecodeError} : BuildsUp core size 0 slots (MonadExcept.throw error : Read α) :=
  fun before _ => .error (.refl before)

theorem tooDeep (limits : Limits) : BuildsUp core size 0 slots (tooDeep limits : Read α) :=
  fun _ _ => .error (.of_arena_eq rfl (Nat.le_refl _) rfl)

theorem add {node : Node} (hKnown : ∀ child ∈ node.children, core.Knows size child) :
    BuildsUp core size 1 (fun id => [some id]) (add node) := by
  intro before hSize
  have hGrows : before.Grows core 1 { before with arena := (before.arena.push node).2 } :=
    .push fun child hMem => (hKnown child hMem).mono hSize
  refine .ok hGrows fun slot hMem id hSlot => .inl ?_
  obtain rfl := List.mem_singleton.mp hMem
  obtain rfl := Option.some.inj hSlot
  exact Nat.lt_of_lt_of_eq (Nat.lt_succ_self _) (before.arena.size_push node).symm

/-- One reading after another. What the first has returned is known to the second. -/
theorem bind_spare (hFirst : BuildsUp core size spare slots first)
    (hNext : ∀ larger value, size ≤ larger → (∀ slot ∈ slots value, core.Knows larger slot) →
      BuildsUp core larger spare' slots' (next value)) :
    BuildsUp core size (spare + spare') slots' (first >>= next) := by
  intro before hSize
  have hResult := hFirst before hSize
  simp only [Bind.bind, EStateM.bind]
  generalize first before = result at hResult
  cases hResult with
  | error hGrows => exact .error (hGrows.weaken (Nat.le_add_right _ _))
  | ok hGrows hKnown =>
      exact (hNext _ _ (Nat.le_trans hSize hGrows.larger) hKnown _ (Nat.le_refl _)).imp fun _ => hGrows.trans

theorem bind (hFirst : BuildsUp core size 0 slots first)
    (hNext : ∀ larger value, size ≤ larger → (∀ slot ∈ slots value, core.Knows larger slot) →
      BuildsUp core larger spare slots' (next value)) :
    BuildsUp core size spare slots' (first >>= next) :=
  (hFirst.bind_spare hNext).weaken (Nat.le_of_eq (Nat.zero_add _))

/-- A byte, and what is read after it. It pays for one node that is added there. -/
theorem byte {next : UInt8 → Read β} (hNext : ∀ first, BuildsUp core size (spare + 1) slots' (next first)) :
    BuildsUp core size spare slots' (scan Scan.byte >>= next) := by
  intro before hSize
  cases hRest : before.cursor.rest with
  | nil =>
      have hRun : (scan Scan.byte >>= next) before = .error .outOfBounds before := by
        simp [Bind.bind, EStateM.bind, scan, Scan.byte, hRest]
      rw [hRun]
      exact .error ((Reader.Grows.refl before).weaken (Nat.zero_le _))
  | cons first tail =>
      have hRun : (scan Scan.byte >>= next) before =
          next first { before with cursor := ⟨tail, before.cursor.offset + 1⟩ } := by
        simp [Bind.bind, EStateM.bind, scan, Scan.byte, hRest]
      rw [hRun]
      exact (hNext first { before with cursor := ⟨tail, before.cursor.offset + 1⟩ } hSize).imp fun _ hGrows =>
        .of_byte hRest hGrows

/-- A look at the next byte, and what is read after it. -/
theorem peek {next : UInt8 → Read β} (hNext : ∀ first, BuildsUp core size spare slots' (next first)) :
    BuildsUp core size spare slots' (scan Scan.peek >>= next) := by
  intro before hSize
  cases hRest : before.cursor.rest with
  | nil =>
      have hRun : (scan Scan.peek >>= next) before = .error .outOfBounds before := by
        simp [Bind.bind, EStateM.bind, scan, Scan.peek, hRest]
      rw [hRun]
      exact .error ((Reader.Grows.refl before).weaken (Nat.zero_le _))
  | cons first tail =>
      have hRun : (scan Scan.peek >>= next) before = next first before := by
        simp [Bind.bind, EStateM.bind, scan, Scan.peek, hRest]
      rw [hRun]
      exact hNext first before hSize

theorem plain {value : α} : BuildsUp core size 0 noSlots (Pure.pure value : Read α) :=
  pure (by simp [noSlots])

theorem packed : BuildsUp core size 0 noSlots (scan Compressed.readPacked) := by
  have hByte {α : Type} {next : UInt8 → Scan α} (hNext : ∀ first, BuildsUp core size 0 noSlots (scan (next first))) :
      BuildsUp core size 0 noSlots (scan (Scan.byte >>= next)) := by
    rw [scan_bind]
    exact byte fun first => (hNext first).weaken (Nat.zero_le 1)
  rw [Compressed.readPacked]
  refine hByte fun lead => ?_
  split
  case isTrue => exact plain
  case isFalse =>
    split
    case isTrue => exact hByte fun _ => plain
    case isFalse =>
      split
      case isTrue => exact hByte fun _ => hByte fun _ => hByte fun _ => plain
      case isFalse => exact throw

theorem unsigned : BuildsUp core size 0 noSlots (scan Compressed.readUnsigned) := by
  rw [Compressed.readUnsigned, scan_bind]
  exact packed.bind fun _ _ _ _ => plain

theorem signed : BuildsUp core size 0 noSlots (scan Compressed.readSigned) := by
  rw [Compressed.readSigned, scan_bind]
  exact packed.bind fun _ _ _ _ => plain

theorem token : BuildsUp core size 0 noSlots (scan Compressed.readToken) := by
  rw [Compressed.readToken, scan_bind]
  refine packed.bind fun _ found _ _ => ?_
  obtain ⟨width, coded⟩ := found
  dsimp only
  split
  case h_1 => exact throw
  case h_2 =>
    split
    case isTrue => exact plain
    case isFalse => exact throw

/-- A number of elements, and what is read after it. -/
theorem count {next : Nat → Read β} (hNext : ∀ n, BuildsUp core size spare slots' (next n)) :
    BuildsUp core size spare slots' (Read.count >>= next) := by
  rw [count_bind]
  have hRemaining {size : Nat} : BuildsUp core size 0 noSlots (scan Scan.remaining) :=
    fun before _ => .ok (.refl before) (by simp [noSlots])
  refine unsigned.bind fun _ n hLarger _ => hRemaining.bind fun _ remaining hLater _ => ?_
  split
  case isTrue => exact throw.weaken (Nat.zero_le _)
  case isFalse => exact (hNext n.toNat).later (Nat.le_trans hLarger hLater)

/-- Two readings, between which the next byte decides. -/
theorem ifSentinel {marked unmarked : Read β} (hMarked : BuildsUp core size spare slots' marked)
    (hUnmarked : BuildsUp core size spare slots' unmarked) :
    BuildsUp core size spare slots' (do if ← atSentinel then scan Scan.skip; marked else unmarked) := by
  rw [atSentinel, bind_assoc]
  refine peek fun first => ?_
  rw [pure_bind]
  split
  case isTrue =>
    rw [Scan.skip, scan_bind, bind_assoc]
    exact byte fun _ => hMarked.weaken (Nat.le_succ _)
  case isFalse => exact hUnmarked

theorem start (form : Signature.Form) : BuildsUp core size 0 noSlots (start form) := by
  refine byte fun first => ?_
  dsimp only
  split
  case isTrue => exact plain.weaken (Nat.zero_le _)
  case isFalse => exact throw.weaken (Nat.zero_le _)

theorem genericCount (convention : CallingConvention) :
    BuildsUp core size 0 noSlots (genericCount convention) := by
  unfold Read.genericCount
  split
  case isTrue => exact unsigned
  case isFalse => exact plain

theorem replicate {value : Read α} (hValue : BuildsUp core 0 0 noSlots value) (n : Nat) :
    BuildsUp core size 0 noSlots (replicate value n) := by
  induction n generalizing size with
  | zero => exact plain
  | succ n ih => exact (hValue.later (Nat.zero_le _)).bind fun _ _ _ _ => ih.bind fun _ _ _ _ => plain

theorem dimensions {value : Read α} (hValue : BuildsUp core 0 0 noSlots value) (rank : UInt32)
    (error : Nat → DecodeError) : BuildsUp core size 0 noSlots (dimensions value rank error) := by
  refine unsigned.bind fun _ n _ _ => ?_
  split
  case isTrue => exact throw
  case isFalse => exact hValue.replicate n.toNat

theorem shape (limits : Limits) : BuildsUp core size 0 noSlots (shape limits) := by
  rw [shape_eq]
  refine unsigned.bind fun _ rank _ _ => ?_
  split
  case isTrue => exact throw
  case isFalse =>
    exact (unsigned.dimensions rank _).bind fun _ _ _ _ => (signed.dimensions rank _).bind fun _ _ _ _ => plain

section Types

variable {type : Read (Option NodeId)} (hType : BuildsUp core 0 0 (fun slot => [slot]) type)

include hType

theorem element (role : ListRole) : BuildsUp core size 0 (fun id => [some id]) (element type role) := by
  refine (hType.later (Nat.zero_le size)).bind fun larger slot _ hKnown => ?_
  cases slot with
  | none => exact fun before _ => .error (.refl before)
  | some id => exact pure hKnown

theorem elements (role : ListRole) (n : Nat) :
    BuildsUp core size 0 (fun ids => ids.map some) (elements type role n) := by
  induction n generalizing size with
  | zero => exact pure (by simp)
  | succ n ih =>
      exact (hType.element role).bind fun _ first _ hFirst => ih.bind fun _ others hLe hOthers =>
        pure (CoreTypes.knows_cons hFirst hLe hOthers)

theorem list (role : ListRole) : BuildsUp core size 0 (fun ids => ids.map some) (list type role) :=
  count (hType.elements role)

theorem varargs (n : Nat) : BuildsUp core size 0 (fun ids => ids.map some) (varargs type n) := by
  induction n generalizing size with
  | zero => exact pure (by simp)
  | succ n ih =>
      refine ifSentinel throw ?_
      exact (hType.element .parameter).bind fun _ first _ hFirst => ih.bind fun _ others hLe hOthers =>
        pure (CoreTypes.knows_cons hFirst hLe hOthers)

theorem params (n : Nat) :
    BuildsUp core size 0 (fun ids => (ids.1 ++ ids.2.getD []).map some) (params type n) := by
  induction n generalizing size with
  | zero => exact pure (by simp)
  | succ n ih =>
      refine ifSentinel ?_ ?_
      · exact (hType.varargs (n + 1)).bind fun _ rest _ hRest => pure hRest
      · exact (hType.element .parameter).bind fun _ first _ hFirst => ih.bind fun _ others hLe hOthers =>
          pure (CoreTypes.knows_cons hFirst hLe hOthers)

theorem methodBody (convention : CallingConvention) (genericCount : UInt32) :
    BuildsUp core size 0 (fun m => m.result :: m.allParams.map some)
      (methodBody type convention genericCount) :=
  count fun n => (hType.later (Nat.zero_le _)).bind fun _ _ _ hResult =>
    (hType.params n).bind fun _ _ hLe hParams => pure (CoreTypes.knows_cons hResult hLe hParams)

theorem method : BuildsUp core size 0 (fun m => m.result :: m.allParams.map some) (method type) := by
  rw [method_eq]
  exact (start .method).bind fun _ convention _ _ => (genericCount convention).bind fun _ generic _ _ =>
    hType.methodBody convention generic

theorem property : BuildsUp core size 0 (fun m => m.result :: m.allParams.map some) (property type) :=
  (start .property).bind fun _ convention _ _ => hType.methodBody convention 0

theorem signatureOf (form : Signature.Form) :
    BuildsUp core size 0 Signature.children (signatureOf type form) := by
  cases form with
  | method => exact hType.method.bind fun _ m _ hMethod => pure hMethod
  | property => exact hType.property.bind fun _ m _ hMethod => pure hMethod
  | field =>
      exact (start .field).bind fun _ _ _ _ => (hType.later (Nat.zero_le _)).bind fun _ slot _ hSlot => pure hSlot
  | locals =>
      exact (start .locals).bind fun _ _ _ _ => (hType.list .localVariable).bind fun _ ids _ hIds => pure hIds
  | methodSpec =>
      exact (start .methodSpec).bind fun _ _ _ _ => (hType.list .methodArgument).bind fun _ ids _ hIds => pure hIds

theorem anySignature : BuildsUp core size 0 Signature.children (anySignature type) := by
  refine peek fun first => ?_
  cases (CallingConvention.mk first).kind? with
  | some kind => exact hType.signatureOf (.ofKind kind)
  | none => exact throw

/-- What follows the byte of a production. -/
theorem production (limits : Limits) (found : Production) :
    BuildsUp core size 0 Node.children (production type limits found) := by
  have hType {size : Nat} : BuildsUp core size 0 (fun slot => [slot]) type := hType.later (Nat.zero_le size)
  cases found with
  | named kind => exact token.bind fun _ _ _ _ => pure (by simp [Node.children])
  | genericParam owner => exact unsigned.bind fun _ _ _ _ => pure (by simp [Node.children])
  | sentinel => exact pure (by simp [Node.children])
  | functionPointer => exact hType.method.bind fun _ m _ hMethod => pure hMethod
  | genericInst =>
      exact hType.bind fun _ definition _ hDefinition =>
        (hType.list .genericArgument).bind fun _ args hLe hArgs => pure (CoreTypes.knows_cons hDefinition hLe hArgs)
  | wrapper kind => exact hType.bind fun _ child _ hChild => pure hChild
  | array =>
      exact hType.bind fun _ child _ hChild => (shape limits).bind fun _ shape hLe _ =>
        pure fun slot hMem => (hChild slot hMem).mono hLe
  | modified required => exact token.bind fun _ _ _ _ => hType.bind fun _ child _ hChild => pure hChild
  | valueArray =>
      exact hType.bind fun _ child _ hChild => unsigned.bind fun _ size hLe _ =>
        pure fun slot hMem => (hChild slot hMem).mono hLe
  | moduleQualified => exact unsigned.bind fun _ _ _ _ => hType.bind fun _ child _ hChild => pure hChild

/-- The byte that starts a type pays for the node that is added after what is inside. -/
theorem typeBody {context : ReadContext} (hCore : context.core = core) :
    BuildsUp core size 0 (fun slot => [slot]) (typeBody type context) := by
  refine byte fun first => ?_
  cases hPrimitive : context.core.ofElementType? first with
  | some id =>
      obtain ⟨code, -, rfl⟩ := Option.map_eq_some_iff.mp hPrimitive
      refine weaken (pure fun slot hMem other hSlot => .inr ⟨code, ?_⟩) (Nat.zero_le _)
      obtain rfl := List.mem_singleton.mp hMem
      rw [← Option.some.inj hSlot, hCore]
  | none =>
      cases Production.ofElementType? first with
      | none => exact weaken (pure (by simp [CoreTypes.Knows])) (Nat.zero_le _)
      | some found =>
          exact (hType.production context.limits found).bind fun _ node _ hNode =>
            (add hNode).bind_spare fun _ id _ hId => pure hId

end Types

variable {context : ReadContext}

/-- By induction on the levels. -/
theorem typeWithin (levels : Nat) :
    BuildsUp context.core 0 0 (fun slot => [slot]) (typeWithin context levels) := by
  induction levels with
  | zero => exact tooDeep context.limits
  | succ levels ih => exact ih.typeBody rfl

theorem typeFrom : BuildsUp context.core 0 0 (fun slot => [slot]) (typeFrom context) :=
  fun before => typeWithin _ before

end BuildsUp

end Read

/-- The slots in what a decoding returns. -/
def Decoded.slots : Decoded → List (Option NodeId)
  | type slot => [slot]
  | signature found => found.children

namespace Entry

/-- Wherever a decoding starts, it builds bottom-up. -/
theorem read_buildsUp (entry : Entry) (context : ReadContext) :
    Read.BuildsUp context.core 0 0 Decoded.slots (entry.read context) := by
  have hType : Read.BuildsUp context.core 0 0 (fun slot => [slot]) (Read.typeFrom context) := .typeFrom
  cases entry with
  | type => exact hType.bind fun _ slot _ hSlot => .pure hSlot
  | signature form => exact (hType.signatureOf form).bind fun _ found _ hFound => .pure hFound
  | anySignature => exact hType.anySignature.bind fun _ found _ hFound => .pure hFound

/-- Decodings by one reader, one after the other. Each goes on where the one before it has stopped, also
after an error. -/
def readEach (context : ReadContext) : List Entry → Reader → List (Except DecodeError Decoded) × Reader
  | [], reader => ([], reader)
  | entry :: entries, reader =>
    match entry.read context reader with
    | .ok decoded after =>
      let (outcomes, last) := readEach context entries after
      (.ok decoded :: outcomes, last)
    | .error error after =>
      let (outcomes, last) := readEach context entries after
      (.error error :: outcomes, last)

/-- By induction on the decodings. -/
theorem readEach_grows (context : ReadContext) (entries : List Entry) (reader : Reader) :
    reader.Grows context.core 0 (readEach context entries reader).2 ∧
      ∀ decoded, .ok decoded ∈ (readEach context entries reader).1 →
        ∀ slot ∈ decoded.slots, context.core.Knows (readEach context entries reader).2.arena.size slot := by
  induction entries generalizing reader with
  | nil => exact ⟨.refl reader, by simp [readEach]⟩
  | cons entry entries ih =>
      have hResult := entry.read_buildsUp context reader (Nat.zero_le _)
      simp only [readEach]
      generalize entry.read context reader = result at hResult
      cases hResult with
      | error hGrows =>
          obtain ⟨hRest, hKnown⟩ := ih _
          exact ⟨hGrows.trans hRest, by simpa using hKnown⟩
      | ok hGrows hKnownFirst =>
          obtain ⟨hRest, hKnown⟩ := ih _
          refine ⟨hGrows.trans hRest, fun other hMem => ?_⟩
          rcases List.mem_cons.mp hMem with hFirst | hLater
          · cases hFirst
            exact fun slot hSlot => (hKnownFirst slot hSlot).mono hRest.larger
          · exact hKnown other hLater

/-- Decodings by one reader build well-founded nodes only, whichever of them fail. If the shared nodes of
primitives are there, the nodes that were there are unchanged, each new node refers to nodes before it, what
is returned refers to nodes that are there, and there are no more new nodes than bytes were consumed. -/
theorem readEach_wellFounded {context : ReadContext} {arena : Arena} {blob : List UInt8}
    {entries : List Entry} {outcomes : List (Except DecodeError Decoded)} {after : Reader}
    (hCore : ∀ code, (context.core.node code).index < arena.size)
    (hRead : readEach context entries (.start arena blob) = (outcomes, after)) :
    (∀ id, id.index < arena.size → after.arena.get? id = arena.get? id) ∧
      (∀ id node, arena.size ≤ id.index → after.arena.get? id = some node →
        ∀ child, some child ∈ node.children → child.index < id.index) ∧
      (∀ decoded, .ok decoded ∈ outcomes → ∀ id, some id ∈ decoded.slots → after.arena.contains id = true) ∧
      after.arena.size ≤ arena.size + after.cursor.offset ∧ after.cursor.offset ≤ blob.length := by
  obtain ⟨hGrows, hReturned⟩ := readEach_grows context entries (.start arena blob)
  rw [hRead] at hGrows hReturned
  have hBelow {size : Nat} {id : NodeId} (hSize : arena.size ≤ size) (hKnown : context.core.Knows size (some id)) :
      id.index < size := by
    rcases hKnown id rfl with hLt | ⟨code, rfl⟩
    · exact hLt
    · exact Nat.lt_of_lt_of_le (hCore code) hSize
  have hPaid : after.arena.size + 0 ≤ arena.size + after.cursor.offset + 0 := hGrows.paid
  have hLength : after.cursor.offset + after.cursor.rest.length = 0 + blob.length := hGrows.length
  refine ⟨hGrows.kept, fun id node hNew hNode child hMem => ?_, fun decoded hMem id hSlot => ?_, hPaid, by omega⟩
  · exact hBelow hNew (hGrows.added id node hNew hNode _ hMem)
  · exact decide_eq_true (hBelow hGrows.larger (hReturned decoded hMem _ hSlot))

/-- A context whose primitives all share the first node. -/
def sharedPrimitives : ReadContext :=
  ⟨.standard, ⟨fun _ => ⟨0⟩, fun _ => ⟨0x01000001⟩⟩⟩

/-- Reads a pointer, an instantiation whose argument is absent, and a field that is a vector. -/
def fieldBehindFailure : List (Except DecodeError Decoded) × Reader :=
  readEach sharedPrimitives [.type, .type, .signature .field]
    (.start ⟨#[.primitive ⟨0x01000001⟩ .int32]⟩ [0x0F, 0x08, 0x15, 0x12, 0x09, 0x01, 0x00, 0x06, 0x1D, 0x08])

/-- The node that the failure leaves behind stays, and the vector comes after it. -/
theorem readEach_wellFounded_fieldBehindFailure :
    fieldBehindFailure.2.arena.get? ⟨2⟩ = some (.named .reference ⟨0x01000002⟩) ∧
      fieldBehindFailure.2.arena.get? ⟨3⟩ = some (.wrapper .vector (some ⟨0⟩)) ∧
      (∀ id node, 1 ≤ id.index → fieldBehindFailure.2.arena.get? id = some node →
        ∀ child, some child ∈ node.children → child.index < id.index) ∧
      fieldBehindFailure.2.cursor.offset ≤ 10 := by
  have hCore : ∀ code, (sharedPrimitives.core.node code).index < 1 := fun _ => Nat.zero_lt_one
  obtain ⟨-, hBelow, -, -, hLength⟩ := readEach_wellFounded hCore (Prod.eta fieldBehindFailure).symm
  exact ⟨by decide +kernel, by decide +kernel, hBelow, hLength⟩

end Entry

end CliSignature
