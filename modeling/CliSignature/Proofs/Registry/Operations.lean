import CliSignature.Proofs.Registry.Filing

/-!
Registries in use. Whatever is done to a new registry, and whatever of it is refused, every entry stands in
the table of its kind, the tokens ascend, and a change reaches no entry but its own. Rows that are given out
lie behind all rows that are taken, as long as the last row of the table is not.
-/

namespace CliSignature

namespace TokenTable

variable {token : Token} {table : TokenTable}

/-- A token that is not in the table gets a place of its own. -/
theorem insert_perm (entry : TypeEntry) (hNew : get? table token = none) :
    (insert token entry table).Perm ((token, entry) :: table) := by
  induction table with
  | nil => exact .refl _
  | cons first rest ih =>
    obtain ⟨other, held⟩ := first
    simp only [insert]
    split
    case h_1 => exact .refl _
    case h_2 hOrder =>
      obtain rfl := Token.order_eq_eq_iff.mp hOrder
      simp [get?] at hNew
    case h_3 hOrder =>
      have hOther : token ≠ other := by
        rintro rfl
        simp at hOrder
      have hRest : get? rest token = none := by
        simpa [get?, List.lookup_cons, beq_eq_false_iff_ne.mpr hOther] using hNew
      exact ((ih hRest).cons _).trans (.swap _ _ _)

namespace Ascending

variable {first : Token × TypeEntry} {rest : TokenTable}

theorem ne_of_mem_rest (hTable : Ascending (first :: rest)) {item : Token × TypeEntry} (hMem : item ∈ rest) :
    item.1 ≠ first.1 := by
  intro hSame
  have hLess := (List.pairwise_cons.mp hTable).1 item hMem
  rw [hSame] at hLess
  exact UInt32.lt_irrefl _ hLess

/-- What comes before the first token of an ascending table is not in it. -/
theorem get?_eq_none_of_lt (hTable : Ascending (first :: rest)) (hLess : token.value < first.1.value) :
    get? (first :: rest) token = none := by
  have hBefore : ∀ item ∈ first :: rest, token.value < item.1.value :=
    List.forall_mem_cons.mpr ⟨hLess, fun item hMem =>
      UInt32.lt_trans hLess ((List.pairwise_cons.mp hTable).1 item hMem)⟩
  refine List.lookup_eq_none_iff.mpr fun item hMem => bne_iff_ne.mpr ?_
  rintro rfl
  exact UInt32.lt_irrefl _ (hBefore item hMem)

/-- A token that is in the table keeps its place, and only its entry is replaced. -/
theorem insert_eq_map (hTable : Ascending table) (entry : TypeEntry) (hTaken : get? table token ≠ none) :
    TokenTable.insert token entry table =
      table.map fun item => if item.1 = token then (token, entry) else item := by
  induction table with
  | nil => exact absurd rfl hTaken
  | cons first rest ih =>
    obtain ⟨other, held⟩ := first
    simp only [TokenTable.insert]
    split
    case h_1 hOrder => exact absurd (hTable.get?_eq_none_of_lt (Token.order_eq_lt_iff.mp hOrder)) hTaken
    case h_2 hOrder =>
      obtain rfl := Token.order_eq_eq_iff.mp hOrder
      have hRest : (rest.map fun item => if item.1 = token then (token, entry) else item) = rest :=
        (List.map_congr_left fun item hMem => if_neg (hTable.ne_of_mem_rest hMem)).trans (List.map_id _)
      rw [List.map_cons, if_pos rfl, hRest]
    case h_3 hOrder =>
      have hOther : other ≠ token := by
        rintro rfl
        simp at hOrder
      have hRest : get? rest token ≠ none := by
        simpa [get?, List.lookup_cons, beq_eq_false_iff_ne.mpr hOther.symm] using hTaken
      rw [List.map_cons, if_neg hOther, ih (List.pairwise_cons.mp hTable).2 hRest]

end Ascending

end TokenTable

namespace Registry

/-- What can be done to a registry. Assemblies and modules are only ever added. -/
inductive Operation where
  | addAssembly (identity : AssemblyIdentity)
  | addModule (entry : ModuleEntry)
  | change (change : Change)

/-- What an operation gives back. -/
inductive Answer where
  | newAssembly (id : AssemblyId)
  | newModule (id : ModuleId)
  | newToken (token : Token)
  | done
deriving DecidableEq, Repr

/-- What is answered to a change that may be refused, and the registry as the change leaves it. -/
def attempt (registry : Registry) (change : Registering Unit) : Except RegistryError Answer × Registry :=
  match change registry with
  | .ok _ after => (.ok .done, after)
  | .error error after => (.error error, after)

/-- What an operation answers, and the registry after it. -/
def perform (registry : Registry) : Operation → Except RegistryError Answer × Registry
  | .addAssembly identity =>
    let (id, after) := registry.addAssembly identity
    (.ok (.newAssembly id), after)
  | .addModule entry =>
    let (id, after) := registry.addModule entry
    (.ok (.newModule id), after)
  | .change (.add entry) =>
    let (token, after) := registry.add entry
    (.ok (.newToken token), after)
  | .change (.insert token entry) => registry.attempt (.insert token entry)
  | .change (.setSignature token signature) => registry.attempt (.setSignature token signature)

/-- The registry after several operations, whether or not they are refused. -/
def performEach (registry : Registry) (operations : List Operation) : Registry :=
  operations.foldl (fun before operation => (before.perform operation).2) registry

/-- All that placing an entry can answer and do. -/
theorem perform_insert_cases (registry : Registry) (token : Token) (entry : TypeEntry) :
    (registry.Unplaceable token entry ∧
        registry.perform (.change (.insert token entry)) = (.error (.cannotInsert token), registry)) ∨
      (¬ registry.Unplaceable token entry ∧ registry.perform (.change (.insert token entry)) =
        (.ok .done, registry.placed token entry (max (registry.nextRows.get entry.table) (token.row + 1)))) := by
  refine (registry.insert_cases token entry).imp ?_ ?_ <;> rintro ⟨hCondition, hInsert⟩ <;>
    exact ⟨hCondition, by rw [perform, attempt, hInsert]⟩

/-- All that setting a signature can answer and do. -/
theorem perform_setSignature_cases (registry : Registry) (token : Token) (signature : Option NodeId) :
    ((¬ ∃ old, registry.type? token = some (.specification old)) ∧
        registry.perform (.change (.setSignature token signature)) =
          (.error (.notASpecification token), registry)) ∨
      ∃ old, registry.type? token = some (.specification old) ∧
        registry.perform (.change (.setSignature token signature)) =
          (.ok .done, registry.replaced token (.specification signature)) := by
  obtain ⟨hOther, hSet⟩ | ⟨old, hOld, hSet⟩ := registry.setSignature_cases token signature
  · exact .inl ⟨hOther, by rw [perform, attempt, hSet]⟩
  · exact .inr ⟨old, hOld, by rw [perform, attempt, hSet]⟩

/-- A change that is performed is applied. -/
theorem perform_change_snd (registry : Registry) (change : Change) :
    (registry.perform (.change change)).2 = registry.apply change := by
  cases change with
  | add entry => rfl
  | insert token entry =>
      obtain ⟨-, hInsert⟩ | ⟨-, hInsert⟩ := registry.insert_cases token entry <;>
        rw [perform, attempt, apply, insert, Registering.getD_outcome, hInsert]
  | setSignature token signature =>
      obtain ⟨-, hSet⟩ | ⟨-, -, hSet⟩ := registry.setSignature_cases token signature <;>
        rw [perform, attempt, apply, setSignature, Registering.getD_outcome, hSet]

theorem Filed.perform {registry : Registry} (hFiled : registry.Filed) (operation : Operation) :
    (registry.perform operation).2.Filed := by
  cases operation with
  | addAssembly | addModule =>
      exact ⟨hFiled.ascending, hFiled.kinds, fun table => (hFiled.counted table).congr rfl Iff.rfl
        fun _ held hHeld hOfTable => ⟨held, hHeld, hOfTable⟩⟩
  | change change =>
      rw [perform_change_snd]
      exact hFiled.apply change

/-- By induction on the operations. -/
theorem Filed.performEach {registry : Registry} (hFiled : registry.Filed) (operations : List Operation) :
    (registry.performEach operations).Filed := by
  induction operations generalizing registry with
  | nil => exact hFiled
  | cons operation operations ih => exact ih (hFiled.perform operation)

/-- What placing an entry at a token does, where it is refused and where it is not. -/
structure Inserts (registry : Registry) (token : Token) (entry : TypeEntry)
    (outcome : Except RegistryError Answer × Registry) : Prop where
  refused_iff : outcome.1 = .error (.cannotInsert token) ↔ registry.Unplaceable token entry
  done_iff : outcome.1 = .ok .done ↔ ¬ registry.Unplaceable token entry
  /-- The entry is added, and no counter is moved but that of its table. -/
  added : outcome.1 = .ok .done →
    outcome.2.types.Perm ((token, entry) :: registry.types) ∧
      outcome.2.assemblies = registry.assemblies ∧ outcome.2.modules = registry.modules ∧
      ∀ table, table ≠ entry.table → outcome.2.nextRows.get table = registry.nextRows.get table

/-- What setting a signature does, where it is refused and where it is not. -/
structure SetsSignature (registry : Registry) (token : Token) (signature : Option NodeId)
    (outcome : Except RegistryError Answer × Registry) : Prop where
  refused_iff : outcome.1 = .error (.notASpecification token) ↔
    ¬ ∃ old, registry.type? token = some (.specification old)
  done_iff : outcome.1 = .ok .done ↔ ∃ old, registry.type? token = some (.specification old)
  /-- The signature is replaced where it stands, and nothing else. -/
  replaced : outcome.1 = .ok .done →
    outcome.2 = { registry with
      types := registry.types.map fun item =>
        if item.1 = token then (token, .specification signature) else item }

/-- What adding an entry does, which is never refused. -/
structure Adds (registry : Registry) (entry : TypeEntry)
    (outcome : Except RegistryError Answer × Registry) : Prop where
  /-- The token of the next row is given out. -/
  answered : outcome.1 = .ok (.newToken (.ofRow entry.table (registry.nextRows.get entry.table)))
  /-- The entry is found at that token. -/
  stored : outcome.2.type? (.ofRow entry.table (registry.nextRows.get entry.table)) = some entry
  /-- The counter of its table moves by one row, and no other. -/
  counted : ∀ table, outcome.2.nextRows.get table =
    registry.nextRows.get table + if table = entry.table then 1 else 0
  assemblies : outcome.2.assemblies = registry.assemblies
  modules : outcome.2.modules = registry.modules

theorem perform_adds (registry : Registry) (entry : TypeEntry) :
    registry.Adds entry (registry.perform (.change (.add entry))) where
  answered := rfl
  stored := type?_placed_self
  counted table := by
    by_cases hSameTable : table = entry.table
    · subst hSameTable
      simp [perform, Registry.add]
    · simp [perform, Registry.add, NextRows.get_set_of_ne _ _ hSameTable, hSameTable]
  assemblies := rfl
  modules := rfl

theorem perform_inserts (registry : Registry) (token : Token) (entry : TypeEntry) :
    registry.Inserts token entry (registry.perform (.change (.insert token entry))) := by
  obtain ⟨hUnplaceable, hInsert⟩ | ⟨hPlaceable, hInsert⟩ := registry.perform_insert_cases token entry <;>
    rw [hInsert]
  case inl => exact ⟨by simp [hUnplaceable], by simp [hUnplaceable], nofun⟩
  case inr =>
    have hNew : registry.type? token = none := by
      simpa using (not_or.mp (not_or.mp hPlaceable).2).2
    exact ⟨by simp [hPlaceable], by simp [hPlaceable], fun _ =>
      ⟨TokenTable.insert_perm entry hNew, rfl, rfl, fun table hOther => NextRows.get_set_of_ne _ _ hOther⟩⟩

theorem perform_setsSignature {registry : Registry} (hFiled : registry.Filed) (token : Token)
    (signature : Option NodeId) :
    registry.SetsSignature token signature (registry.perform (.change (.setSignature token signature))) := by
  obtain ⟨hOther, hSet⟩ | ⟨old, hOld, hSet⟩ := registry.perform_setSignature_cases token signature <;>
    rw [hSet]
  case inl => exact ⟨by simp [hOther], by simp [hOther], nofun⟩
  case inr =>
    have hTaken : TokenTable.get? registry.types token ≠ none := by
      rw [← type?, hOld]
      exact Option.some_ne_none _
    rw [replaced, hFiled.ascending.insert_eq_map _ hTaken]
    exact ⟨by simp [hOld], by simp [hOld], fun _ => rfl⟩

/-- The token whose entry an operation adds or changes. -/
def Concerns (registry : Registry) : Operation → Token → Prop
  | .addAssembly _, _ => False
  | .addModule _, _ => False
  | .change (.add entry), token => token = (registry.add entry).1
  | .change (.insert placed _), token => token = placed
  | .change (.setSignature set _), token => token = set

/-- A registry that is refused a change stays as it was. -/
theorem perform_of_refused {registry : Registry} {operation : Operation} {error : RegistryError}
    (hRefused : (registry.perform operation).1 = .error error) : (registry.perform operation).2 = registry := by
  cases operation with
  | addAssembly | addModule => cases hRefused
  | change change =>
      cases change with
      | add => cases hRefused
      | insert token entry =>
          obtain ⟨-, hInsert⟩ | ⟨-, hInsert⟩ := registry.perform_insert_cases token entry <;>
            rw [hInsert] at hRefused ⊢
          cases hRefused
      | setSignature token signature =>
          obtain ⟨-, hSet⟩ | ⟨-, -, hSet⟩ := registry.perform_setSignature_cases token signature <;>
            rw [hSet] at hRefused ⊢
          cases hRefused

/-- No operation reaches an entry that it does not concern. -/
theorem type?_perform {registry : Registry} {operation : Operation} {token : Token}
    (hOther : ¬ registry.Concerns operation token) :
    (registry.perform operation).2.type? token = registry.type? token := by
  cases operation with
  | addAssembly | addModule => rfl
  | change change =>
      cases change with
      | add entry => exact type?_placed_of_ne hOther
      | insert placed entry =>
          obtain ⟨-, hInsert⟩ | ⟨-, hInsert⟩ := registry.perform_insert_cases placed entry <;> rw [hInsert]
          exact type?_placed_of_ne hOther
      | setSignature set signature =>
          obtain ⟨-, hSet⟩ | ⟨-, -, hSet⟩ := registry.perform_setSignature_cases set signature <;> rw [hSet]
          exact type?_replaced_of_ne hOther

/-- What a registry answers to its next operation, and what the operation does. -/
structure Dependable (registry : Registry) : Prop where
  /-- Every entry stands in the table of its kind. -/
  kinds : ∀ token held, registry.type? token = some held → token.table = held.table.code
  /-- The entries are listed in the order of their tokens. -/
  ascending : TokenTable.Ascending registry.types
  /-- An operation that is refused changes nothing. -/
  refused : ∀ operation error, (registry.perform operation).1 = .error error →
    (registry.perform operation).2 = registry
  /-- No operation reaches an entry that it does not concern. -/
  kept : ∀ operation token, ¬ registry.Concerns operation token →
    (registry.perform operation).2.type? token = registry.type? token
  adds : ∀ entry, registry.Adds entry (registry.perform (.change (.add entry)))
  inserts : ∀ token entry, registry.Inserts token entry (registry.perform (.change (.insert token entry)))
  setsSignature : ∀ token signature,
    registry.SetsSignature token signature (registry.perform (.change (.setSignature token signature)))
  /-- An addition goes behind all rows of its table, as long as the last one is not taken. -/
  behind : ∀ entry, registry.HasRoom entry → ∀ token held, registry.type? token = some held →
    held.table = entry.table → token.row < (registry.add entry).1.row

/-- Whatever was done to a new registry, it can be depended on. -/
theorem performEach_dependable (operations : List Operation) : (empty.performEach operations).Dependable := by
  have hFiled := filed_empty.performEach operations
  exact {
    kinds := hFiled.kinds
    ascending := hFiled.ascending
    refused := fun _ _ => perform_of_refused
    kept := fun _ _ => type?_perform
    adds := perform_adds _
    inserts := perform_inserts _
    setsSignature := perform_setsSignature hFiled
    behind := fun _ hRoom _ _ => hFiled.row_lt_add hRoom }

end Registry

end CliSignature
