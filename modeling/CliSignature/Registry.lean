import CliSignature.Assembly.Identity
import CliSignature.Handle
import CliSignature.Token

/-!
The types that tokens name, with the modules and assemblies they belong to.
-/

namespace CliSignature

/-- Where a type that is only referred to is defined. -/
inductive ResolutionScope where
  | assembly (id : AssemblyId)
  | sameAssembly (id : ModuleId)
  | nested (outer : Token)
  | unknown
deriving DecidableEq, Repr

/-- What a token names: a type defined in a module, a type that a module refers to, or a type built
from a signature. -/
inductive TypeEntry where
  | definition (owner : ModuleId) (namespaceName name : String) (enclosing : Option Token)
  | reference (owner : ModuleId) (scope : ResolutionScope) (namespaceName name : String)
  | specification (signature : Option NodeId)
deriving DecidableEq, Repr

namespace TypeEntry

/-- The table whose rows such entries are. -/
def table : TypeEntry → TypeTable
  | definition _ _ _ _ => .definition
  | reference _ _ _ _ => .reference
  | specification _ => .specification

/-- The name of the type, without its namespace. A type built from a signature has none. -/
def name : TypeEntry → String
  | definition _ _ name _ => name
  | reference _ _ _ name => name
  | specification _ => ""

/-- The namespace of the type. A type built from a signature has none. -/
def namespaceName : TypeEntry → String
  | definition _ namespaceName _ _ => namespaceName
  | reference _ _ namespaceName _ => namespaceName
  | specification _ => ""

/-- The type that a nested type is nested in. -/
def declaringType? : TypeEntry → Option Token
  | definition _ _ _ enclosing => enclosing
  | reference _ (.nested outer) _ _ => some outer
  | _ => none

end TypeEntry

/-- A module, and the assembly it is part of if there is one. -/
structure ModuleEntry where
  name : String
  assembly : Option AssemblyId
deriving DecidableEq, Repr

/-- Where tokens and handles are looked up. Walks and renderings use nothing else of a registry. -/
structure TypeSource where
  type? : Token → Option TypeEntry
  module? : ModuleId → Option ModuleEntry
  assembly? : AssemblyId → Option AssemblyIdentity

namespace TypeSource

/-- The assembly that a module is part of. -/
def moduleAssembly? (source : TypeSource) (id : ModuleId) : Option AssemblyId :=
  (source.module? id).bind ModuleEntry.assembly

end TypeSource

/-- A table with at most one entry for a token, kept in the order of the tokens. -/
abbrev TokenTable := List (Token × TypeEntry)

namespace TokenTable

/-- The entry of a token. -/
def get? (table : TokenTable) (token : Token) : Option TypeEntry :=
  table.lookup token

/-- The table with one entry added in its place, or replaced if the token has one already. -/
def insert (token : Token) (entry : TypeEntry) : TokenTable → TokenTable
  | [] => [(token, entry)]
  | (other, held) :: rest =>
    match token.order other with
    | .lt => (token, entry) :: (other, held) :: rest
    | .eq => (token, entry) :: rest
    | .gt => (other, held) :: insert token entry rest

/-- The tokens of the table ascend. -/
def Ascending (table : TokenTable) : Prop :=
  table.Pairwise fun a b => a.1.value < b.1.value

@[simp] theorem get?_insert_self (token : Token) (entry : TypeEntry) (table : TokenTable) :
    get? (insert token entry table) token = some entry := by
  induction table with
  | nil => simp [insert, get?]
  | cons first rest ih =>
    obtain ⟨other, held⟩ := first
    cases hOrder : token.order other with
    | lt => simp [insert, hOrder, get?]
    | eq => simp [insert, hOrder, get?]
    | gt =>
      have hOther : token ≠ other := by
        rintro rfl
        simp at hOrder
      have hSkip : (token == other) = false := beq_eq_false_iff_ne.mpr hOther
      simpa [insert, hOrder, get?, List.lookup_cons, hSkip] using ih

/-- Inserting one entry leaves those of all other tokens alone. -/
theorem get?_insert_of_ne {token other : Token} (entry : TypeEntry) (table : TokenTable)
    (hOther : other ≠ token) : get? (insert token entry table) other = get? table other := by
  have hSkip : (other == token) = false := beq_eq_false_iff_ne.mpr hOther
  induction table with
  | nil => simp [insert, get?, List.lookup_cons, hSkip]
  | cons first rest ih =>
    obtain ⟨key, held⟩ := first
    cases hOrder : token.order key with
    | lt => simp [insert, hOrder, get?, List.lookup_cons, hSkip]
    | eq =>
      have hKey : token = key := Token.order_eq_eq_iff.mp hOrder
      subst hKey
      simp [insert, get?, List.lookup_cons, hSkip]
    | gt =>
      simp only [get?] at ih
      simp only [insert, hOrder, get?, List.lookup_cons]
      split
      · rfl
      · exact ih

theorem mem_insert_key {token : Token} {entry : TypeEntry} {table : TokenTable}
    {item : Token × TypeEntry} (hMem : item ∈ insert token entry table) :
    item.1 = token ∨ item ∈ table := by
  induction table with
  | nil =>
    simp only [insert, List.mem_singleton] at hMem
    exact Or.inl (congrArg Prod.fst hMem)
  | cons first rest ih =>
    obtain ⟨key, held⟩ := first
    simp only [insert] at hMem
    split at hMem
    · rcases List.mem_cons.mp hMem with hHead | hTail
      · exact Or.inl (congrArg Prod.fst hHead)
      · exact Or.inr hTail
    · rcases List.mem_cons.mp hMem with hHead | hTail
      · exact Or.inl (congrArg Prod.fst hHead)
      · exact Or.inr (List.mem_cons_of_mem _ hTail)
    · rcases List.mem_cons.mp hMem with hHead | hTail
      · exact Or.inr (List.mem_cons.mpr (Or.inl hHead))
      · exact (ih hTail).imp id (List.mem_cons_of_mem _)

/-- Inserting keeps the order of the tokens. -/
theorem Ascending.insert {token : Token} {entry : TypeEntry} {table : TokenTable}
    (hTable : Ascending table) : Ascending (TokenTable.insert token entry table) := by
  induction table with
  | nil => exact List.pairwise_singleton _ _
  | cons first rest ih =>
    obtain ⟨key, held⟩ := first
    have hHead := (List.pairwise_cons.mp hTable).1
    have hRest := (List.pairwise_cons.mp hTable).2
    simp only [TokenTable.insert]
    split
    · rename_i hOrder
      have hLess : token.value < key.value := Token.order_eq_lt_iff.mp hOrder
      refine List.pairwise_cons.mpr ⟨fun item hItem => ?_, hTable⟩
      rcases List.mem_cons.mp hItem with rfl | hTail
      · exact hLess
      · exact UInt32.lt_trans hLess (hHead item hTail)
    · rename_i hOrder
      have hKey : token = key := Token.order_eq_eq_iff.mp hOrder
      subst hKey
      exact List.pairwise_cons.mpr ⟨hHead, hRest⟩
    · rename_i hOrder
      have hGreater : key.value < token.value := Token.order_eq_gt_iff.mp hOrder
      refine List.pairwise_cons.mpr ⟨fun item hItem => ?_, ih hRest⟩
      rcases mem_insert_key hItem with hKey | hOld
      · rw [hKey]
        exact hGreater
      · exact hHead item hOld

end TokenTable

/-- Why a registry refuses a change. -/
inductive RegistryError where
  | cannotInsert (token : Token)
  | notASpecification (token : Token)
deriving DecidableEq, Repr

namespace RegistryError

def message : RegistryError → String
  | cannotInsert token => "Failed to insert new type into TypeRegistry - " ++ token.text
  | notASpecification token => "Failed to find type in TypeRegistry - " ++ token.text

end RegistryError

/-- The next row that each of the three tables gives out. The counters have no bound. A token keeps the low
twenty-four bits of one (`Token.ofRow_mod`), so counters of thirty-two bits would give out the same rows
until one of them has counted through all its bits. -/
structure NextRows where
  reference : Nat
  definition : Nat
  specification : Nat
deriving DecidableEq, Repr

namespace NextRows

def get (rows : NextRows) : TypeTable → Nat
  | .reference => rows.reference
  | .definition => rows.definition
  | .specification => rows.specification

def set (rows : NextRows) (row : Nat) : TypeTable → NextRows
  | .reference => { rows with reference := row }
  | .definition => { rows with definition := row }
  | .specification => { rows with specification := row }

@[simp] theorem get_set_self (rows : NextRows) (row : Nat) (table : TypeTable) :
    (rows.set row table).get table = row := by
  cases table <;> rfl

theorem get_set_of_ne (rows : NextRows) (row : Nat) {table other : TypeTable}
    (hOther : other ≠ table) : (rows.set row table).get other = rows.get other := by
  cases table <;> cases other <;> first | rfl | exact absurd rfl hOther

end NextRows

/-- Assemblies, modules and types. -/
structure Registry where
  assemblies : Array AssemblyIdentity
  modules : Array ModuleEntry
  types : TokenTable
  nextRows : NextRows
deriving DecidableEq, Repr

namespace Registry

/-- The registry with nothing in it. Rows are given out from one on. -/
def empty : Registry where
  assemblies := #[]
  modules := #[]
  types := []
  nextRows := ⟨1, 1, 1⟩

/-- What a token names. -/
def type? (registry : Registry) (token : Token) : Option TypeEntry :=
  TokenTable.get? registry.types token

/-- The registry as the place where tokens and handles are looked up. -/
def source (registry : Registry) : TypeSource where
  type? := registry.type?
  module? := fun id => registry.modules[id.index]?
  assembly? := fun id => registry.assemblies[id.index]?

/-- Adds an assembly. -/
def addAssembly (registry : Registry) (identity : AssemblyIdentity) : AssemblyId × Registry :=
  (⟨registry.assemblies.size⟩,
    { registry with assemblies := registry.assemblies.push identity })

/-- Adds a module. -/
def addModule (registry : Registry) (entry : ModuleEntry) : ModuleId × Registry :=
  (⟨registry.modules.size⟩, { registry with modules := registry.modules.push entry })

/-- Adds an entry at the next row of its table. -/
def add (registry : Registry) (entry : TypeEntry) : Token × Registry :=
  let row := registry.nextRows.get entry.table
  let token := Token.ofRow entry.table row
  (token, { registry with
    types := TokenTable.insert token entry registry.types
    nextRows := registry.nextRows.set (row + 1) entry.table })

end Registry

/-- A change of a registry that may be refused. Whatever it has done by then is not taken back. -/
abbrev Registering := EStateM RegistryError Registry

namespace Registering

/-- Adds an entry at a token of the caller's choice. The token must name a row of the entry's table
that is not taken. Rows given out later lie behind it. -/
def insert (token : Token) (entry : TypeEntry) : Registering Unit := do
  let registry ← get
  if token.row = 0 ∨ token.table ≠ entry.table.code ∨ (registry.type? token).isSome then
    throw (.cannotInsert token)
  let row := max (registry.nextRows.get entry.table) (token.row + 1)
  modify fun registry => { registry with nextRows := registry.nextRows.set row entry.table }
  modify fun registry => { registry with types := TokenTable.insert token entry registry.types }

/-- Sets the signature of a type that is built from one. -/
def setSignature (token : Token) (signature : Option NodeId) : Registering Unit := do
  match (← get).type? token with
  | some (.specification _) =>
    modify fun registry =>
      { registry with types := TokenTable.insert token (.specification signature) registry.types }
  | _ => throw (.notASpecification token)

/-- The registry after a change, or why the change is refused. -/
def outcome (change : Registering Unit) (registry : Registry) : Except RegistryError Registry :=
  match change registry with
  | .ok _ after => .ok after
  | .error error _ => .error error

end Registering

namespace Registry

/-- The registry with an entry added at a token of the caller's choice. -/
def insert (registry : Registry) (token : Token) (entry : TypeEntry) :
    Except RegistryError Registry :=
  (Registering.insert token entry).outcome registry

/-- The registry with the signature of a type set that is built from one. -/
def setSignature (registry : Registry) (token : Token) (signature : Option NodeId) :
    Except RegistryError Registry :=
  (Registering.setSignature token signature).outcome registry

/-- The first token, in order, that names a type with the given namespace and name. Types built from
a signature are never found. -/
def find? (registry : Registry) (namespaceName name : String) : Option Token :=
  (registry.types.find? fun entry =>
    entry.2.table != .specification && entry.2.namespaceName == namespaceName
      && entry.2.name == name).map (·.1)

end Registry

end CliSignature
