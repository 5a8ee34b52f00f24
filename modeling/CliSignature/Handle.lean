/-!
Handles of nodes, modules and assemblies. A handle is a bare number and need not refer to anything.
-/

namespace CliSignature

/-- The handle of a node in an arena. -/
structure NodeId where
  index : Nat
deriving DecidableEq, Inhabited, Repr

/-- The handle of a module in a registry. -/
structure ModuleId where
  index : Nat
deriving DecidableEq, Inhabited, Repr

/-- The handle of an assembly in a registry. -/
structure AssemblyId where
  index : Nat
deriving DecidableEq, Inhabited, Repr

end CliSignature
