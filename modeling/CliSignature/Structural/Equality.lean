import CliSignature.Arena
import CliSignature.Limits
import CliSignature.Structural.Book

/-!
Structural equality of signatures. Two nodes are equal if their labels are and their children are
equal one by one; handles play no part in it. Since children may be shared, a pair that was found
equal is not looked into again. Too deep nesting, too many pairs, and a pair that is met again inside
itself all count as not equal.
-/

namespace CliSignature

/-- The state of a comparison: the pairs found equal, the pairs that are being looked into, and the
number of pairs looked into so far. -/
structure PairWalk where
  proven : List (NodeId × NodeId)
  active : List (NodeId × NodeId)
  steps : Nat
deriving DecidableEq, Repr

namespace PairWalk

/-- The state before the first pair. -/
def start : PairWalk := ⟨[], [], 0⟩

/-- The state on the way into a pair. -/
def enter (walk : PairWalk) (pair : NodeId × NodeId) : PairWalk :=
  { walk with active := pair :: walk.active, steps := walk.steps + 1 }

/-- The state on the way out of a pair, for which `equal` was found. -/
def leave (walk : PairWalk) (pair : NodeId × NodeId) (equal : Bool) : PairWalk :=
  { walk with
    active := walk.active.erase pair
    proven := if equal then pair :: walk.proven else walk.proven }

/-- The book of a comparison, which keeps nothing else. -/
def book : Book PairWalk PairWalk (NodeId × NodeId) Bool where
  read := id
  enter := enter
  leave := leave

end PairWalk

/-- A comparison in progress. -/
abbrev Comparing := StateM PairWalk

namespace Comparing

/-- What can be said of two slots before their nodes are looked into. -/
inductive Glance where
  | settled (equal : Bool)
  | undecided (pair : NodeId × NodeId) (left right : Node)
deriving DecidableEq, Repr

/-- Two absent types are equal, an absent type differs from every other, and a handle is equal to
itself. -/
def glance (arena : Arena) (walk : PairWalk) (a b : Option NodeId) : Glance :=
  match arena.resolve? a, arena.resolve? b with
  | none, none => .settled true
  | some (x, left), some (y, right) =>
    if x = y ∨ (x, y) ∈ walk.proven then .settled true else .undecided (x, y) left right
  | _, _ => .settled false

section Walk

variable {σ : Type} (book : Book σ PairWalk (NodeId × NodeId) Bool)
  (nodes : (Option NodeId → Option NodeId → StateM σ Bool) → Node → Node → StateM σ Bool)

/-- Compares two slots with the given number of levels left, whatever book is kept of it. Given how to compare the
children, `nodes` compares two nodes. -/
def withBook (arena : Arena) (limits : Limits) : Nat → Option NodeId → Option NodeId → StateM σ Bool
  | 0, a, b => do
    match glance arena (book.read (← get)) a b with
    | .settled equal => pure equal
    | .undecided _ _ _ => pure false
  | levels + 1, a, b => do
    let walk := book.read (← get)
    match glance arena walk a b with
    | .settled equal => pure equal
    | .undecided pair left right =>
      if limits.resolutionSteps ≤ walk.steps ∨ pair ∈ walk.active then pure false
      else book.visit pair (nodes (withBook arena limits levels) left right)

end Walk

variable (slots : Option NodeId → Option NodeId → Comparing Bool)

/-- Compares children one by one, up to the first two that differ. -/
def children : List (Option NodeId) → List (Option NodeId) → Comparing Bool
  | a :: as, b :: bs => do
    if ← slots a b then children as bs else pure false
  | [], [] => pure true
  | _, _ => pure false

/-- Compares two nodes, where `slots` compares their children. -/
def nodes (left right : Node) : Comparing Bool :=
  if left.label = right.label then children slots left.children right.children else pure false

/-- Looks into a pair of nodes. -/
def into (pair : NodeId × NodeId) (left right : Node) : Comparing Bool :=
  PairWalk.book.visit pair (nodes slots left right)

/-- Compares two slots with the given number of levels left. -/
def within (arena : Arena) (limits : Limits) : Nat → Option NodeId → Option NodeId → Comparing Bool :=
  withBook PairWalk.book nodes arena limits

end Comparing

namespace Arena

/-- Whether the types in two slots are structurally equal, as far as the limits let it be seen. -/
def structurallyEqual (arena : Arena) (limits : Limits) (a b : Option NodeId) : Bool :=
  (Comparing.within arena limits limits.formatDepth a b .start).1

end Arena

end CliSignature
