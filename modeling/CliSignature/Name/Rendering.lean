/-!
Pieces of text under a budget of visits. A rendering that runs out of visits says so once and stays
silent from then on; nesting that is too deep is marked wherever it occurs. Both marks read the same
in the text, but they are kept apart until the text is put together.
-/

namespace CliSignature

/-- A piece of a rendered name: a text, or the mark of a limit. -/
inductive Fragment where
  | text (content : String)
  | tooDeep
  | outOfVisits
deriving DecidableEq, Repr

namespace Fragment

/-- What stands in a name where a limit cut it. -/
def mark : String := "<<<INFRECURSION>>>"

def toText : Fragment → String
  | text content => content
  | tooDeep => mark
  | outOfVisits => mark

/-- The text of pieces one after the other. -/
def joinAll (fragments : List Fragment) : String :=
  fragments.foldl (fun text fragment => text ++ fragment.toText) ""

end Fragment

/-- The visits that are left, and whether a visit was refused already. -/
structure Budget where
  remaining : Nat
  spent : Bool
deriving DecidableEq, Repr

/-- A rendering: the pieces it gives, and the budget it leaves. -/
def Rendering : Type := Budget → List Fragment × Budget

namespace Rendering

/-- Gives nothing. -/
def nothing : Rendering := fun budget => ([], budget)

/-- Gives a text. This is no visit. -/
def text (content : String) : Rendering := fun budget => ([.text content], budget)

/-- Marks nesting that is too deep. This is no visit. -/
def tooDeep : Rendering := fun budget => ([.tooDeep], budget)

/-- One rendering after another. -/
def append (first second : Rendering) : Rendering := fun budget =>
  let (left, between) := first budget
  let (right, after) := second between
  (left ++ right, after)

instance : Append Rendering := ⟨append⟩

/-- Renderings one after the other, with a text between each two. -/
def separated (separator : String) : List Rendering → Rendering
  | [] => nothing
  | [only] => only
  | first :: rest => first ++ text separator ++ separated separator rest

/-- Renderings one after the other, with a text before each. -/
def each (lead : String) : List Rendering → Rendering
  | [] => nothing
  | first :: rest => text lead ++ first ++ each lead rest

/-- A visit that pays for itself. Without budget it gives a mark if it is the first to be refused,
and nothing otherwise. -/
def visit (rendering : Rendering) : Rendering := fun budget =>
  match budget.remaining with
  | 0 => if budget.spent then ([], budget) else ([.outOfVisits], { budget with spent := true })
  | left + 1 => rendering { budget with remaining := left }

/-- A rendering and, unless a visit was refused in it or before it, another one behind it. -/
def unlessSpent (first second : Rendering) : Rendering := fun budget =>
  let (left, between) := first budget
  if between.spent then (left, between)
  else
    let (right, after) := second between
    (left ++ right, after)

/-- The text of a rendering that starts with the given number of visits. -/
def run (rendering : Rendering) (visits : Nat) : String :=
  Fragment.joinAll (rendering ⟨visits, false⟩).1

end Rendering

end CliSignature
