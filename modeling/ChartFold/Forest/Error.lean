import ChartFold.Flow

/-!
What can go wrong while a forest of operations is built or walked.
-/
namespace ChartFold

/-- The place of an operation in its forest, counted in the order of insertion. -/
abbrev OpId := Nat

def OpId.text (id : OpId) : String := s!"NodeId({id})"

inductive ForestError where
  | unknown (id : OpId)
  | hasParent (child existing : OpId)
  | cycle (child parent : OpId)
  | undeclaredParent (name parent : String)
  | noRoot (name : String)
  | nameTaken (name : String)
deriving DecidableEq, Inhabited

def ForestError.message : ForestError → String
  | unknown id => s!"Unknown node {id.text}"
  | hasParent child existing => s!"Node {child.text} already has parent {existing.text}"
  | cycle child parent => s!"Attaching {child.text} under {parent.text} would create a cycle"
  | undeclaredParent name parent =>
    s!"Node '{name}' references parent '{parent}' before it was declared"
  | noRoot name => s!"Root node '{name}' not found"
  | nameTaken name => s!"Node name '{name}' is declared more than once"

inductive Halt where
  | refused (error : ForestError)
  /-- The counter of the forms of a name overflows, and the program stops. -/
  | overflow (name : String)
deriving DecidableEq, Inhabited

/-- A name of which no form is left counts as taken where only errors are told. -/
def Halt.error : Halt → ForestError
  | refused error => error
  | overflow name => .nameTaken name

end ChartFold
