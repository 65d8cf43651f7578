import ChartFold.Encoding.Spelling
import ChartFold.Forest.Error
import ChartFold.Rules.Basic
import ChartFold.Traced

/-!
What can go wrong while charts are chosen for an operation, and what is noted in the log on the way.
-/
namespace ChartFold

inductive ExplainError where
  | noProfile (kind : OpKind) (name : String)
  /-- The chart needs encodings that the panel does not have for these inputs. -/
  | ineligibleInputs (chart : Chart) (id : OpId) (missing : List Datum)
  | noComposition (child parent : Chart)
  | forest (error : ForestError)
deriving DecidableEq, Inhabited

def ExplainError.message : ExplainError → String
  | noProfile kind name => s!"Unknown operation '{kind}' at node '{name}'"
  | ineligibleInputs chart id missing =>
    s!"Chart '{chart.name}' for node {id.text} needs encoded inputs " ++
      Text.listed Datum.spelled missing
  | noComposition child parent =>
    s!"No composition of '{child.name}' into '{parent.name}'"
  | forest error => error.message

def Chart.spelled : Chart → String
  | scatterWithDiagonal => "ScatterWithDiagonal"
  | stackedBar => "StackedBar"
  | barComparison => "BarComparison"
  | barDifference => "BarDifference"
  | spacefilling => "Spacefilling"
  | distribution => "Distribution"
  | custom name => s!"Custom({Text.quoted name})"

def Shape.spelled : Shape → String
  | scalar => "Scalar"
  | vector => "Vector"
  | any => "Any"

inductive Event where
  | shapeMismatch (parent child : String) (operand produced : Shape)
  | explained (root : String) (operations panels : Nat)
  | rulesLoaded (operations compositions : Nat)
  | startedUnbound (name : String) (reason : ExplainError)
  | objected (parent : String) (reason : ExplainError)
  | adoptionRefused (parent : String) (reason : ExplainError)
  | orphaned (parent : String) (chart : Option Chart)
  | patchDropped (key : Datum) (patch : Patch)
deriving DecidableEq, Inhabited

namespace Event

inductive Level where
  | warn | info | debug | trace
deriving DecidableEq, Inhabited

def Level.name : Level → String
  | warn => "WARN"
  | info => "INFO"
  | debug => "DEBUG"
  | trace => "TRACE"

def level : Event → Level
  | shapeMismatch .. => .warn
  | explained .. | rulesLoaded .. => .info
  | startedUnbound .. | objected .. | adoptionRefused .. | orphaned .. => .debug
  | patchDropped .. => .trace

def message : Event → String
  | shapeMismatch .. => "data shape mismatch"
  | explained .. => "resolved tree"
  | rulesLoaded .. => "loaded rulebook"
  | startedUnbound .. => "seeded unbound"
  | objected .. => "not mergeable"
  | adoptionRefused .. => "type adoption refused"
  | orphaned .. => "orphaned child container"
  | patchDropped .. => "dropping partial patch for unencoded identifier"

def fields : Event → List (String × String)
  | shapeMismatch parent child operand produced =>
    [("parent", parent), ("child", child), ("expected", operand.spelled),
      ("produced", produced.spelled)]
  | explained root operations panels =>
    [("root", root), ("nodes", s!"{operations}"), ("containers", s!"{panels}")]
  | rulesLoaded operations compositions =>
    [("operations", s!"{operations}"), ("compositions", s!"{compositions}")]
  | startedUnbound name reason => [("node", name), ("error", reason.message)]
  | objected parent reason | adoptionRefused parent reason =>
    [("parent", parent), ("error", reason.message)]
  | orphaned parent chart =>
    [("parent", parent), ("chart", Text.optional Chart.spelled chart)]
  | patchDropped key patch => [("key", key), ("patch", patch.spelled)]

end Event

abbrev Explaining := Traced Event ExplainError

end ChartFold
