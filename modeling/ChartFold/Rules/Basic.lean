import ChartFold.Rules.Composition
import ChartFold.Rules.Grammar

/-!
The rules that charts are chosen by: the profiles of the operations, and which charts compose.
-/
namespace ChartFold

structure Rules where
  grammar : Grammar := {}
  compositions : Compositions := {}
deriving DecidableEq, Inhabited

namespace Rules

def profile? (rules : Rules) (kind : OpKind) : Option Profile := rules.grammar.get? kind

def composition? (rules : Rules) (child parent : Chart) : Option Composition :=
  rules.compositions.permitted? child parent

def composes (rules : Rules) (child parent : Chart) : Bool :=
  rules.compositions.composes child parent

/-- The ties of the rule for the two charts; none without such a rule. -/
def ties (rules : Rules) (childChart parentChart : Chart) (child parent : Flow) :
    List (Datum × Patch) :=
  match rules.composition? childChart parentChart with
  | some rule => rule.ties child parent
  | none => []

end Rules

end ChartFold
