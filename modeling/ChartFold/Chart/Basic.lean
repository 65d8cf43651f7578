import Std.Data.ExtTreeMap

/-!
Chart types. Six of them are templates that know how to draw an operation; any other name is kept
as it is, so that rules may speak of charts that draw nothing here. The templates come first in the
order of charts, then the other names by code point.
-/
namespace ChartFold

inductive Chart where
  | scatterWithDiagonal
  | stackedBar
  | barComparison
  | barDifference
  | spacefilling
  | distribution
  | custom (name : String)
deriving DecidableEq, Inhabited

namespace Chart

def name : Chart → String
  | scatterWithDiagonal => "scatter-with-diagonal"
  | stackedBar => "stacked-bar"
  | barComparison => "bar-comparison"
  | barDifference => "bar-difference"
  | spacefilling => "spacefilling"
  | distribution => "distribution"
  | custom name => name

def ofName : String → Chart
  | "scatter-with-diagonal" => scatterWithDiagonal
  | "stacked-bar" => stackedBar
  | "bar-comparison" => barComparison
  | "bar-difference" => barDifference
  | "spacefilling" => spacefilling
  | "distribution" => distribution
  | name => custom name

def isCustom : Chart → Bool
  | custom _ => true
  | _ => false

theorem name_ofName (s : String) : (ofName s).name = s := by
  unfold ofName
  split <;> rfl

theorem ofName_name {c : Chart} (h : c.isCustom = false) : ofName c.name = c := by
  cases c with
  | custom s => simp [isCustom] at h
  | _ => rfl

/-- The place among the templates; all other names share the last one. -/
def rank : Chart → Nat
  | scatterWithDiagonal => 0
  | stackedBar => 1
  | barComparison => 2
  | barDifference => 3
  | spacefilling => 4
  | distribution => 5
  | custom _ => 6

def customName : Chart → String
  | custom name => name
  | _ => ""

theorem eq_of_rank_of_customName {a b : Chart} (hr : a.rank = b.rank)
    (hn : a.customName = b.customName) : a = b := by
  cases a <;> cases b <;> simp_all [rank, customName]

protected def compare : Chart → Chart → Ordering :=
  compareLex (compareOn rank) (compareOn customName)

instance : Ord Chart := ⟨Chart.compare⟩

instance : Std.TransOrd Chart :=
  inferInstanceAs (Std.TransCmp (compareLex (compareOn rank) (compareOn customName)))

instance : Std.LawfulEqOrd Chart where
  eq_of_compare {a b} h := by
    have h' : (compareOn rank a b).then (compareOn customName a b) = .eq := h
    rw [Ordering.then_eq_eq] at h'
    exact eq_of_rank_of_customName (Std.LawfulEqCmp.eq_of_compare h'.1)
      (Std.LawfulEqCmp.eq_of_compare h'.2)

def le (a b : Chart) : Bool := (compare a b).isLE

end Chart

end ChartFold
