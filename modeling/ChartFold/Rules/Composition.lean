import ChartFold.Chart.Template

/-!
Which chart may be folded into which. A composition rule speaks about one ordered pair of charts,
and a table holds at most one rule for a pair: a list that speaks twice about a pair is no table.
-/
namespace ChartFold

/-- How the chart of the child is anchored when it is folded into that of the parent. -/
inductive Tie where
  /-- The inputs of the child are placed relative to its own result. -/
  | inputsToChildOutput
  /-- The outputs of the child are placed relative to the result of the parent. -/
  | outputsToParentOutput
deriving DecidableEq, Inhabited

structure Terms where
  allowed : Bool
  result : Option Chart := none
  tie : Option Tie := none
deriving DecidableEq, Inhabited

structure Composition extends Terms where
  child : Chart
  parent : Chart
deriving DecidableEq, Inhabited

def tieAll (ds : List Datum) : Option Datum → List (Datum × Patch)
  | some anchor => ds.map fun d => (d, Patch.anchoredTo anchor)
  | none => []

namespace Composition

/-- The chart of the whole; the parent's unless the rule names another. -/
def resultChart (r : Composition) : Chart := r.result.getD r.parent

def ties (r : Composition) (child parent : Flow) : List (Datum × Patch) :=
  match r.tie with
  | none => []
  | some .inputsToChildOutput => tieAll child.inputs child.primary?
  | some .outputsToParentOutput => tieAll child.outputs parent.primary?

end Composition

/-- Charts in pairs of child and parent, by the child first. -/
def pairOrder : Chart × Chart → Chart × Chart → Ordering :=
  compareLex (compareOn Prod.fst) (compareOn Prod.snd)

instance : Std.TransCmp pairOrder :=
  inferInstanceAs (Std.TransCmp (compareLex (compareOn Prod.fst) (compareOn Prod.snd)))

instance : Std.LawfulEqCmp pairOrder where
  eq_of_compare {a b} h := by
    have h' : (compareOn Prod.fst a b).then (compareOn Prod.snd a b) = .eq := h
    rw [Ordering.then_eq_eq] at h'
    exact Prod.ext (Std.LawfulEqCmp.eq_of_compare h'.1) (Std.LawfulEqCmp.eq_of_compare h'.2)

structure Compositions where
  entries : Std.ExtTreeMap (Chart × Chart) Terms pairOrder := ∅
deriving DecidableEq

/-- A pair of charts that a list of rules speaks about a second time. -/
structure RepeatedPair where
  child : Chart
  parent : Chart
deriving DecidableEq, Inhabited

def RepeatedPair.message (d : RepeatedPair) : String :=
  s!"Duplicate composition rule for '{d.child.name}' into '{d.parent.name}'"

namespace Compositions

instance : Inhabited Compositions := ⟨{}⟩

def get? (t : Compositions) (child parent : Chart) : Option Composition :=
  t.entries[(child, parent)]?.map fun terms => { terms with child, parent }

def permitted? (t : Compositions) (child parent : Chart) : Option Composition :=
  (t.get? child parent).filter (·.allowed)

def composes (t : Compositions) (child parent : Chart) : Bool :=
  (t.permitted? child parent).isSome

def size (t : Compositions) : Nat := t.entries.size

def isEmpty (t : Compositions) : Bool := t.entries.isEmpty

def toList (t : Compositions) : List Composition :=
  t.entries.toList.map fun ((child, parent), terms) => { terms with child, parent }

def add (t : Compositions) (r : Composition) : Except RepeatedPair Compositions :=
  if t.entries.contains (r.child, r.parent) then .error ⟨r.child, r.parent⟩
  else .ok ⟨t.entries.insert (r.child, r.parent) r.toTerms⟩

def ofList (rules : List Composition) : Except RepeatedPair Compositions :=
  rules.foldlM add {}

@[ext] theorem ext_get? {s t : Compositions}
    (h : ∀ child parent, s.get? child parent = t.get? child parent) : s = t := by
  cases s with | mk s => cases t with | mk t =>
  congr 1
  refine Std.ExtTreeMap.ext_getElem? fun (child, parent) => ?_
  have := h child parent
  simp only [get?] at this
  cases hs : s[(child, parent)]? <;> cases ht : t[(child, parent)]? <;> simp_all

end Compositions

end ChartFold
