import ChartFold.Proofs.Explain.Heads
import ChartFold.Proofs.Panel.Sources

/-! What becomes of a drawn chart when heads are laid over one another. What an operation starts
with comes out on top, so that it can hide what was drawn or found eligible in a head. -/
namespace ChartFold.Forest
open Panel
variable {f : Forest} {rules : Rules} {op : Operation} {profile : Profile} {wanted c : Chart}
  {d : Nat} {heads orphans : List Panel} {gathered : Panel}

/-- The panel that an operation gathers shows its chart as drawn for the operation, if the operation
started with that chart; it does with a chart that it declares and that asks for nothing. Otherwise
drawing the chart once more changes at most the data whose source, the first part that shows them,
is not bound to it. -/
theorem gather_drawing (hprofile : rules.profile? op.kind = some profile)
    (hwanted : profile.chart = some wanted)
    (hgather : (gather op d heads f rules).result = .ok (orphans ++ [gathered]))
    (hc : gathered.chart = some c) :
    ∃ own extended, Laid f rules op d wanted (byTop (joining rules (some wanted) heads)) own
        extended gathered ∧
      (c = wanted → c.requiredMarks = none → own.chart = some c) ∧
      (own.chart = some c →
        gathered.encodings.writeAll (c.drawing op.toFlow) = gathered.encodings) ∧
      ∀ x, (gathered.encodings.writeAll (c.drawing op.toFlow)).get? x ≠ gathered.encodings.get? x →
        ∃ q, source? x (own :: extended) = some q ∧ q.chart ≠ some c := by
  obtain ⟨own, extended, hlaid⟩ := exists_laid hprofile hwanted hgather
  refine ⟨own, extended, hlaid, fun hdeclared hfree => ?_, fun hown => ?_, fun x hx => ?_⟩
  · subst hdeclared
    exact hlaid.own_chart hprofile hwanted hfree
  · exact Encodings.writeAll_eq_self fun x => hlaid.keeps_of_own hprofile hwanted hc hown
  · by_contra hnone
    refine hx (hlaid.keeps hprofile hwanted hc fun q hq => ?_)
    by_contra hne
    exact hnone ⟨q, hq, hne⟩

/-! Three operations over one leaf each. The sum composes the chart of its leaf to one that it does
not want itself. Both means want a distribution, and by default show their output as a bar; the
first leaf is unbound and takes the chart over, the second is bound and composed. -/

def countRules : Rules where
  grammar := .ofList [
    ("count", { operand := .any, product := .scalar, chart := some .spacefilling }),
    ("scalar_sum", { operand := .scalar, product := .scalar, chart := some .stackedBar }),
    ("series", {
      operand := .any, product := .vector
      defaultLook := some { mark := .line, channel := .position } }),
    ("mean", {
      operand := .any, product := .scalar, chart := some .distribution
      defaultLook := some { mark := .bar, channel := .length } })]
  compositions := (Compositions.ofList [
    { child := .spacefilling, parent := .stackedBar, allowed := true
      result := some .barComparison },
    { child := .spacefilling, parent := .distribution, allowed := true }]).toOption.getD {}

def countCalls : List Call := [
  .add "total" none "scalar_sum" { inputs := ["a"], outputs := ["total"] },
  .add "a" (some 0) "count" { outputs := ["a"] },
  .add "average" none "mean" { inputs := ["y"], outputs := ["average"] },
  .add "y" (some 2) "series" { outputs := ["y"] },
  .add "level" none "mean" { inputs := ["z"], outputs := ["level"] },
  .add "z" (some 4) "count" { outputs := ["z"] }]

def counts : Forest := empty.replay countCalls

theorem reachable_counts : counts.Reachable := ⟨countCalls, rfl⟩

def countRoot (id : OpId) (kind : OpKind) (name input : Datum) : Operation :=
  { id, name, kind, children := [id + 1], inputs := [input], outputs := [name] }

def countLeaf (id : OpId) (kind : OpKind) (name : Datum) : Operation :=
  { id := id + 1, name, kind, parent := some id, outputs := [name] }

def totalOp : Operation := countRoot 0 "scalar_sum" "total" "a"

def averageOp : Operation := countRoot 2 "mean" "average" "y"

def levelOp : Operation := countRoot 4 "mean" "level" "z"

def leafPanel (id : OpId) (chart : Option Chart) (shown : Datum × Encoding) : Panel :=
  { top := id, members := #[id], chart, encodings := .ofList [shown], depth := 1 }

def rootPanel (id : OpId) (chart : Chart) (shown : List (Datum × Encoding)) : Panel :=
  { top := id, members := #[id + 1, id], chart := some chart, encodings := .ofList shown
    depth := 1 }

def totalHead : Panel :=
  leafPanel 1 (some .spacefilling) ("a", { mark := .bar, channel := .length })

def averageHead : Panel :=
  leafPanel 3 none ("y", { mark := .line, channel := .position })

def levelHead : Panel :=
  leafPanel 5 (some .spacefilling) ("z", { mark := .bar, channel := .length })

def totalPanel : Panel :=
  rootPanel 0 .barComparison [("a", { mark := .area, channel := .scalarLocation })]

def averagePanel : Panel := rootPanel 2 .distribution [
  ("y", { mark := .line, channel := .position, axis := some .x }),
  ("average", { mark := .bar, channel := .length, axis := some .x })]

def levelPanel : Panel := rootPanel 4 .distribution [
  ("z", { mark := .bar, channel := .length, axis := some .x }),
  ("level", { mark := .bar, channel := .length, axis := some .x })]

theorem gather_total :
    (gather totalOp 0 [totalHead] counts countRules).result = .ok [totalPanel] :=
  gather_singleton rfl rfl rfl rfl rfl

theorem gather_average :
    (gather averageOp 0 [averageHead] counts countRules).result = .ok [averagePanel] :=
  gather_singleton rfl rfl rfl rfl rfl

theorem gather_level :
    (gather levelOp 0 [levelHead] counts countRules).result = .ok [levelPanel] :=
  gather_singleton rfl rfl rfl rfl rfl

/-- The bar that the mean starts with hides the line that the distribution draws. -/
theorem gather_drawing_average : ∃ own extended, Laid counts countRules averageOp 0 .distribution
      (byTop (joining countRules (some .distribution) [averageHead])) own extended averagePanel ∧
    ∃ q, source? "average" (own :: extended) = some q ∧ q.chart ≠ some .distribution := by
  have hgather : (gather averageOp 0 [averageHead] counts countRules).result =
      .ok ([] ++ [averagePanel]) := gather_average
  obtain ⟨own, extended, hlaid, -, -, hchanged⟩ := gather_drawing rfl rfl hgather rfl
  exact ⟨own, extended, hlaid, hchanged "average" (by decide)⟩

/-- The area that the sum starts with hides the bar that the comparison draws. -/
theorem not_always_drawn : ¬ ∀ (f : Forest) (rules : Rules) (op : Operation) (profile : Profile)
    (c : Chart) (d : Nat) (heads orphans : List Panel) (gathered : Panel),
    f.Reachable → f.get? op.id = some op → rules.profile? op.kind = some profile →
    profile.chart.isSome → f.HandedTo rules op d heads →
    (gather op d heads f rules).result = .ok (orphans ++ [gathered]) → gathered.chart = some c →
    gathered.encodings.writeAll (c.drawing op.toFlow) = gathered.encodings := by
  intro hall
  have hchildren : totalOp.children = [(countLeaf 0 "count" "a").id] := rfl
  have hheads : counts.HandedTo countRules totalOp 0 [totalHead] :=
    handedTo_leaf reachable_counts.wellFormed hchildren rfl rfl rfl
  have hsame := hall counts countRules totalOp _ .barComparison 0 [totalHead] [] totalPanel
    reachable_counts rfl rfl rfl hheads gather_total rfl
  have hbar := congrArg (·.get? "a") hsame
  revert hbar
  decide

/-- The inputs of the operation are eligible for the chart of the panel that it gathers, if the
operation started with that chart. Otherwise an input that is not has a source that is bound to
another chart, or some head is composed to the chart. -/
theorem gather_eligible (hprofile : rules.profile? op.kind = some profile)
    (hwanted : profile.chart = some wanted)
    (hgather : (gather op d heads f rules).result = .ok (orphans ++ [gathered]))
    (hc : gathered.chart = some c) :
    ∃ own extended, Laid f rules op d wanted (byTop (joining rules (some wanted) heads)) own
        extended gathered ∧
      (own.chart = some c → c.ineligible op.toFlow gathered.encodings = []) ∧
      ∀ x ∈ c.ineligible op.toFlow gathered.encodings,
        (∃ q, source? x (own :: extended) = some q ∧ q.chart ≠ some c ∧
          x ∈ c.ineligible op.toFlow q.encodings) ∨
        Composed rules wanted c (byTop (joining rules (some wanted) heads)) := by
  obtain ⟨own, extended, hlaid⟩ := exists_laid hprofile hwanted hgather
  exact ⟨own, extended, hlaid, hlaid.ineligible_of_own,
    fun x hx => hlaid.ineligible hprofile hwanted hc hx⟩

theorem gather_eligible_level : ∃ own extended, Laid counts countRules levelOp 0 .distribution
      (byTop (joining countRules (some .distribution) [levelHead])) own extended levelPanel ∧
    ((∃ q, source? "z" (own :: extended) = some q ∧ q.chart ≠ some .distribution ∧
        "z" ∈ Chart.distribution.ineligible levelOp.toFlow q.encodings) ∨
      Composed countRules .distribution .distribution
        (byTop (joining countRules (some .distribution) [levelHead]))) := by
  have hgather : (gather levelOp 0 [levelHead] counts countRules).result =
      .ok ([] ++ [levelPanel]) := gather_level
  obtain ⟨own, extended, hlaid, -, hineligible⟩ := gather_eligible rfl rfl hgather rfl
  exact ⟨own, extended, hlaid, hineligible "z" (by decide)⟩

/-- No composition asks whether the inputs are eligible. -/
theorem not_always_eligible : ¬ ∀ (f : Forest) (rules : Rules) (op : Operation)
    (profile : Profile) (c : Chart) (d : Nat) (heads orphans : List Panel) (gathered : Panel),
    f.Reachable → f.get? op.id = some op → rules.profile? op.kind = some profile →
    profile.chart.isSome → f.HandedTo rules op d heads →
    (gather op d heads f rules).result = .ok (orphans ++ [gathered]) → gathered.chart = some c →
    c.ineligible op.toFlow gathered.encodings = [] := by
  intro hall
  have hchildren : levelOp.children = [(countLeaf 4 "count" "z").id] := rfl
  have hheads : counts.HandedTo countRules levelOp 0 [levelHead] :=
    handedTo_leaf reachable_counts.wellFormed hchildren rfl rfl rfl
  have hnone := hall counts countRules levelOp _ .distribution 0 [levelHead] [] levelPanel
    reachable_counts rfl rfl rfl hheads gather_level rfl
  revert hnone
  decide

end ChartFold.Forest
