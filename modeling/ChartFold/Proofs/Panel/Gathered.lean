import ChartFold.Proofs.Panel.Charts
import ChartFold.Proofs.Panel.Members
import Mathlib.Data.List.Induction

/-! What an operation gathers from any heads, whoever they belong to, as a function of what it
starts with and of what the heads are once they are extended. The chart is the last one that comes
of a composition to something else than the operation declares; all others only matter without. -/
namespace ChartFold

namespace Panel
variable {rules : Rules} {forest : Forest} {op : Operation} {d : Nat} {profile : Profile}
  {heads list order extended : List Panel} {head own gathered : Panel} {declared : Option Chart}

/-- All that goes into a family that is gathered. The heads that fit are taken in ascending `order`
of their tops, and those of one top as they arrive; `extended` is what the operation makes of them,
and `gathered` what it makes of these and of what it starts with. -/
structure Gathering (forest : Forest) (rules : Rules) (op : Operation) (d : Nat)
    (heads list : List Panel) (profile : Profile) (own : Panel) (order extended : List Panel)
    (gathered : Panel) : Prop where
  known : rules.profile? op.kind = some profile
  starts : (start op d rules).result = .ok own
  ascending : order.Pairwise fun a b => a.top ≤ b.top
  arrival : ∀ id, order.filter (·.top = id) =
    heads.filter fun head => head.top = id ∧ (head.fits op rules).result = .ok true
  grown : List.Forall₂ (fun head p => (head.extend op forest rules).result = .ok p) order extended
  last : list.getLast? = some gathered

theorem joining_eq_filter_fits (hprofile : rules.profile? op.kind = some profile)
    (heads : List Panel) : joining rules profile.chart heads =
      heads.filter fun head => (head.fits op rules).result = .ok true := by
  refine List.filter_congr fun head _ => ?_
  rw [result_fits hprofile]
  cases (head.objection? rules profile.chart).isNone <;> rfl

theorem exists_gathering (h : (gather op d heads forest rules).result = .ok list) :
    ∃ profile own order extended gathered,
      Gathering forest rules op d heads list profile own order extended gathered ∧
        gathered = overlayAll profile.chart own extended := by
  obtain ⟨profile, own, gathered, hprofile, -, hown, hfold, rfl⟩ := gather_eq_ok.mp h
  obtain ⟨extended, hextended, hlays⟩ := foldHeads_eq_ok_iff.mp hfold
  refine ⟨profile, own, byTop (joining rules profile.chart heads), extended, gathered,
    ⟨hprofile, hown, pairwise_byTop _, fun id => ?_, hextended, List.getLast?_concat⟩, hlays⟩
  rw [filter_byTop, joining_eq_filter_fits hprofile, List.filter_filter]
  exact List.filter_congr fun head _ => (Bool.decide_and _ _).symm

/-! The chart of what is laid together -/

def departs (declared chart : Option Chart) : Bool := chart.isSome && chart != declared

/-- The last of the charts that departs from the declared one; where none does, the first that is
bound at all, that of the operation before all others. -/
def prevailing (declared own : Option Chart) (charts : List (Option Chart)) : Option Chart :=
  match (charts.filter (departs declared)).getLast? with
  | some chart => chart
  | none => (own :: charts).findSome? id

theorem departs_eq_false_iff {chart : Option Chart} :
    departs declared chart = false ↔ chart = none ∨ chart = declared := by
  cases chart <;> simp [departs]

theorem departs_iff {chart : Option Chart} :
    departs declared chart ↔ ¬ (chart = none ∨ chart = declared) := by
  rw [← departs_eq_false_iff, Bool.not_eq_false]

theorem prevailing_concat (declared own : Option Chart) (charts : List (Option Chart))
    (chart : Option Chart) : prevailing declared own (charts ++ [chart]) =
      overlaidChart chart (prevailing declared own charts) declared := by
  rw [prevailing, List.filter_append]
  cases hdeparts : departs declared chart with
  | true =>
    rw [overlaidChart_of_not_plain (departs_iff.mp hdeparts), List.filter_cons_of_pos hdeparts,
      List.filter_nil, List.getLast?_concat]
  | false =>
    rw [overlaidChart_of_plain (departs_eq_false_iff.mp hdeparts), prevailing,
      List.filter_cons_of_neg (by simp [hdeparts]), List.filter_nil, List.append_nil]
    cases hlast : (charts.filter (departs declared)).getLast? with
    | some last =>
      have hlast := (List.mem_filter.mp (List.mem_of_getLast? hlast)).2
      rw [departs, Bool.and_eq_true] at hlast
      rw [Option.or_of_isSome hlast.1]
    | none =>
      rw [← List.cons_append, List.findSome?_append]
      cases chart <;> rfl

theorem foldl_overlaidChart (declared own : Option Chart) (charts : List (Option Chart)) :
    charts.foldl (fun acc chart => overlaidChart chart acc declared) own =
      prevailing declared own charts := by
  induction charts using List.reverseRecOn with
  | nil => cases own <;> rfl
  | append_singleton charts chart ih =>
    rw [List.foldl_append, ih, List.foldl_cons, List.foldl_nil, prevailing_concat]

theorem chart_overlayAll (declared : Option Chart) (own : Panel) (extended : List Panel) :
    (overlayAll declared own extended).chart =
      prevailing declared own.chart (extended.map (·.chart)) := by
  rw [← foldl_overlaidChart, List.foldl_map]
  induction extended generalizing own with
  | nil => rfl
  | cons p extended ih => exact ih (p.overlay own declared)

theorem prevailing_of_departs {charts : List (Option Chart)} {chart : Option Chart}
    (own : Option Chart) (hchart : chart ∈ charts) (hdeparts : departs declared chart)
    (honly : ∀ other ∈ charts, departs declared other → other = chart) :
    prevailing declared own charts = chart := by
  rw [prevailing]
  cases hlast : (charts.filter (departs declared)).getLast? with
  | some last =>
    obtain ⟨hmem, hlast⟩ := List.mem_filter.mp (List.mem_of_getLast? hlast)
    exact honly last hmem hlast
  | none =>
    have hnone := List.getLast?_eq_none_iff.mp hlast
    exact absurd hdeparts (by simpa using List.filter_eq_nil_iff.mp hnone chart hchart)

/-- The chart that an operation gathers, whatever heads it is given: the last one that departs from
what it declares, or else the first that is bound, its own before those of the heads. So the result
of a composition survives, wherever it stands among heads that are unbound or bound as declared. -/
theorem gather_chart (h : (gather op d heads forest rules).result = .ok list) :
    ∃ profile own order extended gathered,
      Gathering forest rules op d heads list profile own order extended gathered ∧
      gathered.chart = prevailing profile.chart own.chart (extended.map (·.chart)) ∧
      ∀ p ∈ extended, departs profile.chart p.chart →
        (∀ q ∈ extended, departs profile.chart q.chart → q.chart = p.chart) →
          gathered.chart = p.chart := by
  obtain ⟨profile, own, order, extended, gathered, hgathering, hlays⟩ := exists_gathering h
  have hchart : gathered.chart = prevailing profile.chart own.chart (extended.map (·.chart)) := by
    rw [hlays, chart_overlayAll]
  refine ⟨profile, own, order, extended, gathered, hgathering, hchart, ?_⟩
  intro p hp hdeparts honly
  rw [hchart]
  exact prevailing_of_departs own.chart (List.mem_map_of_mem hp) hdeparts
    (List.forall_mem_map.mpr honly)

/-! A sum over four heads. The chart of the second is composed to one that the sum does not want,
that of the third to the wanted one; the others are unbound, and two of them have one top. -/

def mixedRules : Rules where
  grammar := .ofList [
    ("scalar_sum", { operand := .scalar, product := .scalar, chart := some .stackedBar })]
  compositions := (Compositions.ofList [
    { child := .spacefilling, parent := .stackedBar, allowed := true
      result := some .barComparison },
    { child := .stackedBar, parent := .stackedBar, allowed := true }]).toOption.getD {}

def mixed : Forest := Forest.empty.replay [
  .add "total" none "scalar_sum" { inputs := ["a", "b"], outputs := ["total"] },
  .add "a" (some 0) "count" { outputs := ["a"] },
  .add "b" (some 0) "scalar_sum" { outputs := ["b"] },
  .add "c" (some 0) "scalar" { outputs := ["c"] }]

def mixedSum : Operation :=
  { id := 0, name := "total", kind := "scalar_sum", inputs := ["a", "b"], outputs := ["total"] }

def mixedHead (top : OpId) (member : OpId) (chart : Option Chart) : Panel :=
  { top, members := #[member], chart, encodings := .empty, depth := 1 }

def mixedHeads : List Panel := [mixedHead 3 3 none, mixedHead 1 1 (some .spacefilling),
  mixedHead 3 4 none, mixedHead 2 2 (some .stackedBar)]

def mixedPanel : Panel where
  top := 0
  members := #[2, 0, 1, 3, 4]
  chart := some .barComparison
  encodings := .ofList [
    ("a", { mark := .area, channel := .scalarLocation }),
    ("b", { mark := .area, channel := .scalarLocation })]
  depth := 1

theorem gather_mixed :
    (gather mixedSum 0 mixedHeads mixed mixedRules).result = .ok [mixedPanel] := by
  simp only [gather, byTop_eq_insertionSort]
  decide +kernel

theorem gather_chart_mixed : ∃ profile own order extended,
    Gathering mixed mixedRules mixedSum 0 mixedHeads [mixedPanel] profile own order extended
      mixedPanel ∧
    prevailing profile.chart own.chart (extended.map (·.chart)) = some .barComparison := by
  obtain ⟨profile, own, order, extended, gathered, hgathering, hchart, -⟩ :=
    gather_chart gather_mixed
  obtain rfl : mixedPanel = gathered := Option.some.inj hgathering.last
  exact ⟨profile, own, order, extended, hgathering, hchart.symm⟩

end Panel

end ChartFold
