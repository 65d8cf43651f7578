import ChartFold.Proofs.Panel.Look
import Mathlib.Logic.Relation

/-! How a panel comes to its chart. It is bound when it is started, when it adopts what its parent
wants or when it is composed with that; each time the chart is drawn. What is laid together keeps
the chart of one side. So a panel that is bound stays bound, whatever becomes of it. -/
namespace ChartFold

namespace Look
variable {l m : Look} {rules : Rules} {profile : Profile} {child parent : Flow} {c : Chart}

/-- The look is bound to a chart, which has been drawn for an operation with the given flow. -/
structure Draws (l : Look) (c : Chart) (flow : Flow) (before : Encodings) : Prop where
  chart : l.chart = some c
  encodings : l.encodings = before.writeAll (c.drawing flow)

theorem adopt_cases (l : Look) (c : Chart) (flow : Flow) :
    (c.ineligible flow l.encodings = [] ∧ (l.adopt c flow).Draws c flow l.encodings) ∨
      (c.ineligible flow l.encodings ≠ [] ∧ l.adopt c flow = l) := by
  unfold adopt
  split
  · exact Or.inl ⟨‹_›, rfl, rfl⟩
  · rename_i h
    exact Or.inr ⟨by simp [h], rfl⟩

/-- All that a parent can make of a look: it wants no chart and only adds what it shows by default,
or an unbound look is offered the chart that it wants, or a bound one is composed with that. -/
theorem extend_cases (h : l.extend rules profile child parent = some m) :
    (profile.chart = none ∧ m = l.withDefaults profile parent) ∨
    (∃ wanted, profile.chart = some wanted ∧ l.chart = none ∧
      m = (l.withDefaults profile parent).adopt wanted parent) ∨
    ∃ own wanted rule, profile.chart = some wanted ∧ l.chart = some own ∧
      rules.composition? own wanted = some rule ∧
      m = (l.withDefaults profile parent).compose rule child parent := by
  have hchart : (l.withDefaults profile parent).chart = l.chart := chart_withDefaults _ _ _
  rw [extend] at h
  cases hprofile : profile.chart with
  | none =>
    rw [hprofile, settle_none] at h
    exact Or.inl ⟨rfl, (Option.some.inj h).symm⟩
  | some wanted =>
    rw [hprofile] at h
    cases hown : l.chart with
    | none =>
      rw [settle_of_unbound (hchart.trans hown)] at h
      exact Or.inr (Or.inl ⟨wanted, rfl, rfl, (Option.some.inj h).symm⟩)
    | some own =>
      rw [settle_of_bound (hchart.trans hown)] at h
      obtain ⟨rule, hrule, hm⟩ := Option.map_eq_some_iff.mp h
      exact Or.inr (Or.inr ⟨own, wanted, rule, rfl, rfl, hrule, hm.symm⟩)

theorem start_bound (h : (start profile parent).chart = some c) :
    profile.chart = some c ∧ ∃ before, c.ineligible parent before = [] ∧
      (start profile parent).Draws c parent before := by
  have hblank : (blank.withDefaults profile parent).chart = none := chart_withDefaults _ _ _
  unfold start at h ⊢
  split at h
  · rename_i wanted hwanted
    obtain ⟨hmet, hdraws⟩ | ⟨-, hsame⟩ := adopt_cases (blank.withDefaults profile parent) wanted
      parent
    · have hc := hdraws.chart.symm.trans h
      cases hc
      exact ⟨hwanted, _, hmet, hdraws⟩
    · rw [hsame, hblank] at h
      cases h
  · rw [hblank] at h
    cases h

theorem start_unbound (h : (start profile parent).chart = none) :
    ∀ c ∈ profile.chart, c.requiredMarks.isSome := by
  intro c hc
  unfold start at h
  rw [show profile.chart = some c from hc] at h
  obtain ⟨-, hdraws⟩ | ⟨hunmet, -⟩ := adopt_cases (blank.withDefaults profile parent) c parent
  · rw [hdraws.chart] at h
    cases h
  · cases hasks : c.requiredMarks with
    | some marks => rfl
    | none =>
      rw [Chart.ineligible, hasks] at hunmet
      exact absurd rfl hunmet

theorem isSome_of_extend (h : l.extend rules profile child parent = some m)
    (hl : l.chart.isSome) : m.chart.isSome := by
  obtain ⟨-, rfl⟩ | ⟨wanted, -, hnone, -⟩ | ⟨own, wanted, rule, -, -, -, rfl⟩ := extend_cases h
  · rwa [chart_withDefaults]
  · rw [hnone] at hl
    cases hl
  · rfl

theorem draws_of_extend {wanted : Chart} (h : l.extend rules profile child parent = some m)
    (hwanted : profile.chart = some wanted) (hc : m.chart = some c) :
    ∃ before, m.Draws c parent before ∧ (c.ineligible parent before = [] ∨
      ∃ own rule, l.chart = some own ∧ rules.composition? own wanted = some rule ∧
        rule.resultChart = c) := by
  obtain ⟨hnone, -⟩ | ⟨wanted', hwanted', hunbound, rfl⟩ |
    ⟨own, wanted', rule, hwanted', hown, hrule, rfl⟩ := extend_cases h
  · rw [hwanted] at hnone
    cases hnone
  · obtain ⟨hmet, hdraws⟩ | ⟨-, hsame⟩ := adopt_cases (l.withDefaults profile parent) wanted' parent
    · have heq := hdraws.chart.symm.trans hc
      cases heq
      exact ⟨_, hdraws, Or.inl hmet⟩
    · rw [hsame, chart_withDefaults, hunbound] at hc
      cases hc
  · rw [hwanted] at hwanted'
    cases hwanted'
    cases hc
    exact ⟨_, ⟨rfl, rfl⟩, Or.inr ⟨own, rule, hown, hrule, rfl⟩⟩

theorem chart_of_extend (h : l.extend rules profile child parent = some m)
    (hc : m.chart = some c) : l.chart = some c ∨ profile.chart = some c ∨
      ∃ own wanted rule, profile.chart = some wanted ∧
        rules.composition? own wanted = some rule ∧ rule.resultChart = c := by
  obtain ⟨-, rfl⟩ | ⟨wanted, hwanted, hunbound, rfl⟩ |
    ⟨own, wanted, rule, hwanted, -, hrule, rfl⟩ := extend_cases h
  · rw [chart_withDefaults] at hc
    exact Or.inl hc
  · obtain ⟨-, hdraws⟩ | ⟨-, hsame⟩ := adopt_cases (l.withDefaults profile parent) wanted parent
    · exact Or.inr (Or.inl (hwanted.trans (hdraws.chart.symm.trans hc)))
    · rw [hsame, chart_withDefaults] at hc
      exact Or.inl hc
  · exact Or.inr (Or.inr ⟨own, wanted, rule, hwanted, hrule, Option.some.inj hc⟩)

end Look

namespace Panel
variable {p q acc : Panel} {rules : Rules} {forest : Forest} {parent : Operation}
  {declared : Option Chart} {c : Chart}

/-- What is settled, wherever the panel stands. The flow of its top is only read where two charts
are composed, and then the top is in the forest. -/
theorem exists_look_of_settle {wanted : Option Chart}
    (h : (p.settle wanted parent forest rules).result = .ok q) :
    ∃ child l, p.look.settle rules wanted child parent.toFlow = some l ∧ q = p.redraw l := by
  cases htop : forest.get? p.top with
  | some child => exact ⟨child.toFlow, (settle_eq_ok_iff htop).mp h⟩
  | none =>
    cases wanted with
    | none =>
      rw [result_settle_none] at h
      cases h
      exact ⟨{}, p.look, Look.settle_none _, rfl⟩
    | some chart =>
      cases hown : p.chart with
      | none =>
        rw [result_settle_of_unbound hown] at h
        cases h
        exact ⟨{}, _, Look.settle_of_unbound hown, rfl⟩
      | some own =>
        cases hrule : rules.composition? own chart with
        | none =>
          rw [result_settle_of_refused hown hrule] at h
          cases h
        | some rule =>
          rw [result_settle_of_stray hown (Option.isSome_of_eq_some hrule) htop] at h
          cases h

theorem exists_look_of_extend (h : (p.extend parent forest rules).result = .ok q) :
    ∃ profile child l, rules.profile? parent.kind = some profile ∧
      p.look.extend rules profile child parent.toFlow = some l ∧
        q = (p.redraw l).addMember parent.id := by
  rw [extend] at h
  split at h
  · cases h
  · rename_i profile hprofile
    obtain ⟨settled, hsettled, hq⟩ := Except.bind_eq_ok.mp ((Traced.result_bind _ _).symm.trans h)
    rw [Traced.result_mapError, Except.mapError_eq_ok, withDefaults_eq_redraw] at hsettled
    obtain ⟨child, l, hl, rfl⟩ := exists_look_of_settle hsettled
    cases hq
    exact ⟨profile, child, l, Rules.profileOf_eq_ok.mp hprofile, hl, rfl⟩

theorem isSome_overlaidChart (own acc declared : Option Chart) :
    (overlaidChart own acc declared).isSome = (own.isSome || acc.isSome) := by
  by_cases h : own = none ∨ own = declared
  · rw [overlaidChart_of_plain h, Option.isSome_or, Bool.or_comm]
  · have hown : own.isSome := Option.isSome_iff_ne_none.mpr fun hnone => h (Or.inl hnone)
    rw [overlaidChart_of_not_plain h, hown, Bool.true_or]

theorem overlaidChart_eq_some {own acc : Option Chart}
    (h : overlaidChart own acc declared = some c) : own = some c ∨ acc = some c := by
  unfold overlaidChart at h
  split at h
  · exact (Option.or_eq_some_iff.mp h).symm.imp And.right id
  · exact Or.inl h

end Panel

end ChartFold
