import ChartFold.Proofs.Encodings.Drawing
import ChartFold.Proofs.Panel.Charts

/-! Which panel decides how a gathered panel shows a datum. The operation starts with one panel, the
extended heads are laid under it one by one, and the first of all these that shows the datum has its
way. -/
namespace ChartFold

/-- What a datum shows where each encoding is laid over those after it. -/
def Encoding.layAll (shown : List (Option Encoding)) : Option Encoding :=
  shown.foldr (fun high low => lay low high) none

/-! A look whose chart has been drawn -/

namespace Look
variable {l : Look} {c : Chart} {flow : Flow} {before : Encodings}

theorem Draws.keeps (h : l.Draws c flow before) (x : Datum) :
    l.encodings.Keeps (c.drawing flow) x := by
  rw [h.encodings]
  exact c.keeps_drawing flow before x

theorem Draws.eligible (h : l.Draws c flow before) (hmet : c.ineligible flow before = []) :
    c.ineligible flow l.encodings = [] := by
  rw [h.encodings]
  exact Chart.ineligible_writeAll hmet

theorem Draws.shows (h : l.Draws c flow before) (hmet : c.ineligible flow before = [])
    {patch : Datum × Patch} (hpatch : patch ∈ c.drawing flow) :
    (l.encodings.get? patch.1).isSome := by
  rw [h.encodings]
  exact Chart.isSome_of_drawn hmet hpatch

theorem Draws.shows_complete (h : l.Draws c flow before) {patch : Datum × Patch}
    (hpatch : patch ∈ c.drawing flow) (hcomplete : patch.2.toEncoding?.isSome) :
    (l.encodings.get? patch.1).isSome := by
  rw [h.encodings, Encodings.get?_writeAll]
  exact Encodings.isSome_patched_of_mem hpatch hcomplete _

theorem Draws.isSome_input (h : l.Draws c flow before) (hmet : c.ineligible flow before = [])
    {m : Encodings} {x : Datum} (hx : x ∈ c.ineligible flow m) :
    (l.encodings.get? x).isSome := by
  obtain ⟨hinput, marks, hmarks, -⟩ := Chart.mem_ineligible.mp hx
  obtain ⟨e, he, -⟩ := Chart.ineligible_eq_nil_iff.mp (h.eligible hmet) x hinput marks hmarks
  exact Option.isSome_of_eq_some he

end Look

namespace Panel
variable {own head p q gathered : Panel} {panels heads extended : List Panel} {rules : Rules}
  {forest : Forest} {op : Operation} {profile : Profile} {declared : Option Chart} {x : Datum}
  {wanted c : Chart} {d : Nat}

def source? (x : Datum) (panels : List Panel) : Option Panel :=
  panels.find? (·.encodings.contains x)

theorem get?_overlayAll (declared : Option Chart) (own : Panel) (extended : List Panel)
    (x : Datum) : (overlayAll declared own extended).encodings.get? x =
      Encoding.layAll ((own :: extended).map (·.encodings.get? x)) := by
  induction extended generalizing own with
  | nil => exact (Encoding.none_lay _).symm
  | cons p extended ih =>
    calc
      (overlayAll declared own (p :: extended)).encodings.get? x
        = Encoding.layAll ((p.overlay own declared :: extended).map (·.encodings.get? x)) :=
          ih (p.overlay own declared)
      _ = Encoding.lay (Encoding.layAll (extended.map (·.encodings.get? x)))
            (Encoding.lay (p.encodings.get? x) (own.encodings.get? x)) := by
          rw [← Encodings.get?_union]
          rfl
      _ = Encoding.layAll ((own :: p :: extended).map (·.encodings.get? x)) :=
          (Encoding.lay_assoc _ _ _).symm

theorem layAll_of_source? (h : source? x panels = some q) : ∃ low e, q.encodings.get? x = some e ∧
    Encoding.layAll (panels.map (·.encodings.get? x)) = Encoding.lay low (some e) := by
  induction panels with
  | nil => cases h
  | cons p panels ih =>
    rw [source?, List.find?_cons, Encodings.contains_eq_isSome] at h
    cases hp : p.encodings.get? x with
    | none =>
      rw [hp] at h
      obtain ⟨low, e, he, hlay⟩ := ih h
      refine ⟨low, e, he, ?_⟩
      rw [← hlay, List.map_cons, hp]
      rfl
    | some e =>
      rw [hp] at h
      cases h
      refine ⟨Encoding.layAll (panels.map (·.encodings.get? x)), e, hp, ?_⟩
      rw [List.map_cons, hp]
      rfl

theorem layAll_of_source?_none (h : source? x panels = none) :
    Encoding.layAll (panels.map (·.encodings.get? x)) = none := by
  induction panels with
  | nil => rfl
  | cons p panels ih =>
    rw [source?, List.find?_cons, Encodings.contains_eq_isSome] at h
    cases hp : p.encodings.get? x with
    | none =>
      rw [hp] at h
      rw [← ih h, List.map_cons, hp]
      rfl
    | some e =>
      rw [hp] at h
      cases h

theorem not_isSome_of_source?_none (h : source? x panels = none) (hp : p ∈ panels) :
    ¬ (p.encodings.get? x).isSome := by
  rw [← Encodings.contains_eq_isSome]
  exact List.find?_eq_none.mp h p hp

theorem source?_of_isSome (h : (own.encodings.get? x).isSome) (extended : List Panel) :
    source? x (own :: extended) = some own := by
  rw [source?, List.find?_cons, Encodings.contains_eq_isSome, h]

theorem exists_chart_of_overlayAll (h : (overlayAll declared own extended).chart = some c) :
    ∃ q ∈ own :: extended, q.chart = some c := by
  induction extended generalizing own with
  | nil => exact ⟨own, by simp, h⟩
  | cons p extended ih =>
    obtain ⟨q, hq, hc⟩ := ih h
    obtain rfl | hq := List.mem_cons.mp hq
    · obtain hc | hc := overlaidChart_eq_some hc
      · exact ⟨p, by simp, hc⟩
      · exact ⟨own, by simp, hc⟩
    · exact ⟨q, by simp [hq], hc⟩

/-- One of the heads is bound, and a rule composes its chart with the wanted one to the given
chart. -/
def Composed (rules : Rules) (wanted c : Chart) (heads : List Panel) : Prop :=
  ∃ head ∈ heads, ∃ own rule, head.chart = some own ∧
    rules.composition? own wanted = some rule ∧ rule.resultChart = c

/-- The panel `gathered` is what the operation starts with, `own`, laid over the extended heads. -/
structure Laid (forest : Forest) (rules : Rules) (op : Operation) (d : Nat) (wanted : Chart)
    (heads : List Panel) (own : Panel) (extended : List Panel) (gathered : Panel) : Prop where
  starts : (start op d rules).result = .ok own
  grown : List.Forall₂ (fun head p => (head.extend op forest rules).result = .ok p) heads extended
  lays : gathered = overlayAll (some wanted) own extended

theorem exists_laid {orphans : List Panel} (hprofile : rules.profile? op.kind = some profile)
    (hwanted : profile.chart = some wanted)
    (h : (gather op d heads forest rules).result = .ok (orphans ++ [gathered])) :
    ∃ own extended, Laid forest rules op d wanted (byTop (joining rules (some wanted) heads)) own
      extended gathered := by
  obtain ⟨profile', own, gathered', hprofile', -, hown, hfold, hlist⟩ := gather_eq_ok.mp h
  cases hprofile.symm.trans hprofile'
  rw [hwanted] at hfold hlist
  obtain ⟨-, hlast⟩ := List.append_inj' hlist rfl
  cases hlast
  obtain ⟨extended, hextended, hlays⟩ := foldHeads_eq_ok_iff.mp hfold
  exact ⟨own, extended, hown, hextended, hlays⟩

namespace Laid
variable (hlaid : Laid forest rules op d wanted heads own extended gathered)
  (hprofile : rules.profile? op.kind = some profile) (hwanted : profile.chart = some wanted)

include hlaid

theorem get?_of_source? (h : source? x (own :: extended) = some q) : ∃ low e,
    q.encodings.get? x = some e ∧ gathered.encodings.get? x = Encoding.lay low (some e) := by
  rw [hlaid.lays, get?_overlayAll]
  exact layAll_of_source? h

theorem get?_of_source?_none (h : source? x (own :: extended) = none) :
    gathered.encodings.get? x = none := by
  rw [hlaid.lays, get?_overlayAll]
  exact layAll_of_source?_none h

theorem exists_chart (hc : gathered.chart = some c) : ∃ q ∈ own :: extended, q.chart = some c := by
  rw [hlaid.lays] at hc
  exact exists_chart_of_overlayAll hc

theorem own_drawn (hc : own.chart = some c) : ∃ before, c.ineligible op.toFlow before = [] ∧
    own.look.Draws c op.toFlow before := by
  obtain ⟨profile, -, rfl⟩ := start_eq_ok_iff.mp hlaid.starts
  exact (Look.start_bound hc).2

theorem ineligible_of_own (hown : own.chart = some c) :
    c.ineligible op.toFlow gathered.encodings = [] := by
  obtain ⟨before, hmet, hdraws⟩ := hlaid.own_drawn hown
  refine List.eq_nil_iff_forall_not_mem.mpr fun x hx => ?_
  have hsource := source?_of_isSome (hdraws.isSome_input hmet hx) extended
  obtain ⟨low, e, he, hlay⟩ := hlaid.get?_of_source? hsource
  have hineligible := (Chart.mem_ineligible_of_lay he hlay).mp hx
  rw [show c.ineligible op.toFlow own.encodings = [] from hdraws.eligible hmet] at hineligible
  cases hineligible

include hprofile hwanted

theorem own_chart (hfree : wanted.requiredMarks = none) : own.chart = some wanted := by
  obtain ⟨profile', hprofile', rfl⟩ := start_eq_ok_iff.mp hlaid.starts
  cases hprofile.symm.trans hprofile'
  refine ((Look.chart_start profile op.toFlow).resolve_left fun hunbound => ?_).trans hwanted
  have hasks := Look.start_unbound hunbound wanted hwanted
  rw [hfree] at hasks
  cases hasks

/-- Where a part is bound, its chart has been drawn for the operation, with its requirements met or
by a composition. -/
theorem drawn (hq : q ∈ own :: extended) (hc : q.chart = some c) :
    ∃ before, q.look.Draws c op.toFlow before ∧
      (c.ineligible op.toFlow before = [] ∨ Composed rules wanted c heads) := by
  obtain rfl | hq := List.mem_cons.mp hq
  · obtain ⟨before, hmet, hdraws⟩ := hlaid.own_drawn hc
    exact ⟨before, hdraws, Or.inl hmet⟩
  · obtain ⟨head, hhead, hextend⟩ := Except.exists_left hlaid.grown hq
    obtain ⟨profile', child, l, hprofile', hl, rfl⟩ := exists_look_of_extend hextend
    cases hprofile.symm.trans hprofile'
    obtain ⟨before, hdraws, hmet | ⟨chart, rule, hchart, hrule, hresult⟩⟩ :=
      Look.draws_of_extend hl hwanted hc
    · exact ⟨before, hdraws, Or.inl hmet⟩
    · exact ⟨before, hdraws, Or.inr ⟨head, hhead, chart, rule, hchart, hrule, hresult⟩⟩

theorem keeps (hc : gathered.chart = some c)
    (h : ∀ q, source? x (own :: extended) = some q → q.chart = some c) :
    gathered.encodings.Keeps (c.drawing op.toFlow) x := by
  cases hsource : source? x (own :: extended) with
  | some q =>
    obtain ⟨before, hdraws, -⟩ := hlaid.drawn hprofile hwanted (List.mem_of_find?_eq_some hsource)
      (h q hsource)
    obtain ⟨low, e, he, hlay⟩ := hlaid.get?_of_source? hsource
    exact (hdraws.keeps x).of_lay he hlay
  | none =>
    rw [Encodings.keeps_iff, hlaid.get?_of_source?_none hsource]
    -- a chart that encodes the datum has done so wherever it was drawn
    by_contra hne
    obtain ⟨e, he⟩ := Option.ne_none_iff_exists'.mp hne
    obtain ⟨patch, hpatch, rfl, hcomplete⟩ := Encodings.exists_complete_of_patched he
    obtain ⟨q, hq, hqc⟩ := hlaid.exists_chart hc
    obtain ⟨before, hdraws, -⟩ := hlaid.drawn hprofile hwanted hq hqc
    exact not_isSome_of_source?_none hsource hq (hdraws.shows_complete hpatch hcomplete)

theorem keeps_of_own (hc : gathered.chart = some c) (hown : own.chart = some c) :
    gathered.encodings.Keeps (c.drawing op.toFlow) x := by
  by_cases hdrawn : ∃ patch ∈ c.drawing op.toFlow, patch.1 = x
  · obtain ⟨patch, hpatch, rfl⟩ := hdrawn
    obtain ⟨before, hmet, hdraws⟩ := hlaid.own_drawn hown
    refine hlaid.keeps hprofile hwanted hc fun q hq => ?_
    rw [source?_of_isSome (hdraws.shows hmet hpatch)] at hq
    cases hq
    exact hown
  · rw [Encodings.keeps_iff]
    exact Encodings.patched_of_forall_ne (fun patch hpatch hx => hdrawn ⟨patch, hpatch, hx⟩) _

theorem ineligible (hc : gathered.chart = some c)
    (hx : x ∈ c.ineligible op.toFlow gathered.encodings) :
    (∃ q, source? x (own :: extended) = some q ∧ q.chart ≠ some c ∧
      x ∈ c.ineligible op.toFlow q.encodings) ∨ Composed rules wanted c heads := by
  cases hsource : source? x (own :: extended) with
  | some q =>
    obtain ⟨low, e, he, hlay⟩ := hlaid.get?_of_source? hsource
    have hq := (Chart.mem_ineligible_of_lay he hlay).mp hx
    by_cases hqc : q.chart = some c
    · obtain ⟨before, hdraws, hmet | hcomposed⟩ :=
        hlaid.drawn hprofile hwanted (List.mem_of_find?_eq_some hsource) hqc
      · rw [show c.ineligible op.toFlow q.encodings = [] from hdraws.eligible hmet] at hq
        cases hq
      · exact Or.inr hcomposed
    · exact Or.inl ⟨q, rfl, hqc, hq⟩
  | none =>
    -- whatever is bound with its requirements met shows the input
    obtain ⟨q, hq, hqc⟩ := hlaid.exists_chart hc
    obtain ⟨before, hdraws, hmet | hcomposed⟩ := hlaid.drawn hprofile hwanted hq hqc
    · exact absurd (hdraws.isSome_input hmet hx) (not_isSome_of_source?_none hsource hq)
    · exact Or.inr hcomposed

end Laid

end Panel

end ChartFold
