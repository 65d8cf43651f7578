import ChartFold.Proofs.Forest.Reachable
import ChartFold.Proofs.Panel.Frame

/-! What a panel shows, apart from where it stands: its chart and its encodings. How they change
when a panel is started or extended depends on the profile and on the flows of the operations alone,
and folding heads into their parent is laying each over what was gathered before. -/
namespace ChartFold

structure Look where
  chart : Option Chart
  encodings : Encodings

namespace Look

def blank : Look := ⟨none, .empty⟩

def withDefaults (l : Look) (profile : Profile) (flow : Flow) : Look :=
  match profile.outputEncoding flow.inputs l.encodings with
  | some e => { l with encodings := l.encodings.mergeAt flow.outputs e }
  | none => l

def adopt (l : Look) (chart : Chart) (flow : Flow) : Look :=
  match chart.ineligible flow l.encodings with
  | [] => ⟨some chart, l.encodings.writeAll (chart.drawing flow)⟩
  | _ :: _ => l

def compose (l : Look) (rule : Composition) (child parent : Flow) : Look where
  chart := some rule.resultChart
  encodings := (l.encodings.writeAll (rule.ties child parent)).writeAll
    (rule.resultChart.drawing parent)

/-- What becomes of a look under a parent that wants the given chart; nothing if the two charts do
not compose. -/
def settle (l : Look) (rules : Rules) (wanted : Option Chart) (child parent : Flow) :
    Option Look :=
  match l.chart, wanted with
  | _, none => some l
  | none, some chart => some (l.adopt chart parent)
  | some own, some chart => (rules.composition? own chart).map (l.compose · child parent)

def extend (l : Look) (rules : Rules) (profile : Profile) (child parent : Flow) : Option Look :=
  (l.withDefaults profile parent).settle rules profile.chart child parent

def start (profile : Profile) (flow : Flow) : Look :=
  match profile.chart with
  | some chart => (blank.withDefaults profile flow).adopt chart flow
  | none => blank.withDefaults profile flow

def overlay (l acc : Look) (declared : Option Chart) : Look where
  chart := Panel.overlaidChart l.chart acc.chart declared
  encodings := l.encodings.union acc.encodings

variable {l : Look} {rules : Rules} {profile : Profile} {child parent : Flow}

@[simp] theorem chart_withDefaults (l : Look) (profile : Profile) (flow : Flow) :
    (l.withDefaults profile flow).chart = l.chart := by
  unfold withDefaults
  split <;> rfl

theorem settle_none (l : Look) : l.settle rules none child parent = some l := by
  unfold settle
  split <;> simp_all

theorem settle_of_unbound {chart : Chart} (h : l.chart = none) :
    l.settle rules (some chart) child parent = some (l.adopt chart parent) := by
  unfold settle
  rw [h]

theorem settle_of_bound {own chart : Chart} (h : l.chart = some own) :
    l.settle rules (some chart) child parent =
      (rules.composition? own chart).map (l.compose · child parent) := by
  unfold settle
  rw [h]

theorem extend_blank : blank.extend rules profile child parent = some (start profile parent) := by
  rw [extend, start]
  cases profile.chart with
  | none => exact settle_none _
  | some chart => exact settle_of_unbound (chart_withDefaults blank profile parent)

theorem chart_start (profile : Profile) (flow : Flow) :
    (start profile flow).chart = none ∨ (start profile flow).chart = profile.chart := by
  have hblank : (blank.withDefaults profile flow).chart = none := chart_withDefaults _ _ _
  unfold start
  split
  · rename_i chart hchart
    unfold adopt
    split
    · exact Or.inr hchart.symm
    · exact Or.inl hblank
  · exact Or.inl hblank

theorem isSome_settle {wanted : Option Chart} : (l.settle rules wanted child parent).isSome ↔
    ∀ own chart, l.chart = some own → wanted = some chart →
      (rules.composition? own chart).isSome := by
  cases wanted with
  | none => simp [settle_none]
  | some chart =>
    cases hown : l.chart with
    | none => simp [settle_of_unbound hown]
    | some own => simp [settle_of_bound hown]

end Look

namespace Panel
variable {p q : Panel} {rules : Rules} {profile : Profile} {parent child : Operation}
  {forest : Forest} {declared : Option Chart} {own chart : Chart}

def look (p : Panel) : Look := ⟨p.chart, p.encodings⟩

def redraw (p : Panel) (l : Look) : Panel := { p with chart := l.chart, encodings := l.encodings }

@[simp] theorem look_redraw (p : Panel) (l : Look) : (p.redraw l).look = l := rfl

@[simp] theorem redraw_look (p : Panel) : p.redraw p.look = p := rfl

@[simp] theorem redraw_redraw (p : Panel) (l m : Look) : (p.redraw l).redraw m = p.redraw m := rfl

theorem withDefaults_eq_redraw (p : Panel) (profile : Profile) (op : Operation) :
    p.withDefaults profile op = p.redraw (p.look.withDefaults profile op.toFlow) := by
  have hencodings : p.look.encodings = p.encodings := rfl
  unfold withDefaults Look.withDefaults
  rw [hencodings]
  cases profile.outputEncoding op.inputs p.encodings <;> rfl

theorem result_adopt (p : Panel) (chart : Chart) (op : Operation)
    (refused : ExplainError → Event) :
    (p.adopt chart op refused).result = .ok (p.redraw (p.look.adopt chart op.toFlow)) := by
  have hencodings : p.look.encodings = p.encodings := rfl
  unfold adopt unmet? Look.adopt
  rw [hencodings]
  cases chart.ineligible op.toFlow p.encodings <;> rfl

theorem result_compose (p : Panel) (rule : Composition) (child parent : Operation) :
    (p.compose rule child parent).result =
      .ok (p.redraw (p.look.compose rule child.toFlow parent.toFlow)) := rfl

theorem start_eq_ok_iff {op : Operation} {d : Nat} : (start op d rules).result = .ok p ↔
    ∃ profile, rules.profile? op.kind = some profile ∧
      p = (blank op.id d).redraw (Look.start profile op.toFlow) := by
  simp only [start, Traced.result_bind, Except.bind_eq_ok, Traced.result_ofExcept,
    Rules.profileOf_eq_ok]
  refine exists_congr fun profile => and_congr_right fun _ => ?_
  have hblank : (blank op.id d).withDefaults profile op =
      (blank op.id d).redraw (Look.blank.withDefaults profile op.toFlow) :=
    withDefaults_eq_redraw _ profile op
  rw [hblank, Look.start, eq_comm]
  cases profile.chart with
  | none => simp
  | some chart => simp [result_adopt]

/-! How a chart is settled, case by case -/

theorem result_settle_none (p : Panel) : (p.settle none parent forest rules).result = .ok p := by
  unfold settle
  cases p.chart <;> rfl

theorem result_settle_of_unbound (h : p.chart = none) :
    (p.settle (some chart) parent forest rules).result =
      .ok (p.redraw (p.look.adopt chart parent.toFlow)) := by
  unfold settle
  rw [h]
  exact result_adopt p chart parent _

theorem result_settle_of_refused (hown : p.chart = some own)
    (hrule : rules.composition? own chart = none) :
    (p.settle (some chart) parent forest rules).result = .error (.noComposition own chart) := by
  unfold settle
  simp [hown, hrule]

theorem result_settle_of_stray (hown : p.chart = some own) (hrule : rules.composes own chart)
    (htop : forest.get? p.top = none) :
    (p.settle (some chart) parent forest rules).result = .error (.forest (.unknown p.top)) := by
  obtain ⟨rule, hrule⟩ := Option.isSome_iff_exists.mp hrule
  have hget : forest.get p.top = .error (.unknown p.top) := by
    rw [Forest.get, htop]
  unfold settle
  simp only [hown, Rules.composition?, hrule, hget]
  rfl

theorem result_settle_of_bound {rule : Composition} (hown : p.chart = some own)
    (hrule : rules.composition? own chart = some rule) (htop : forest.get? p.top = some child) :
    (p.settle (some chart) parent forest rules).result =
      .ok (p.redraw (p.look.compose rule child.toFlow parent.toFlow)) := by
  unfold settle
  simp only [hown, hrule, Forest.get_eq_ok_iff.mpr htop]
  exact result_compose p rule child parent

theorem settle_eq_ok_iff {wanted : Option Chart} (hchild : forest.get? p.top = some child) :
    (p.settle wanted parent forest rules).result = .ok q ↔
      ∃ l, p.look.settle rules wanted child.toFlow parent.toFlow = some l ∧ q = p.redraw l := by
  cases wanted with
  | none => simp [result_settle_none, Look.settle_none, eq_comm]
  | some chart =>
    cases hown : p.chart with
    | none =>
      simp [result_settle_of_unbound hown, Look.settle_of_unbound (l := p.look) hown, eq_comm]
    | some own =>
      rw [Look.settle_of_bound (l := p.look) hown]
      cases hrule : rules.composition? own chart with
      | none => simp [result_settle_of_refused hown hrule]
      | some rule => simp [result_settle_of_bound hown hrule hchild, eq_comm]

theorem extend_eq_ok_iff (hprofile : rules.profile? parent.kind = some profile)
    (hchild : forest.get? p.top = some child) :
    (p.extend parent forest rules).result = .ok q ↔
      ∃ l, p.look.extend rules profile child.toFlow parent.toFlow = some l ∧
        q = (p.redraw l).addMember parent.id := by
  rw [extend, Rules.profileOf_eq_ok.mpr hprofile]
  simp only [Traced.result_bind, Except.bind_eq_ok, Traced.result_mapError, Except.mapError_eq_ok,
    Traced.result_pure]
  rw [withDefaults_eq_redraw]
  simp only [settle_eq_ok_iff (p := p.redraw _) hchild, look_redraw, redraw_redraw, Look.extend]
  constructor
  · rintro ⟨_, ⟨l, hl, hr⟩, hq⟩
    cases hq
    exact ⟨l, hl, by rw [hr]⟩
  · rintro ⟨l, hl, hq⟩
    exact ⟨_, ⟨l, hl, rfl⟩, by rw [hq]⟩

/-! Heads laid over one another -/

theorem overlaidChart_of_plain {own acc : Option Chart} (h : own = none ∨ own = declared) :
    overlaidChart own acc declared = acc.or own := by
  rw [overlaidChart, if_pos]
  obtain rfl | rfl := h <;> simp

theorem overlaidChart_of_not_plain {own acc : Option Chart} (h : ¬ (own = none ∨ own = declared)) :
    overlaidChart own acc declared = own := by
  rw [overlaidChart, if_neg]
  simpa using h

theorem look_overlay (p acc : Panel) (declared : Option Chart) :
    (p.overlay acc declared).look = p.look.overlay acc.look declared := rfl

def overlayAll (declared : Option Chart) (own : Panel) (extended : List Panel) : Panel :=
  extended.foldl (fun acc p => p.overlay acc declared) own

theorem foldHead_eq_ok_iff {acc head : Panel} :
    (foldHead parent declared forest rules acc head).result = .ok q ↔
      ∃ extended, (head.extend parent forest rules).result = .ok extended ∧
        q = extended.overlay acc declared := by
  simp only [foldHead, Traced.result_bind, Except.bind_eq_ok, Traced.result_mapError,
    Except.mapError_eq_ok, Traced.result_pure, Except.ok.injEq, eq_comm (a := q)]

theorem foldHeads_eq_ok_iff {own gathered : Panel} {heads : List Panel} :
    foldHeads parent declared forest rules own heads = .ok gathered ↔
      ∃ extended, List.Forall₂ (fun head p => (head.extend parent forest rules).result = .ok p)
        heads extended ∧ gathered = overlayAll declared own extended := by
  induction heads generalizing own with
  | nil => simp [overlayAll, eq_comm]
  | cons head heads ih =>
    simp only [foldHeads_cons_eq_ok, foldHead_eq_ok_iff, ih, List.forall₂_cons_left_iff]
    constructor
    · intro ⟨_, ⟨p, hp, hacc⟩, extended, hextended, hgathered⟩
      subst hacc
      exact ⟨p :: extended, ⟨p, extended, hp, hextended, rfl⟩, hgathered⟩
    · intro ⟨_, ⟨p, extended, hp, hextended, heq⟩, hgathered⟩
      subst heq
      exact ⟨_, ⟨p, hp, rfl⟩, extended, hextended, hgathered⟩

theorem look_overlayAll (declared : Option Chart) (own : Panel) (extended : List Panel) :
    (overlayAll declared own extended).look =
      (extended.map look).foldl (fun acc l => l.overlay acc declared) own.look := by
  induction extended generalizing own with
  | nil => rfl
  | cons p extended ih => exact ih (p.overlay own declared)

end Panel

end ChartFold
