import ChartFold.Proofs.Panel.Writes

/-! What becomes of a panel that an operation is to extend. The test of whether it fits decides,
except that the top of the panel may be in no forest. Where the extension fails, nothing has been
done to the panel but that the default look of a known operation has been merged in. -/
namespace ChartFold.Panel
variable {p q : Panel} {rules : Rules} {forest : Forest} {op : Operation} {profile : Profile}
  {own chart : Chart} {failure : ExtendFailure}

def defaulted (p : Panel) (profile : Profile) (op : Operation) : Panel :=
  { p with encodings := profile.defaultLook.elim p.encodings (p.encodings.mergeAt op.outputs) }

theorem withDefaults_of_declared (h : profile.chart = some chart) (p : Panel) (op : Operation) :
    p.withDefaults profile op = p.defaulted profile op := by
  have hencoding : profile.outputEncoding op.inputs p.encodings = profile.defaultLook := by
    simp [Profile.outputEncoding, Profile.fallbackEncoding, Profile.ungoverned, h]
  rw [withDefaults, hencoding, defaulted]
  cases profile.defaultLook <;> rfl

theorem fits_eq_false_iff : (p.fits op rules).result = .ok false ↔
    ∃ profile, rules.profile? op.kind = some profile ∧ p.Refused rules profile.chart := by
  simp only [← isSome_objection?]
  cases hprofile : rules.profile? op.kind with
  | none =>
    have hunknown : rules.profileOf op = .error (.noProfile op.kind op.name) := by
      rw [Rules.profileOf, hprofile]
    rw [fits, hunknown]
    simp [Traced.ofExcept, bind, Traced.bind]
  | some profile =>
    simp [result_fits hprofile]

/-- Both are bound and a rule composes their charts, but the top of the panel is in no forest. -/
def Strays (forest : Forest) (rules : Rules) (p : Panel) (op : Operation) : Prop :=
  ∃ profile own chart, rules.profile? op.kind = some profile ∧ p.chart = some own ∧
    profile.chart = some chart ∧ rules.composes own chart ∧ forest.get? p.top = none

/-! Every way to fail -/

inductive Failure (forest : Forest) (rules : Rules) (p : Panel) (op : Operation) :
    ExtendFailure → Prop where
  | unknown : rules.profile? op.kind = none →
      Failure forest rules p op ⟨.noProfile op.kind op.name, p⟩
  | refused {profile : Profile} {own chart : Chart} :
      rules.profile? op.kind = some profile → p.chart = some own → profile.chart = some chart →
      rules.composition? own chart = none →
      Failure forest rules p op ⟨.noComposition own chart, p.defaulted profile op⟩
  | stray {profile : Profile} {own chart : Chart} :
      rules.profile? op.kind = some profile → p.chart = some own → profile.chart = some chart →
      rules.composes own chart → forest.get? p.top = none →
      Failure forest rules p op ⟨.forest (.unknown p.top), p.defaulted profile op⟩

theorem extend_of_settle_ok (hprofile : rules.profile? op.kind = some profile)
    (h : ((p.withDefaults profile op).settle profile.chart op forest rules).result = .ok q) :
    (p.extend op forest rules).result = .ok (q.addMember op.id) := by
  rw [extend, Rules.profileOf_eq_ok.mpr hprofile]
  simp only [Traced.result_bind, Traced.result_mapError, h]
  rfl

theorem extend_of_settle_error {e : ExplainError} (hprofile : rules.profile? op.kind = some profile)
    (h : ((p.withDefaults profile op).settle profile.chart op forest rules).result = .error e) :
    (p.extend op forest rules).result = .error ⟨e, p.withDefaults profile op⟩ := by
  rw [extend, Rules.profileOf_eq_ok.mpr hprofile]
  simp only [Traced.result_bind, Traced.result_mapError, h]
  rfl

theorem extend_of_failure (h : Failure forest rules p op failure) :
    (p.extend op forest rules).result = .error failure := by
  cases h with
  | unknown hprofile =>
    rw [extend, Rules.profileOf, hprofile]
    rfl
  | refused hprofile hown hwanted hrule =>
    rw [← withDefaults_of_declared hwanted]
    refine extend_of_settle_error hprofile ?_
    rw [hwanted]
    exact result_settle_of_refused (by simpa using hown) hrule
  | stray hprofile hown hwanted hrule htop =>
    rw [← withDefaults_of_declared hwanted, ← top_withDefaults p _ op]
    refine extend_of_settle_error hprofile ?_
    rw [hwanted]
    exact result_settle_of_stray (by simpa using hown) hrule (by simpa using htop)

theorem exists_settle_or_clash (p : Panel) (wanted : Option Chart) (op : Operation)
    (forest : Forest) (rules : Rules) :
    (∃ q, (p.settle wanted op forest rules).result = .ok q) ∨
      ∃ own chart, p.chart = some own ∧ wanted = some chart ∧
        (rules.composition? own chart = none ∨
          (rules.composes own chart ∧ forest.get? p.top = none)) := by
  cases wanted with
  | none => exact Or.inl ⟨p, result_settle_none p⟩
  | some chart =>
    cases hown : p.chart with
    | none => exact Or.inl ⟨_, result_settle_of_unbound hown⟩
    | some own =>
      cases hrule : rules.composition? own chart with
      | none => exact Or.inr ⟨own, chart, rfl, rfl, Or.inl hrule⟩
      | some rule =>
        cases htop : forest.get? p.top with
        | none =>
          have hcomposes : rules.composes own chart := Option.isSome_of_eq_some hrule
          exact Or.inr ⟨own, chart, rfl, rfl, Or.inr ⟨hcomposes, rfl⟩⟩
        | some child => exact Or.inl ⟨_, result_settle_of_bound hown hrule htop⟩

theorem exists_extend_or_failure (p : Panel) (op : Operation) (forest : Forest) (rules : Rules) :
    (∃ q, (p.extend op forest rules).result = .ok q) ∨
      ∃ failure, Failure forest rules p op failure := by
  cases hprofile : rules.profile? op.kind with
  | none => exact Or.inr ⟨_, Failure.unknown hprofile⟩
  | some profile =>
    obtain ⟨q, hq⟩ | ⟨own, chart, hown, hwanted, hclash⟩ :=
      exists_settle_or_clash (p.withDefaults profile op) profile.chart op forest rules
    · exact Or.inl ⟨_, extend_of_settle_ok hprofile hq⟩
    · rw [chart_withDefaults] at hown
      rw [top_withDefaults] at hclash
      obtain hrule | ⟨hrule, htop⟩ := hclash
      · exact Or.inr ⟨_, Failure.refused hprofile hown hwanted hrule⟩
      · exact Or.inr ⟨_, Failure.stray hprofile hown hwanted hrule htop⟩

theorem extend_eq_error_iff :
    (p.extend op forest rules).result = .error failure ↔ Failure forest rules p op failure := by
  refine ⟨fun h => ?_, extend_of_failure⟩
  obtain ⟨q, hq⟩ | ⟨found, hfound⟩ := exists_extend_or_failure p op forest rules
  · cases hq.symm.trans h
  · obtain rfl := Except.error.inj ((extend_of_failure hfound).symm.trans h)
    exact hfound

/-! What an extension keeps -/

theorem extend_of_unmet (hprofile : rules.profile? op.kind = some profile)
    (hwanted : profile.chart = some chart) (hunbound : p.chart = none)
    (hunmet : ((p.defaulted profile op).unmet? chart op).isSome) :
    (p.extend op forest rules).result = .ok ((p.defaulted profile op).addMember op.id) := by
  have hchart : (p.defaulted profile op).chart = none := hunbound
  obtain ⟨reason, hreason⟩ := Option.isSome_iff_exists.mp hunmet
  refine extend_of_settle_ok hprofile ?_
  rw [withDefaults_of_declared hwanted, hwanted]
  unfold settle
  simp [hchart, adopt, hreason]

structure Extended (rules : Rules) (p : Panel) (op : Operation) (q : Panel) : Prop where
  top : q.top = p.top
  depth : q.depth = p.depth
  members : q.members = p.members.push op.id
  bound : p.chart.isSome → q.chart.isSome
  /-- A chart whose requirements are unmet is neither bound nor drawn. -/
  unmet : ∀ profile chart, rules.profile? op.kind = some profile → profile.chart = some chart →
    p.chart = none → ((p.defaulted profile op).unmet? chart op).isSome →
      q.chart = none ∧ q.encodings = (p.defaulted profile op).encodings
  shown : ∀ d, p.encodings.contains d → q.encodings.contains d

theorem extended_of_extend (h : (p.extend op forest rules).result = .ok q) :
    Extended rules p op q := by
  have hunmet : ∀ profile chart, rules.profile? op.kind = some profile →
      profile.chart = some chart → p.chart = none →
      ((p.defaulted profile op).unmet? chart op).isSome →
      q.chart = none ∧ q.encodings = (p.defaulted profile op).encodings := by
    intro profile chart hprofile hwanted hunbound hunmet
    obtain rfl := Except.ok.inj ((extend_of_unmet hprofile hwanted hunbound hunmet).symm.trans h)
    exact ⟨hunbound, rfl⟩
  obtain ⟨profile, child, l, -, hl, rfl⟩ := exists_look_of_extend h
  exact ⟨rfl, rfl, rfl, Look.isSome_of_extend hl, hunmet, fun d hd => Look.contains_extend hl hd⟩

/-! The outcome against the test -/

def FailsFor (forest : Forest) (rules : Rules) (p : Panel) (op : Operation) (e : ExplainError) :
    Prop := ∃ left, (p.extend op forest rules).result = .error ⟨e, left⟩

theorem failsFor_iff {e : ExplainError} :
    FailsFor forest rules p op e ↔ ∃ left, Failure forest rules p op ⟨e, left⟩ :=
  exists_congr fun _ => extend_eq_error_iff

theorem failsFor_noProfile_iff :
    (∃ kind name, FailsFor forest rules p op (.noProfile kind name)) ↔
      rules.profile? op.kind = none := by
  simp only [failsFor_iff]
  constructor
  · rintro ⟨kind, name, left, ⟨hprofile⟩⟩
    exact hprofile
  · intro hprofile
    exact ⟨_, _, _, Failure.unknown hprofile⟩

theorem failsFor_noComposition_iff :
    (∃ own chart, FailsFor forest rules p op (.noComposition own chart)) ↔
      (p.fits op rules).result = .ok false := by
  simp only [failsFor_iff, fits_eq_false_iff, Refused]
  constructor
  · rintro ⟨own, chart, left, hfailure⟩
    cases hfailure with
    | refused hprofile hown hwanted hrule => exact ⟨_, hprofile, own, chart, hown, hwanted, hrule⟩
  · rintro ⟨profile, hprofile, own, chart, hown, hwanted, hrule⟩
    exact ⟨own, chart, _, Failure.refused hprofile hown hwanted hrule⟩

theorem failsFor_unknown_iff :
    FailsFor forest rules p op (.forest (.unknown p.top)) ↔ Strays forest rules p op := by
  simp only [failsFor_iff]
  constructor
  · rintro ⟨left, hfailure⟩
    cases hfailure with
    | stray hprofile hown hwanted hrule htop =>
      exact ⟨_, _, _, hprofile, hown, hwanted, hrule, htop⟩
  · rintro ⟨profile, own, chart, hprofile, hown, hwanted, hrule, htop⟩
    exact ⟨_, Failure.stray hprofile hown hwanted hrule htop⟩

/-- Extending a panel agrees with the test of whether it fits. An operation that is unknown fails
and leaves the panel as it is. One that is known fails just where the test says so, or where the
panel that is to be composed strays, and then no more than the default look has been written. In
every other case the extension succeeds; it keeps what the panel was and showed. -/
theorem extend_outcome (p : Panel) (op : Operation) (forest : Forest) (rules : Rules) :
    ((∃ kind name, FailsFor forest rules p op (.noProfile kind name)) ↔
      rules.profile? op.kind = none) ∧
    ((∃ own chart, FailsFor forest rules p op (.noComposition own chart)) ↔
      (p.fits op rules).result = .ok false) ∧
    (FailsFor forest rules p op (.forest (.unknown p.top)) ↔ Strays forest rules p op) ∧
    (∀ failure, (p.extend op forest rules).result = .error failure ↔
      Failure forest rules p op failure) ∧
    (rules.profile? op.kind ≠ none → (p.fits op rules).result ≠ .ok false →
      ¬ Strays forest rules p op → ∃ q, (p.extend op forest rules).result = .ok q) ∧
    ∀ q, (p.extend op forest rules).result = .ok q → Extended rules p op q := by
  refine ⟨failsFor_noProfile_iff, failsFor_noComposition_iff, failsFor_unknown_iff,
    fun _ => extend_eq_error_iff, ?_, fun _ => extended_of_extend⟩
  intro hknown hfits hstrays
  obtain hok | ⟨failure, hfailure⟩ := exists_extend_or_failure p op forest rules
  · exact hok
  · cases hfailure with
    | unknown hprofile => exact absurd hprofile hknown
    | refused hprofile hown hwanted hrule =>
      exact absurd (fits_eq_false_iff.mpr ⟨_, hprofile, _, _, hown, hwanted, hrule⟩) hfits
    | stray hprofile hown hwanted hrule htop =>
      exact absurd ⟨_, _, _, hprofile, hown, hwanted, hrule, htop⟩ hstrays

/-! A distribution of a datum that is drawn as an area so far; by default the result is a line. -/

def spreadProfile : Profile where
  operand := .any
  product := .vector
  chart := some .distribution
  defaultLook := some { mark := .line, channel := .length }

def spreadRules : Rules where
  grammar := .ofList [("spread", spreadProfile)]
  compositions := (Compositions.ofList [
    { child := .spacefilling, parent := .distribution, allowed := true }]).toOption.getD {}

def spread : Operation :=
  { id := 0, name := "spread", kind := "spread", inputs := ["x"], outputs := ["y"] }

def spreadHead (chart : Option Chart) : Panel where
  top := 1
  members := #[1]
  chart
  encodings := .ofList [("x", { mark := .area, channel := .area })]
  depth := 1

def spreadShown : Encodings := .ofList [
  ("x", { mark := .area, channel := .area }), ("y", { mark := .line, channel := .length })]

theorem extend_spread_stray :
    ((spreadHead (some .spacefilling)).extend spread .empty spreadRules).result =
      .error ⟨.forest (.unknown 1),
        { spreadHead (some .spacefilling) with encodings := spreadShown }⟩ := by
  decide +kernel

/-- The unbound head is extended but not bound, the one whose chart has a rule strays, and the one
whose chart has none is refused by the test; all of them come to show the default look. -/
theorem extend_outcome_spread :
    (∃ q, ((spreadHead none).extend spread .empty spreadRules).result = .ok q ∧
      q.members = #[1, 0] ∧ q.chart = none ∧ q.encodings = spreadShown) ∧
    Strays .empty spreadRules (spreadHead (some .spacefilling)) spread ∧
    Failure .empty spreadRules (spreadHead (some .spacefilling)) spread
      ⟨.forest (.unknown 1), { spreadHead (some .spacefilling) with encodings := spreadShown }⟩ ∧
    ∃ own chart, FailsFor .empty spreadRules (spreadHead (some .stackedBar)) spread
      (.noComposition own chart) := by
  obtain ⟨-, -, -, -, hok, hextended⟩ :=
    extend_outcome (spreadHead none) spread .empty spreadRules
  obtain ⟨-, -, hstrays, hfailure, -, -⟩ :=
    extend_outcome (spreadHead (some .spacefilling)) spread .empty spreadRules
  obtain ⟨-, hrefused, -, -, -, -⟩ :=
    extend_outcome (spreadHead (some .stackedBar)) spread .empty spreadRules
  refine ⟨?_, hstrays.mp ⟨_, extend_spread_stray⟩, (hfailure _).mp extend_spread_stray,
    hrefused.mpr (by decide +kernel)⟩
  have hprofile : spreadRules.profile? spread.kind = some spreadProfile := by
    decide +kernel
  have hunbound : (spreadHead none).chart = none := rfl
  have hstays : ¬ Strays .empty spreadRules (spreadHead none) spread := by
    rintro ⟨_, _, _, -, hown, -⟩
    cases hown
  have hfits : ((spreadHead none).fits spread spreadRules).result = .ok true := by
    rw [result_fits hprofile]
    rfl
  obtain ⟨q, hq⟩ := hok (by simp [hprofile]) (by simp [hfits]) hstays
  have hkept := hextended q hq
  obtain ⟨hchart, hencodings⟩ := hkept.unmet _ _ hprofile rfl hunbound (by decide +kernel)
  refine ⟨q, hq, hkept.members, hchart, hencodings.trans ?_⟩
  decide +kernel

end ChartFold.Panel
