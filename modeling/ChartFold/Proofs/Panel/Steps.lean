import ChartFold.Proofs.Panel.Charts
import ChartFold.Proofs.Panel.Members

/-! What can happen to a panel, one step after another. In whatever order the steps come, a panel
that is bound stays bound, and while a family is gathered it loses no member. -/
namespace ChartFold.Panel
variable {p q r own acc gathered head extended : Panel} {rules : Rules} {forest : Forest}
  {parent : Operation} {declared : Option Chart} {heads : List Panel}

/-- One step of a panel: it is extended by a parent, or stays as a failed extension has left it; it
takes in what has been gathered; or it is what has been gathered, and a head takes it in. -/
inductive Step (forest : Forest) (rules : Rules) : Panel → Panel → Prop where
  | extend {p q : Panel} {parent : Operation} :
    (p.extend parent forest rules).result = .ok q → Step forest rules p q
  | fail {p : Panel} {parent : Operation} {failure : ExtendFailure} :
    (p.extend parent forest rules).result = .error failure → Step forest rules p failure.panel
  | take (p acc : Panel) (declared : Option Chart) :
    Step forest rules p (p.overlay acc declared)
  | join (acc head : Panel) (declared : Option Chart) :
    Step forest rules acc (head.overlay acc declared)

theorem isSome_chart_of_extend (h : (p.extend parent forest rules).result = .ok q)
    (hp : p.chart.isSome) : q.chart.isSome := by
  obtain ⟨profile, child, l, -, hl, rfl⟩ := exists_look_of_extend h
  exact Look.isSome_of_extend hl hp

theorem chart_of_extend_error {failure : ExtendFailure}
    (h : (p.extend parent forest rules).result = .error failure) :
    failure.panel.chart = p.chart := by
  rw [extend] at h
  split at h
  · cases h
    rfl
  · rename_i profile _
    cases hsettled : ((p.withDefaults profile parent).settle profile.chart parent forest
      rules).result with
    | ok settled =>
      rw [Traced.result_bind, Traced.result_mapError, hsettled] at h
      cases h
    | error e =>
      rw [Traced.result_bind, Traced.result_mapError, hsettled] at h
      cases h
      exact chart_withDefaults p profile parent

theorem Step.isSome_chart (h : Step forest rules p q) (hp : p.chart.isSome) : q.chart.isSome := by
  cases h with
  | extend hextend => exact isSome_chart_of_extend hextend hp
  | fail hfail => rwa [chart_of_extend_error hfail]
  | take acc declared =>
    rw [overlay, isSome_overlaidChart, hp, Bool.true_or]
  | join head declared =>
    rw [overlay, isSome_overlaidChart, hp, Bool.or_true]

/-- Bound is never lost. -/
theorem isSome_chart_of_steps (h : Relation.ReflTransGen (Step forest rules) p q)
    (hp : p.chart.isSome) : q.chart.isSome := by
  induction h with
  | refl => exact hp
  | tail _ hstep ih => exact hstep.isSome_chart ih

/-- The panel `p` becomes `q` step by step, and none of its members is lost on the way. -/
structure Becomes (forest : Forest) (rules : Rules) (p q : Panel) : Prop where
  steps : Relation.ReflTransGen (Step forest rules) p q
  members : ∀ x ∈ p.members, x ∈ q.members

theorem Becomes.refl (p : Panel) : Becomes forest rules p p :=
  ⟨Relation.ReflTransGen.refl, fun _ hx => hx⟩

theorem Becomes.trans (h : Becomes forest rules p q) (h' : Becomes forest rules q r) :
    Becomes forest rules p r :=
  ⟨h.steps.trans h'.steps, fun x hx => h'.members x (h.members x hx)⟩

theorem extend_becomes (h : (p.extend parent forest rules).result = .ok q) :
    Becomes forest rules p q := by
  refine ⟨Relation.ReflTransGen.single (Step.extend h), fun x hx => ?_⟩
  obtain ⟨redrawn, hredrawn, rfl⟩ := extend_eq_ok h
  rw [addMember, hredrawn.members]
  exact Array.mem_push_of_mem _ hx

theorem foldHead_becomes (h : (foldHead parent declared forest rules own head).result = .ok acc)
    (hown : own.ToppedBy parent.id) (hhead : parent.id ∉ head.members) :
    Becomes forest rules own acc ∧ ∀ extended, (head.extend parent forest rules).result =
      .ok extended → Becomes forest rules extended acc := by
  have hmem {x : OpId} : x ∈ acc.members ↔ x ∈ head.members ∨ x ∈ own.members :=
    mem_foldHead h hown hhead
  obtain ⟨extended, hextended, rfl⟩ := foldHead_eq_ok_iff.mp h
  refine ⟨⟨Relation.ReflTransGen.single (Step.join own extended declared), fun x hx =>
    hmem.mpr (Or.inr hx)⟩, fun extended' hextended' => ?_⟩
  obtain rfl := Except.ok.inj (hextended.symm.trans hextended')
  refine ⟨Relation.ReflTransGen.single (Step.take extended own declared), fun x hx => ?_⟩
  obtain ⟨redrawn, hredrawn, rfl⟩ := extend_eq_ok hextended
  rw [addMember, hredrawn.members, Array.mem_push] at hx
  obtain hx | rfl := hx
  · exact hmem.mpr (Or.inl hx)
  · exact hmem.mpr (Or.inr hown.mem)

theorem foldHeads_becomes (h : foldHeads parent declared forest rules own heads = .ok gathered)
    (hown : own.ToppedBy parent.id) (hheads : ∀ head ∈ heads, parent.id ∉ head.members) :
    Becomes forest rules own gathered ∧ ∀ head ∈ heads, ∀ extended,
      (head.extend parent forest rules).result = .ok extended →
        Becomes forest rules extended gathered := by
  induction heads generalizing own with
  | nil =>
    cases h
    exact ⟨Becomes.refl _, by simp⟩
  | cons head heads ih =>
    obtain ⟨acc, hacc, h⟩ := foldHeads_cons_eq_ok.mp h
    have hfresh := hheads head (by simp)
    obtain ⟨haccOwn, haccHead⟩ := foldHead_becomes hacc hown hfresh
    obtain ⟨hgathered, hrest⟩ := ih h (foldHead_members hacc hown hfresh).1
      fun p hp => hheads p (by simp [hp])
    refine ⟨haccOwn.trans hgathered, fun head' hhead' extended hextended => ?_⟩
    obtain rfl | hhead' := List.mem_cons.mp hhead'
    · exact (haccHead extended hextended).trans hgathered
    · exact hrest head' hhead' extended hextended

end ChartFold.Panel
