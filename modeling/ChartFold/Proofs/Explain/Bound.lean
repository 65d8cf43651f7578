import ChartFold.Proofs.Explain.Cut
import ChartFold.Proofs.Explain.Heads
import ChartFold.Proofs.Panel.Steps

/-! Bound is never lost on the way up. Whatever panel is at hand while an operation gathers its
heads ends in one of the panels of the whole tree, and if it was bound that one is bound. -/
namespace ChartFold.Forest
open Panel
variable {f : Forest} {rules : Rules} {res : OpId → Nat → Explaining (List Panel)}
  {op : Operation} {d : Nat} {list heads : List Panel} {lists : List (List Panel)}
  {profile : Profile} {own gathered p : Panel}

/-- The panels at hand while an operation gathers its heads: every head that joins, once it is
extended, and what has been gathered of the first of them. Of none, that is what the operation
starts with. -/
inductive AtHand (f : Forest) (rules : Rules) (op : Operation) (d : Nat) (heads : List Panel) :
    Panel → Prop where
  | extended {profile : Profile} {head p : Panel} : rules.profile? op.kind = some profile →
    head ∈ joining rules profile.chart heads → (head.extend op f rules).result = .ok p →
      AtHand f rules op d heads p
  | gathered {profile : Profile} {own p : Panel} {done rest : List Panel} :
    rules.profile? op.kind = some profile →
    byTop (joining rules profile.chart heads) = done ++ rest →
    (start op d rules).result = .ok own →
    foldHeads op profile.chart f rules own done = .ok p → AtHand f rules op d heads p

theorem Level.becomes (hlevel : f.Level rules res op d list lists profile own gathered)
    (h : f.WellFormed) (hres : f.Recursion rules res)
    (hp : f.AtHand rules op d (lists.filterMap List.getLast?) p) :
    Becomes f rules p gathered := by
  have htop := (start_toppedBy hlevel.starts).1
  have hfresh := hlevel.fresh h hres
  cases hp with
  | extended hprofile hhead hextend =>
    cases hlevel.known.symm.trans hprofile
    exact (foldHeads_becomes hlevel.gathers htop hfresh).2 _ (mem_byTop.mpr hhead) _ hextend
  | @gathered _ _ _ done rest hprofile hsplit hown hfold =>
    cases hlevel.known.symm.trans hprofile
    cases hlevel.starts.symm.trans hown
    have hsplit : folded rules profile lists = done ++ rest := hsplit
    have hgathers := hlevel.gathers
    rw [hsplit] at hfresh hgathers
    obtain ⟨acc, hacc, hrest⟩ := foldHeads_append_eq_ok.mp hgathers
    cases hacc.symm.trans hfold
    have hmembers := foldHeads_members hfold htop fun head hhead =>
      hfresh head (List.mem_append_left _ hhead)
    exact (foldHeads_becomes hrest hmembers.1 fun head hhead =>
      hfresh head (List.mem_append_right _ hhead)).1

theorem Level.exists_becomes (hlevel : f.Level rules res op d list lists profile own gathered)
    (h : f.WellFormed) (hres : f.Recursion rules res) {l : List Panel} (hl : l ∈ lists)
    (hp : p ∈ l) : ∃ q ∈ list, Becomes f rules p q := by
  have hmem := (family_perm rules profile.chart lists).mem_iff.mpr
    (List.mem_flatten.mpr ⟨l, hl, hp⟩)
  rw [hlevel.leaves]
  obtain hp | hp := List.mem_append.mp hmem
  · exact ⟨p, List.mem_append_left _ hp, Becomes.refl p⟩
  · obtain ⟨extended, hextended, hgathers⟩ := foldHeads_eq_ok_iff.mp hlevel.gathers
    obtain ⟨q, -, hq⟩ := Except.exists_right hextended hp
    have hjoins := mem_byTop.mp hp
    refine ⟨gathered, by simp, (extend_becomes hq).trans ?_⟩
    exact hlevel.becomes h hres (AtHand.extended hlevel.known hjoins hq)

theorem Recursion.exists_becomes (h : f.WellFormed) (hres : f.Recursion rules res) {root x : OpId}
    {list : List Panel} (hb : f.Below root x d) (hok : (res root 0).result = .ok list) :
    ∃ inner, (res x d).result = .ok inner ∧ ∀ p ∈ inner, ∃ q ∈ list, Becomes f rules p q := by
  induction hb with
  | refl => exact ⟨list, hok, fun p hp => ⟨p, hp, Becomes.refl p⟩⟩
  | @child parent c d _ hc ih =>
    obtain ⟨outer, houter, hbecomes⟩ := ih
    obtain ⟨op, hop⟩ := lt_size_iff.mp (h.mem_of_parent? hc)
    obtain rfl := h.numbered parent op hop
    obtain ⟨lists, profile, own, gathered, hlevel⟩ := (hres.eq_ok_iff hop).mp houter
    have hmem : c ∈ op.children := children_of_get? hop ▸ h.mem_children.mpr hc
    obtain ⟨inner, hinner, hchild⟩ := Except.exists_right hlevel.children hmem
    refine ⟨inner, hchild, fun p hp => ?_⟩
    obtain ⟨q, hq, hpq⟩ := hlevel.exists_becomes h hres hinner hp
    obtain ⟨r, hr, hqr⟩ := hbecomes q hq
    exact ⟨r, hr, hpq.trans hqr⟩

theorem Recursion.of_unbound (h : f.WellFormed) (hres : f.Recursion rules res) {id : OpId}
    (hid : id < f.size) (hok : (res id d).result = .ok list) :
    ∀ p ∈ list, p.chart = none → ∀ x ∈ p.members, ∃ op profile, f.get? x = some op ∧
      rules.profile? op.kind = some profile ∧ ∀ c ∈ profile.chart, c.requiredMarks.isSome := by
  refine hres.forall_mem h ?_ ?_ hid hok
  · intro op profile own d hop hprofile hown hunbound x hx
    subst hown
    obtain rfl : x = op.id := by simpa [redraw, blank] using hx
    exact ⟨op, profile, hop, hprofile, Look.start_unbound hunbound⟩
  · intro op profile own head extended hjoins hown hhead hunbound x hx
    rw [overlay, ← Option.not_isSome_iff_eq_none, isSome_overlaidChart, Bool.or_eq_true,
      not_or] at hunbound
    obtain hx | hx := hjoins.mem_members.mp hx
    · refine hhead (Option.not_isSome_iff_eq_none.mp fun hbound => ?_) x hx
      exact hunbound.1 (isSome_chart_of_extend hjoins.grown hbound)
    · exact hown (Option.not_isSome_iff_eq_none.mp hunbound.2) x hx

/-- Bound is never lost. An unbound panel of a tree holds no operation that could have bound it by
itself: each declares no chart, or one with a requirement. No sequence of steps unbinds a panel.
Whatever panel is at hand at an operation of the tree becomes, step by step, the one panel of the
tree that holds its members, and leaves it bound if it was bound. -/
theorem explain_bound (hf : f.Reachable) {root : OpId} {panels : List Panel}
    (hok : (f.explain rules root).result = .ok panels) :
    (∀ p ∈ panels, p.chart = none → ∀ x ∈ p.members, ∃ op profile, f.get? x = some op ∧
      rules.profile? op.kind = some profile ∧ ∀ c ∈ profile.chart, c.requiredMarks.isSome) ∧
    (∀ p q, Relation.ReflTransGen (Step f rules) p q → p.chart.isSome → q.chart.isSome) ∧
    ∀ op d heads p, f.Below root op.id d → f.get? op.id = some op → f.HandedTo rules op d heads →
      f.AtHand rules op d heads p →
      ∃ q ∈ panels, Relation.ReflTransGen (Step f rules) p q ∧
        (p.chart.isSome → q.chart.isSome) ∧
        ∀ x ∈ p.members, x ∈ q.members ∧ ∀ r ∈ panels, x ∈ r.members → r = q := by
  have h := hf.wellFormed
  obtain ⟨res, hres⟩ := h.exists_recursion rules
  obtain ⟨hroot, list, hlist, rfl⟩ := (explain_eq_ok h hres).mp hok
  have hperm := byDepth_perm list
  refine ⟨fun p hp => hres.of_unbound h hroot hlist p (hperm.mem_iff.mp hp),
    fun p q hsteps => isSome_chart_of_steps hsteps, ?_⟩
  intro op d heads p hb hop hheads hp
  obtain ⟨inner, hinner, hbecomes⟩ := hres.exists_becomes h hb hlist
  obtain ⟨lists, profile, own, gathered, hlevel⟩ := (hres.eq_ok_iff hop).mp hinner
  obtain rfl := hlevel.handed_eq h hres hheads
  obtain ⟨q, hq, hgathered⟩ := hbecomes gathered (hlevel.leaves ▸ by simp)
  have hpq := (hlevel.becomes h hres hp).trans hgathered
  refine ⟨q, hperm.mem_iff.mpr hq, hpq.steps, isSome_chart_of_steps hpq.steps, fun x hx => ?_⟩
  have hxq := hpq.members x hx
  refine ⟨hxq, fun r hr hxr => ?_⟩
  exact eq_of_mem_members (hres.account h hroot hlist).nodup (hperm.mem_iff.mp hr) hq hxr hxq

theorem explain_bound_sample : ∃ op heads own, sample.get? 2 = some op ∧
    sample.HandedTo sampleRules op 1 heads ∧ sample.AtHand sampleRules op 1 heads own ∧
    own.chart = some .scatterWithDiagonal ∧ ∃ q ∈ samplePanels,
      Relation.ReflTransGen (Step sample sampleRules) own q ∧ q.chart.isSome := by
  obtain ⟨res, hres⟩ := reachable_sample.wellFormed.exists_recursion sampleRules
  obtain ⟨-, list, hlist, -⟩ := (explain_eq_ok reachable_sample.wellFormed hres).mp explain_sample
  have hb : sample.Below 0 2 1 := Below.refl.child rfl
  obtain ⟨inner, hinner, -⟩ := hres.exists_becomes reachable_sample.wellFormed hb hlist
  obtain ⟨op, hop⟩ : ∃ op, sample.get? 2 = some op := ⟨_, rfl⟩
  have hid : 2 = op.id := (reachable_sample.wellFormed.numbered 2 op hop).symm
  have hwanted : sample.wanted? sampleRules 2 = some .scatterWithDiagonal := rfl
  rw [hid] at hb hinner hop hwanted
  obtain ⟨lists, profile, own, gathered, hlevel⟩ := (hres.eq_ok_iff hop).mp hinner
  rw [wanted?_of_get? hop hlevel.known] at hwanted
  have hheads : sample.HandedTo sampleRules op 1 (lists.filterMap List.getLast?) :=
    ⟨res, lists, hres, hlevel.children, rfl⟩
  have hown : sample.AtHand sampleRules op 1 (lists.filterMap List.getLast?) own :=
    AtHand.gathered hlevel.known (List.nil_append _).symm hlevel.starts rfl
  have hchart : own.chart = some .scatterWithDiagonal := by
    rw [hlevel.own_eq]
    refine ((Look.chart_start profile op.toFlow).resolve_left fun hunbound => ?_).trans hwanted
    exact absurd (Look.start_unbound hunbound _ hwanted) (by decide)
  obtain ⟨-, -, hbecomes⟩ := explain_bound reachable_sample explain_sample
  obtain ⟨q, hq, hsteps, hbound, -⟩ := hbecomes op 1 _ own hb hop hheads hown
  rw [hid]
  exact ⟨op, _, own, hop, hheads, hown, hchart, q, hq, hsteps,
    hbound (Option.isSome_of_eq_some hchart)⟩

end ChartFold.Forest
