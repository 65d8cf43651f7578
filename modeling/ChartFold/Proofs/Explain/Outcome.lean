import ChartFold.Proofs.Explain.Cut

/-! When a tree can be explained: always, unless some operation of it has no profile. The first such
operation on the walk is the one that is reported. -/
namespace ChartFold

namespace Panel
variable {rules : Rules} {profile : Profile} {forest : Forest} {parent child : Operation}
  {head : Panel}

theorem exists_extend (hprofile : rules.profile? parent.kind = some profile)
    (hchild : forest.get? head.top = some child) (hjoins : ¬ head.Refused rules profile.chart) :
    ∃ extended, (head.extend parent forest rules).result = .ok extended := by
  have hsome : (head.look.extend rules profile child.toFlow parent.toFlow).isSome := by
    rw [Look.extend, Look.isSome_settle]
    intro own chart hown hchart
    rw [Look.chart_withDefaults] at hown
    by_contra hrule
    exact hjoins ⟨own, chart, hown, hchart, Option.not_isSome_iff_eq_none.mp hrule⟩
  obtain ⟨l, hl⟩ := Option.isSome_iff_exists.mp hsome
  exact ⟨_, (extend_eq_ok_iff hprofile hchild).mpr ⟨l, hl, rfl⟩⟩

theorem exists_foldHeads {heads : List Panel} (hprofile : rules.profile? parent.kind = some profile)
    (htops : ∀ head ∈ heads, ∃ child, forest.get? head.top = some child) (own : Panel) :
    ∃ gathered, foldHeads parent profile.chart forest rules own
      (byTop (joining rules profile.chart heads)) = .ok gathered := by
  have hextend : ∀ head ∈ byTop (joining rules profile.chart heads),
      ∃ extended, (head.extend parent forest rules).result = .ok extended := by
    intro head hhead
    obtain ⟨hmem, hjoins⟩ := mem_joining.mp hhead
    obtain ⟨child, hchild⟩ := htops head hmem
    exact exists_extend hprofile hchild hjoins
  obtain ⟨extended, hextended⟩ := Except.exists_forall₂_of_forall hextend
  exact ⟨_, foldHeads_eq_ok_iff.mpr ⟨extended, hextended, rfl⟩⟩

end Panel

namespace Forest
open Panel
variable {f : Forest} {rules : Rules} {res : OpId → Nat → Explaining (List Panel)}

def Profiled (f : Forest) (rules : Rules) (id : OpId) : Prop :=
  ∃ op profile, f.get? id = some op ∧ rules.profile? op.kind = some profile

/-! One level of the recursion -/

theorem explainBy_error_of_children {op : Operation} {d : Nat} {e : ExplainError}
    (h : (op.children.mapM (res · (d + 1))).result = .error e) :
    (f.explainBy rules res op d).result = .error e := by
  have hleaf : ¬ op.isLeaf := by
    intro hleaf
    rw [List.isEmpty_iff.mp hleaf] at h
    cases h
  rw [explainBy, if_neg hleaf, Traced.result_bind]
  exact Except.bind_of_error h _

theorem explainBy_error_of_profile {op : Operation} {d : Nat} {lists : List (List Panel)}
    (h : (op.children.mapM (res · (d + 1))).result = .ok lists)
    (hnone : rules.profile? op.kind = none) :
    (f.explainBy rules res op d).result = .error (.noProfile op.kind op.name) := by
  have hprofile : rules.profileOf op = .error (.noProfile op.kind op.name) := by
    rw [Rules.profileOf, hnone]
  rw [explainBy]
  split
  · rw [Traced.result_bind, Panel.start, hprofile]
    rfl
  · rw [Traced.result_bind, Except.bind_of_ok h, Traced.result_bind, gather, hprofile]
    rfl

theorem Recursion.exists_list (h : f.WellFormed) (hres : f.Recursion rules res) {id : OpId}
    {op : Operation} {profile : Profile} {d : Nat} {lists : List (List Panel)}
    (hop : f.get? id = some op) (hprofile : rules.profile? op.kind = some profile)
    (hchildren : ∀ c ∈ op.children, f.Profiled rules c)
    (hlists : List.Forall₂ (fun c l => (res c (d + 1)).result = .ok l) op.children lists) :
    ∃ list, (res id d).result = .ok list := by
  obtain rfl := h.numbered id op hop
  have htops : ∀ head ∈ lists.filterMap List.getLast?, ∃ child, f.get? head.top = some child :=
    fun _ hhead => (h.left hop hlists).exists_top h hres hhead
  have hshapes : (checkShapes profile op f rules).result = .ok () :=
    checkShapes_eq_ok.mpr hchildren
  have hown : (Panel.start op d rules).result =
      .ok ((blank op.id d).redraw (Look.start profile op.toFlow)) :=
    start_eq_ok_iff.mpr ⟨profile, hprofile, rfl⟩
  obtain ⟨gathered, hfold⟩ := exists_foldHeads hprofile htops
    ((blank op.id d).redraw (Look.start profile op.toFlow))
  have hlevel : f.Level rules res op d _ lists profile _ gathered :=
    ⟨hop, hlists, hprofile, hshapes, hown, hfold, rfl⟩
  exact ⟨_, hlevel.result_eq hres⟩

/-! The trees along a post-order -/

theorem PostOrdered.mem_of_ids {ids : List OpId} {d : Nat} {visits : List Visit} (h : f.WellFormed)
    (hp : f.PostOrdered ids d visits) {c : OpId} (hc : c ∈ ids) : ⟨c, d⟩ ∈ visits :=
  (hp.mem_iff h).mpr ⟨c, hc, 0, Below.refl, rfl⟩

theorem Recursion.exists_lists (h : f.WellFormed) (hres : f.Recursion rules res) {ids : List OpId}
    {d : Nat} {visits : List Visit} (hp : f.PostOrdered ids d visits)
    (hall : ∀ visit ∈ visits, f.Profiled rules visit.id) :
    ∃ lists, List.Forall₂ (fun id l => (res id d).result = .ok l) ids lists := by
  induction hp with
  | nil => exact ⟨[], List.Forall₂.nil⟩
  | @cons id op ids d below rest hop hbelow _ ihbelow ihrest =>
    have hallBelow : ∀ visit ∈ below, f.Profiled rules visit.id :=
      fun visit hmem => hall visit (by simp [hmem])
    obtain ⟨inner, hinner⟩ := ihbelow hallBelow
    obtain ⟨lists, hlists⟩ := ihrest fun visit hmem => hall visit (by simp [hmem])
    obtain ⟨op', profile, hop', hprofile⟩ := hall ⟨id, d⟩ (by simp)
    obtain rfl : op = op' := Option.some.inj (hop.symm.trans hop')
    obtain ⟨list, hlist⟩ := hres.exists_list h hop hprofile
      (fun c hc => hallBelow _ (hbelow.mem_of_ids h hc)) hinner
    exact ⟨list :: lists, List.Forall₂.cons hlist hlists⟩

/-- The first operation on the walk that is not known is the one that is reported. -/
theorem Recursion.mapM_error (h : f.WellFormed) (hres : f.Recursion rules res) {ids : List OpId}
    {d : Nat} {visits : List Visit} (hp : f.PostOrdered ids d visits) {before after : List Visit}
    {visit : Visit} {bad : Operation} (hsplit : visits = before ++ visit :: after)
    (hbefore : ∀ visit ∈ before, f.Profiled rules visit.id) (hbad : f.get? visit.id = some bad)
    (hnone : rules.profile? bad.kind = none) :
    (ids.mapM (res · d)).result = .error (.noProfile bad.kind bad.name) := by
  rw [Traced.result_mapM]
  induction hp generalizing before after with
  | nil => simp at hsplit
  | @cons id op ids d below rest hop hbelow _ ihbelow ihrest =>
    -- the visit lies in the trees below, is that of `id` itself, or lies in the trees beside
    obtain ⟨more, hmore⟩ | ⟨rfl, rfl⟩ | ⟨more, rfl, hmore⟩ := split_cases hsplit
    · have hchildren := ihbelow hmore hbefore
      rw [← Traced.result_mapM] at hchildren
      have htree : (res id d).result = .error (.noProfile bad.kind bad.name) := by
        rw [hres id op d hop]
        exact explainBy_error_of_children hchildren
      rw [List.mapM_cons, Except.bind_of_error htree]
    · obtain rfl : op = bad := Option.some.inj (hop.symm.trans hbad)
      obtain ⟨inner, hinner⟩ := hres.exists_lists h hbelow hbefore
      rw [← Except.mapM_eq_ok, ← Traced.result_mapM] at hinner
      have htree : (res id d).result = .error (.noProfile op.kind op.name) := by
        rw [hres id op d hop]
        exact explainBy_error_of_profile hinner hnone
      rw [List.mapM_cons, Except.bind_of_error htree]
    · have htree : f.PostOrdered [id] d (below ++ [⟨id, d⟩]) :=
        PostOrdered.cons hop hbelow PostOrdered.nil
      obtain ⟨lists, hlists⟩ := hres.exists_lists h htree fun visit hmem =>
        hbefore visit (by simpa [or_assoc] using Or.inl hmem)
      obtain ⟨list, _, hlist, _, _⟩ := List.forall₂_cons_left_iff.mp hlists
      have hrest := ihrest hmore fun visit hmem => hbefore visit (by simp [hmem])
      rw [List.mapM_cons, Except.bind_of_ok hlist, Except.bind_of_error hrest]

theorem PostOrdered.get?_of_mem {ids : List OpId} {d : Nat} {visits : List Visit}
    (hp : f.PostOrdered ids d visits) {visit : Visit} (hmem : visit ∈ visits) :
    ∃ op, f.get? visit.id = some op := by
  induction hp with
  | nil => simp at hmem
  | cons hop _ _ ihbelow ihrest =>
    obtain hmem | hmem := List.mem_append.mp hmem
    · exact ihbelow hmem
    · obtain rfl | hmem := List.mem_cons.mp hmem
      · exact ⟨_, hop⟩
      · exact ihrest hmem

theorem forall_profiled_or_first (rules : Rules) {visits : List Visit}
    (hget : ∀ visit ∈ visits, ∃ op, f.get? visit.id = some op) :
    (∀ visit ∈ visits, f.Profiled rules visit.id) ∨
      ∃ before visit after bad, visits = before ++ visit :: after ∧
        (∀ visit ∈ before, f.Profiled rules visit.id) ∧ f.get? visit.id = some bad ∧
        rules.profile? bad.kind = none := by
  induction visits with
  | nil => exact Or.inl (by simp)
  | cons visit visits ih =>
    obtain ⟨op, hop⟩ := hget visit (by simp)
    cases hprofile : rules.profile? op.kind with
    | none => exact Or.inr ⟨[], visit, visits, op, rfl, by simp, hop, hprofile⟩
    | some profile =>
      have hvisit : f.Profiled rules visit.id := ⟨op, profile, hop, hprofile⟩
      obtain hall | ⟨before, first, after, bad, hsplit, hbefore, hbad⟩ :=
        ih fun visit hmem => hget visit (by simp [hmem])
      · exact Or.inl (List.forall_mem_cons.mpr ⟨hvisit, hall⟩)
      · refine Or.inr ⟨visit :: before, first, after, bad, by rw [hsplit]; rfl, ?_, hbad⟩
        exact List.forall_mem_cons.mpr ⟨hvisit, hbefore⟩

theorem Recursion.explain_error (h : f.WellFormed) (hres : f.Recursion rules res) {root : OpId}
    {op : Operation} (hop : f.get? root = some op) {visits before after : List Visit}
    {visit : Visit} {bad : Operation} (hp : f.PostOrdered [root] 0 visits)
    (hsplit : visits = before ++ visit :: after)
    (hbefore : ∀ visit ∈ before, f.Profiled rules visit.id) (hbad : f.get? visit.id = some bad)
    (hnone : rules.profile? bad.kind = none) :
    (f.explain rules root).result = .error (.noProfile bad.kind bad.name) := by
  have hmapM := hres.mapM_error h hp hsplit hbefore hbad hnone
  rw [Traced.result_mapM, List.mapM_cons] at hmapM
  have hroot : (res root 0).result = .error (.noProfile bad.kind bad.name) := by
    cases hlist : (res root 0).result with
    | ok list =>
      rw [hlist] at hmapM
      cases hmapM
    | error e =>
      rw [hlist] at hmapM
      cases hmapM
      rfl
  rw [explain_eq_of_recursion h hres hop hp, Traced.result_bind, Except.bind_of_error hroot]

theorem Recursion.exists_explain (h : f.WellFormed) (hres : f.Recursion rules res) {root : OpId}
    (hroot : root < f.size) {visits : List Visit} (hp : f.PostOrdered [root] 0 visits)
    (hall : ∀ visit ∈ visits, f.Profiled rules visit.id) :
    ∃ panels, (f.explain rules root).result = .ok panels ∧ panels ≠ [] := by
  obtain ⟨op, hop⟩ := lt_size_iff.mp hroot
  obtain ⟨lists, hlists⟩ := hres.exists_lists h hp hall
  obtain ⟨list, _, hlist, _, _⟩ := List.forall₂_cons_left_iff.mp hlists
  refine ⟨byDepth list, (explain_eq_ok h hres).mpr ⟨hroot, list, hlist, rfl⟩, fun hnil => ?_⟩
  have hlength : list.length = 0 := by
    rw [← length_byDepth, hnil]
    rfl
  exact hres.ne_nil hop hlist (List.length_eq_zero_iff.mp hlength)

theorem WellFormed.exists_explain_iff (h : f.WellFormed) (rules : Rules) (root : OpId) :
    (∃ panels, (f.explain rules root).result = .ok panels) ↔
      ∀ x d, f.Below root x d → f.Profiled rules x := by
  obtain ⟨res, hres⟩ := h.exists_recursion rules
  cases hop : f.get? root with
  | none =>
    rw [explain_of_not_mem hop]
    constructor
    · intro ⟨_, hok⟩
      cases hok
    · intro hall
      obtain ⟨op, -, hop', -⟩ := hall root 0 Below.refl
      rw [hop] at hop'
      cases hop'
  | some op =>
    have hroot := lt_size_of_get? hop
    obtain ⟨visits, hp⟩ := h.exists_postOrdered hroot 0
    have hids (x : OpId) : x ∈ visits.map Visit.id ↔ ∃ d, f.Below root x d := by
      rw [hp.mem_ids_iff h]
      simp
    constructor
    · intro ⟨panels, hok⟩ x d hx
      obtain hknown | ⟨before, visit, after, bad, hsplit, hbefore, hbad, hnone⟩ :=
        forall_profiled_or_first rules fun visit hmem => hp.get?_of_mem hmem
      · obtain ⟨visit, hmem, rfl⟩ := List.mem_map.mp ((hids x).mpr ⟨d, hx⟩)
        exact hknown visit hmem
      · rw [hres.explain_error h hop hp hsplit hbefore hbad hnone] at hok
        cases hok
    · intro hall
      have hknown : ∀ visit ∈ visits, f.Profiled rules visit.id := by
        intro visit hmem
        obtain ⟨d, hd⟩ := (hids visit.id).mp (List.mem_map_of_mem hmem)
        exact hall visit.id d hd
      obtain ⟨panels, hok, -⟩ := hres.exists_explain h hroot hp hknown
      exact ⟨panels, hok⟩

/-- What comes of explaining a tree. An operation that is not there is reported. Otherwise, if some
operation of the tree is not known, the first such one in the order of the walk is reported; and if
all are known there is at least one panel. No other failure is ever met. -/
theorem explain_outcome (hf : f.Reachable) (rules : Rules) (root : OpId) :
    (f.get? root = none → (f.explain rules root).result = .error (.forest (.unknown root))) ∧
    (∀ op, f.get? root = some op → ∃ visits, f.postOrder root = .ok visits ∧
      (∀ x, x ∈ visits.map Visit.id ↔ ∃ d, f.Below root x d) ∧
      (∀ before visit after bad, visits = before ++ visit :: after →
        (∀ visit ∈ before, f.Profiled rules visit.id) → f.get? visit.id = some bad →
        rules.profile? bad.kind = none →
          (f.explain rules root).result = .error (.noProfile bad.kind bad.name)) ∧
      ((∀ visit ∈ visits, f.Profiled rules visit.id) →
        ∃ panels, (f.explain rules root).result = .ok panels ∧ panels ≠ [])) ∧
    ∀ e, (f.explain rules root).result = .error e → e = .forest (.unknown root) ∨
      ∃ x d bad, f.Below root x d ∧ f.get? x = some bad ∧ rules.profile? bad.kind = none ∧
        e = .noProfile bad.kind bad.name := by
  have h := hf.wellFormed
  obtain ⟨res, hres⟩ := h.exists_recursion rules
  have hunknown (hnone : f.get? root = none) :
      (f.explain rules root).result = .error (.forest (.unknown root)) := by
    rw [explain_of_not_mem hnone]
    rfl
  refine ⟨hunknown, fun op hop => ?_, fun e he => ?_⟩
  · have hroot := lt_size_of_get? hop
    obtain ⟨visits, hp⟩ := h.exists_postOrdered hroot 0
    refine ⟨visits, h.postOrder_eq hroot hp, fun x => ?_, ?_, hres.exists_explain h hroot hp⟩
    · rw [hp.mem_ids_iff h]
      simp
    · intro before visit after bad hsplit hbefore hbad hnone
      exact hres.explain_error h hop hp hsplit hbefore hbad hnone
  · cases hop : f.get? root with
    | none =>
      rw [hunknown hop] at he
      cases he
      exact Or.inl rfl
    | some op =>
      have hroot := lt_size_of_get? hop
      obtain ⟨visits, hp⟩ := h.exists_postOrdered hroot 0
      obtain hknown | ⟨before, visit, after, bad, hsplit, hbefore, hbad, hnone⟩ :=
        forall_profiled_or_first rules fun visit hmem => hp.get?_of_mem hmem
      · obtain ⟨panels, hok, -⟩ := hres.exists_explain h hroot hp hknown
        rw [he] at hok
        cases hok
      · have hmem : visit ∈ visits := by simp [hsplit]
        obtain ⟨id, hid, m, hb, -⟩ := (hp.mem_iff h).mp hmem
        obtain rfl := List.mem_singleton.mp hid
        rw [hres.explain_error h hop hp hsplit hbefore hbad hnone] at he
        cases he
        exact Or.inr ⟨visit.id, m, bad, hb, hbad, hnone, rfl⟩

theorem explain_outcome_sample : (sample.explain
    { grammar := .ofList [("vector_sum", { operand := .any, product := .scalar })] } 0).result =
      .error (.noProfile "vector" "y_hat") := by
  obtain ⟨visits, hvisits, -, hfirst, -⟩ := (explain_outcome reachable_sample
    { grammar := .ofList [("vector_sum", { operand := .any, product := .scalar })] } 0).2.1 _ rfl
  have heq : visits = [] ++ ⟨3, 2⟩ :: [⟨1, 2⟩, ⟨2, 1⟩, ⟨0, 0⟩] :=
    Except.ok.inj (hvisits.symm.trans rfl)
  exact hfirst _ _ _ _ heq (by simp) rfl rfl

end Forest

end ChartFold
