import ChartFold.Proofs.Explain.Partition

/-! Children in another order. What an operation gathers is sorted by tops, which tell the heads
apart, so the order of the children reaches only the panels that are carried along. -/
namespace ChartFold

namespace Forest
variable {f g : Forest}

structure Rearranged (f g : Forest) : Prop where
  size : f.size = g.size
  same : ∀ {id op op'}, f.get? id = some op → g.get? id = some op' →
    op' = { op with children := op'.children } ∧ op.children.Perm op'.children

theorem Rearranged.symm (h : f.Rearranged g) : g.Rearranged f := by
  refine ⟨h.size.symm, fun hop' hop => ?_⟩
  obtain ⟨heq, hperm⟩ := h.same hop hop'
  rw [heq]
  exact ⟨rfl, hperm.symm⟩

theorem Rearranged.exists_get? (h : f.Rearranged g) {id : OpId} {op : Operation}
    (hop : f.get? id = some op) : ∃ children, op.children.Perm children ∧
      g.get? id = some { op with children } := by
  obtain ⟨op', hop'⟩ := lt_size_iff.mp (h.size ▸ lt_size_of_get? hop)
  obtain ⟨heq, hperm⟩ := h.same hop hop'
  exact ⟨op'.children, hperm, heq ▸ hop'⟩

theorem Rearranged.get?_eq_none (h : f.Rearranged g) {id : OpId} (hop : f.get? id = none) :
    g.get? id = none := by
  cases hop' : g.get? id with
  | none => rfl
  | some op' =>
    obtain ⟨_, -, hsome⟩ := h.symm.exists_get? hop'
    rw [hop] at hsome
    cases hsome

end Forest

namespace Panel
variable {f g : Forest} {rules : Rules} {wanted : Option Chart} {parent : Operation}

theorem settle_rearranged (h : f.Rearranged g) (p : Panel) (children : List OpId) :
    p.settle wanted { parent with children } g rules = p.settle wanted parent f rules := by
  unfold settle
  split
  · rfl
  · rfl
  · split
    · rfl
    · cases hop : f.get? p.top with
      | some op =>
        obtain ⟨below, -, hop'⟩ := h.exists_get? hop
        rw [Forest.get_eq_ok_iff.mpr hop, Forest.get_eq_ok_iff.mpr hop']
        rfl
      | none =>
        rw [Forest.get, Forest.get, hop, h.get?_eq_none hop]
        rfl

theorem foldHead_rearranged (h : f.Rearranged g) (children : List OpId) (acc head : Panel) :
    foldHead { parent with children } wanted g rules acc head =
      foldHead parent wanted f rules acc head := by
  rw [foldHead, foldHead, extend, extend]
  simp only [settle_rearranged h]
  rfl

theorem foldHeads_rearranged (h : f.Rearranged g) (children : List OpId) (own : Panel)
    (heads : List Panel) : foldHeads { parent with children } wanted g rules own heads =
      foldHeads parent wanted f rules own heads := by
  simp only [foldHeads, foldHead_rearranged h]

/-- The same panels carried along, in any order, and the same head. -/
structure Alike (xs ys : List Panel) : Prop where
  carried : xs.dropLast.Perm ys.dropLast
  head : xs.getLast? = ys.getLast?

theorem Alike.perm {xs ys : List Panel} (h : Alike xs ys) : xs.Perm ys := by
  have hhead := h.head
  cases hlast : ys.getLast? with
  | none =>
    rw [hlast] at hhead
    rw [List.getLast?_eq_none_iff.mp hlast, List.getLast?_eq_none_iff.mp hhead]
  | some last =>
    rw [hlast] at hhead
    obtain ⟨carried, rfl⟩ := List.getLast?_eq_some_iff.mp hhead
    obtain ⟨carried', rfl⟩ := List.getLast?_eq_some_iff.mp hlast
    have hcarried := h.carried
    rw [List.dropLast_concat, List.dropLast_concat] at hcarried
    exact hcarried.append_right _

theorem carried_perm_of_alike {lists more : List (List Panel)} (h : List.Forall₂ Alike lists more) :
    (lists.flatMap List.dropLast).Perm (more.flatMap List.dropLast) := by
  induction h with
  | nil => exact List.Perm.refl _
  | cons hlist _ ih => exact hlist.carried.append ih

theorem heads_eq_of_alike {lists more : List (List Panel)} (h : List.Forall₂ Alike lists more) :
    lists.filterMap List.getLast? = more.filterMap List.getLast? := by
  induction h with
  | nil => rfl
  | cons hlist _ ih => rw [List.filterMap_cons, List.filterMap_cons, hlist.head, ih]

end Panel

namespace Forest
open Panel
variable {f g : Forest} {rules : Rules} {res more : OpId → Nat → Explaining (List Panel)}

/-- The lists that are left for children in another order: the same carried panels and the same
heads, both in any order. -/
theorem exists_lists_of_perm {d : Nat} {ids children : List OpId} {lists : List (List Panel)}
    (hlists : List.Forall₂ (fun c l => (res c d).result = .ok l) ids lists)
    (halike : ∀ c ∈ ids, ∀ l, (res c d).result = .ok l →
      ∃ l', (more c d).result = .ok l' ∧ Alike l l') (hperm : ids.Perm children) :
    ∃ lists', List.Forall₂ (fun c l => (more c d).result = .ok l) children lists' ∧
      (lists.flatMap List.dropLast).Perm (lists'.flatMap List.dropLast) ∧
      (lists.filterMap List.getLast?).Perm (lists'.filterMap List.getLast?) := by
  obtain ⟨same, hsame, hlists⟩ := Except.exists_forall₂ hlists halike
  obtain ⟨lists', hlists', hperm'⟩ := List.perm_comp_forall₂ hperm.symm hsame
  refine ⟨lists', hlists', (carried_perm_of_alike hlists).trans (hperm'.symm.flatMap_right _), ?_⟩
  rw [heads_eq_of_alike hlists]
  exact hperm'.symm.filterMap _

theorem Recursion.exists_alike (hf : f.WellFormed) (h : f.Rearranged g)
    (hres : f.Recursion rules res) (hmore : g.Recursion rules more) {id : OpId} {d : Nat}
    {list : List Panel} (hid : id < f.size) (hok : (res id d).result = .ok list) :
    ∃ list', (more id d).result = .ok list' ∧ Alike list list' := by
  refine hf.induction (motive := fun id => ∀ d list, (res id d).result = .ok list →
    ∃ list', (more id d).result = .ok list' ∧ Alike list list') ?_ hid d list hok
  intro id op hop ih d list hok
  obtain ⟨children, hperm, hop'⟩ := h.exists_get? hop
  rw [hres id op d hop, explainBy_eq_ok] at hok
  obtain ⟨lists, hlists, profile, own, gathered, hprofile, hshapes, hown, hfold, rfl⟩ := hok
  obtain ⟨lists', hlists', hcarried, hheads⟩ :=
    exists_lists_of_perm hlists (fun c hc => ih c hc (d + 1)) hperm
  have hinj : ∀ a ∈ lists.filterMap List.getLast?, ∀ b ∈ lists.filterMap List.getLast?,
      a.top = b.top → a = b := fun a ha b hb =>
    (hf.left hop hlists).head_injective hf hres ha hb
  have horphans : byTop (orphans rules profile.chart (lists.filterMap List.getLast?)) =
      byTop (orphans rules profile.chart (lists'.filterMap List.getLast?)) :=
    byTop_filter_eq_of_perm hheads hinj _
  have hjoining : byTop (joining rules profile.chart (lists.filterMap List.getLast?)) =
      byTop (joining rules profile.chart (lists'.filterMap List.getLast?)) :=
    byTop_filter_eq_of_perm hheads hinj _
  have hshapes' : (checkShapes profile { op with children } g rules).result = .ok () := by
    rw [checkShapes_eq_ok] at hshapes ⊢
    intro c hc
    obtain ⟨child, below, hchild, hbelow⟩ := hshapes c (hperm.mem_iff.mpr hc)
    obtain ⟨_, -, hchild'⟩ := h.exists_get? hchild
    exact ⟨_, below, hchild', hbelow⟩
  rw [hjoining, ← foldHeads_rearranged h children] at hfold
  rw [horphans, hmore id _ d hop']
  refine ⟨_, explainBy_eq_ok.mpr
    ⟨lists', hlists', profile, own, gathered, hprofile, hshapes', hown, hfold, rfl⟩, ?_, ?_⟩
  · rw [List.dropLast_concat, List.dropLast_concat]
    exact hcarried.append_right _
  · rw [List.getLast?_concat, List.getLast?_concat]

theorem exists_explain_of_rearranged (hf : f.WellFormed) (hg : g.WellFormed)
    (h : f.Rearranged g) {root : OpId} {panels : List Panel}
    (hok : (f.explain rules root).result = .ok panels) :
    ∃ panels', (g.explain rules root).result = .ok panels' ∧ panels.Perm panels' := by
  obtain ⟨res, hres⟩ := hf.exists_recursion rules
  obtain ⟨more, hmore⟩ := hg.exists_recursion rules
  obtain ⟨hroot, list, hlist, rfl⟩ := (explain_eq_ok hf hres).mp hok
  obtain ⟨list', hlist', halike⟩ := hres.exists_alike hf h hmore hroot hlist
  refine ⟨byDepth list', (explain_eq_ok hg hmore).mpr ⟨h.size ▸ hroot, list', hlist', rfl⟩, ?_⟩
  exact (byDepth_perm list).trans (halike.perm.trans (byDepth_perm list').symm)

/-- The order of the children decides neither whether a tree can be explained nor by which panels.
Only the order in which the panels are listed may differ. -/
theorem explain_rearranged (hf : f.Reachable) (hg : g.Reachable) (h : f.Rearranged g)
    (rules : Rules) (root : OpId) :
    (f.explain rules root).result.isOk = (g.explain rules root).result.isOk ∧
      ∀ panels panels', (f.explain rules root).result = .ok panels →
        (g.explain rules root).result = .ok panels' → panels.Perm panels' := by
  have hto {panels : List Panel} (hok : (f.explain rules root).result = .ok panels) :=
    exists_explain_of_rearranged hf.wellFormed hg.wellFormed h hok
  have hback {panels : List Panel} (hok : (g.explain rules root).result = .ok panels) :=
    exists_explain_of_rearranged hg.wellFormed hf.wellFormed h.symm hok
  constructor
  · cases hfe : (f.explain rules root).result with
    | ok panels =>
      obtain ⟨panels', hge, -⟩ := hto hfe
      rw [hge]
      rfl
    | error e =>
      cases hge : (g.explain rules root).result with
      | ok panels' =>
        obtain ⟨panels, hfe', -⟩ := hback hge
        rw [hfe] at hfe'
        cases hfe'
      | error e' => rfl
  · intro panels panels' hfe hge
    obtain ⟨same, hsame, hperm⟩ := hto hfe
    rw [hge] at hsame
    cases hsame
    exact hperm

def sampleCallsTurned : List Call := [
  .add "ss" none "vector_sum" { inputs := ["res"], outputs := ["ss"] },
  .add "y" none "vector" { outputs := ["y"] },
  .add "res" (some 0) "vector_difference" { inputs := ["y", "y_hat"], outputs := ["res"] },
  .add "y_hat" none "vector" { outputs := ["y_hat"] },
  .attach 1 2,
  .attach 3 2]

theorem rearranged_sample : sample.Rearranged (empty.replay sampleCallsTurned) := by
  have hall : ∀ id < 4, ∀ op ∈ sample.get? id, ∀ op' ∈ (empty.replay sampleCallsTurned).get? id,
      op' = { op with children := op'.children } ∧ op.children.Perm op'.children := by
    decide
  have hsize : sample.size = 4 := by decide
  refine ⟨by decide, fun {id op op'} hop hop' => hall id ?_ op hop op' hop'⟩
  rw [← hsize]
  exact lt_size_of_get? hop

theorem explain_rearranged_sample : ∃ panels,
    ((empty.replay sampleCallsTurned).explain sampleRules 0).result = .ok panels ∧
      samplePanels.Perm panels := by
  obtain ⟨hisOk, hperm⟩ := explain_rearranged reachable_sample ⟨sampleCallsTurned, rfl⟩
    rearranged_sample sampleRules 0
  cases hturned : ((empty.replay sampleCallsTurned).explain sampleRules 0).result with
  | error e =>
    rw [explain_sample, hturned] at hisOk
    cases hisOk
  | ok panels => exact ⟨panels, rfl, hperm samplePanels panels explain_sample hturned⟩

end Forest

end ChartFold
