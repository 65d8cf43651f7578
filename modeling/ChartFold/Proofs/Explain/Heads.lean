import ChartFold.Proofs.Explain.Level

/-! The heads that an operation is handed while a tree is explained, and what holds of all panels of
a tree because every panel that is started has it and every step of the gathering keeps it. -/
namespace ChartFold.Forest
open Panel
variable {f : Forest} {rules : Rules} {res more : OpId → Nat → Explaining (List Panel)}
  {op : Operation} {id : OpId} {d : Nat} {list heads : List Panel} {lists : List (List Panel)}
  {profile : Profile} {own head extended gathered : Panel}

theorem Recursion.unique (h : f.WellFormed) (hres : f.Recursion rules res)
    (hmore : f.Recursion rules more) (hid : id < f.size) (d : Nat) : res id d = more id d := by
  refine h.induction (motive := fun id => ∀ d, res id d = more id d) ?_ hid d
  intro id op hop ih d
  rw [hres id op d hop, hmore id op d hop]
  exact explainBy_congr fun c hc => ih c hc (d + 1)

/-- The panels that the children of an operation hand up to it, where it stands at depth `d` of the
tree that is explained: of each child's list the last one. -/
def HandedTo (f : Forest) (rules : Rules) (op : Operation) (d : Nat) (heads : List Panel) : Prop :=
  ∃ res lists, f.Recursion rules res ∧
    List.Forall₂ (fun c l => (res c (d + 1)).result = .ok l) op.children lists ∧
      heads = lists.filterMap List.getLast?

theorem handedTo_leaf (h : f.WellFormed) {leaf : Operation} (hchildren : op.children = [leaf.id])
    (hleaf : f.get? leaf.id = some leaf) (hchildless : leaf.isLeaf)
    (hown : (start leaf (d + 1) rules).result = .ok own) : f.HandedTo rules op d [own] := by
  obtain ⟨res, hres⟩ := h.exists_recursion rules
  have hlist : (res leaf.id (d + 1)).result = .ok [own] := by
    rw [hres leaf.id leaf (d + 1) hleaf, explainBy, if_pos hchildless, Traced.result_bind, hown]
    rfl
  refine ⟨res, [[own]], hres, ?_, rfl⟩
  rw [hchildren]
  exact List.Forall₂.cons hlist List.Forall₂.nil

theorem Level.handed_eq (hlevel : f.Level rules res op d list lists profile own gathered)
    (h : f.WellFormed) (hres : f.Recursion rules res) (hheads : f.HandedTo rules op d heads) :
    heads = lists.filterMap List.getLast? := by
  obtain ⟨more, lists', hmore, hlists, rfl⟩ := hheads
  have hsame : op.children.mapM (more · (d + 1)) = op.children.mapM (res · (d + 1)) := by
    refine Traced.mapM_congr fun c hc => hmore.unique h hres ?_ (d + 1)
    exact h.lt_of_mem_children (children_of_get? hlevel.found ▸ hc)
  have hmap : (op.children.mapM (res · (d + 1))).result = .ok lists := by
    rw [Traced.result_mapM]
    exact Except.mapM_eq_ok.mpr hlevel.children
  have hmap' : (op.children.mapM (more · (d + 1))).result = .ok lists' := by
    rw [Traced.result_mapM]
    exact Except.mapM_eq_ok.mpr hlists
  rw [hsame, hmap] at hmap'
  rw [Except.ok.inj hmap']

/-- One head is extended by the operation and what has been gathered so far, `own`, is laid over
it. -/
structure Joins (f : Forest) (rules : Rules) (op : Operation) (profile : Profile)
    (own head extended : Panel) : Prop where
  found : f.get? op.id = some op
  known : rules.profile? op.kind = some profile
  toppedBy : own.ToppedBy op.id
  fresh : op.id ∉ head.members
  grown : (head.extend op f rules).result = .ok extended

theorem Joins.mem_members (hjoins : f.Joins rules op profile own head extended) {x : OpId} :
    x ∈ (extended.overlay own profile.chart).members ↔ x ∈ head.members ∨ x ∈ own.members :=
  mem_foldHead (foldHead_eq_ok_iff.mpr ⟨extended, hjoins.grown, rfl⟩) hjoins.toppedBy
    hjoins.fresh

section Invariant
variable {P : Panel → Prop}

theorem foldHeads_invariant
    (hjoins : ∀ {op profile own head extended}, f.Joins rules op profile own head extended →
      P own → P head → P (extended.overlay own profile.chart))
    (hop : f.get? op.id = some op) (hprofile : rules.profile? op.kind = some profile)
    (hown : own.ToppedBy op.id) (hP : P own)
    (hheads : ∀ head ∈ heads, op.id ∉ head.members ∧ P head)
    (hfold : foldHeads op profile.chart f rules own heads = .ok gathered) : P gathered := by
  induction heads generalizing own with
  | nil =>
    cases hfold
    exact hP
  | cons head heads ih =>
    obtain ⟨acc, hacc, hfold⟩ := foldHeads_cons_eq_ok.mp hfold
    obtain ⟨hfresh, hhead⟩ := hheads head (by simp)
    have htop := (foldHead_members hacc hown hfresh).1
    obtain ⟨extended, hextended, rfl⟩ := foldHead_eq_ok_iff.mp hacc
    exact ih htop (hjoins ⟨hop, hprofile, hown, hfresh, hextended⟩ hP hhead)
      (fun p hp => hheads p (by simp [hp])) hfold

/-- What holds of every panel that an operation starts with, and of what a head and the panel laid
over it make if it holds of both, holds of all panels that explain a tree. -/
theorem Recursion.forall_mem (h : f.WellFormed) (hres : f.Recursion rules res)
    (hstart : ∀ {op profile own d}, f.get? op.id = some op → rules.profile? op.kind = some profile →
      own = (blank op.id d).redraw (Look.start profile op.toFlow) → P own)
    (hjoins : ∀ {op profile own head extended}, f.Joins rules op profile own head extended →
      P own → P head → P (extended.overlay own profile.chart))
    (hid : id < f.size) (hok : (res id d).result = .ok list) : ∀ p ∈ list, P p := by
  refine h.induction (motive := fun id => ∀ d list, (res id d).result = .ok list → ∀ p ∈ list, P p)
    ?_ hid d list hok
  intro id op hop ih d list hok p hp
  obtain rfl := h.numbered id op hop
  obtain ⟨lists, profile, own, gathered, hlevel⟩ := (hres.eq_ok_iff hop).mp hok
  have hchildren : ∀ q ∈ lists.flatten, P q := by
    intro q hq
    obtain ⟨l, hl, hq⟩ := List.mem_flatten.mp hq
    obtain ⟨c, hc, hchild⟩ := Except.exists_left hlevel.children hl
    exact ih c hc (d + 1) l hchild q hq
  have hfamily := family_perm rules profile.chart lists
  rw [hlevel.leaves, passed] at hp
  obtain hp | hp := List.mem_append.mp hp
  · exact hchildren p (hfamily.mem_iff.mp (List.mem_append_left _ hp))
  · rw [List.mem_singleton.mp hp]
    refine foldHeads_invariant hjoins hop hlevel.known (start_toppedBy hlevel.starts).1
      (hstart hop hlevel.known hlevel.own_eq) (fun head hhead => ⟨?_, ?_⟩) hlevel.gathers
    · exact hlevel.fresh h hres head hhead
    · exact hchildren head (hfamily.mem_iff.mp (List.mem_append_right _ hhead))

end Invariant

end ChartFold.Forest
