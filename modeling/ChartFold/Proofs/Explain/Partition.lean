import ChartFold.Proofs.Explain.Recursion
import ChartFold.Proofs.Panel.Members

/-! The panels that explain a tree divide it into connected pieces, each below its own top. -/
namespace ChartFold.Forest
open Panel
variable {f : Forest} {rules : Rules} {res : OpId → Nat → Explaining (List Panel)}

/-- A list as an operation leaves it for its parent: the last panel holds the operation. -/
structure HandedUp (f : Forest) (id : OpId) (list : List Panel) : Prop where
  head : ∃ carried last, list = carried ++ [last] ∧ last.ToppedBy id
  rooted : ∀ p ∈ list, p.Rooted f

theorem HandedUp.toppedBy_last {id : OpId} {carried : List Panel} {last : Panel}
    (h : f.HandedUp id (carried ++ [last])) : last.ToppedBy id := by
  obtain ⟨_, last', heq, htop⟩ := h.head
  obtain ⟨-, hlast⟩ := List.append_inj' heq rfl
  cases hlast
  exact htop

theorem HandedUp.mem_last {id : OpId} {carried : List Panel} {last : Panel}
    (h : f.HandedUp id (carried ++ [last])) : id ∈ last.members :=
  h.toppedBy_last.top ▸ (h.rooted last (by simp)).top_mem

theorem carried_append_heads_perm (lists : List (List Panel)) :
    (lists.flatMap List.dropLast ++ lists.filterMap List.getLast?).Perm lists.flatten := by
  induction lists with
  | nil => exact List.Perm.refl _
  | cons list lists ih =>
    rw [List.flatMap_cons, List.flatten_cons]
    cases hlast : list.getLast? with
    | none =>
      have hnil : list = [] := List.getLast?_eq_none_iff.mp hlast
      rw [List.filterMap_cons_none hlast, hnil]
      exact ih
    | some last =>
      rw [List.filterMap_cons_some hlast]
      obtain ⟨carried, rfl⟩ := List.getLast?_eq_some_iff.mp hlast
      rw [List.dropLast_concat, List.append_assoc, List.append_assoc]
      exact ((List.perm_append_comm_assoc _ [last] _).trans (ih.append_left _)).append_left _

theorem family_perm (rules : Rules) (wanted : Option Chart) (lists : List (List Panel)) :
    (lists.flatMap List.dropLast ++
      byTop (orphans rules wanted (lists.filterMap List.getLast?)) ++
      byTop (joining rules wanted (lists.filterMap List.getLast?))).Perm lists.flatten := by
  rw [List.append_assoc]
  exact ((orphans_append_joining_perm rules wanted _).append_left _).trans
    (carried_append_heads_perm lists)

theorem head_of_child (h : f.WellFormed) {op : Operation} {lists : List (List Panel)}
    (hop : f.get? op.id = some op) (hlists : List.Forall₂ f.HandedUp op.children lists)
    {head : Panel} (hhead : head ∈ lists.filterMap List.getLast?) :
    head.Rooted f ∧ f.parent? head.top = some op.id := by
  obtain ⟨list, hlist, hlast⟩ := List.mem_filterMap.mp hhead
  obtain ⟨c, hc, ⟨carried, last, rfl, htop⟩, hrooted⟩ := Except.exists_left hlists hlist
  rw [List.getLast?_concat] at hlast
  cases hlast
  rw [← children_of_get? hop, h.mem_children, ← htop.top] at hc
  exact ⟨hrooted head (by simp), hc⟩

theorem start_rooted {op : Operation} {d : Nat} {own : Panel}
    (h : (start op d rules).result = .ok own) : own.Rooted f := by
  obtain ⟨htop, hmembers⟩ := start_toppedBy h
  refine ⟨by simp [htop.top, hmembers], fun x hx hne => ?_⟩
  rw [hmembers] at hx
  rw [htop.top] at hne
  exact absurd (by simpa using hx) hne

/-- One level of the recursion hands up a list as it should be, which explains the operation and
what the lists of the children explain. -/
theorem handedUp_of_level (h : f.WellFormed) {op : Operation} {d : Nat}
    {lists : List (List Panel)} {wanted : Option Chart} {own gathered : Panel}
    (hop : f.get? op.id = some op) (hlists : List.Forall₂ f.HandedUp op.children lists)
    (hid : op.id ∉ membersOf lists.flatten) (hown : (start op d rules).result = .ok own)
    (hfold : foldHeads op wanted f rules own
      (byTop (joining rules wanted (lists.filterMap List.getLast?))) = .ok gathered)
    {list : List Panel} (hlist : list = lists.flatMap List.dropLast ++
      byTop (orphans rules wanted (lists.filterMap List.getLast?)) ++ [gathered]) :
    f.HandedUp op.id list ∧ (membersOf list).Perm (membersOf lists.flatten ++ [op.id]) := by
  have hfamily := family_perm rules wanted lists
  have hjoining : ∀ head ∈ byTop (joining rules wanted (lists.filterMap List.getLast?)),
      op.id ∉ head.members ∧ head.Rooted f ∧ f.parent? head.top = some op.id := by
    intro head hhead
    have hmem := hfamily.mem_iff.mp (List.mem_append_right _ hhead)
    refine ⟨fun hop => hid (mem_membersOf.mpr ⟨head, hmem, hop⟩), head_of_child h hop hlists ?_⟩
    exact List.mem_of_mem_filter (mem_byTop.mp hhead)
  obtain ⟨hownTop, hownMembers⟩ := start_toppedBy hown
  obtain ⟨htop, hmembers⟩ := foldHeads_members hfold hownTop fun p hp => (hjoining p hp).1
  have hgathered := foldHeads_rooted hfold hownTop (start_rooted hown) hjoining
  subst hlist
  refine ⟨⟨⟨_, gathered, rfl, htop⟩, fun p hp => ?_⟩, ?_⟩
  · obtain hp | hp := List.mem_append.mp hp
    · have hmem := hfamily.mem_iff.mp (List.mem_append_left _ hp)
      obtain ⟨list, hlist, hp⟩ := List.mem_flatten.mp hmem
      obtain ⟨c, -, hc⟩ := Except.exists_left hlists hlist
      exact hc.rooted p hp
    · rw [List.mem_singleton.mp hp]
      exact hgathered
  · have hall := membersOf_perm hfamily
    rw [membersOf_append] at hall
    rw [hownMembers] at hmembers
    rw [membersOf_append, membersOf_singleton]
    refine (hmembers.append_left _).trans ?_
    rw [← List.append_assoc]
    exact hall.append_right _

/-- What the recursion hands up for some trees: each list as it should be, and all together every
operation of the trees once. -/
theorem handedUp_of_postOrdered (h : f.WellFormed) (hres : f.Recursion rules res)
    {ids : List OpId} {d : Nat} {visits : List Visit} (hp : f.PostOrdered ids d visits)
    (hnodup : (visits.map Visit.id).Nodup) {lists : List (List Panel)}
    (hlists : List.Forall₂ (fun id list => (res id d).result = .ok list) ids lists) :
    List.Forall₂ f.HandedUp ids lists ∧
      (membersOf lists.flatten).Perm (visits.map Visit.id) := by
  induction hp generalizing lists with
  | nil =>
    cases hlists
    exact ⟨List.Forall₂.nil, List.Perm.refl _⟩
  | @cons id op ids d below rest hop _ _ ihbelow ihrest =>
    obtain rfl := h.numbered id op hop
    rw [List.map_append, List.map_cons] at hnodup
    obtain ⟨hbelow, hcons, hdisjoint⟩ := List.nodup_append.mp hnodup
    cases hlists with
    | @cons _ list _ lists hlist hrest =>
      rw [hres _ op d hop, explainBy_eq_ok] at hlist
      obtain ⟨inner, hinner, profile, own, gathered, -, -, hown, hfold, hlist⟩ := hlist
      obtain ⟨hchildren, hperm⟩ := ihbelow hbelow hinner
      obtain ⟨htrees, hpermRest⟩ := ihrest (List.nodup_cons.mp hcons).2 hrest
      have hid : op.id ∉ membersOf inner.flatten := fun hmem =>
        hdisjoint _ (hperm.mem_iff.mp hmem) op.id (by simp) rfl
      obtain ⟨hup, hmembers⟩ := handedUp_of_level h hop hchildren hid hown hfold hlist
      refine ⟨List.Forall₂.cons hup htrees, ?_⟩
      rw [List.flatten_cons, membersOf_append, List.map_append, List.map_cons]
      rw [List.append_cons]
      exact (hmembers.trans (hperm.append_right _)).append hpermRest

structure Account (f : Forest) (id : OpId) (list : List Panel) : Prop
    extends f.HandedUp id list where
  nodup : (membersOf list).Nodup
  mem_iff : ∀ x, x ∈ membersOf list ↔ ∃ d, f.Below id x d

theorem Recursion.account (h : f.WellFormed) (hres : f.Recursion rules res) {id : OpId} {d : Nat}
    {list : List Panel} (hid : id < f.size) (hok : (res id d).result = .ok list) :
    f.Account id list := by
  obtain ⟨visits, hp⟩ := h.exists_postOrdered hid d
  have hnodup := hp.nodup h (f.apart_singleton id)
  obtain ⟨hup, hperm⟩ := handedUp_of_postOrdered h hres hp hnodup
    (List.Forall₂.cons hok List.Forall₂.nil)
  rw [List.flatten_singleton] at hperm
  cases hup with
  | cons hup _ =>
    refine ⟨hup, hperm.nodup_iff.mpr hnodup, fun x => ?_⟩
    rw [hperm.mem_iff, hp.mem_ids_iff h]
    simp

theorem Account.count_top {id : OpId} {list : List Panel} (h : f.Account id list) :
    list.countP (·.top = id) = 1 := by
  obtain ⟨carried, last, rfl, htop⟩ := h.head
  have hnone : ∀ p ∈ carried, ¬ p.top = id := by
    intro p hp hid
    have hpmem : id ∈ p.members := hid ▸ (h.rooted p (by simp [hp])).top_mem
    have hnodup := h.nodup
    rw [membersOf_append, membersOf_singleton, List.nodup_append] at hnodup
    exact hnodup.2.2 id (mem_membersOf.mpr ⟨p, hp, hpmem⟩) id (Array.mem_toList_iff.mpr h.mem_last)
      rfl
  rw [List.countP_append, List.countP_eq_zero.mpr (by simpa using hnone)]
  simp [htop.top]

theorem Account.below_of_carried {id : OpId} {list : List Panel} {p : Panel}
    (h : f.Account id list) (hp : p ∈ list.dropLast) : ∃ m, f.Below id p.top (m + 1) := by
  obtain ⟨carried, last, rfl, -⟩ := h.head
  rw [List.dropLast_concat] at hp
  have htop : p.top ∈ p.members := (h.rooted p (by simp [hp])).top_mem
  obtain ⟨m, hm⟩ := (h.mem_iff p.top).mp (mem_membersOf.mpr ⟨p, by simp [hp], htop⟩)
  cases m with
  | succ m => exact ⟨m, hm⟩
  | zero =>
    cases hm
    -- only the last panel holds the operation itself
    have hnodup := h.nodup
    rw [membersOf_append, membersOf_singleton, List.nodup_append] at hnodup
    exact absurd rfl (hnodup.2.2 p.top (mem_membersOf.mpr ⟨p, hp, htop⟩) p.top
      (Array.mem_toList_iff.mpr h.mem_last))

theorem Recursion.account_child (h : f.WellFormed) (hres : f.Recursion rules res) {c p : OpId}
    {d : Nat} {list : List Panel} (hc : f.parent? c = some p) (hok : (res c d).result = .ok list) :
    f.Account c list := hres.account h (h.lt_of_mem_children (h.mem_children.mpr hc)) hok

theorem Recursion.not_mem_of_child (h : f.WellFormed) (hres : f.Recursion rules res) {c p : OpId}
    {d : Nat} {list : List Panel} (hc : f.parent? c = some p) (hok : (res c d).result = .ok list) :
    p ∉ membersOf list := by
  intro hmem
  obtain ⟨k, hb⟩ := ((hres.account_child h hc hok).mem_iff p).mp hmem
  have := h.eq_zero_of_below_self (hb.cons hc)
  omega

def Left (f : Forest) (res : OpId → Nat → Explaining (List Panel)) (p : OpId) (d : Nat) :
    List OpId → List (List Panel) → Prop :=
  List.Forall₂ fun c list => f.parent? c = some p ∧ (res c (d + 1)).result = .ok list

theorem WellFormed.left (h : f.WellFormed) {id : OpId} {op : Operation} {d : Nat}
    {lists : List (List Panel)} (hop : f.get? id = some op)
    (hlists : List.Forall₂ (fun c l => (res c (d + 1)).result = .ok l) op.children lists) :
    f.Left res id d op.children lists := by
  refine (List.forall₂_and_left _ _).mpr ⟨fun c hc => ?_, hlists⟩
  rwa [← h.mem_children, children_of_get? hop]

theorem Left.of_head (h : f.WellFormed) (hres : f.Recursion rules res) {p : OpId} {d : Nat}
    {children : List OpId} {lists : List (List Panel)} (hleft : f.Left res p d children lists)
    {head : Panel} (hhead : head ∈ lists.filterMap List.getLast?) :
    f.parent? head.top = some p ∧ p ∉ head.members ∧
      ∃ list, (res head.top (d + 1)).result = .ok list ∧ list.getLast? = some head := by
  obtain ⟨list, hlist, hlast⟩ := List.mem_filterMap.mp hhead
  obtain ⟨c, _, hc, hok⟩ := Except.exists_left hleft hlist
  have hhanded := (hres.account_child h hc hok).toHandedUp
  obtain ⟨carried, rfl⟩ := List.getLast?_eq_some_iff.mp hlast
  obtain rfl := hhanded.toppedBy_last.top
  refine ⟨hc, fun hp => hres.not_mem_of_child h hc hok ?_, _, hok, hlast⟩
  exact mem_membersOf.mpr ⟨head, by simp, hp⟩

theorem Left.head_injective (h : f.WellFormed) (hres : f.Recursion rules res) {p : OpId} {d : Nat}
    {children : List OpId} {lists : List (List Panel)} (hleft : f.Left res p d children lists)
    {a b : Panel} (ha : a ∈ lists.filterMap List.getLast?)
    (hb : b ∈ lists.filterMap List.getLast?) (htop : a.top = b.top) : a = b := by
  obtain ⟨-, -, list, hlist, hlast⟩ := hleft.of_head h hres ha
  obtain ⟨-, -, list', hlist', hlast'⟩ := hleft.of_head h hres hb
  rw [htop, hlist'] at hlist
  cases hlist
  rw [hlast'] at hlast
  exact (Option.some.inj hlast).symm

/-- The panels that explain a tree hold every operation of it once and no other. Each panel holds
its top and, with any other operation, the one above it, so that climbing from a member stays inside
up to the top. One panel alone stands under the root. -/
theorem explain_partition (hf : f.Reachable) {root : OpId} {panels : List Panel}
    (hok : (f.explain rules root).result = .ok panels) :
    (membersOf panels).Nodup ∧ (∀ x, x ∈ membersOf panels ↔ ∃ d, f.Below root x d) ∧
    (∀ p ∈ panels, p.top ∈ p.members ∧
      (∀ x ∈ p.members, x ≠ p.top → ∃ y ∈ p.members, f.parent? x = some y) ∧
      ∀ x ∈ p.members,
        Relation.ReflTransGen (fun a b => f.parent? a = some b ∧ b ∈ p.members) x p.top) ∧
    panels.countP (·.top = root) = 1 := by
  have h := hf.wellFormed
  obtain ⟨res, hres⟩ := h.exists_recursion rules
  obtain ⟨hroot, list, hlist, rfl⟩ := (explain_eq_ok h hres).mp hok
  have haccount := hres.account h hroot hlist
  have hperm := byDepth_perm list
  have hmembers := membersOf_perm hperm
  refine ⟨hmembers.nodup_iff.mpr haccount.nodup, fun x => ?_, fun p hp => ?_, ?_⟩
  · rw [hmembers.mem_iff, haccount.mem_iff]
  · have hrooted := haccount.rooted p (hperm.mem_iff.mp hp)
    exact ⟨hrooted.top_mem, hrooted.climb, hrooted.climb_top h⟩
  · rw [hperm.countP_eq, haccount.count_top]

theorem explain_partition_sample : (sample.explain sampleRules 0).result = .ok samplePanels ∧
    (membersOf samplePanels).Nodup ∧ samplePanels.countP (·.top = 0) = 1 := by
  obtain ⟨hnodup, -, -, htop⟩ := explain_partition reachable_sample explain_sample
  exact ⟨explain_sample, hnodup, htop⟩

end ChartFold.Forest
