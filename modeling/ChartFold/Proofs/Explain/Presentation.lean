import ChartFold.Proofs.Explain.Level
import Mathlib.Data.Nat.SuccPred
import Mathlib.Order.Lattice.Nat
import Mathlib.Order.SuccPred.CompleteLinearOrder

/-! The order in which the panels of a tree are presented: the deepest first, and among equals as
the walk has left them. How deep a panel is and where it stands can be told from the tree alone. -/
namespace ChartFold.Forest
open Panel
variable {f : Forest} {rules : Rules} {res : OpId → Nat → Explaining (List Panel)}
  {op : Operation} {root id : OpId} {d : Nat} {list heads : List Panel} {lists : List (List Panel)}
  {profile : Profile} {own gathered p : Panel}

/-! Depths -/

theorem Recursion.depth_le_iff (h : f.WellFormed) (hres : f.Recursion rules res)
    (hb : f.Below root id d) (hid : id < f.size) (hok : (res id d).result = .ok list)
    (hp : p ∈ list) (n : Nat) :
    p.depth ≤ n ↔ ∀ x ∈ p.members, ∀ k, f.Below root x k → k ≤ n := by
  refine h.induction (motive := fun id => ∀ d list p, f.Below root id d →
    (res id d).result = .ok list → p ∈ list →
      (p.depth ≤ n ↔ ∀ x ∈ p.members, ∀ k, f.Below root x k → k ≤ n)) ?_ hid d list p hb hok hp
  intro id op hop ih d list p hb hok hp
  obtain rfl := h.numbered id op hop
  obtain ⟨lists, profile, own, gathered, hlevel⟩ := (hres.eq_ok_iff hop).mp hok
  have hchildren : ∀ q ∈ lists.flatten,
      (q.depth ≤ n ↔ ∀ x ∈ q.members, ∀ k, f.Below root x k → k ≤ n) := by
    intro q hq
    obtain ⟨l, hl, hq⟩ := List.mem_flatten.mp hq
    obtain ⟨c, hc, hchild⟩ := Except.exists_left hlevel.children hl
    have hparent := h.mem_children.mp (children_of_get? hop ▸ hc)
    exact ih c hc (d + 1) l q (hb.child hparent) hchild hq
  have hfamily := family_perm rules profile.chart lists
  rw [hlevel.leaves] at hp
  obtain hp | hp := List.mem_append.mp hp
  · exact hchildren p (hfamily.mem_iff.mp (List.mem_append_left _ hp))
  · obtain rfl := List.mem_singleton.mp hp
    have hown : own.depth = d := by
      rw [hlevel.own_eq]
      rfl
    have hheads : ∀ head ∈ folded rules profile lists,
        (head.depth ≤ n ↔ ∀ x ∈ head.members, ∀ k, f.Below root x k → k ≤ n) := fun head hhead =>
      hchildren head (hfamily.mem_iff.mp (List.mem_append_right _ hhead))
    have hmem (x : OpId) : x ∈ p.members ↔
        (∃ head ∈ folded rules profile lists, x ∈ head.members) ∨ x = op.id := by
      rw [← Array.mem_toList_iff, (hlevel.members h hres).2.mem_iff, List.mem_append,
        mem_membersOf, List.mem_singleton]
    rw [foldHeads_depth_le hlevel.gathers, hown]
    constructor
    · intro ⟨hd, hle⟩ x hx k hk
      obtain ⟨head, hhead, hx⟩ | rfl := (hmem x).mp hx
      · exact (hheads head hhead).mp (hle head hhead) x hx k hk
      · rwa [h.below_unique hk hb]
    · intro hall
      refine ⟨hall op.id ((hmem _).mpr (Or.inr rfl)) d hb, fun head hhead => ?_⟩
      exact (hheads head hhead).mpr fun x hx => hall x ((hmem x).mpr (Or.inl ⟨head, hhead, hx⟩))

/-! Ways that fork -/

theorem Below.eq_or_lower {a x : OpId} {n : Nat} (hx : f.Below a x n) :
    a = x ∨ ∃ k, f.Below a x (k + 1) := by
  cases hx with
  | refl => exact Or.inl rfl
  | child hb hc => exact Or.inr ⟨_, hb.child hc⟩

/-- Two operations that stand under different children of a third, each at some distance. -/
structure Fork (f : Forest) (p a b x y : OpId) (i j : Nat) : Prop where
  left : f.parent? a = some p
  right : f.parent? b = some p
  apart : a ≠ b
  left_below : f.Below a x i
  right_below : f.Below b y j

theorem Fork.swap {p a b x y : OpId} {i j : Nat} (hfork : f.Fork p a b x y i j) :
    f.Fork p b a y x j i :=
  ⟨hfork.right, hfork.left, hfork.apart.symm, hfork.right_below, hfork.left_below⟩

theorem Fork.not_below (h : f.WellFormed) {p a b x y : OpId} {i j n : Nat}
    (hfork : f.Fork p a b x y i j) : ¬ f.Below x y n := fun hxy =>
  hfork.apart (h.eq_of_siblings hfork.left hfork.right (hfork.left_below.trans hxy)
    hfork.right_below)

theorem Fork.not_lower (h : f.WellFormed) {p a b p' a' b' x y : OpId} {i j i' j' n : Nat}
    (hfork : f.Fork p a b x y i j) (hother : f.Fork p' a' b' x y i' j') :
    ¬ f.Below p p' (n + 1) := by
  intro hlower
  obtain ⟨c, hc, hbelow⟩ := hlower.uncons
  have hx := hbelow.trans (hother.left_below.cons hother.left)
  have hy := hbelow.trans (hother.right_below.cons hother.right)
  apply hfork.apart
  rw [h.eq_of_siblings hfork.left hc hfork.left_below hx]
  exact h.eq_of_siblings hc hfork.right hy hfork.right_below

theorem Fork.unique (h : f.WellFormed) {p a b p' a' b' x y : OpId} {i j i' j' : Nat}
    (hfork : f.Fork p a b x y i j) (hother : f.Fork p' a' b' x y i' j') :
    p = p' ∧ a = a' ∧ b = b' ∧ i = i' ∧ j = j' := by
  have hp := hfork.left_below.cons hfork.left
  have hp' := hother.left_below.cons hother.left
  have hsame : p = p' := by
    obtain hle | hle := Nat.le_total (i + 1) (i' + 1)
    · obtain heq | ⟨n, hlower⟩ := (hp.total hp' hle).eq_or_lower
      · exact heq.symm
      · exact absurd hlower (hother.not_lower h hfork)
    · obtain heq | ⟨n, hlower⟩ := (hp'.total hp hle).eq_or_lower
      · exact heq
      · exact absurd hlower (hfork.not_lower h hother)
  subst hsame
  obtain rfl := h.eq_of_siblings hfork.left hother.left hfork.left_below hother.left_below
  obtain rfl := h.eq_of_siblings hfork.right hother.right hfork.right_below hother.right_below
  exact ⟨rfl, rfl, rfl, h.below_unique hfork.left_below hother.left_below,
    h.below_unique hfork.right_below hother.right_below⟩

/-! The order of the walk -/

/-- The walk leaves the panel under the one operation before that under the other. While some
operation gathers, what an earlier child carries up comes before what a later one does; all of that
before the heads that are refused, these by ascending ids; and all of these before the panel of the
operation itself. -/
inductive Precedes (f : Forest) : OpId → OpId → Prop where
  | carried {p earlier later x y : OpId} {m n : Nat} : [earlier, later].Sublist (f.children p) →
    f.Below earlier x (m + 1) → f.Below later y (n + 1) → Precedes f x y
  | refused {p c y x : OpId} {m : Nat} : c ∈ f.children p → y ∈ f.children p →
    f.Below c x (m + 1) → Precedes f x y
  | ascending {p x y : OpId} : x ∈ f.children p → y ∈ f.children p → x < y → Precedes f x y
  | gathered {x y : OpId} {m : Nat} : f.Below y x (m + 1) → Precedes f x y

/-- Which of two operations that fork comes first depends on whether they are the children
themselves. -/
def Fork.Leads (f : Forest) (p a b : OpId) (i j : Nat) : Prop :=
  (0 < i ∧ 0 < j ∧ [a, b].Sublist (f.children p)) ∨ (0 < i ∧ j = 0) ∨ (i = 0 ∧ j = 0 ∧ a < b)

theorem Precedes.below_or_fork (h : f.WellFormed) {x y : OpId} (hxy : f.Precedes x y) :
    (∃ m, f.Below y x (m + 1)) ∨
      ∃ p a b i j, f.Fork p a b x y i j ∧ Fork.Leads f p a b i j := by
  cases hxy with
  | @carried p a b _ _ m n hsub hx hy =>
    have hne : a ≠ b := by
      have hnodup := (h.nodup_children p).sublist hsub
      simpa using hnodup
    have hmem := hsub.subset
    refine Or.inr ⟨p, a, b, m + 1, n + 1, ⟨h.mem_children.mp (hmem (by simp)),
      h.mem_children.mp (hmem (by simp)), hne, hx, hy⟩, Or.inl ⟨by omega, by omega, hsub⟩⟩
  | @refused p c _ _ m hc hy hx =>
    by_cases hne : c = y
    · exact Or.inl ⟨m, hne ▸ hx⟩
    · exact Or.inr ⟨p, c, y, m + 1, 0, ⟨h.mem_children.mp hc, h.mem_children.mp hy, hne, hx, .refl⟩,
        Or.inr (Or.inl ⟨by omega, rfl⟩)⟩
  | @ascending p _ _ hx hy hlt =>
    exact Or.inr ⟨p, x, y, 0, 0, ⟨h.mem_children.mp hx, h.mem_children.mp hy, Nat.ne_of_lt hlt,
      .refl, .refl⟩, Or.inr (Or.inr ⟨rfl, rfl, hlt⟩)⟩
  | gathered hx => exact Or.inl ⟨_, hx⟩

theorem not_sublist_swap {l : List OpId} (hl : l.Nodup) {a b : OpId} (h : [a, b].Sublist l) :
    ¬ [b, a].Sublist l := by
  intro hswap
  induction hl with
  | nil => cases h
  | cons hc _ ih =>
    cases h with
    | cons _ h =>
      cases hswap with
      | cons _ hswap => exact ih h hswap
      | cons_cons _ _ => exact hc b (h.subset (by simp)) rfl
    | cons_cons _ h =>
      cases hswap with
      | cons _ hswap => exact hc a (hswap.subset (by simp)) rfl
      | cons_cons _ _ => exact hc a (h.subset (by simp)) rfl

theorem Precedes.asymm (h : f.WellFormed) {x y : OpId} (hxy : f.Precedes x y) :
    ¬ f.Precedes y x := by
  intro hyx
  obtain ⟨m, hbelow⟩ | ⟨p, a, b, i, j, hfork, hleads⟩ := hxy.below_or_fork h
  · obtain ⟨n, habove⟩ | ⟨_, _, _, _, _, hfork, -⟩ := hyx.below_or_fork h
    · exact h.not_below_of_below hbelow habove
    · exact hfork.not_below h hbelow
  · obtain ⟨n, habove⟩ | ⟨_, _, _, _, _, hother, hback⟩ := hyx.below_or_fork h
    · exact hfork.not_below h habove
    · obtain ⟨rfl, rfl, rfl, rfl, rfl⟩ := hfork.unique h hother.swap
      unfold Fork.Leads at hleads hback
      obtain ⟨hi, hj, hsub⟩ | hleads := hleads
      · obtain ⟨-, -, hswap⟩ | hback := hback
        · exact not_sublist_swap (h.nodup_children p) hsub hswap
        · omega
      · obtain ⟨hj, hi, -⟩ | ⟨hj, hi⟩ | ⟨hj, hi, hgt⟩ := hback
        · omega
        · omega
        · obtain hleads | ⟨-, -, hlt⟩ := hleads
          · omega
          · exact Nat.lt_asymm hlt hgt

theorem Left.pairwise_carried (h : f.WellFormed) (hres : f.Recursion rules res) {p : OpId}
    {children : List OpId} (hleft : f.Left res p d children lists)
    (hchildren : children.Sublist (f.children p))
    (hlists : ∀ list ∈ lists, list.Pairwise fun a b => f.Precedes a.top b.top) :
    (lists.flatMap List.dropLast).Pairwise fun a b => f.Precedes a.top b.top := by
  unfold Left at hleft
  induction hleft with
  | nil => exact List.Pairwise.nil
  | @cons c list children lists hc hrest ih =>
    obtain ⟨hlist, hlists⟩ := List.forall_mem_cons.mp hlists
    rw [List.flatMap_cons]
    refine List.pairwise_append.mpr ⟨hlist.sublist (List.dropLast_sublist _),
      ih ((List.sublist_cons_self c children).trans hchildren) hlists, fun a ha b hb => ?_⟩
    obtain ⟨list', hlist', hb⟩ := List.mem_flatMap.mp hb
    obtain ⟨c', hc', hparent, hok'⟩ := Except.exists_left hrest hlist'
    obtain ⟨m, hm⟩ := (hres.account_child h hc.1 hc.2).below_of_carried ha
    obtain ⟨n, hn⟩ := (hres.account_child h hparent hok').below_of_carried hb
    refine Precedes.carried (List.Sublist.trans ?_ hchildren) hm hn
    exact (List.singleton_sublist.mpr hc').cons_cons c

theorem Left.map_top (h : f.WellFormed) (hres : f.Recursion rules res) {p : OpId}
    {children : List OpId} (hleft : f.Left res p d children lists) :
    (lists.filterMap List.getLast?).map (·.top) = children := by
  unfold Left at hleft
  induction hleft with
  | nil => rfl
  | @cons c list children lists hc _ ih =>
    obtain ⟨carried, last, rfl, htop⟩ := (hres.account_child h hc.1 hc.2).head
    rw [List.filterMap_cons_some List.getLast?_concat, List.map_cons, ih, htop.top]

theorem pairwise_orphans {wanted : Option Chart} (hnodup : (heads.map (·.top)).Nodup) :
    (byTop (orphans rules wanted heads)).Pairwise fun a b => a.top < b.top := by
  have hsub : ((orphans rules wanted heads).map (·.top)).Sublist (heads.map (·.top)) :=
    List.filter_sublist.map _
  have hdistinct := ((byTop_perm (orphans rules wanted heads)).map (·.top)).nodup_iff.mpr
    (hnodup.sublist hsub)
  exact ((pairwise_byTop _).and (List.pairwise_map.mp hdistinct)).imp fun hab =>
    Nat.lt_of_le_of_ne hab.1 hab.2

theorem Recursion.pairwise_precedes (h : f.WellFormed) (hres : f.Recursion rules res)
    (hid : id < f.size) (hok : (res id d).result = .ok list) :
    list.Pairwise fun a b => f.Precedes a.top b.top := by
  refine h.induction (motive := fun id => ∀ d list, (res id d).result = .ok list →
    list.Pairwise fun a b => f.Precedes a.top b.top) ?_ hid d list hok
  intro id op hop ih d list hok
  obtain rfl := h.numbered id op hop
  have haccount := hres.account h (lt_size_of_get? hop) hok
  obtain ⟨lists, profile, own, gathered, hlevel⟩ := (hres.eq_ok_iff hop).mp hok
  have hleft := hlevel.left h
  have htops := hleft.map_top h hres
  have horphan : ∀ p ∈ byTop (orphans rules profile.chart (lists.filterMap List.getLast?)),
      p.top ∈ f.children op.id := by
    intro p hp
    rw [children_of_get? hop, ← htops]
    exact List.mem_map_of_mem (List.mem_of_mem_filter (mem_byTop.mp hp))
  have hnodup : ((lists.filterMap List.getLast?).map (·.top)).Nodup := by
    rw [htops, ← children_of_get? hop]
    exact h.nodup_children op.id
  rw [hlevel.leaves] at haccount ⊢
  refine List.pairwise_append.mpr ⟨?_, List.pairwise_singleton _ _, fun a ha b hb => ?_⟩
  · refine List.pairwise_append.mpr ⟨?_, ?_, fun a ha b hb => ?_⟩
    · refine hleft.pairwise_carried h hres (by rw [children_of_get? hop]) fun list hlist => ?_
      obtain ⟨c, hc, hchild⟩ := Except.exists_left hlevel.children hlist
      exact ih c hc (d + 1) list hchild
    · exact (pairwise_orphans hnodup).imp_of_mem fun ha hb hab =>
        Precedes.ascending (horphan _ ha) (horphan _ hb) hab
    · obtain ⟨list, hlist, ha⟩ := List.mem_flatMap.mp ha
      obtain ⟨c, hc, hparent, hchild⟩ := Except.exists_left hleft hlist
      obtain ⟨m, hm⟩ := (hres.account_child h hparent hchild).below_of_carried ha
      exact Precedes.refused (h.mem_children.mpr hparent) (horphan b hb) hm
  · obtain rfl := List.mem_singleton.mp hb
    obtain ⟨m, hm⟩ := haccount.below_of_carried (by rwa [List.dropLast_concat])
    rw [haccount.toppedBy_last.top]
    exact Precedes.gathered hm

theorem Recursion.exists_desk (h : f.WellFormed) (hres : f.Recursion rules res)
    (hroot : root < f.size) (hok : (res root 0).result = .ok list) :
    ∃ visits desk, f.postOrder root = .ok visits ∧
      (f.explainVisits rules visits).result = .ok desk ∧ desk.listAt root = list := by
  obtain ⟨visits, hp⟩ := h.exists_postOrdered hroot 0
  have hfresh := getElem?_fresh (hp.lt_size h (by simpa using hroot))
  refine ⟨visits, Desk.put (Array.replicate f.size none) [root] [list], h.postOrder_eq hroot hp,
    ?_, Desk.listAt_put (by simpa using hroot) list⟩
  have hnodup := hp.nodup h (f.apart_singleton root)
  rw [explainVisits_eq, foldlM_explainVisit h hres hp hnodup _ hfresh, List.mapM_cons,
    List.mapM_nil]
  simp only [bind_assoc, pure_bind, Traced.result_bind, hok]
  rfl

/-! What is presented -/

theorem pairwise_byDepth (panels : List Panel) :
    (byDepth panels).Pairwise fun a b => b.depth ≤ a.depth :=
  (List.pairwise_mergeSort deeper_trans deeper_total panels).imp of_decide_eq_true

theorem filter_byDepth (panels : List Panel) (n : Nat) :
    (byDepth panels).filter (·.depth = n) = panels.filter (·.depth = n) := by
  refine filter_mergeSort deeper_trans deeper_total (fun a b ha hb => ?_) panels
  simp only [decide_eq_true_eq] at ha hb ⊢
  exact Nat.le_of_eq (hb.trans ha.symm)

/-- A panel is as deep as the farthest of its members lies below the root. The deepest panels are
presented first. Panels of one depth stay in the order in which they lie on the desk when the walk
ends, and there they lie in the order of the walk, which settles for any two which is first. -/
theorem explain_presentation (hf : f.Reachable) {panels : List Panel}
    (hok : (f.explain rules root).result = .ok panels) :
    (∀ p ∈ panels, (∀ x ∈ p.members, ∃ k, f.Below root x k) ∧
      IsGreatest {k | ∃ x ∈ p.members, f.Below root x k} p.depth) ∧
    panels.Pairwise (fun p q => q.depth ≤ p.depth) ∧
    (∃ visits desk, f.postOrder root = .ok visits ∧
      (f.explainVisits rules visits).result = .ok desk ∧
      (∀ n, panels.filter (·.depth = n) = (desk.listAt root).filter (·.depth = n)) ∧
      (desk.listAt root).Pairwise fun p q => f.Precedes p.top q.top) ∧
    ∀ x y, f.Precedes x y → ¬ f.Precedes y x := by
  have h := hf.wellFormed
  obtain ⟨res, hres⟩ := h.exists_recursion rules
  obtain ⟨hroot, list, hlist, rfl⟩ := (explain_eq_ok h hres).mp hok
  obtain ⟨visits, desk, hvisits, hdesk, rfl⟩ := hres.exists_desk h hroot hlist
  have haccount := hres.account h hroot hlist
  refine ⟨fun p hp => ?_, pairwise_byDepth _, ⟨visits, desk, hvisits, hdesk, filter_byDepth _,
    hres.pairwise_precedes h hroot hlist⟩, fun _ _ => Precedes.asymm h⟩
  have hp := (byDepth_perm _).mem_iff.mp hp
  have hmembers : ∀ x ∈ p.members, ∃ k, f.Below root x k := fun x hx =>
    (haccount.mem_iff x).mp (mem_membersOf.mpr ⟨p, hp, hx⟩)
  refine ⟨hmembers, ?_⟩
  have hlub : IsLUB {k | ∃ x ∈ p.members, f.Below root x k} p.depth := by
    refine isLUB_iff_le_iff.mpr fun n => (hres.depth_le_iff h Below.refl hroot hlist hp n).trans ?_
    exact ⟨fun hall k ⟨x, hx, hk⟩ => hall x hx k hk, fun hbound x hx k hk => hbound ⟨x, hx, hk⟩⟩
  have htop := (haccount.rooted p hp).top_mem
  obtain ⟨k, hk⟩ := hmembers p.top htop
  exact ⟨hlub.mem_of_nonempty_of_not_isSuccLimit ⟨k, p.top, htop, hk⟩
    Order.not_isSuccLimit_of_isSuccArchimedean, hlub.1⟩

/-! Two panels of one depth. The children of the root are linked in descending order of their ids,
but their panels are refused in ascending order. -/

def tiedCalls : List Call := [
  .add "total" none "vector_sum" { outputs := ["total"] },
  .add "part" none "vector_sum" { outputs := ["part"] },
  .add "gap" (some 0) "vector_difference" { outputs := ["gap"] },
  .add "rest" (some 1) "vector_difference" { outputs := ["rest"] },
  .attach 1 0]

def tied : Forest := empty.replay tiedCalls

theorem reachable_tied : tied.Reachable := ⟨tiedCalls, rfl⟩

def tiedPanel (id : OpId) (chart : Chart) (output : Datum) (mark : Mark) (depth : Nat) : Panel :=
  { top := id, members := #[id], chart := some chart, depth
    encodings := .ofList [(output, { mark, channel := .length })] }

def tiedPanels : List Panel := [
  tiedPanel 3 .scatterWithDiagonal "rest" .line 2,
  tiedPanel 1 .spacefilling "part" .bar 1,
  tiedPanel 2 .scatterWithDiagonal "gap" .line 1,
  tiedPanel 0 .spacefilling "total" .bar 0]

theorem explain_tied : (tied.explain sampleRules 0).result = .ok tiedPanels := by
  simp only [explain, explainVisits, explainVisit, byDepth_eq_insertionSort, gather,
    byTop_eq_insertionSort]
  decide +kernel

theorem explain_presentation_tied : (tied.explain sampleRules 0).result = .ok tiedPanels ∧
    IsGreatest {k | ∃ x ∈ #[3], tied.Below 0 x k} 2 ∧
    tiedPanels.Pairwise (fun p q => q.depth ≤ p.depth) ∧
    ∃ visits desk, tied.postOrder 0 = .ok visits ∧
      (tied.explainVisits sampleRules visits).result = .ok desk ∧
      (tiedPanels.filter (·.depth = 1)) = (desk.listAt 0).filter (·.depth = 1) ∧
      (desk.listAt 0).Pairwise fun p q => tied.Precedes p.top q.top := by
  obtain ⟨hdepth, hdeepest, ⟨visits, desk, hvisits, hdesk, hties, hwalk⟩, -⟩ :=
    explain_presentation reachable_tied explain_tied
  exact ⟨explain_tied, (hdepth _ (List.mem_cons_self ..)).2, hdeepest, visits, desk, hvisits, hdesk,
    hties 1, hwalk⟩

end ChartFold.Forest
