import ChartFold.Proofs.Explain.Level
import ChartFold.Proofs.Panel.Raise

/-! Where the panels of a tree part: above an operation whose panel is bound to a chart that cannot
be folded into the chart its parent wants. A head that is handed up there is never touched again,
and any other head stays with its parent. -/
namespace ChartFold

namespace Panel
variable {rules : Rules} {p : Panel} {wanted : Option Chart}

theorem mem_orphans {heads : List Panel} :
    p ∈ byTop (orphans rules wanted heads) ↔ p ∈ heads ∧ p.Refused rules wanted := by
  rw [mem_byTop, orphans, List.mem_filter, isSome_objection?]

theorem mem_joining {heads : List Panel} :
    p ∈ byTop (joining rules wanted heads) ↔ p ∈ heads ∧ ¬ p.Refused rules wanted := by
  rw [mem_byTop, joining, List.mem_filter, ← isSome_objection?, Option.not_isSome_iff_eq_none,
    Option.isNone_iff_eq_none]

def Parted (panels : List Panel) (x y : OpId) : Prop :=
  ∃ p ∈ panels, ∃ q ∈ panels, x ∈ p.members ∧ y ∈ q.members ∧ p ≠ q

theorem parted_perm {xs ys : List Panel} (h : xs.Perm ys) {x y : OpId} :
    Parted xs x y ↔ Parted ys x y := by
  simp only [Parted, h.mem_iff]

theorem not_parted {panels : List Panel} (h : (membersOf panels).Nodup) (hp : p ∈ panels)
    {x y : OpId} (hx : x ∈ p.members) (hy : y ∈ p.members) : ¬ Parted panels x y := by
  intro ⟨q, hq, r, hr, hxq, hyr, hne⟩
  have hqp := eq_of_mem_members h hq hp hxq hx
  have hrp := eq_of_mem_members h hr hp hyr hy
  exact hne (hqp.trans hrp.symm)

end Panel

namespace Forest
open Panel
variable {f : Forest} {rules : Rules} {res : OpId → Nat → Explaining (List Panel)}

def wanted? (f : Forest) (rules : Rules) (id : OpId) : Option Chart :=
  (f.get? id).bind fun op => (rules.profile? op.kind).bind Profile.chart

theorem wanted?_of_get? {id : OpId} {op : Operation} {profile : Profile} (hop : f.get? id = some op)
    (hprofile : rules.profile? op.kind = some profile) : f.wanted? rules id = profile.chart := by
  rw [wanted?, hop, Option.bind_some, hprofile, Option.bind_some]

/-! The same tree walked from a lower start -/

theorem heads_raise (k : Nat) (lists : List (List Panel)) :
    (lists.map (List.map (raise k))).filterMap List.getLast? =
      (lists.filterMap List.getLast?).map (raise k) := by
  rw [List.filterMap_map, List.map_filterMap]
  congr 1
  funext list
  exact List.getLast?_map

theorem carried_raise (k : Nat) (lists : List (List Panel)) :
    (lists.map (List.map (raise k))).flatMap List.dropLast =
      (lists.flatMap List.dropLast).map (raise k) := by
  rw [List.flatMap_map, List.map_flatMap]
  congr 1
  funext list
  exact List.map_dropLast.symm

theorem Recursion.exists_low (h : f.WellFormed) (hres : f.Recursion rules res) {id : OpId}
    (hid : id < f.size) (k d : Nat) {list : List Panel} (hok : (res id (d + k)).result = .ok list) :
    ∃ low, (res id d).result = .ok low ∧ list = low.map (raise k) := by
  refine h.induction (motive := fun id => ∀ d list, (res id (d + k)).result = .ok list →
    ∃ low, (res id d).result = .ok low ∧ list = low.map (raise k)) ?_ hid d list hok
  intro id op hop ih d list hok
  rw [hres id op (d + k) hop, explainBy_eq_ok, Nat.add_right_comm] at hok
  obtain ⟨lists, hlists, profile, own, gathered, hprofile, hshapes, hown, hfold, hlist⟩ := hok
  obtain ⟨lows, hlows, hraised⟩ := Except.exists_forall₂ hlists fun c hc => ih c hc (d + 1)
  rw [← List.forall₂_map_right_iff, List.forall₂_eq_eq_eq] at hraised
  subst hraised
  rw [start_raise] at hown
  obtain ⟨lowOwn, hlowOwn, rfl⟩ := Except.map_eq_ok.mp hown
  rw [heads_raise, joining_raise, byTop_raise, foldHeads_raise] at hfold
  obtain ⟨low, hlow, rfl⟩ := Except.map_eq_ok.mp hfold
  rw [carried_raise, heads_raise, orphans_raise, byTop_raise] at hlist
  rw [hres id op d hop]
  refine ⟨_, explainBy_eq_ok.mpr
    ⟨lows, hlows, profile, lowOwn, low, hprofile, hshapes, hlowOwn, hlow, rfl⟩, ?_⟩
  rw [hlist]
  simp

/-! What a child leaves and what becomes of it -/

/-- One level of the recursion: the heads that are refused are handed up as they are, and the others
end in the panel that holds the operation. -/
theorem Recursion.exists_gathered (h : f.WellFormed) (hres : f.Recursion rules res) {id : OpId}
    {d : Nat} {list : List Panel} (hid : id < f.size) (hok : (res id d).result = .ok list) :
    ∃ lists gathered, f.Left res id d (f.children id) lists ∧
      list = lists.flatMap List.dropLast ++
        byTop (orphans rules (f.wanted? rules id) (lists.filterMap List.getLast?)) ++ [gathered] ∧
      gathered.top = id ∧ gathered.members.toList.Perm (membersOf (byTop
        (joining rules (f.wanted? rules id) (lists.filterMap List.getLast?))) ++ [id]) := by
  obtain ⟨op, hop⟩ := lt_size_iff.mp hid
  obtain rfl := h.numbered id op hop
  obtain ⟨lists, profile, own, gathered, hlevel⟩ := (hres.eq_ok_iff hop).mp hok
  obtain ⟨htop, hmembers⟩ := hlevel.members h hres
  rw [children_of_get? hop, wanted?_of_get? hop hlevel.known]
  exact ⟨lists, gathered, hlevel.left h, hlevel.leaves, htop.top, hmembers⟩

def CutOff (f : Forest) (rules : Rules) (p : Panel) : Prop :=
  ∃ parent, f.parent? p.top = some parent ∧ p.Refused rules (f.wanted? rules parent)

theorem Recursion.cutOff_of_mem_carried (h : f.WellFormed) (hres : f.Recursion rules res)
    {id : OpId} {d : Nat} {carried : List Panel} {last : Panel} (hid : id < f.size)
    (hok : (res id d).result = .ok (carried ++ [last])) : ∀ p ∈ carried, f.CutOff rules p := by
  refine h.induction (motive := fun id => ∀ d carried last,
    (res id d).result = .ok (carried ++ [last]) → ∀ p ∈ carried, f.CutOff rules p)
    ?_ hid d carried last hok
  intro id op hop ih d carried last hok p hp
  obtain ⟨lists, gathered, hleft, hlist, -, -⟩ := hres.exists_gathered h (lt_size_of_get? hop) hok
  obtain ⟨rfl, -⟩ := List.append_inj' hlist rfl
  obtain hp | hp := List.mem_append.mp hp
  · obtain ⟨list, hlist, hp⟩ := List.mem_flatMap.mp hp
    obtain ⟨c, hmem, hc, hchild⟩ := Except.exists_left hleft hlist
    obtain ⟨earlier, head, rfl, -⟩ := (hres.account_child h hc hchild).head
    rw [List.dropLast_concat] at hp
    exact ih c (children_of_get? hop ▸ hmem) (d + 1) earlier head hchild p hp
  · obtain ⟨hhead, hrefused⟩ := mem_orphans.mp hp
    exact ⟨id, (hleft.of_head h hres hhead).1, hrefused⟩

/-- What a child leaves, seen in what its parent leaves: the panels carried along stay, and the head
stays on its own or is gathered. -/
theorem Recursion.carried_or_joined_of_child (h : f.WellFormed) (hres : f.Recursion rules res)
    {c p : OpId} {d : Nat} {carried : List Panel} {last : Panel} (hc : f.parent? c = some p)
    (hok : (res p d).result = .ok (carried ++ [last])) :
    ∃ earlier head, (res c (d + 1)).result = .ok (earlier ++ [head]) ∧
      (∀ q ∈ earlier, q ∈ carried) ∧
      (head.Refused rules (f.wanted? rules p) → head ∈ carried) ∧
      (¬ head.Refused rules (f.wanted? rules p) → ∀ x ∈ head.members, x ∈ last.members) := by
  obtain ⟨lists, gathered, hleft, hlist, -, hmembers⟩ :=
    hres.exists_gathered h (h.mem_of_parent? hc) hok
  obtain ⟨rfl, hlast⟩ := List.append_inj' hlist rfl
  cases hlast
  obtain ⟨list, hmem, -, hchild⟩ := Except.exists_right hleft (h.mem_children.mpr hc)
  obtain ⟨earlier, head, rfl, -⟩ := (hres.account_child h hc hchild).head
  have hhead : head ∈ lists.filterMap List.getLast? :=
    List.mem_filterMap.mpr ⟨_, hmem, List.getLast?_concat⟩
  refine ⟨earlier, head, hchild, fun q hq => ?_, fun hrefused => ?_, fun hjoins x hx => ?_⟩
  · refine List.mem_append_left _ (List.mem_flatMap.mpr ⟨_, hmem, ?_⟩)
    rwa [List.dropLast_concat]
  · exact List.mem_append_right _ (mem_orphans.mpr ⟨hhead, hrefused⟩)
  · rw [← Array.mem_toList_iff, hmembers.mem_iff]
    exact List.mem_append_left _ (mem_membersOf.mpr ⟨head, mem_joining.mpr ⟨hhead, hjoins⟩, hx⟩)

theorem Recursion.carried_and_joined_of_below (h : f.WellFormed) (hres : f.Recursion rules res)
    {root x : OpId} {d : Nat} {list : List Panel} (hroot : root < f.size) (hb : f.Below root x d)
    (hok : (res root 0).result = .ok list) :
    ∃ carried last, (res x d).result = .ok (carried ++ [last]) ∧ (∀ p ∈ carried, p ∈ list) ∧
      ∃ p ∈ list, ∀ y ∈ last.members, y ∈ p.members := by
  induction hb with
  | refl =>
    obtain ⟨carried, last, rfl, -⟩ := (hres.account h hroot hok).head
    exact ⟨carried, last, hok, fun p hp => by simp [hp], last, by simp, fun y hy => hy⟩
  | @child p c d _ hc ih =>
    obtain ⟨carried, last, hp, hcarried, hlast⟩ := ih
    obtain ⟨earlier, head, hchild, hearlier, hrefused, hjoins⟩ :=
      hres.carried_or_joined_of_child h hc hp
    refine ⟨earlier, head, hchild, fun q hq => hcarried q (hearlier q hq), ?_⟩
    by_cases hhead : head.Refused rules (f.wanted? rules p)
    · exact ⟨head, hcarried head (hrefused hhead), fun y hy => hy⟩
    · obtain ⟨q, hq, hmem⟩ := hlast
      exact ⟨q, hq, fun y hy => hmem y (hjoins hhead y hy)⟩

theorem Recursion.exists_own (h : f.WellFormed) (hres : f.Recursion rules res) {x : OpId}
    {d : Nat} {earlier : List Panel} {head : Panel} (hx : x < f.size)
    (hok : (res x d).result = .ok (earlier ++ [head])) :
    ∃ list own, (f.explain rules x).result = .ok list ∧ own ∈ list ∧ own.top = x ∧
      (∀ q ∈ list, q.top = x → q = own) ∧ own.chart = head.chart := by
  rw [← Nat.zero_add d] at hok
  obtain ⟨low, hlow, hraised⟩ := hres.exists_low h hx d 0 hok
  obtain ⟨carried, own, rfl, hown⟩ := (hres.account h hx hlow).head
  rw [List.map_append] at hraised
  obtain ⟨-, hhead⟩ := List.append_inj' hraised rfl
  cases hhead
  have haccount := hres.account h hx hlow
  have hmem : own ∈ carried ++ [own] := by simp
  have hperm := byDepth_perm (carried ++ [own])
  refine ⟨_, own, (explain_eq_ok h hres).mpr ⟨hx, _, hlow, rfl⟩, hperm.mem_iff.mpr hmem, hown.top,
    fun q hq htop => ?_, rfl⟩
  have hq := hperm.mem_iff.mp hq
  exact eq_of_mem_members haccount.nodup hq hmem (haccount.rooted q hq).top_mem
    (htop ▸ haccount.mem_last)

theorem Recursion.parted_iff (h : f.WellFormed) (hres : f.Recursion rules res) {root p x : OpId}
    {d : Nat} {list : List Panel} (hroot : root < f.size) (hb : f.Below root p d)
    (hx : f.parent? x = some p) (hok : (res root 0).result = .ok list) :
    ∃ earlier head, (res x (d + 1)).result = .ok (earlier ++ [head]) ∧
      (Parted list x p ↔ head.Refused rules (f.wanted? rules p)) := by
  obtain ⟨carried, last, hparent, hcarried, q, hq, hlast⟩ :=
    hres.carried_and_joined_of_below h hroot hb hok
  obtain ⟨earlier, head, hchild, -, hrefused, hjoins⟩ :=
    hres.carried_or_joined_of_child h hx hparent
  have hpLast : p ∈ q.members :=
    hlast p (hres.account h (h.mem_of_parent? hx) hparent).mem_last
  have hxHead : x ∈ head.members := (hres.account_child h hx hchild).mem_last
  refine ⟨earlier, head, hchild, fun hparted => ?_, fun hhead => ?_⟩
  · by_contra hhead
    exact not_parted (hres.account h hroot hok).nodup hq (hlast x (hjoins hhead x hxHead)) hpLast
      hparted
  · refine ⟨head, hcarried head (hrefused hhead), q, hq, hxHead, hpLast, fun heq => ?_⟩
    rw [← heq] at hpLast
    exact hres.not_mem_of_child h hx hchild (mem_membersOf.mpr ⟨head, by simp, hpLast⟩)

/-- An operation below the root lies in another panel than its parent if and only if the panel over
its own tree is bound to a chart, its parent declares one, and no rule allows the first in the
second. So it is with every panel that does not stand under the root. -/
theorem explain_parted (hf : f.Reachable) {root : OpId} {panels : List Panel}
    (hok : (f.explain rules root).result = .ok panels) :
    (∀ x p d, f.Below root x d → x ≠ root → f.parent? x = some p →
      ∃ list own, (f.explain rules x).result = .ok list ∧ own ∈ list ∧ own.top = x ∧
        (∀ q ∈ list, q.top = x → q = own) ∧
        (Parted panels x p ↔ ∃ chart wanted, own.chart = some chart ∧
          f.wanted? rules p = some wanted ∧ rules.composition? chart wanted = none)) ∧
    ∀ q ∈ panels, q.top ≠ root → ∃ p chart wanted, f.parent? q.top = some p ∧
      q.chart = some chart ∧ f.wanted? rules p = some wanted ∧
      rules.composition? chart wanted = none := by
  have h := hf.wellFormed
  obtain ⟨res, hres⟩ := h.exists_recursion rules
  obtain ⟨hroot, list, hlist, rfl⟩ := (explain_eq_ok h hres).mp hok
  have haccount := hres.account h hroot hlist
  have hperm := byDepth_perm list
  constructor
  · intro x p d hb hne hp
    cases hb with
    | refl => exact absurd rfl hne
    | child hb hp' =>
      rw [hp] at hp'
      cases hp'
      obtain ⟨earlier, head, hchild, hiff⟩ := hres.parted_iff h hroot hb hp hlist
      have hx := h.lt_of_mem_children (h.mem_children.mpr hp)
      obtain ⟨low, own, hexplain, hmem, htop, hunique, hchart⟩ := hres.exists_own h hx hchild
      refine ⟨low, own, hexplain, hmem, htop, hunique, ?_⟩
      rw [parted_perm hperm, hiff, Refused, hchart]
  · intro q hq htop
    obtain ⟨carried, last, rfl, hlast⟩ := haccount.head
    have hq : q ∈ carried := by
      obtain hq | hq := List.mem_append.mp (hperm.mem_iff.mp hq)
      · exact hq
      · rw [List.mem_singleton.mp hq] at htop
        exact absurd hlast.top htop
    obtain ⟨p, hp, own, wanted, hown, hwanted, hrule⟩ :=
      hres.cutOff_of_mem_carried h hroot hlist q hq
    exact ⟨p, own, wanted, hp, hown, hwanted, hrule⟩

theorem explain_parted_sample : ∃ list own, (sample.explain sampleRules 2).result = .ok list ∧
    own ∈ list ∧ own.top = 2 ∧ (∀ q ∈ list, q.top = 2 → q = own) ∧
      (Parted samplePanels 2 0 ↔ ∃ chart wanted, own.chart = some chart ∧
        sample.wanted? sampleRules 0 = some wanted ∧
        sampleRules.composition? chart wanted = none) :=
  (explain_parted reachable_sample explain_sample).1 2 0 1 (Below.refl.child rfl) (by decide) rfl

end Forest

end ChartFold
