import ChartFold.Proofs.Encodings.Union
import ChartFold.Proofs.Panel.Look
import ChartFold.Proofs.Panel.Members

/-! Families of heads compared with one another, across two forests too. What is gathered looks
alike where the heads look alike and the flows at their tops agree. It does not depend on the order
of the heads where what they show goes together. -/
namespace ChartFold

/-! Looks that can be laid over one another in either order -/

/-- No field of an encoding is set to two different values, and where both looks are bound to charts
other than the declared one, they are bound to the same. -/
structure Look.Agree (declared : Option Chart) (l m : Look) : Prop where
  encodings : l.encodings.Compatible m.encodings
  charts : ∀ c ∈ l.chart, ∀ c' ∈ m.chart, some c ≠ declared → some c' ≠ declared → c = c'

theorem Look.Agree.refl (declared : Option Chart) (l : Look) : Look.Agree declared l l :=
  ⟨Encodings.Compatible.refl _, fun _ hc _ hc' _ _ => Option.mem_unique hc hc'⟩

theorem Look.Agree.chart_comm {declared : Option Chart} {l m : Look} (h : Look.Agree declared l m)
    (acc : Option Chart) :
    Panel.overlaidChart m.chart (Panel.overlaidChart l.chart acc declared) declared =
      Panel.overlaidChart l.chart (Panel.overlaidChart m.chart acc declared) declared := by
  by_cases hl : l.chart = none ∨ l.chart = declared
  · by_cases hm : m.chart = none ∨ m.chart = declared
    · have hcomm : l.chart.or m.chart = m.chart.or l.chart := by
        obtain hl | hl := hl
        · rw [hl, Option.none_or, Option.or_none]
        · obtain hm | hm := hm
          · rw [hm, Option.none_or, Option.or_none]
          · rw [hl, hm]
      rw [Panel.overlaidChart_of_plain hl, Panel.overlaidChart_of_plain hm,
        Panel.overlaidChart_of_plain hm, Panel.overlaidChart_of_plain hl, Option.or_assoc, hcomm,
        Option.or_assoc]
    · have hsome : m.chart.isSome :=
        Option.isSome_iff_ne_none.mpr fun hnone => hm (Or.inl hnone)
      rw [Panel.overlaidChart_of_not_plain hm, Panel.overlaidChart_of_not_plain hm,
        Panel.overlaidChart_of_plain hl, Option.or_of_isSome hsome]
  · by_cases hm : m.chart = none ∨ m.chart = declared
    · have hsome : l.chart.isSome :=
        Option.isSome_iff_ne_none.mpr fun hnone => hl (Or.inl hnone)
      rw [Panel.overlaidChart_of_not_plain hl, Panel.overlaidChart_of_not_plain hl,
        Panel.overlaidChart_of_plain hm, Option.or_of_isSome hsome]
    · obtain ⟨hlNone, hlDeclared⟩ := not_or.mp hl
      obtain ⟨hmNone, hmDeclared⟩ := not_or.mp hm
      obtain ⟨c, hc⟩ := Option.ne_none_iff_exists'.mp hlNone
      obtain ⟨c', hc'⟩ := Option.ne_none_iff_exists'.mp hmNone
      have heq := h.charts c hc c' hc' (hc ▸ hlDeclared) (hc' ▸ hmDeclared)
      simp only [Panel.overlaidChart_of_not_plain hl, Panel.overlaidChart_of_not_plain hm]
      rw [hc, hc', heq]

theorem Look.Agree.overlay_comm {declared : Option Chart} {l m : Look}
    (h : Look.Agree declared l m) (acc : Look) :
    m.overlay (l.overlay acc declared) declared = l.overlay (m.overlay acc declared) declared := by
  have hencodings : m.encodings.union (l.encodings.union acc.encodings) =
      l.encodings.union (m.encodings.union acc.encodings) := by
    rw [← Encodings.union_assoc, ← Encodings.union_comm_iff.mpr h.encodings, Encodings.union_assoc]
  simp only [overlay, h.chart_comm, hencodings]

namespace Panel
variable {f g : Forest} {rules : Rules} {parent parent' : Operation}
  {declared wanted : Option Chart}

/-! Relations between lists of panels -/

section Lists
variable {R : Panel → Panel → Prop} {xs ys : List Panel} {lists more : List (List Panel)}

theorem byTop_forall₂ (h : List.Forall₂ R xs ys) (htop : ∀ p q, R p q → q.top = p.top) :
    List.Forall₂ R (byTop xs) (byTop ys) := by
  obtain ⟨hlength, hzip⟩ := List.forall₂_iff_zip.mp h
  let pairs := (xs.zip ys).mergeSort fun a b => a.1.top ≤ b.1.top
  have hfst : pairs.map Prod.fst = byTop xs := by
    rw [List.map_mergeSort (s := fun a b : Panel => decide (a.top ≤ b.top)) fun _ _ _ _ => rfl,
      List.map_fst_zip (Nat.le_of_eq hlength), byTop]
  have hsnd : pairs.map Prod.snd = byTop ys := by
    rw [List.map_mergeSort (s := fun a b : Panel => decide (a.top ≤ b.top)) ?_,
      List.map_snd_zip (Nat.le_of_eq hlength.symm), byTop]
    intro a ha b hb
    rw [htop _ _ (hzip ha), htop _ _ (hzip hb)]
  rw [← hfst, ← hsnd, List.forall₂_map_left_iff, List.forall₂_map_right_iff, List.forall₂_same]
  intro pair hpair
  exact hzip (List.mem_mergeSort.mp hpair)

theorem objection?_congr {p q : Panel} (h : q.chart = p.chart) :
    q.objection? rules wanted = p.objection? rules wanted := by
  unfold objection?
  rw [h]

theorem joining_forall₂ (h : List.Forall₂ R xs ys) (hchart : ∀ p q, R p q → q.chart = p.chart) :
    List.Forall₂ R (joining rules wanted xs) (joining rules wanted ys) := by
  refine List.rel_filter (fun {p q} hR => ?_) h
  simp only [objection?_congr (hchart p q hR)]

theorem orphans_forall₂ (h : List.Forall₂ R xs ys) (hchart : ∀ p q, R p q → q.chart = p.chart) :
    List.Forall₂ R (orphans rules wanted xs) (orphans rules wanted ys) := by
  refine List.rel_filter (fun {p q} hR => ?_) h
  simp only [objection?_congr (hchart p q hR)]

theorem heads_forall₂ (h : List.Forall₂ (List.Forall₂ R) lists more) :
    List.Forall₂ R (lists.filterMap List.getLast?) (more.filterMap List.getLast?) := by
  refine List.rel_filterMap (fun {list list'} hlist => ?_) h
  have hreverse := List.rel_reverse hlist
  rw [← List.head?_reverse, ← List.head?_reverse]
  generalize list.reverse = l, list'.reverse = l' at hreverse ⊢
  cases hreverse with
  | nil => exact Option.Rel.none
  | cons hlast _ => exact Option.Rel.some hlast

theorem carried_forall₂ (h : List.Forall₂ (List.Forall₂ R) lists more) :
    List.Forall₂ R (lists.flatMap List.dropLast) (more.flatMap List.dropLast) := by
  refine List.rel_flatMap h fun {list list'} hlist => ?_
  rw [List.dropLast_eq_take, List.dropLast_eq_take, hlist.length_eq]
  exact List.forall₂_take _ hlist

/-- The panels of the two lists are related one to one, in whatever order they are listed. -/
def Paired (R : Panel → Panel → Prop) (xs ys : List Panel) : Prop :=
  ∃ zs, List.Forall₂ R xs zs ∧ zs.Perm ys

theorem Paired.of_forall₂ (h : List.Forall₂ R xs ys) : Paired R xs ys :=
  ⟨ys, h, List.Perm.refl ys⟩

theorem Paired.of_perm {xs' ys' : List Panel} (h : Paired R xs ys) (hxs : xs'.Perm xs)
    (hys : ys.Perm ys') : Paired R xs' ys' := by
  obtain ⟨zs, hzs, hperm⟩ := h
  obtain ⟨zs', hzs', hperm'⟩ := List.perm_comp_forall₂ hxs hzs
  exact ⟨zs', hzs', hperm'.trans (hperm.trans hys)⟩

theorem Paired.exists_perm (h : Paired R xs ys) : ∃ zs, xs.Perm zs ∧ List.Forall₂ R zs ys := by
  obtain ⟨zs, hzs, hperm⟩ := h
  obtain ⟨zs', hzs', hperm'⟩ := List.perm_comp_forall₂ hperm.symm hzs.flip
  exact ⟨zs', hperm'.symm, hzs'.flip⟩

theorem Paired.append {xs' ys' : List Panel} (h : Paired R xs ys) (h' : Paired R xs' ys') :
    Paired R (xs ++ xs') (ys ++ ys') := by
  obtain ⟨zs, hzs, hperm⟩ := h
  obtain ⟨zs', hzs', hperm'⟩ := h'
  exact ⟨zs ++ zs', List.rel_append hzs hzs', hperm.append hperm'⟩

theorem Paired.byTop (h : Paired R xs ys) : Paired R (byTop xs) (byTop ys) :=
  h.of_perm (byTop_perm xs) (byTop_perm ys).symm

theorem Paired.joining (h : Paired R xs ys) (hchart : ∀ p q, R p q → q.chart = p.chart) :
    Paired R (joining rules wanted xs) (joining rules wanted ys) := by
  obtain ⟨zs, hzs, hperm⟩ := h
  exact ⟨_, joining_forall₂ hzs hchart, hperm.filter _⟩

theorem Paired.orphans (h : Paired R xs ys) (hchart : ∀ p q, R p q → q.chart = p.chart) :
    Paired R (orphans rules wanted xs) (orphans rules wanted ys) := by
  obtain ⟨zs, hzs, hperm⟩ := h
  exact ⟨_, orphans_forall₂ hzs hchart, hperm.filter _⟩

end Lists

/-! Heads that look alike -/

/-- Panels of two forests that show the same and whose tops have the same flow of data. -/
structure Akin (f g : Forest) (p q : Panel) : Prop where
  look : q.look = p.look
  top : ∃ op op', f.get? p.top = some op ∧ g.get? q.top = some op' ∧ op'.toFlow = op.toFlow

theorem exists_profile_of_extend {p extended : Panel}
    (h : (p.extend parent f rules).result = .ok extended) :
    ∃ profile, rules.profile? parent.kind = some profile := by
  rw [extend] at h
  cases hprofile : rules.profileOf parent with
  | error e =>
    rw [hprofile] at h
    cases h
  | ok profile => exact ⟨profile, Rules.profileOf_eq_ok.mp hprofile⟩

theorem Akin.extend {p q extended : Panel} (h : Akin f g p q) (hkind : parent'.kind = parent.kind)
    (hflow : parent'.toFlow = parent.toFlow)
    (hextended : (p.extend parent f rules).result = .ok extended) :
    (q.extend parent' g rules).result =
      .ok ((q.redraw extended.look).addMember parent'.id) := by
  obtain ⟨profile, hprofile⟩ := exists_profile_of_extend hextended
  obtain ⟨child, child', hchild, hchild', hchildFlow⟩ := h.top
  rw [extend_eq_ok_iff hprofile hchild] at hextended
  obtain ⟨l, hl, rfl⟩ := hextended
  rw [extend_eq_ok_iff (hkind ▸ hprofile) hchild', h.look, hflow, hchildFlow]
  exact ⟨l, hl, rfl⟩

theorem extend_eq_redraw {p extended : Panel} {child : Operation}
    (hchild : f.get? p.top = some child) (h : (p.extend parent f rules).result = .ok extended) :
    extended = (p.redraw extended.look).addMember parent.id := by
  obtain ⟨profile, hprofile⟩ := exists_profile_of_extend h
  obtain ⟨l, -, rfl⟩ := (extend_eq_ok_iff hprofile hchild).mp h
  rfl

theorem look_overlayAll_congr {own own' : Panel} {xs ys : List Panel}
    (h : List.Forall₂ (fun p q => q.look = p.look) xs ys) (hown : own'.look = own.look) :
    (overlayAll declared own' ys).look = (overlayAll declared own xs).look := by
  have hlooks : xs.map look = ys.map look := by
    rw [← List.forall₂_eq_eq_eq, List.forall₂_map_left_iff, List.forall₂_map_right_iff]
    exact h.imp fun _ _ => Eq.symm
  rw [look_overlayAll, look_overlayAll, hlooks, hown]

theorem foldHeads_akin {own own' gathered : Panel} {heads heads' : List Panel}
    (hheads : List.Forall₂ (Akin f g) heads heads') (hown : own'.look = own.look)
    (hkind : parent'.kind = parent.kind) (hflow : parent'.toFlow = parent.toFlow)
    (h : foldHeads parent declared f rules own heads = .ok gathered) :
    ∃ gathered', foldHeads parent' declared g rules own' heads' = .ok gathered' ∧
      gathered'.look = gathered.look := by
  obtain ⟨extended, hextended, rfl⟩ := foldHeads_eq_ok_iff.mp h
  obtain ⟨extended', hextended', hlooks⟩ := Except.exists_forall₂_square
    (T := fun q p => (q.extend parent' g rules).result = .ok p)
    (U := fun p q : Panel => q.look = p.look) hheads hextended
    fun _ _ q p hakin hp =>
      ⟨(q.redraw p.look).addMember parent'.id, hakin.extend hkind hflow hp, rfl⟩
  exact ⟨_, foldHeads_eq_ok_iff.mpr ⟨extended', hextended', rfl⟩, look_overlayAll_congr hlooks hown⟩

/-- The same heads make the same panel over any forest in which the flows at their tops agree. -/
theorem foldHeads_same {own gathered : Panel} {heads : List Panel}
    (hheads : ∀ head ∈ heads, Akin f g head head) (hid : parent'.id = parent.id)
    (hkind : parent'.kind = parent.kind) (hflow : parent'.toFlow = parent.toFlow)
    (h : foldHeads parent declared f rules own heads = .ok gathered) :
    foldHeads parent' declared g rules own heads = .ok gathered := by
  obtain ⟨extended, hextended, rfl⟩ := foldHeads_eq_ok_iff.mp h
  refine foldHeads_eq_ok_iff.mpr ⟨extended, ?_, rfl⟩
  refine ((List.forall₂_and_left _ _).mpr ⟨hheads, hextended⟩).imp fun head p hp => ?_
  obtain ⟨child, -, hchild, -⟩ := hp.1.top
  rw [hp.1.extend hkind hflow hp.2, hid, ← extend_eq_redraw hchild hp.2]

theorem foldHeads_depth_le {own gathered : Panel} {heads : List Panel}
    (h : foldHeads parent declared f rules own heads = .ok gathered) (n : Nat) :
    gathered.depth ≤ n ↔ own.depth ≤ n ∧ ∀ head ∈ heads, head.depth ≤ n := by
  induction heads generalizing own with
  | nil =>
    cases h
    simp
  | cons head heads ih =>
    obtain ⟨acc, hacc, h⟩ := foldHeads_cons_eq_ok.mp h
    rw [ih h, (foldHead_eq_ok hacc).2.1, Nat.max_le, List.forall_mem_cons]
    tauto

/-! Heads in another order -/

theorem look_overlayAll_perm {xs ys : List Panel} (h : xs.Perm ys)
    (hagree : ∀ a ∈ xs, ∀ b ∈ xs, Look.Agree declared a.look b.look) (own : Panel) :
    (overlayAll declared own ys).look = (overlayAll declared own xs).look := by
  rw [look_overlayAll, look_overlayAll]
  refine ((h.map look).foldl_eq' (fun l hl m hm acc => ?_) own.look).symm
  obtain ⟨a, ha, rfl⟩ := List.mem_map.mp hl
  obtain ⟨b, hb, rfl⟩ := List.mem_map.mp hm
  exact (hagree a ha b hb).overlay_comm acc

theorem foldHeads_perm {own gathered : Panel} {heads heads' : List Panel} (h : heads.Perm heads')
    (hagree : ∀ head ∈ heads, ∀ head' ∈ heads, ∀ a b,
      (head.extend parent f rules).result = .ok a → (head'.extend parent f rules).result = .ok b →
        Look.Agree declared a.look b.look)
    (hfold : foldHeads parent declared f rules own heads = .ok gathered) :
    ∃ gathered', foldHeads parent declared f rules own heads' = .ok gathered' ∧
      gathered'.look = gathered.look := by
  obtain ⟨extended, hextended, rfl⟩ := foldHeads_eq_ok_iff.mp hfold
  obtain ⟨extended', hextended', hperm⟩ := List.perm_comp_forall₂ h.symm hextended
  refine ⟨_, foldHeads_eq_ok_iff.mpr ⟨extended', hextended', rfl⟩,
    look_overlayAll_perm hperm.symm (fun a ha b hb => ?_) own⟩
  obtain ⟨head, hhead, ha⟩ := Except.exists_left hextended ha
  obtain ⟨head', hhead', hb⟩ := Except.exists_left hextended hb
  exact hagree head hhead head' hhead' a b ha hb

end Panel

end ChartFold
