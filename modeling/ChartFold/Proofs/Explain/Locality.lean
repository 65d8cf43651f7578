import ChartFold.Proofs.Explain.Cut
import ChartFold.Rules.Standard

/-! A tree inside a larger one is explained as it is on its own. The panels below its top are found
again among those of the larger tree, only that their depths are counted from higher up. -/
namespace ChartFold

namespace Panel

theorem nodup_of_nodup_members {panels : List Panel} (h : (membersOf panels).Nodup)
    (htop : ∀ p ∈ panels, p.top ∈ p.members) : panels.Nodup := by
  refine (List.nodup_flatMap.mp h).2.imp_of_mem fun {p q} hp _ hdisjoint heq => ?_
  have hmem : p.top ∈ p.members.toList := Array.mem_toList_iff.mpr (htop p hp)
  exact hdisjoint hmem (heq ▸ hmem)

end Panel

namespace Forest
open Panel
variable {f : Forest} {rules : Rules} {res : OpId → Nat → Explaining (List Panel)}

theorem below_of_rooted (h : f.WellFormed) {p : Panel} (hp : p.Rooted f) {x : OpId}
    (hx : x ∈ p.members) : ∃ m, f.Below p.top x m := by
  have hclimb := hp.climb_top h x hx
  induction hclimb using Relation.ReflTransGen.head_induction_on with
  | refl => exact ⟨0, Below.refl⟩
  | head hstep _ ih =>
    obtain ⟨m, hm⟩ := ih hstep.2
    exact ⟨m + 1, hm.child hstep.1⟩

theorem Recursion.mem_carried_iff (h : f.WellFormed) (hres : f.Recursion rules res)
    {root x : OpId} {d : Nat} {list carried : List Panel} {last : Panel} (hroot : root < f.size)
    (hb : f.Below root x d) (hok : (res root 0).result = .ok list)
    (hx : (res x d).result = .ok (carried ++ [last])) {p : Panel} :
    p ∈ carried ↔ p ∈ list ∧ ∃ m, f.Below x p.top (m + 1) := by
  obtain ⟨carried', last', hx', hcarried, q, hq, hlast⟩ :=
    hres.carried_and_joined_of_below h hroot hb hok
  obtain ⟨rfl, hlast'⟩ := List.append_inj' (Except.ok.inj (hx.symm.trans hx')) rfl
  cases hlast'
  have haccount := hres.account h hroot hok
  have hown := hres.account h (h.lt_size_of_below hroot hb) hx
  constructor
  · intro hp
    exact ⟨hcarried p hp, hown.below_of_carried (List.dropLast_concat ▸ hp)⟩
  · intro ⟨hp, m, hm⟩
    have htop : p.top ∈ p.members := (haccount.rooted p hp).top_mem
    obtain ⟨r, hr, hmem⟩ := mem_membersOf.mp ((hown.mem_iff p.top).mpr ⟨m + 1, hm⟩)
    obtain hr | hr := List.mem_append.mp hr
    · rwa [eq_of_mem_members haccount.nodup hp (hcarried r hr) htop hmem]
    · -- the panel that holds `x` reaches up to `x`, so it does not stand strictly below it
      rw [List.mem_singleton.mp hr] at hmem
      obtain rfl := eq_of_mem_members haccount.nodup hp hq htop (hlast _ hmem)
      obtain ⟨n, hn⟩ := below_of_rooted h (haccount.rooted p hp) (hlast x hown.mem_last)
      exact absurd hn (h.not_below_of_below hm)

theorem Recursion.eq_last_of_top (h : f.WellFormed) (hres : f.Recursion rules res)
    {root x : OpId} {d : Nat} {list carried : List Panel} {last : Panel} (hroot : root < f.size)
    (hb : f.Below root x d) (hok : (res root 0).result = .ok list)
    (hx : (res x d).result = .ok (carried ++ [last])) {p : Panel} (hp : p ∈ list)
    (htop : p.top = x) : p = last := by
  have haccount := hres.account h hroot hok
  have hown := hres.account h (h.lt_size_of_below hroot hb) hx
  have hxp : x ∈ p.members := htop ▸ (haccount.rooted p hp).top_mem
  cases hb with
  | refl =>
    obtain rfl := Except.ok.inj (hok.symm.trans hx)
    exact eq_of_mem_members haccount.nodup hp (by simp) hxp hown.mem_last
  | @child parent _ d hb hparent =>
    obtain ⟨carried', last', hx', hcarried, q, hq, hlast⟩ :=
      hres.carried_and_joined_of_below h hroot hb hok
    obtain ⟨earlier, head, hchild, -, hrefused, hjoins⟩ :=
      hres.carried_or_joined_of_child h hparent hx'
    obtain ⟨-, heq⟩ := List.append_inj' (Except.ok.inj (hx.symm.trans hchild)) rfl
    cases heq
    by_cases hhead : last.Refused rules (f.wanted? rules parent)
    · exact eq_of_mem_members haccount.nodup hp (hcarried last (hrefused hhead)) hxp hown.mem_last
    · -- otherwise the panel that holds `x` holds its parent too, and does not stand under `x`
      obtain rfl := eq_of_mem_members haccount.nodup hp hq hxp
        (hlast x (hjoins hhead x hown.mem_last))
      have hmem : parent ∈ p.members :=
        hlast parent (hres.account h (h.mem_of_parent? hparent) hx').mem_last
      obtain ⟨m, hm⟩ := below_of_rooted h (haccount.rooted p hp) hmem
      rw [htop] at hm
      exact absurd hm (h.not_below_of_below (Below.refl.child hparent))

/-- The panels of a tree that stand strictly below some operation are the panels of its own tree but
for the one on top, raised by its depth. If a panel of the whole tree stands under the operation, it
is the one on top of its own tree, raised in the same way. -/
theorem explain_locality (hf : f.Reachable) {root : OpId} {panels : List Panel}
    (hok : (f.explain rules root).result = .ok panels) {x : OpId} {d : Nat}
    (hx : f.Below root x d) :
    ∃ list own others, (f.explain rules x).result = .ok list ∧ list.Perm (own :: others) ∧
      own.top = x ∧ (∀ p ∈ others, p.top ≠ x) ∧
      (∃ rest, panels.Perm (others.map (raise d) ++ rest) ∧
        (∀ p ∈ others.map (raise d), ∃ m, f.Below x p.top (m + 1)) ∧
        ∀ p ∈ rest, ¬ ∃ m, f.Below x p.top (m + 1)) ∧
      ∀ p ∈ panels, p.top = x → p = own.raise d := by
  have h := hf.wellFormed
  obtain ⟨res, hres⟩ := h.exists_recursion rules
  obtain ⟨hroot, list, hlist, rfl⟩ := (explain_eq_ok h hres).mp hok
  have hperm := byDepth_perm list
  have hxlt := h.lt_size_of_below hroot hx
  obtain ⟨carried, last, hlast, -⟩ := hres.carried_and_joined_of_below h hroot hx hlist
  have hraised := hlast
  rw [← Nat.zero_add d] at hraised
  obtain ⟨low, hlow, heq⟩ := hres.exists_low h hxlt d 0 hraised
  obtain ⟨others, own, rfl, hown⟩ := (hres.account h hxlt hlow).head
  rw [List.map_append] at heq
  obtain ⟨rfl, hlastEq⟩ := List.append_inj' heq rfl
  cases hlastEq
  have hcarried {p : Panel} := hres.mem_carried_iff (p := p) h hroot hx hlist hlast
  refine ⟨_, own, others, (explain_eq_ok h hres).mpr ⟨hxlt, _, hlow, rfl⟩, ?_, hown.top, ?_, ?_,
    fun p hp => hres.eq_last_of_top h hroot hx hlist hlast (hperm.mem_iff.mp hp)⟩
  · exact (byDepth_perm _).trans List.perm_append_comm
  · intro p hp htop
    obtain ⟨-, m, hm⟩ := hcarried.mp (List.mem_map_of_mem hp)
    have hself : f.Below x x (m + 1) := htop ▸ hm
    exact absurd hself (h.not_below_of_below hself)
  · have hnodup : list.Nodup := nodup_of_nodup_members (hres.account h hroot hlist).nodup
      fun p hp => ((hres.account h hroot hlist).rooted p hp).top_mem
    have hxnodup := nodup_of_nodup_members (hres.account h hxlt hlast).nodup
      fun p hp => ((hres.account h hxlt hlast).rooted p hp).top_mem
    obtain ⟨same, hsame, hsub⟩ : (others.map (raise d)).Subperm list :=
      (List.nodup_append.mp hxnodup).1.subperm fun p hp => (hcarried.mp hp).1
    obtain ⟨rest, hrest⟩ := hsub.exists_perm_append
    replace hrest := hrest.trans (hsame.append_right rest)
    refine ⟨rest, hperm.trans hrest, fun p hp => (hcarried.mp hp).2, fun p hp hbelow => ?_⟩
    have hmem := hcarried.mpr ⟨hrest.mem_iff.mpr (List.mem_append_right _ hp), hbelow⟩
    exact (List.nodup_append.mp (hrest.nodup_iff.mp hnodup)).2.2 p hmem p hp rfl

/-! The sum of squares as the dividend of a ratio -/

def nestedCalls : List Call := sampleCalls ++ [
  .add "share" none "ratio" { inputs := ["ss", "total"], outputs := ["share"] },
  .attach 0 4]

def nested : Forest := empty.replay nestedCalls

theorem reachable_nested : nested.Reachable := ⟨nestedCalls, rfl⟩

def nestedPanels : List Panel := [
  { top := 2, members := #[3, 2, 1], chart := some .scatterWithDiagonal, depth := 3
    encodings := .ofList [
      ("y", { mark := .point, channel := .position, axis := some .x }),
      ("y_hat", { mark := .point, channel := .position, axis := some .y }),
      ("res", { mark := .line, channel := .length })] },
  { top := 4, members := #[0, 4], chart := some .barComparison, depth := 1
    encodings := .ofList [
      ("res", { mark := .square, channel := .area, anchor := some "ss" }),
      ("ss", { mark := .bar, channel := .length }),
      ("total", { mark := .bar, channel := .length })] }]

theorem explain_nested : (nested.explain Rules.standard 4).result = .ok nestedPanels := by
  simp only [explain, explainVisits, explainVisit, byDepth_eq_insertionSort, Panel.gather,
    Panel.byTop_eq_insertionSort]
  decide +kernel

theorem explain_locality_nested : ∃ list own others,
    (nested.explain Rules.standard 0).result = .ok list ∧ list.Perm (own :: others) ∧
      own.top = 0 ∧ (∃ rest, nestedPanels.Perm (others.map (raise 1) ++ rest) ∧
        ∀ p ∈ rest, ¬ ∃ m, nested.Below 0 p.top (m + 1)) ∧
      ∀ p ∈ nestedPanels, p.top = 0 → p = own.raise 1 := by
  obtain ⟨list, own, others, hlist, hperm, htop, -, ⟨rest, hrest, -, hbelow⟩, hown⟩ :=
    explain_locality reachable_nested explain_nested (x := 0) (Below.refl.child rfl)
  exact ⟨list, own, others, hlist, hperm, htop, ⟨rest, hrest, hbelow⟩, hown⟩

end Forest

end ChartFold
