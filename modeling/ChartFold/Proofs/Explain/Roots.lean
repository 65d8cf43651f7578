import ChartFold.Proofs.Explain.Outcome
import ChartFold.Proofs.Forest.Lineage
import ChartFold.Proofs.Forest.Traversal

/-! The trees of a forest, one below each root. Every operation climbs to a root, and no operation
lies below two of them, so the walks below all roots meet every operation once, and the panels of
all roots hold every operation once. -/
namespace ChartFold.Forest
open Panel
variable {f : Forest} {rules : Rules} {x root : OpId} {visits : List Visit}

theorem WellFormed.map_id_toList (h : f.WellFormed) : f.toList.map (·.id) = List.range f.size := by
  refine List.ext_getElem (by simp [toList, size]) fun i hi _ => ?_
  have hi : i < f.operations.size := by simpa [toList] using hi
  have hid := h.numbered i f.operations[i] (by simp [get?, hi])
  simpa [toList] using hid

theorem mem_toList_iff {op : Operation} : op ∈ f.toList ↔ ∃ i, f.get? i = some op := by
  simp [toList, get?, List.mem_iff_getElem?]

theorem WellFormed.mem_roots (h : f.WellFormed) :
    root ∈ f.roots ↔ root < f.size ∧ f.parent? root = none := by
  simp only [roots, List.mem_map, List.mem_filter, mem_toList_iff, Option.isNone_iff_eq_none]
  constructor
  · rintro ⟨op, ⟨⟨i, hop⟩, hparent⟩, rfl⟩
    rw [h.numbered i op hop, parent?_of_get? hop]
    exact ⟨lt_size_of_get? hop, hparent⟩
  · intro ⟨hlt, hparent⟩
    obtain ⟨op, hop⟩ := lt_size_iff.mp hlt
    rw [parent?_of_get? hop] at hparent
    exact ⟨op, ⟨⟨root, hop⟩, hparent⟩, h.numbered root op hop⟩

theorem WellFormed.lt_size_of_roots (h : f.WellFormed) : ∀ root ∈ f.roots, root < f.size :=
  fun _ hroot => (h.mem_roots.mp hroot).1

theorem WellFormed.nodup_roots (h : f.WellFormed) : f.roots.Nodup := by
  have hsub : f.roots.Sublist (f.toList.map (·.id)) := List.filter_sublist.map _
  rw [h.map_id_toList] at hsub
  exact List.nodup_range.sublist hsub

theorem Below.eq_of_root {a : OpId} {d : Nat} (hb : f.Below a root d)
    (hroot : f.parent? root = none) : a = root := by
  cases hb with
  | refl => rfl
  | child _ hp => simp [hroot] at hp

theorem root_unique {a b : OpId} {m n : Nat} (ha : f.parent? a = none) (hb : f.parent? b = none)
    (hax : f.Below a x m) (hbx : f.Below b x n) : a = b := by
  obtain hle | hle := Nat.le_total m n
  · exact ((hax.total hbx hle).eq_of_root ha).symm
  · exact (hbx.total hax hle).eq_of_root hb

theorem WellFormed.apart_roots (h : f.WellFormed) : f.Apart f.roots := by
  refine h.nodup_roots.imp_of_mem fun {a b} ha hb hne x m n hax hbx => ?_
  exact hne (root_unique (h.mem_roots.mp ha).2 (h.mem_roots.mp hb).2 hax hbx)

theorem WellFormed.lt_size_of_above (h : f.WellFormed) {a : OpId} {d : Nat} (hb : f.Below a x d)
    (hx : x < f.size) : a < f.size := by
  induction hb with
  | refl => exact hx
  | child _ hp ih => exact ih (h.mem_of_parent? hp)

theorem WellFormed.exists_mem_roots (h : f.WellFormed) (hx : x < f.size) :
    ∃ root ∈ f.roots, ∃ d, f.Below root x d := by
  obtain ⟨root, d, hb, hroot⟩ := h.exists_root x
  exact ⟨root, h.mem_roots.mpr ⟨h.lt_size_of_above hb hx, hroot⟩, d, hb⟩

theorem PostOrdered.perm_range (h : f.WellFormed) (hp : f.PostOrdered f.roots 0 visits) :
    (visits.map Visit.id).Perm (List.range f.size) := by
  rw [List.perm_ext_iff_of_nodup (hp.nodup h h.apart_roots) List.nodup_range]
  intro x
  rw [hp.mem_ids_iff h, List.mem_range]
  constructor
  · intro ⟨root, hroot, d, hb⟩
    exact h.lt_size_of_below (h.lt_size_of_roots root hroot) hb
  · exact h.exists_mem_roots

theorem WellFormed.exists_explainAll (h : f.WellFormed) (rules : Rules)
    (hknown : ∀ op ∈ f.toList, (rules.profile? op.kind).isSome) :
    ∃ panels, List.Forall₂ (fun root ps => (f.explain rules root).result = .ok ps)
      f.roots panels := by
  refine Except.exists_forall₂_of_forall fun root hroot => ?_
  rw [h.exists_explain_iff]
  intro x d hb
  have hx := h.lt_size_of_below (h.lt_size_of_roots root hroot) hb
  obtain ⟨op, hop⟩ := lt_size_iff.mp hx
  obtain ⟨profile, hprofile⟩ :=
    Option.isSome_iff_exists.mp (hknown op (mem_toList_iff.mpr ⟨x, hop⟩))
  exact ⟨op, profile, hop, hprofile⟩

theorem WellFormed.membersOf_perm_visits (h : f.WellFormed) {ids : List OpId}
    (hids : f.Apart ids) (hp : f.PostOrdered ids 0 visits) {panels : List (List Panel)}
    (hok : List.Forall₂ (fun id ps => (f.explain rules id).result = .ok ps) ids panels) :
    (membersOf panels.flatten).Perm (visits.map Visit.id) := by
  obtain ⟨res, hres⟩ := h.exists_recursion rules
  obtain ⟨lists, hlists, hsorted⟩ := Except.exists_forall₂ hok
    (T := fun id list => (res id 0).result = .ok list)
    (S := fun ps list => ps.Perm list) fun id _ ps hps => by
      obtain ⟨-, list, hlist, rfl⟩ := (explain_eq_ok h hres).mp hps
      exact ⟨list, hlist, byDepth_perm list⟩
  obtain ⟨-, hmembers⟩ := handedUp_of_postOrdered h hres hp (hp.nodup h hids) hlists
  exact (membersOf_perm (List.Perm.flatten_congr hsorted)).trans hmembers

/-- The walks below all roots, one after another, meet every operation of the forest once, and every
operation lies below one root alone. If all operations are known, all roots can be explained, and
their panels hold every operation once. -/
theorem explain_roots (hf : f.Reachable) :
    (∃ orders, f.roots.mapM f.postOrder = .ok orders ∧
      (orders.flatten.map Visit.id).Perm (List.range f.size)) ∧
    (∀ x < f.size, ∃! root, root ∈ f.roots ∧ ∃ d, f.Below root x d) ∧
    ∀ rules : Rules, (∀ op ∈ f.toList, (rules.profile? op.kind).isSome) →
      ∃ panels : List (List Panel),
        (f.explainAll rules f.roots).map Traced.result = panels.map .ok ∧
        (membersOf panels.flatten).Perm (List.range f.size) := by
  have h := hf.wellFormed
  obtain ⟨orders, horders, hp⟩ := h.exists_orders h.lt_size_of_roots
  refine ⟨⟨orders, horders, hp.perm_range h⟩, fun x hx => ?_, fun rules hknown => ?_⟩
  · obtain ⟨root, hroot, d, hb⟩ := h.exists_mem_roots hx
    refine ⟨root, ⟨hroot, d, hb⟩, fun a ⟨ha, k, hk⟩ => ?_⟩
    exact root_unique (h.mem_roots.mp ha).2 (h.mem_roots.mp hroot).2 hk hb
  · obtain ⟨panels, hpanels⟩ := h.exists_explainAll rules hknown
    refine ⟨panels, ?_, (h.membersOf_perm_visits h.apart_roots hp hpanels).trans (hp.perm_range h)⟩
    rw [explainAll, List.map_map, ← List.forall₂_eq_eq_eq, List.forall₂_map_left_iff,
      List.forall₂_map_right_iff]
    exact hpanels

/-! The sum of squares beside a vector that stands on its own -/

def groveCalls : List Call := sampleCalls ++ [.add "z" none "vector" { outputs := ["z"] }]

def grove : Forest := empty.replay groveCalls

theorem reachable_grove : grove.Reachable := ⟨groveCalls, rfl⟩

theorem explain_roots_grove : grove.roots = [0, 4] ∧
    (∃ root ∈ grove.roots, ∃ d, grove.Below root 3 d) ∧
    ∃ panels : List (List Panel),
      (grove.explainAll sampleRules grove.roots).map Traced.result = panels.map .ok ∧
      (membersOf panels.flatten).Perm [0, 1, 2, 3, 4] := by
  have hknown : ∀ op ∈ grove.toList, (sampleRules.profile? op.kind).isSome := by decide
  obtain ⟨-, hroot, hpanels⟩ := explain_roots reachable_grove
  obtain ⟨root, ⟨hmem, hb⟩, -⟩ := hroot 3 (by decide)
  exact ⟨by decide, ⟨root, hmem, hb⟩, hpanels sampleRules hknown⟩

end ChartFold.Forest
