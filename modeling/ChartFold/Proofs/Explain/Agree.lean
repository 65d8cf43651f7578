import ChartFold.Proofs.Explain.Partition
import ChartFold.Proofs.Panel.Agree

/-! What explaining a tree reads of the rules and of the forest. -/
namespace ChartFold

namespace Forest
open Panel
variable {f g : Forest} {rules others : Rules} {kinds : Set OpKind}
  {res more : OpId → Nat → Explaining (List Panel)} {op op' : Operation} {id root : OpId} {d : Nat}

/-! Two forests, two sets of rules -/

def kindsBelow (f : Forest) (root : OpId) : Set OpKind :=
  {kind | ∃ x d op, f.Below root x d ∧ f.get? x = some op ∧ op.kind = kind}

theorem kind_mem_kindsBelow (hop : f.get? id = some op) : op.kind ∈ f.kindsBelow id :=
  ⟨id, 0, op, Below.refl, hop, rfl⟩

theorem kindsBelow_subset {c : OpId} (hc : f.parent? c = some id) :
    f.kindsBelow c ⊆ f.kindsBelow id := by
  intro kind hkind
  obtain ⟨x, k, op, hb, hop, rfl⟩ := hkind
  exact ⟨x, k + 1, op, hb.cons hc, hop, rfl⟩

/-- The forests have the same tree at `root`, which may hang elsewhere. -/
def SameTree (f g : Forest) (root : OpId) : Prop := ∀ x d, f.Below root x d → f.SameAt g x

theorem SameTree.child {c : OpId} (h : f.SameTree g id) (hc : f.parent? c = some id) :
    f.SameTree g c := fun x d hb => h x (d + 1) (hb.cons hc)

theorem SameAt.exists_get? (h : f.SameAt g id) (hop : f.get? id = some op) :
    ∃ op', g.get? id = some op' ∧ op.Alike op' := by
  unfold SameAt at h
  rw [hop] at h
  generalize g.get? id = b at h
  cases h with
  | some hab => exact ⟨_, rfl, hab⟩

theorem SameAt.get?_eq_none (h : f.SameAt g id) (hnone : f.get? id = none) :
    g.get? id = none := by
  unfold SameAt at h
  rw [hnone] at h
  generalize g.get? id = b at h ⊢
  cases h
  rfl

theorem explainBy_agrees (h : f.WellFormed) (hres : f.Recursion rules res)
    (hagree : rules.AgreeOn others kinds) (hop : f.get? id = some op) (hkind : op.kind ∈ kinds)
    (hchildren : ∀ c ∈ op.children,
      f.SameAt g c ∧ ∀ child, f.get? c = some child → child.kind ∈ kinds)
    (hbelow : ∀ c ∈ op.children, (res c (d + 1)).result = (more c (d + 1)).result) :
    (f.explainBy rules res op d).result = (g.explainBy others more op d).result := by
  unfold explainBy
  split
  · rw [start_agrees hagree hkind]
  · rw [Traced.result_bind, Traced.result_bind, ← Traced.result_mapM_congr hbelow]
    refine Except.bind_congr_ok fun lists hlists => ?_
    rw [Traced.result_mapM, Except.mapM_eq_ok] at hlists
    have hheads : ∀ head ∈ lists.filterMap List.getLast?, f.SameAt g head.top := by
      intro head hhead
      have hparent := ((h.left hop hlists).of_head h hres hhead).1
      rw [← h.mem_children, children_of_get? hop] at hparent
      exact (hchildren head.top hparent).1
    rw [Traced.result_bind, Traced.result_bind, gather_agrees hagree hkind hchildren hheads]

theorem Recursion.agrees (h : f.WellFormed) (hres : f.Recursion rules res)
    (hmore : g.Recursion others more) (hid : id < f.size) (hsame : f.SameTree g id)
    (hagree : rules.AgreeOn others (f.kindsBelow id)) (d : Nat) :
    (res id d).result = (more id d).result := by
  refine h.induction (motive := fun id => f.SameTree g id →
    rules.AgreeOn others (f.kindsBelow id) → ∀ d, (res id d).result = (more id d).result)
    ?_ hid hsame hagree d
  intro id op hop ih hsame hagree d
  have hlink : ∀ c ∈ op.children, f.parent? c = some id := fun c hc =>
    h.mem_children.mp (children_of_get? hop ▸ hc)
  obtain ⟨_, hop', above, rfl⟩ := (hsame id 0 Below.refl).exists_get? hop
  rw [hres id op d hop, hmore id _ d hop']
  refine explainBy_agrees h hres hagree hop (kind_mem_kindsBelow hop) (fun c hc => ⟨?_, ?_⟩)
    fun c hc => ?_
  · exact hsame c 1 (Below.refl.child (hlink c hc))
  · intro child hchild
    exact kindsBelow_subset (hlink c hc) (kind_mem_kindsBelow hchild)
  · exact ih c hc (hsame.child (hlink c hc)) (hagree.mono (kindsBelow_subset (hlink c hc))) (d + 1)

/-- A tree that is found in two forests is explained the same in both, and the same by rules that
agree on its operations and on all charts. -/
theorem explain_agrees (h : f.WellFormed) (hg : g.WellFormed) (hsame : f.SameTree g root)
    (hagree : rules.AgreeOn others (f.kindsBelow root)) :
    (f.explain rules root).result = (g.explain others root).result := by
  have hroot := hsame root 0 Below.refl
  cases hop : f.get? root with
  | none => rw [explain_of_not_mem hop, explain_of_not_mem (hroot.get?_eq_none hop)]
  | some op =>
    obtain ⟨op', hop', -⟩ := hroot.exists_get? hop
    obtain ⟨res, hres⟩ := h.exists_recursion rules
    obtain ⟨more, hmore⟩ := hg.exists_recursion others
    obtain ⟨visits, hp⟩ := h.exists_postOrdered (lt_size_of_get? hop) 0
    obtain ⟨visits', hp'⟩ := hg.exists_postOrdered (lt_size_of_get? hop') 0
    rw [explain_eq_of_recursion h hres hop hp, explain_eq_of_recursion hg hmore hop' hp',
      Traced.result_bind, Traced.result_bind,
      hres.agrees h hmore (lt_size_of_get? hop) hsame hagree 0]
    rfl

end Forest

end ChartFold
