import ChartFold.Proofs.Forest.Lineage
import ChartFold.Proofs.Forest.PostOrder

/-! The walk by a stack and the recursion over the trees. The recursion goes through the children in
their order, one step deeper, and comes to the operation itself last; the walk never meets an
operation twice and is over after two rounds for each operation. -/
namespace ChartFold

def Visit.deeper (visit : Visit) : Visit := { visit with depth := visit.depth + 1 }

namespace Forest
variable {f : Forest} {ids : List OpId} {d : Nat} {visits : List Visit}

/-! The recursion -/

theorem PostOrdered.unique (hp : f.PostOrdered ids d visits) {others : List Visit}
    (hothers : f.PostOrdered ids d others) : visits = others := by
  induction hp generalizing others with
  | nil =>
    cases hothers
    rfl
  | cons hop _ _ ihbelow ihrest =>
    cases hothers with
    | cons hop' hbelow hrest =>
      obtain rfl := Option.some.inj (hop.symm.trans hop')
      rw [ihbelow hbelow, ihrest hrest]

theorem PostOrdered.deeper (hp : f.PostOrdered ids d visits) :
    f.PostOrdered ids (d + 1) (visits.map Visit.deeper) := by
  induction hp with
  | nil => exact PostOrdered.nil
  | cons hop _ _ ihbelow ihrest =>
    rw [List.map_append, List.map_cons]
    exact PostOrdered.cons hop ihbelow ihrest

theorem postOrdered_flatten {orders : List (List Visit)}
    (h : List.Forall₂ (fun id order => f.PostOrdered [id] d order) ids orders) :
    f.PostOrdered ids d orders.flatten := by
  induction h with
  | nil => exact PostOrdered.nil
  | cons hfirst _ ih => exact hfirst.append ih

theorem PostOrdered.getLast? {root : OpId} (hp : f.PostOrdered [root] d visits) :
    visits.getLast? = some ⟨root, d⟩ := by
  cases hp with
  | cons _ _ hrest =>
    cases hrest
    exact List.getLast?_concat

theorem PostOrdered.pairwise (h : f.WellFormed) (hp : f.PostOrdered ids d visits)
    (hids : f.Apart ids) : visits.Pairwise fun a b => ∀ k, ¬ f.Below a.id b.id (k + 1) := by
  induction hp with
  | nil => exact List.Pairwise.nil
  | @cons id op ids d below rest hop hbelow hrest ihbelow ihrest =>
    obtain ⟨hid, hids⟩ := List.pairwise_cons.mp hids
    -- of the trees behind, nothing lies below `id`
    have hbehind {b : Visit} (hb : b ∈ rest) {k : Nat} : ¬ f.Below id b.id k := by
      obtain ⟨i, hi, n, hn, -⟩ := (hrest.mem_iff h).mp hb
      exact fun hk => hid i hi b.id k n hk hn
    refine List.pairwise_append.mpr ⟨ihbelow (h.apart_children hop),
      List.pairwise_cons.mpr ⟨fun b hb k => hbehind hb, ihrest hids⟩, ?_⟩
    intro a ha b hb k hab
    obtain ⟨c, hc, m, hm, -⟩ := (hbelow.mem_iff h).mp ha
    rw [← children_of_get? hop, h.mem_children] at hc
    have hida := hm.cons hc
    obtain rfl | hb := List.mem_cons.mp hb
    · exact h.not_below_of_below hab hida
    · exact hbehind hb (hida.trans hab)

theorem PostOrdered.mem_before (h : f.WellFormed) {root x y : OpId} {k m : Nat}
    {before after : List Visit} (hp : f.PostOrdered [root] d (before ++ ⟨x, k⟩ :: after))
    (hxy : f.Below x y (m + 1)) : ∃ j, ⟨y, j⟩ ∈ before := by
  have hx : ⟨x, k⟩ ∈ before ++ ⟨x, k⟩ :: after := by simp
  obtain ⟨id, hid, n, hn, -⟩ := (hp.mem_iff h).mp hx
  have hy : ⟨y, d + (n + (m + 1))⟩ ∈ before ++ ⟨x, k⟩ :: after :=
    (hp.mem_iff h).mpr ⟨id, hid, _, hn.trans hxy, rfl⟩
  have hpairwise := (List.pairwise_append.mp (hp.pairwise h (f.apart_singleton root))).2.1
  obtain hy | hy := List.mem_append.mp hy
  · exact ⟨_, hy⟩
  · obtain heq | hy := List.mem_cons.mp hy
    · cases heq
      exact absurd hxy (h.not_below_of_below hxy)
    · exact absurd hxy ((List.pairwise_cons.mp hpairwise).1 _ hy m)

/-! The walk -/

theorem WellFormed.exists_orders (h : f.WellFormed) (hids : ∀ id ∈ ids, id < f.size) :
    ∃ orders, ids.mapM f.postOrder = .ok orders ∧ f.PostOrdered ids 0 orders.flatten := by
  have horder : ∀ id ∈ ids, ∃ order, f.postOrder id = .ok order ∧ f.PostOrdered [id] 0 order := by
    intro id hid
    obtain ⟨order, horder⟩ := h.exists_postOrdered (hids id hid) 0
    exact ⟨order, h.postOrder_eq (hids id hid) horder, horder⟩
  obtain ⟨orders, horders⟩ := Except.exists_forall₂_of_forall horder
  exact ⟨orders, Except.mapM_eq_ok.mpr (horders.imp fun _ _ => And.left),
    postOrdered_flatten (horders.imp fun _ _ => And.right)⟩

theorem WellFormed.postOrder_of_get? (h : f.WellFormed) {root : OpId} {op : Operation}
    (hop : f.get? root = some op) : f.postOrder root = do
      let below ← op.children.mapM f.postOrder
      return below.flatten.map Visit.deeper ++ [⟨root, 0⟩] := by
  have hids : ∀ c ∈ op.children, c < f.size := fun c hc =>
    h.lt_of_mem_children (children_of_get? hop ▸ hc)
  obtain ⟨below, hwalks, horder⟩ := h.exists_orders hids
  rw [Except.bind_of_ok hwalks]
  exact h.postOrder_eq (lt_size_of_get? hop)
    (PostOrdered.cons hop horder.deeper PostOrdered.nil)

/-- For an operation that is not in the forest there is no walk. For any other the walk gives the
post-order by recursion: for each child in turn its own walk, one step deeper, and then the
operation. It holds all that lies below the operation once, at its distance, after whatever lies
below it in turn, and the operation itself at the end. Two rounds for each visit leave no errand on
the stack, and no cycle is ever met. -/
theorem postOrder_recursive (hf : f.Reachable) (root : OpId) :
    (f.get? root = none → f.postOrder root = .error (.unknown root)) ∧
    (∀ op, f.get? root = some op → ∃ visits, f.postOrder root = .ok visits ∧
      (∀ others, f.PostOrdered [root] 0 others ↔ others = visits) ∧
      (f.postOrder root = do
        let below ← op.children.mapM f.postOrder
        return below.flatten.map Visit.deeper ++ [⟨root, 0⟩]) ∧
      (visits.map Visit.id).Nodup ∧ (∀ x d, ⟨x, d⟩ ∈ visits ↔ f.Below root x d) ∧
      (∀ before x d after, visits = before ++ ⟨x, d⟩ :: after →
        ∀ y k, f.Below x y (k + 1) → ∃ j, ⟨y, j⟩ ∈ before) ∧
      visits.getLast? = some ⟨root, 0⟩ ∧ visits.length ≤ f.size ∧
      ∃ marked, ∀ n, f.walk (2 * visits.length + n) [.enter ⟨root, 0⟩]
        (Array.replicate f.size false) [] = f.walk n [] marked visits.reverse) ∧
    ∀ a b, f.postOrder root ≠ .error (.cycle a b) := by
  have h := hf.wellFormed
  refine ⟨postOrder_of_get?_eq_none, fun op hop => ?_, fun a b hcycle => ?_⟩
  · have hroot := lt_size_of_get? hop
    obtain ⟨visits, hp⟩ := h.exists_postOrdered hroot 0
    refine ⟨visits, h.postOrder_eq hroot hp, fun others => ?_, h.postOrder_of_get? hop,
      hp.nodup h (f.apart_singleton root), fun x d => ?_, fun before x d after hvisits y k hy => ?_,
      hp.getLast?, hp.length_le h (f.apart_singleton root) (by simpa using hroot),
      h.walk_root hroot hp⟩
    · exact ⟨fun hothers => hothers.unique hp, fun hothers => hothers ▸ hp⟩
    · simp [hp.mem_iff h]
    · subst hvisits
      exact hp.mem_before h hy
  · cases hroot : f.get? root with
    | none =>
      rw [postOrder_of_get?_eq_none hroot] at hcycle
      cases hcycle
    | some op =>
      obtain ⟨visits, hp⟩ := h.exists_postOrdered (lt_size_of_get? hroot) 0
      rw [h.postOrder_eq (lt_size_of_get? hroot) hp] at hcycle
      cases hcycle

theorem postOrder_recursive_grafted :
    grafted.postOrder 2 = .ok [⟨1, 1⟩, ⟨0, 1⟩, ⟨2, 0⟩] ∧ grafted.Below 2 0 1 ∧
    grafted.postOrder 3 = .error (.unknown 3) ∧ grafted.postOrder 2 ≠ .error (.cycle 2 2) := by
  obtain ⟨-, hwalk, hcycle⟩ := postOrder_recursive reachable_grafted 2
  obtain ⟨visits, hok, -, hrec, -, hmem, -⟩ := hwalk _ rfl
  have hvisits : grafted.postOrder 2 = .ok [⟨1, 1⟩, ⟨0, 1⟩, ⟨2, 0⟩] := hrec
  obtain rfl := Except.ok.inj (hok.symm.trans hvisits)
  exact ⟨hvisits, (hmem 0 1).mp (by simp), (postOrder_recursive reachable_grafted 3).1 rfl,
    hcycle 2 2⟩

end Forest
end ChartFold
