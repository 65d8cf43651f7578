import ChartFold.Forest.PostOrder
import ChartFold.Proofs.Forest.Reachable

/-! The post-order of the trees below some operations, by recursion over the trees, and the walk by
a stack that produces it. -/
namespace ChartFold.Forest
variable {f : Forest}

/-- The trees at `ids`, side by side at depth `d`: of each tree first the trees at the children of
its top, one step deeper, then the top. -/
inductive PostOrdered (f : Forest) : List OpId → Nat → List Visit → Prop where
  | nil {d : Nat} : PostOrdered f [] d []
  | cons {id : OpId} {op : Operation} {ids : List OpId} {d : Nat} {below rest : List Visit} :
    f.get? id = some op → PostOrdered f op.children (d + 1) below → PostOrdered f ids d rest →
    PostOrdered f (id :: ids) d (below ++ ⟨id, d⟩ :: rest)

/-! Induction from the leaves up -/

theorem WellFormed.induction (h : f.WellFormed) {motive : OpId → Prop}
    (step : ∀ id op, f.get? id = some op → (∀ c ∈ op.children, motive c) → motive id)
    {id : OpId} (hid : id < f.size) : motive id := by
  obtain ⟨height, hheight⟩ := h.grounded
  induction hn : height id using Nat.strongRecOn generalizing id with
  | ind n ih =>
    subst hn
    obtain ⟨op, hop⟩ := lt_size_iff.mp hid
    refine step id op hop fun c hc => ?_
    rw [← children_of_get? hop] at hc
    exact ih _ (hheight (h.mem_children.mp hc)) (h.lt_of_mem_children hc) rfl

theorem PostOrdered.append {ids more : List OpId} {d : Nat} {visits rest : List Visit}
    (h : f.PostOrdered ids d visits) (hrest : f.PostOrdered more d rest) :
    f.PostOrdered (ids ++ more) d (visits ++ rest) := by
  induction h with
  | nil => exact hrest
  | cons hop hbelow _ _ ih =>
    rw [List.append_assoc]
    exact PostOrdered.cons hop hbelow (ih hrest)

theorem WellFormed.exists_postOrdered (h : f.WellFormed) {id : OpId} (hid : id < f.size) (d : Nat) :
    ∃ visits, f.PostOrdered [id] d visits := by
  refine h.induction (motive := fun id => ∀ d, ∃ visits, f.PostOrdered [id] d visits) ?_ hid d
  intro id op hop ih d
  have hbelow : ∀ cs : List OpId, (∀ c ∈ cs, c ∈ op.children) →
      ∃ visits, f.PostOrdered cs (d + 1) visits := by
    intro cs hcs
    induction cs with
    | nil => exact ⟨[], PostOrdered.nil⟩
    | cons c cs ihcs =>
      obtain ⟨first, hfirst⟩ := ih c (hcs c (by simp)) (d + 1)
      obtain ⟨rest, hrest⟩ := ihcs fun c' hc' => hcs c' (by simp [hc'])
      exact ⟨first ++ rest, hfirst.append hrest⟩
  obtain ⟨below, hbelow⟩ := hbelow op.children fun _ hc => hc
  exact ⟨_, PostOrdered.cons hop hbelow PostOrdered.nil⟩

/-! What a post-order holds -/

theorem Below.uncons {a x : OpId} {d : Nat} (h : f.Below a x (d + 1)) :
    ∃ c, f.parent? c = some a ∧ f.Below c x d := by
  obtain ⟨n, hn⟩ : ∃ n, n = d + 1 := ⟨_, rfl⟩
  rw [← hn] at h
  induction h generalizing d with
  | refl => omega
  | @child p c k hp hc ih =>
    cases d with
    | zero =>
      obtain rfl : k = 0 := by omega
      cases hp
      exact ⟨c, hc, Below.refl⟩
    | succ d =>
      obtain ⟨b, hb, hbp⟩ := ih (d := d) (by omega)
      exact ⟨b, hb, hbp.child hc⟩

theorem PostOrdered.mem_iff (h : f.WellFormed) {ids : List OpId} {d : Nat} {visits : List Visit}
    (hp : f.PostOrdered ids d visits) {x : OpId} {k : Nat} :
    ⟨x, k⟩ ∈ visits ↔ ∃ id ∈ ids, ∃ m, f.Below id x m ∧ k = d + m := by
  induction hp with
  | nil => simp
  | @cons id op ids d below rest hop _ _ ihbelow ihrest =>
    have hchild (c : OpId) : c ∈ op.children ↔ f.parent? c = some id := by
      rw [← children_of_get? hop, h.mem_children]
    rw [List.mem_append, List.mem_cons, ihbelow, ihrest]
    constructor
    · intro hmem
      obtain ⟨c, hc, m, hb, rfl⟩ | heq | ⟨i, hi, m, hb, rfl⟩ := hmem
      · exact ⟨id, by simp, m + 1, hb.cons ((hchild c).mp hc), by omega⟩
      · cases heq
        exact ⟨_, by simp, 0, Below.refl, rfl⟩
      · exact ⟨i, by simp [hi], m, hb, rfl⟩
    · intro ⟨i, hi, m, hb, hk⟩
      subst hk
      obtain rfl | hi := List.mem_cons.mp hi
      · cases m with
        | zero =>
          cases hb
          exact Or.inr (Or.inl rfl)
        | succ m =>
          obtain ⟨c, hc, hb⟩ := hb.uncons
          exact Or.inl ⟨c, (hchild c).mpr hc, m, hb, by omega⟩
      · exact Or.inr (Or.inr ⟨i, hi, m, hb, rfl⟩)

theorem PostOrdered.mem_ids_iff (h : f.WellFormed) {ids : List OpId} {d : Nat}
    {visits : List Visit} (hp : f.PostOrdered ids d visits) {x : OpId} :
    x ∈ visits.map Visit.id ↔ ∃ id ∈ ids, ∃ m, f.Below id x m := by
  rw [List.mem_map]
  constructor
  · intro ⟨⟨y, k⟩, hy, hx⟩
    subst hx
    obtain ⟨id, hid, m, hb, -⟩ := (hp.mem_iff h).mp hy
    exact ⟨id, hid, m, hb⟩
  · intro ⟨id, hid, m, hb⟩
    exact ⟨⟨x, d + m⟩, (hp.mem_iff h).mpr ⟨id, hid, m, hb, rfl⟩, rfl⟩

def Apart (f : Forest) (ids : List OpId) : Prop :=
  ids.Pairwise fun a b => ∀ x m n, f.Below a x m → ¬ f.Below b x n

theorem WellFormed.eq_of_siblings_below (h : f.WellFormed) {p a b x : OpId} {m n : Nat}
    (ha : f.parent? a = some p) (hb : f.parent? b = some p) (hax : f.Below a x m)
    (hbx : f.Below b x n) (hmn : m ≤ n) : a = b := by
  have hba := hax.total hbx hmn
  cases hk : n - m with
  | zero =>
    rw [hk] at hba
    cases hba
    rfl
  | succ k =>
    rw [hk] at hba
    cases hba with
    | child hbp hap =>
      rw [ha] at hap
      cases hap
      have := h.eq_zero_of_below_self (hbp.cons hb)
      omega

theorem WellFormed.eq_of_siblings (h : f.WellFormed) {p a b x : OpId} {i j : Nat}
    (ha : f.parent? a = some p) (hb : f.parent? b = some p) (hax : f.Below a x i)
    (hbx : f.Below b x j) : a = b := by
  obtain hle | hle := Nat.le_total i j
  · exact h.eq_of_siblings_below ha hb hax hbx hle
  · exact (h.eq_of_siblings_below hb ha hbx hax hle).symm

theorem WellFormed.apart_children (h : f.WellFormed) {p : OpId} {op : Operation}
    (hop : f.get? p = some op) : f.Apart op.children := by
  have hnodup := h.nodup_children p
  rw [children_of_get? hop] at hnodup
  refine hnodup.imp_of_mem fun {a b} ha hb hne x m n hax hbx => hne ?_
  rw [← children_of_get? hop, h.mem_children] at ha hb
  exact h.eq_of_siblings ha hb hax hbx

theorem apart_singleton (f : Forest) (id : OpId) : f.Apart [id] := List.pairwise_singleton _ _

theorem PostOrdered.nodup (h : f.WellFormed) {ids : List OpId} {d : Nat} {visits : List Visit}
    (hp : f.PostOrdered ids d visits) (hids : f.Apart ids) : (visits.map Visit.id).Nodup := by
  induction hp with
  | nil => exact List.nodup_nil
  | @cons id op ids d below rest hop hbelow hrest ihbelow ihrest =>
    obtain ⟨hid, hids⟩ := List.pairwise_cons.mp hids
    have hchild {c : OpId} (hc : c ∈ op.children) : f.parent? c = some id := by
      rwa [← h.mem_children, children_of_get? hop]
    have hfresh {x : OpId} {m : Nat} (hx : f.Below id x m) : x ∉ rest.map Visit.id := by
      intro hmem
      obtain ⟨i, hi, n, hb⟩ := (hrest.mem_ids_iff h).mp hmem
      exact hid i hi x m n hx hb
    rw [List.map_append, List.map_cons, List.nodup_append, List.nodup_cons]
    refine ⟨ihbelow (h.apart_children hop), ⟨hfresh Below.refl, ihrest hids⟩, ?_⟩
    intro x hx y hy hxy
    subst hxy
    obtain ⟨c, hc, m, hb⟩ := (hbelow.mem_ids_iff h).mp hx
    obtain rfl | hy := List.mem_cons.mp hy
    · have := h.eq_zero_of_below_self (hb.cons (hchild hc))
      omega
    · exact hfresh (hb.cons (hchild hc)) hy

/-! The walk -/

/-- Trees on top of the stack are walked in post-order before anything below them on the stack is
touched, and no mark outside them changes. -/
theorem walk_postOrdered {ids : List OpId} {d : Nat} {visits : List Visit}
    (hp : f.PostOrdered ids d visits) (hnodup : (visits.map Visit.id).Nodup)
    (stack : List Errand) (order : List Visit) (entered : Array Bool)
    (hfresh : ∀ x ∈ visits.map Visit.id, entered[x]? = some false) :
    ∃ marked : Array Bool, (∀ x, x ∉ visits.map Visit.id → marked[x]? = entered[x]?) ∧
      ∀ n,
        f.walk (2 * visits.length + n) (ids.map (fun id => .enter ⟨id, d⟩) ++ stack) entered
          order = f.walk n stack marked (visits.reverse ++ order) := by
  induction hp generalizing stack order entered with
  | nil => exact ⟨entered, fun _ _ => rfl, by simp⟩
  | @cons id op ids d below rest hop _ _ ihbelow ihrest =>
    rw [List.map_append, List.map_cons] at hnodup hfresh
    obtain ⟨hbelow, hcons, hdisjoint⟩ := List.nodup_append.mp hnodup
    obtain ⟨hid, hrest⟩ := List.nodup_cons.mp hcons
    have hidBelow : id ∉ below.map Visit.id := fun hmem => hdisjoint id hmem id (by simp) rfl
    have hset (x : OpId) (hx : x ≠ id) : (entered.setIfInBounds id true)[x]? = entered[x]? :=
      Array.getElem?_setIfInBounds_ne (Ne.symm hx)
    obtain ⟨inner, hinner, hwalk⟩ := ihbelow hbelow
      (.leave ⟨id, d⟩ :: (ids.map (fun id => .enter ⟨id, d⟩) ++ stack)) order
      (entered.setIfInBounds id true) (by
        intro x hx
        rw [hset x fun he => hidBelow (he ▸ hx)]
        exact hfresh x (by simp [hx]))
    obtain ⟨marked, hmarked, hwalkRest⟩ := ihrest hrest stack
      (⟨id, d⟩ :: (below.reverse ++ order)) inner (by
        intro x hx
        rw [hinner x fun hmem => hdisjoint x hmem x (by simp [hx]) rfl,
          hset x fun he => hid (he ▸ hx)]
        exact hfresh x (by simp [hx]))
    refine ⟨marked, ?_, fun n => ?_⟩
    · intro x hx
      rw [List.map_append, List.map_cons, List.mem_append, List.mem_cons, not_or, not_or] at hx
      rw [hmarked x hx.2.2, hinner x hx.1, hset x hx.2.1]
    · have hfuel : 2 * (below ++ (⟨id, d⟩ : Visit) :: rest).length + n =
          2 * below.length + (2 * rest.length + n + 1) + 1 := by
        rw [List.length_append, List.length_cons]
        omega
      rw [hfuel, List.map_cons, List.cons_append, walk, if_pos (hfresh id (by simp)),
        children_of_get? hop, hwalk, walk, hwalkRest]
      simp

theorem WellFormed.lt_size_of_below (h : f.WellFormed) {a x : OpId} {d : Nat} (ha : a < f.size)
    (hb : f.Below a x d) : x < f.size := by
  cases hb with
  | refl => exact ha
  | child _ hc => exact h.lt_of_mem_children (h.mem_children.mpr hc)

theorem PostOrdered.lt_size (h : f.WellFormed) {ids : List OpId} {d : Nat} {visits : List Visit}
    (hp : f.PostOrdered ids d visits) (hids : ∀ id ∈ ids, id < f.size) :
    ∀ x ∈ visits.map Visit.id, x < f.size := by
  intro x hx
  obtain ⟨i, hi, m, hb⟩ := (hp.mem_ids_iff h).mp hx
  exact h.lt_size_of_below (hids i hi) hb

theorem PostOrdered.length_le (h : f.WellFormed) {ids : List OpId} {d : Nat} {visits : List Visit}
    (hp : f.PostOrdered ids d visits) (hids : f.Apart ids) (hlt : ∀ id ∈ ids, id < f.size) :
    visits.length ≤ f.size := by
  have hsub : visits.map Visit.id ⊆ List.range f.size :=
    fun x hx => List.mem_range.mpr (hp.lt_size h hlt x hx)
  have hle := ((hp.nodup h hids).subperm hsub).length_le
  rwa [List.length_map, List.length_range] at hle

theorem WellFormed.walk_root (h : f.WellFormed) {root : OpId} (hroot : root < f.size)
    {visits : List Visit} (hp : f.PostOrdered [root] 0 visits) :
    ∃ marked, ∀ n,
      f.walk (2 * visits.length + n) [.enter ⟨root, 0⟩] (Array.replicate f.size false) [] =
        f.walk n [] marked visits.reverse := by
  have hfresh : ∀ x ∈ visits.map Visit.id, (Array.replicate f.size false)[x]? = some false := by
    intro x hx
    rw [Array.getElem?_replicate, if_pos (hp.lt_size h (by simpa using hroot) x hx)]
  obtain ⟨marked, -, hwalk⟩ := walk_postOrdered hp (hp.nodup h (f.apart_singleton root)) [] [] _
    hfresh
  exact ⟨marked, by simpa using hwalk⟩

theorem postOrder_of_get?_eq_none {root : OpId} (hroot : f.get? root = none) :
    f.postOrder root = .error (.unknown root) := by
  rw [postOrder, get, hroot]
  rfl

theorem WellFormed.postOrder_eq (h : f.WellFormed) {root : OpId} (hroot : root < f.size)
    {visits : List Visit} (hp : f.PostOrdered [root] 0 visits) :
    f.postOrder root = .ok visits := by
  obtain ⟨op, hop⟩ := lt_size_iff.mp hroot
  have hlen := hp.length_le h (f.apart_singleton root) (by simpa using hroot)
  obtain ⟨marked, hwalk⟩ := h.walk_root hroot hp
  have hwalk := hwalk (2 * f.size + 1 - 2 * visits.length)
  rw [show 2 * visits.length + (2 * f.size + 1 - 2 * visits.length) = 2 * f.size + 1 by omega]
    at hwalk
  rw [postOrder, get_eq_ok_iff.mpr hop]
  refine hwalk.trans ?_
  cases 2 * f.size + 1 - 2 * visits.length <;> simp [walk]

end ChartFold.Forest
