import ChartFold.Explain
import ChartFold.Proofs.Forest.PostOrder
import ChartFold.Proofs.Panel.Members

/-! Explaining a tree by recursion over the tree, and the walk over a desk of lists that gives the
same answer with the same events. -/
namespace ChartFold

namespace Desk
variable {desk : Desk}

/-- Whatever the visit of `op` reads or writes is there: the place of `op`, and for each child, when
its turn to be taken comes, a list that is not empty. -/
structure Ready (desk : Desk) (op : Operation) : Prop where
  own : op.id < desk.size
  taken : ∀ earlier c later, op.children = earlier ++ c :: later →
    ∃ list, (desk.take earlier).2[c]? = some (some list) ∧ list ≠ []

def put (desk : Desk) : List OpId → List (List Panel) → Desk
  | id :: ids, list :: lists => put (desk.setIfInBounds id (some list)) ids lists
  | _, _ => desk

theorem put_nil (desk : Desk) (lists : List (List Panel)) : desk.put [] lists = desk := rfl

theorem getElem?_put (desk : Desk) {ids : List OpId} {x : OpId} (hx : x ∉ ids)
    (lists : List (List Panel)) : (desk.put ids lists)[x]? = desk[x]? := by
  induction ids generalizing desk lists with
  | nil => rfl
  | cons id ids ih =>
    obtain ⟨hne, hx⟩ := not_or.mp (List.mem_cons.not.mp hx)
    cases lists with
    | nil => rfl
    | cons list lists => rw [put, ih _ hx, Array.getElem?_setIfInBounds_ne (Ne.symm hne)]

theorem exists_of_put {R : OpId → List Panel → Prop} (desk : Desk) {ids : List OpId}
    {lists : List (List Panel)} (hR : List.Forall₂ R ids lists) (hids : ids.Nodup)
    (hlt : ∀ x ∈ ids, x < desk.size) {x : OpId} (hx : x ∈ ids) :
    ∃ list, R x list ∧ (desk.put ids lists)[x]? = some (some list) := by
  induction hR generalizing desk with
  | nil => simp at hx
  | @cons id list ids lists hlist _ ih =>
    obtain ⟨hid, hids⟩ := List.nodup_cons.mp hids
    rw [put]
    obtain rfl | hx := List.mem_cons.mp hx
    · refine ⟨list, hlist, ?_⟩
      rw [getElem?_put _ hid, Array.getElem?_setIfInBounds_self_of_lt (hlt x (by simp))]
    · refine ih _ hids (fun y hy => ?_) hx
      rw [Array.size_setIfInBounds]
      exact hlt y (by simp [hy])

theorem put_setIfInBounds (desk : Desk) {ids : List OpId} {x : OpId} (hx : x ∉ ids)
    (lists : List (List Panel)) (place : Option (List Panel)) :
    (desk.put ids lists).setIfInBounds x place = put (desk.setIfInBounds x place) ids lists := by
  induction ids generalizing desk lists with
  | nil => rfl
  | cons id ids ih =>
    obtain ⟨hne, hx⟩ := not_or.mp (List.mem_cons.not.mp hx)
    cases lists with
    | nil => rfl
    | cons list lists => rw [put, ih _ hx, put, Array.setIfInBounds_comm _ _ (Ne.symm hne)]

theorem listAt_put {x : OpId} (hx : x < desk.size) (list : List Panel) :
    (desk.put [x] [list]).listAt x = list := by
  rw [listAt, put, put_nil, Array.getElem?_setIfInBounds_self_of_lt hx]
  rfl

theorem setIfInBounds_same {x : OpId} {place : Option (List Panel)} (h : desk[x]? = some place) :
    desk.setIfInBounds x place = desk := by
  refine Array.ext_getElem? fun i => ?_
  by_cases hi : x = i
  · subst hi
    rw [h, Array.getElem?_setIfInBounds_self_of_lt (Array.getElem?_eq_some_iff.mp h).1]
  · rw [Array.getElem?_setIfInBounds_ne hi]

theorem take_put (desk : Desk) {ids : List OpId} {lists : List (List Panel)} (hids : ids.Nodup)
    (hlen : lists.length = ids.length) (hempty : ∀ x ∈ ids, desk[x]? = some none) :
    (desk.put ids lists).take ids = (lists, desk) := by
  induction ids generalizing desk lists with
  | nil => rw [List.length_eq_zero_iff.mp hlen]; rfl
  | cons id ids ih =>
    obtain ⟨hid, hids⟩ := List.nodup_cons.mp hids
    cases lists with
    | nil => simp at hlen
    | cons list lists =>
      have hplace := hempty id (by simp)
      have hlt : id < desk.size := (Array.getElem?_eq_some_iff.mp hplace).1
      have hlist : (desk.put (id :: ids) (list :: lists)).listAt id = list := by
        rw [listAt, put, getElem?_put _ hid, Array.getElem?_setIfInBounds_self_of_lt hlt]
        rfl
      rw [take, hlist, put, put_setIfInBounds _ hid, Array.setIfInBounds_setIfInBounds,
        setIfInBounds_same hplace, ih desk hids (by simpa using hlen) fun x hx =>
          hempty x (by simp [hx])]

theorem getElem?_take (desk : Desk) {ids : List OpId} {x : OpId} (hx : x ∉ ids) :
    (desk.take ids).2[x]? = desk[x]? := by
  induction ids generalizing desk with
  | nil => rfl
  | cons id ids ih =>
    obtain ⟨hne, hx⟩ := not_or.mp (List.mem_cons.not.mp hx)
    rw [take, ih _ hx, Array.getElem?_setIfInBounds_ne (Ne.symm hne)]

end Desk

namespace Forest
variable {f : Forest} {rules : Rules} {res : OpId → Nat → Explaining (List Panel)}

/-- One level of the recursion, where `res` explains the trees below: a leaf starts a panel; any
other operation keeps all but the last panel of each child, in the order of the children, and
gathers the last ones. -/
def explainBy (f : Forest) (rules : Rules) (res : OpId → Nat → Explaining (List Panel))
    (op : Operation) (d : Nat) : Explaining (List Panel) :=
  if op.isLeaf then do
    let own ← Panel.start op d rules
    return [own]
  else do
    let lists ← op.children.mapM (res · (d + 1))
    let gathered ← Panel.gather op d (lists.filterMap List.getLast?) f rules
    return lists.flatMap List.dropLast ++ gathered

/-- `res` explains the tree below each operation, at each depth, by recursion over the tree. -/
def Recursion (f : Forest) (rules : Rules) (res : OpId → Nat → Explaining (List Panel)) : Prop :=
  ∀ id op d, f.get? id = some op → res id d = f.explainBy rules res op d

theorem explainBy_congr {more : OpId → Nat → Explaining (List Panel)} {op : Operation} {d : Nat}
    (h : ∀ c ∈ op.children, res c (d + 1) = more c (d + 1)) :
    f.explainBy rules res op d = f.explainBy rules more op d := by
  rw [explainBy, explainBy, Traced.mapM_congr h]

def explainWithin (f : Forest) (rules : Rules) : Nat → OpId → Nat → Explaining (List Panel)
  | 0, _, _ => pure []
  | n + 1, id, d => match f.get? id with
    | some op => f.explainBy rules (explainWithin f rules n) op d
    | none => pure []

theorem WellFormed.exists_recursion (h : f.WellFormed) (rules : Rules) :
    ∃ res, f.Recursion rules res := by
  obtain ⟨height, hheight⟩ := h.grounded
  have hlt {id c : OpId} {op : Operation} (hop : f.get? id = some op) (hc : c ∈ op.children) :
      height c < height id := by
    rw [← children_of_get? hop] at hc
    exact hheight (h.mem_children.mp hc)
  have hstable : ∀ m n id d, height id < m → height id < n →
      f.explainWithin rules m id d = f.explainWithin rules n id d := by
    intro m
    induction m with
    | zero => intro n id d hm; omega
    | succ m ih =>
      intro n id d hm hn
      obtain ⟨n, rfl⟩ : ∃ k, n = k + 1 := ⟨n - 1, by omega⟩
      rw [explainWithin, explainWithin]
      cases hop : f.get? id with
      | none => rfl
      | some op =>
        refine explainBy_congr fun c hc => ?_
        have := hlt hop hc
        exact ih n c (d + 1) (by omega) (by omega)
  refine ⟨fun id d => f.explainWithin rules (height id + 1) id d, fun id op d hop => ?_⟩
  change f.explainWithin rules (height id + 1) id d = _
  rw [explainWithin, hop]
  refine explainBy_congr fun c hc => ?_
  exact hstable _ _ c (d + 1) (hlt hop hc) (Nat.lt_succ_self _)

theorem checkShapes_eq_ok {profile : Profile} {parent : Operation} :
    (Panel.checkShapes profile parent f rules).result = .ok () ↔
      ∀ c ∈ parent.children, ∃ op profile, f.get? c = some op ∧
        rules.profile? op.kind = some profile := by
  rw [Panel.checkShapes, Traced.result_forM_eq_ok]
  refine forall₂_congr fun c _ => ?_
  simp only [Traced.result_bind, Except.bind_eq_ok, Traced.result_mapError, Except.mapError_eq_ok,
    Traced.result_ofExcept, get_eq_ok_iff, Rules.profileOf_eq_ok]
  constructor
  · intro ⟨op, hop, below, hbelow, _⟩
    exact ⟨op, below, hop, hbelow⟩
  · intro ⟨op, below, hop, hbelow⟩
    refine ⟨op, hop, below, hbelow, ?_⟩
    split <;> rfl

theorem explainBy_eq_ok {op : Operation} {d : Nat} {list : List Panel} :
    (f.explainBy rules res op d).result = .ok list ↔
      ∃ lists, List.Forall₂ (fun c l => (res c (d + 1)).result = .ok l) op.children lists ∧
        ∃ profile own gathered, rules.profile? op.kind = some profile ∧
          (Panel.checkShapes profile op f rules).result = .ok () ∧
          (Panel.start op d rules).result = .ok own ∧
          Panel.foldHeads op profile.chart f rules own
            (Panel.byTop (Panel.joining rules profile.chart (lists.filterMap List.getLast?))) =
              .ok gathered ∧
          list = lists.flatMap List.dropLast ++
            Panel.byTop (Panel.orphans rules profile.chart (lists.filterMap List.getLast?)) ++
              [gathered] := by
  rw [explainBy]
  by_cases hleaf : op.isLeaf
  · have hnil : op.children = [] := List.isEmpty_iff.mp hleaf
    rw [if_pos hleaf, Traced.result_bind, Except.bind_eq_ok]
    constructor
    · intro ⟨own, hown, hlist⟩
      obtain ⟨⟨profile, hprofile⟩, -⟩ := Panel.start_eq_ok hown
      cases hlist
      exact ⟨[], hnil ▸ List.Forall₂.nil, profile, own, own, hprofile,
        checkShapes_eq_ok.mpr (by simp [hnil]), hown, by simp, by simp⟩
    · intro ⟨lists, hlists, profile, own, gathered, _, _, hown, hfold, hlist⟩
      rw [hnil, List.forall₂_nil_left_iff] at hlists
      subst hlists hlist
      have hfold : own = gathered := by simpa using hfold
      subst hfold
      exact ⟨own, hown, by simp⟩
  · simp only [if_neg hleaf, Traced.result_bind, Except.bind_eq_ok, Traced.result_mapM,
      Except.mapM_eq_ok, Panel.gather_eq_ok]
    constructor
    · intro ⟨lists, hlists, _, ⟨profile, own, gathered, hprofile, hshapes, hown, hfold, heq⟩, hlist⟩
      subst heq
      cases hlist
      exact ⟨lists, hlists, profile, own, gathered, hprofile, hshapes, hown, hfold,
        (List.append_assoc _ _ _).symm⟩
    · intro ⟨lists, hlists, profile, own, gathered, hprofile, hshapes, hown, hfold, hlist⟩
      refine ⟨lists, hlists, _, ⟨profile, own, gathered, hprofile, hshapes, hown, hfold, rfl⟩, ?_⟩
      rw [hlist, List.append_assoc]
      rfl

theorem Recursion.ne_nil (hres : f.Recursion rules res) {id : OpId} {op : Operation} {d : Nat}
    {list : List Panel} (hop : f.get? id = some op) (h : (res id d).result = .ok list) :
    list ≠ [] := by
  rw [hres id op d hop, explainBy_eq_ok] at h
  obtain ⟨lists, -, profile, own, gathered, -, -, -, -, rfl⟩ := h
  simp

/-! The walk over the desk -/

theorem length_of_mapM_ok {ids : List OpId} {d : Nat} {lists : List (List Panel)}
    (h : (ids.mapM (res · d)).result = .ok lists) : lists.length = ids.length := by
  rw [Traced.result_mapM, Except.mapM_eq_ok] at h
  exact h.length_eq.symm

theorem explainVisit_put (h : f.WellFormed) {id : OpId} {op : Operation} {desk : Desk} (d : Nat)
    (hop : f.get? id = some op) (hempty : ∀ c ∈ op.children, desk[c]? = some none) :
    (do let lists ← op.children.mapM (res · (d + 1))
        f.explainVisit rules (desk.put op.children lists) ⟨id, d⟩) = (do
      let list ← f.explainBy rules res op d
      return desk.setIfInBounds id (some list)) := by
  have hid := h.numbered id op hop
  have hget : f.get id = .ok op := get_eq_ok_iff.mpr hop
  have hnodup : op.children.Nodup := children_of_get? hop ▸ h.nodup_children id
  rw [explainBy]
  by_cases hleaf : op.isLeaf
  · have hnil : op.children = [] := List.isEmpty_iff.mp hleaf
    rw [hnil, List.mapM_nil, pure_bind, explainVisit, hget, Traced.mapError_ofExcept_ok, pure_bind,
      if_pos hleaf, if_pos hleaf, bind_assoc, hid]
    rfl
  · rw [if_neg hleaf, bind_assoc]
    refine Traced.bind_congr_ok fun lists hlists => ?_
    rw [explainVisit, hget, Traced.mapError_ofExcept_ok, pure_bind, if_neg hleaf,
      Desk.take_put desk hnodup (length_of_mapM_ok hlists) hempty, hid, bind_assoc]
    rfl

theorem foldlM_tree (h : f.WellFormed) (hres : f.Recursion rules res) {id : OpId} {op : Operation}
    {d : Nat} {below : List Visit} {desk : Desk} (hop : f.get? id = some op)
    (hempty : ∀ c ∈ op.children, desk[c]? = some none)
    (hbelow : below.foldlM (f.explainVisit rules) desk = (do
      let lists ← op.children.mapM (res · (d + 1))
      return desk.put op.children lists)) (tail : List Visit) :
    (below ++ ⟨id, d⟩ :: tail).foldlM (f.explainVisit rules) desk = (do
      let list ← res id d
      tail.foldlM (f.explainVisit rules) (desk.setIfInBounds id (some list))) := by
  calc
    (below ++ ⟨id, d⟩ :: tail).foldlM (f.explainVisit rules) desk
      = (do
          let desk ← (do
            let lists ← op.children.mapM (res · (d + 1))
            f.explainVisit rules (desk.put op.children lists) ⟨id, d⟩)
          tail.foldlM (f.explainVisit rules) desk) := by
        rw [List.foldlM_append, hbelow]
        simp only [List.foldlM_cons, bind_assoc, pure_bind]
    _ = _ := by
        rw [explainVisit_put h d hop hempty, hres id op d hop, bind_assoc]
        simp only [pure_bind]

/-- Walking the trees at `ids` over empty places puts down the lists that the recursion gives. -/
theorem foldlM_explainVisit (h : f.WellFormed) (hres : f.Recursion rules res) {ids : List OpId}
    {d : Nat} {visits : List Visit} (hp : f.PostOrdered ids d visits)
    (hnodup : (visits.map Visit.id).Nodup) (desk : Desk)
    (hempty : ∀ x ∈ visits.map Visit.id, desk[x]? = some none) :
    visits.foldlM (f.explainVisit rules) desk = (do
      let lists ← ids.mapM (res · d)
      return desk.put ids lists) := by
  induction hp generalizing desk with
  | nil => rfl
  | @cons id op ids d below rest hop hbelow _ ihbelow ihrest =>
    rw [List.map_append, List.map_cons] at hnodup hempty
    obtain ⟨hbelowNodup, hcons, _⟩ := List.nodup_append.mp hnodup
    obtain ⟨hid, hrestNodup⟩ := List.nodup_cons.mp hcons
    have hchildren : ∀ c ∈ op.children, desk[c]? = some none := fun c hc =>
      hempty c (List.mem_append_left _ ((hbelow.mem_ids_iff h).mpr ⟨c, hc, 0, Below.refl⟩))
    rw [foldlM_tree h hres hop hchildren
      (ihbelow hbelowNodup desk fun x hx => hempty x (by simp [hx])), List.mapM_cons, bind_assoc]
    refine Traced.bind_congr_ok fun list _ => ?_
    rw [ihrest hrestNodup]
    · simp only [bind_assoc, pure_bind, Desk.put]
    · intro x hx
      have hne : id ≠ x := fun he => hid (he ▸ hx)
      rw [Array.getElem?_setIfInBounds_ne hne]
      exact hempty x (by simp [hx])

theorem split_cases {α : Type} {xs ys before after : List α} {a v : α}
    (h : xs ++ a :: ys = before ++ v :: after) :
    (∃ more, xs = before ++ v :: more) ∨ (before = xs ∧ v = a) ∨
      ∃ more, before = xs ++ a :: more ∧ ys = more ++ v :: after := by
  obtain ⟨more, hbefore, hmore⟩ | ⟨more, hxs, hmore⟩ := List.append_eq_append_iff.mp h
  · cases more with
    | nil =>
      cases hmore
      exact Or.inr (Or.inl ⟨by simpa using hbefore, rfl⟩)
    | cons b more =>
      cases hmore
      exact Or.inr (Or.inr ⟨more, hbefore, rfl⟩)
  · cases more with
    | nil =>
      cases hmore
      exact Or.inr (Or.inl ⟨by simpa using hxs.symm, rfl⟩)
    | cons b more =>
      cases hmore
      exact Or.inl ⟨more, hxs⟩

theorem ready_put (h : f.WellFormed) (hres : f.Recursion rules res) {id : OpId} {op : Operation}
    {d : Nat} {desk : Desk} (hop : f.get? id = some op) (hid : desk[id]? = some none)
    (hempty : ∀ c ∈ op.children, desk[c]? = some none) {lists : List (List Panel)}
    (hlists : (op.children.mapM (res · (d + 1))).result = .ok lists) :
    (desk.put op.children lists).Ready op := by
  have hnodup : op.children.Nodup := children_of_get? hop ▸ h.nodup_children id
  have hnot : id ∉ op.children := by
    intro hmem
    rw [← children_of_get? hop, h.mem_children] at hmem
    have := h.eq_zero_of_below_self (Below.refl.child hmem)
    omega
  rw [Traced.result_mapM, Except.mapM_eq_ok] at hlists
  constructor
  · rw [h.numbered id op hop]
    rw [← desk.getElem?_put hnot lists] at hid
    exact (Array.getElem?_eq_some_iff.mp hid).1
  · intro earlier c later hsplit
    have hc : c ∈ op.children := by simp [hsplit]
    have hcEarlier : c ∉ earlier := by
      intro hmem
      rw [hsplit] at hnodup
      exact (List.nodup_append.mp hnodup).2.2 c hmem c (by simp) rfl
    obtain ⟨list, hlist, hplace⟩ := desk.exists_of_put hlists hnodup
      (fun x hx => (Array.getElem?_eq_some_iff.mp (hempty x hx)).1) hc
    obtain ⟨child, hchild⟩ := lt_size_iff.mp (h.lt_of_mem_children (children_of_get? hop ▸ hc))
    refine ⟨list, ?_, hres.ne_nil hchild hlist⟩
    rw [Desk.getElem?_take _ hcEarlier, hplace]

theorem ready_of_walk (h : f.WellFormed) (hres : f.Recursion rules res) {ids : List OpId} {d : Nat}
    {visits : List Visit} (hp : f.PostOrdered ids d visits)
    (hnodup : (visits.map Visit.id).Nodup) {desk : Desk}
    (hempty : ∀ x ∈ visits.map Visit.id, desk[x]? = some none) {before after : List Visit}
    {visit : Visit} (hsplit : visits = before ++ visit :: after) {reached : Desk}
    (hreached : (before.foldlM (f.explainVisit rules) desk).result = .ok reached) :
    ∃ op, f.get? visit.id = some op ∧ reached.Ready op := by
  induction hp generalizing desk before after with
  | nil => simp at hsplit
  | @cons id op ids d below rest hop hbelow _ ihbelow ihrest =>
    rw [List.map_append, List.map_cons] at hnodup hempty
    obtain ⟨hbelowNodup, hcons, _⟩ := List.nodup_append.mp hnodup
    obtain ⟨hid, hrestNodup⟩ := List.nodup_cons.mp hcons
    have hchildren : ∀ c ∈ op.children, desk[c]? = some none := fun c hc =>
      hempty c (List.mem_append_left _ ((hbelow.mem_ids_iff h).mpr ⟨c, hc, 0, Below.refl⟩))
    have hemptyBelow : ∀ x ∈ below.map Visit.id, desk[x]? = some none :=
      fun x hx => hempty x (by simp [hx])
    have hwalk := foldlM_explainVisit h hres hbelow hbelowNodup desk hemptyBelow
    -- the visit lies in the trees below, is that of `id` itself, or lies in the trees beside
    obtain ⟨more, hmore⟩ | ⟨rfl, rfl⟩ | ⟨more, rfl, hmore⟩ := split_cases hsplit
    · exact ihbelow hbelowNodup hemptyBelow hmore hreached
    · rw [hwalk, Traced.result_bind, Except.bind_eq_ok] at hreached
      obtain ⟨lists, hlists, hdesk⟩ := hreached
      cases hdesk
      exact ⟨op, hop, ready_put h hres hop (hempty id (by simp)) hchildren hlists⟩
    · rw [foldlM_tree h hres hop hchildren hwalk, Traced.result_bind, Except.bind_eq_ok] at hreached
      obtain ⟨list, -, hreached⟩ := hreached
      refine ihrest hrestNodup ?_ hmore hreached
      intro x hx
      have hne : id ≠ x := fun he => hid (he ▸ hx)
      rw [Array.getElem?_setIfInBounds_ne hne]
      exact hempty x (by simp [hx])

theorem length_byDepth (list : List Panel) : (byDepth list).length = list.length :=
  List.length_mergeSort _

theorem explainVisits_eq (visits : List Visit) : f.explainVisits rules visits =
    visits.foldlM (f.explainVisit rules) (Array.replicate f.size none) := by
  rw [explainVisits, Traced.foldl_bind, pure_bind]

theorem getElem?_fresh {ids : List OpId} (hids : ∀ x ∈ ids, x < f.size) :
    ∀ x ∈ ids, (Array.replicate f.size none : Desk)[x]? = some none := by
  intro x hx
  rw [Array.getElem?_replicate, if_pos (hids x hx)]

theorem explain_of_not_mem {root : OpId} (h : f.get? root = none) :
    f.explain rules root = .fail (.forest (.unknown root)) := by
  rw [explain, postOrder_of_get?_eq_none h]
  rfl

theorem explain_eq_of_recursion (h : f.WellFormed) (hres : f.Recursion rules res) {root : OpId}
    {op : Operation} (hop : f.get? root = some op) {visits : List Visit}
    (hp : f.PostOrdered [root] 0 visits) :
    f.explain rules root = (do
      let list ← res root 0
      .note (.explained op.name visits.length list.length)
      return byDepth list) := by
  have hroot := lt_size_of_get? hop
  have hfresh := getElem?_fresh (hp.lt_size h (by simpa using hroot))
  rw [explain, h.postOrder_eq hroot hp, Traced.mapError_ofExcept_ok, pure_bind, explainVisits_eq,
    foldlM_explainVisit h hres hp (hp.nodup h (f.apart_singleton root)) _ hfresh, List.mapM_cons,
    List.mapM_nil]
  simp only [bind_assoc, pure_bind]
  refine Traced.bind_congr_ok fun list _ => ?_
  rw [Desk.listAt_put (by simpa using hroot), get_eq_ok_iff.mpr hop, Traced.mapError_ofExcept_ok,
    pure_bind, length_byDepth]

theorem byDepth_perm (panels : List Panel) : (byDepth panels).Perm panels := List.mergeSort_perm _ _

theorem deeper_trans (a b c : Panel) (hab : decide (b.depth ≤ a.depth))
    (hbc : decide (c.depth ≤ b.depth)) : decide (c.depth ≤ a.depth) := by
  simp only [decide_eq_true_eq] at hab hbc ⊢
  exact Nat.le_trans hbc hab

theorem deeper_total (a b : Panel) : decide (b.depth ≤ a.depth) || decide (a.depth ≤ b.depth) := by
  simp only [Bool.or_eq_true, decide_eq_true_eq]
  exact Nat.le_total b.depth a.depth

theorem byDepth_eq_insertionSort (panels : List Panel) :
    byDepth panels = panels.insertionSort fun a b => decide (b.depth ≤ a.depth) :=
  Panel.mergeSort_eq_insertionSort deeper_trans deeper_total panels

theorem explain_eq_ok (h : f.WellFormed) (hres : f.Recursion rules res) {root : OpId}
    {panels : List Panel} : (f.explain rules root).result = .ok panels ↔
      root < f.size ∧ ∃ list, (res root 0).result = .ok list ∧ panels = byDepth list := by
  cases hop : f.get? root with
  | none =>
    have hroot : ¬ root < f.size := by
      intro hlt
      obtain ⟨op, hop'⟩ := lt_size_iff.mp hlt
      rw [hop] at hop'
      cases hop'
    rw [explain_of_not_mem hop]
    exact ⟨nofun, fun hok => absurd hok.1 hroot⟩
  | some op =>
    have hroot := lt_size_of_get? hop
    obtain ⟨visits, hp⟩ := h.exists_postOrdered hroot 0
    rw [explain_eq_of_recursion h hres hop hp]
    simp only [Traced.result_bind, Except.bind_eq_ok, Traced.result_note, Traced.result_pure]
    constructor
    · intro ⟨list, hlist, _, _, hpanels⟩
      cases hpanels
      exact ⟨hroot, list, hlist, rfl⟩
    · intro ⟨_, list, hlist, hpanels⟩
      exact ⟨list, hlist, (), trivial, by rw [hpanels]⟩

/-- Explaining a tree is the recursion over the tree, sorted by depth, with the same failure and the
same events; the recursion exists. On the walk every visit finds its desk ready, and at the end the
list of the root is there. -/
theorem explain_eq_recursion (hf : f.Reachable) (rules : Rules) :
    (∃ res, f.Recursion rules res) ∧
    (∀ root, f.get? root = none → f.explain rules root = .fail (.forest (.unknown root))) ∧
    ∀ root op, f.get? root = some op → ∃ visits, f.postOrder root = .ok visits ∧
      (∀ res, f.Recursion rules res → f.explain rules root = (do
        let list ← res root 0
        .note (.explained op.name visits.length list.length)
        return byDepth list)) ∧
      (∀ before visit after desk, visits = before ++ visit :: after →
        (f.explainVisits rules before).result = .ok desk →
          ∃ op, f.get? visit.id = some op ∧ desk.Ready op) ∧
      ∀ desk, (f.explainVisits rules visits).result = .ok desk →
        ∃ list, desk[root]? = some (some list) ∧ list ≠ [] := by
  have h := hf.wellFormed
  obtain ⟨res, hres⟩ := h.exists_recursion rules
  refine ⟨⟨res, hres⟩, fun root hroot => explain_of_not_mem hroot, fun root op hop => ?_⟩
  have hroot := lt_size_of_get? hop
  obtain ⟨visits, hp⟩ := h.exists_postOrdered hroot 0
  have hnodup := hp.nodup h (f.apart_singleton root)
  have hfresh := getElem?_fresh (hp.lt_size h (by simpa using hroot))
  refine ⟨visits, h.postOrder_eq hroot hp, ?_, ?_, ?_⟩
  · intro res hres
    exact explain_eq_of_recursion h hres hop hp
  · intro before visit after desk hsplit hdesk
    rw [explainVisits_eq] at hdesk
    exact ready_of_walk h hres hp hnodup hfresh hsplit hdesk
  · intro desk hdesk
    rw [explainVisits_eq, foldlM_explainVisit h hres hp hnodup _ hfresh, Traced.result_bind,
      Except.bind_eq_ok] at hdesk
    obtain ⟨lists, hlists, hdesk⟩ := hdesk
    cases hdesk
    rw [Traced.result_mapM, Except.mapM_eq_ok] at hlists
    obtain ⟨list, hlist, hplace⟩ := Desk.exists_of_put (Array.replicate f.size none) hlists
      (by simp) (by simpa using hroot) (List.mem_singleton_self root)
    exact ⟨list, hplace, hres.ne_nil hop hlist⟩

/-! A sum of squares over the difference of two vectors -/

def sampleRules : Rules where
  grammar := .ofList [
    ("vector", { operand := .any, product := .vector }),
    ("vector_sum", { operand := .vector, product := .scalar, chart := some .spacefilling }),
    ("vector_difference",
      { operand := .vector, product := .vector, chart := some .scatterWithDiagonal })]

def sampleCalls : List Call := [
  .add "ss" none "vector_sum" { inputs := ["res"], outputs := ["ss"] },
  .add "y" none "vector" { outputs := ["y"] },
  .add "res" (some 0) "vector_difference" { inputs := ["y", "y_hat"], outputs := ["res"] },
  .add "y_hat" (some 2) "vector" { outputs := ["y_hat"] },
  .attach 1 2,
  .attach 0 1]

def sample : Forest := empty.replay sampleCalls

theorem reachable_sample : sample.Reachable := ⟨sampleCalls, rfl⟩

/-- The difference takes in the two vectors; no rule lets its chart be folded into that of the
sum. -/
def samplePanels : List Panel := [
  { top := 2, members := #[3, 2, 1], chart := some .scatterWithDiagonal, depth := 2
    encodings := .ofList [
      ("y", { mark := .point, channel := .position, axis := some .x }),
      ("y_hat", { mark := .point, channel := .position, axis := some .y }),
      ("res", { mark := .line, channel := .length })] },
  { top := 0, members := #[0], chart := some .spacefilling, depth := 0
    encodings := .ofList [
      ("res", { mark := .square, channel := .area }),
      ("ss", { mark := .bar, channel := .length })] }]

theorem explain_sample : (sample.explain sampleRules 0).result = .ok samplePanels := by
  simp only [explain, explainVisits, explainVisit, byDepth_eq_insertionSort, Panel.gather,
    Panel.byTop_eq_insertionSort]
  decide +kernel

theorem explain_eq_recursion_sample : ∃ res visits, sample.Recursion sampleRules res ∧
    sample.postOrder 0 = .ok visits ∧ sample.explain sampleRules 0 = (do
      let list ← res 0 0
      .note (.explained "ss" visits.length list.length)
      return byDepth list) := by
  obtain ⟨⟨res, hres⟩, -, hexplain⟩ := explain_eq_recursion reachable_sample sampleRules
  obtain ⟨visits, hvisits, heq, -⟩ := hexplain 0 _ rfl
  exact ⟨res, visits, hres, hvisits, heq res hres⟩

end Forest

end ChartFold
