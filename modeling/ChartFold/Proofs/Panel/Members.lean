import ChartFold.Proofs.Forest.Reachable
import ChartFold.Proofs.Panel.Frame
import Mathlib.Data.List.Nodup
import Mathlib.Data.List.Pairwise
import Mathlib.Data.List.Sort
import Mathlib.Logic.Relation

/-! Which operations the panels of a family explain: gathering loses none, takes none twice and adds
only the parent. -/
namespace ChartFold.Panel
variable {rules : Rules} {forest : Forest} {parent : Operation} {declared : Option Chart}

/-- The operations that some panels explain, as often as they do. -/
def membersOf (panels : List Panel) : List OpId := panels.flatMap fun p => p.members.toList

theorem membersOf_cons (p : Panel) (panels : List Panel) :
    membersOf (p :: panels) = p.members.toList ++ membersOf panels := List.flatMap_cons

theorem membersOf_append (xs ys : List Panel) :
    membersOf (xs ++ ys) = membersOf xs ++ membersOf ys := List.flatMap_append

theorem membersOf_singleton (p : Panel) : membersOf [p] = p.members.toList := by
  simp [membersOf]

theorem membersOf_perm {xs ys : List Panel} (h : xs.Perm ys) :
    (membersOf xs).Perm (membersOf ys) := h.flatMap_right _

theorem mem_membersOf {x : OpId} {panels : List Panel} :
    x ∈ membersOf panels ↔ ∃ p ∈ panels, x ∈ p.members := by
  simp [membersOf]

theorem eq_of_mem_members {panels : List Panel} (h : (membersOf panels).Nodup) {p q : Panel}
    (hp : p ∈ panels) (hq : q ∈ panels) {x : OpId} (hxp : x ∈ p.members) (hxq : x ∈ q.members) :
    p = q := by
  by_contra hne
  have hpair := (List.nodup_flatMap.mp h).2
  have hsymm : Std.Symm (Function.onFun List.Disjoint fun p : Panel => p.members.toList) :=
    ⟨fun _ _ hd _ hx hy => hd hy hx⟩
  exact hpair.forall hp hq hne (Array.mem_toList_iff.mpr hxp) (Array.mem_toList_iff.mpr hxq)

/-! Joining two lists that share one operation -/

theorem perm_cons_filter_ne {a : OpId} {l : List OpId} (h : l.count a = 1) :
    l.Perm (a :: l.filter (· != a)) := by
  have hsplit := (List.filter_append_perm (· == a) l).symm
  rw [List.filter_beq, h] at hsplit
  exact hsplit

theorem joinMembers_perm {shared : OpId} {xs ys : Array OpId} (hxs : shared ∉ xs)
    (hys : ys.toList.count shared = 1) :
    (joinMembers shared (xs.push shared) ys).toList.Perm (xs.toList ++ ys.toList) := by
  have hfilter : (xs.toList ++ [shared]).filter (· != shared) = xs.toList := by
    have hall : ∀ x ∈ xs.toList, (x != shared) = true := by
      intro x hx
      rw [bne_iff_ne]
      intro he
      exact hxs (he ▸ Array.mem_toList_iff.mp hx)
    rw [List.filter_append, List.filter_eq_self.mpr hall]
    simp
  rw [joinMembers]
  split
  · rw [Array.toList_append, Array.toList_filter, Array.toList_push, hfilter]
    exact List.perm_append_comm
  · rw [Array.toList_append, Array.toList_filter, Array.toList_push, List.append_assoc]
    exact (perm_cons_filter_ne hys).symm.append_left _

/-- The panel stands under an operation that it holds exactly once. -/
structure ToppedBy (id : OpId) (p : Panel) : Prop where
  top : p.top = id
  once : p.members.toList.count id = 1

theorem ToppedBy.mem {id : OpId} {p : Panel} (h : p.ToppedBy id) : id ∈ p.members := by
  refine Array.mem_toList_iff.mp (List.count_pos_iff.mp ?_)
  rw [h.once]
  exact Nat.one_pos

/-- From each member but the top, the link upwards leads to a member. -/
structure Rooted (forest : Forest) (p : Panel) : Prop where
  top_mem : p.top ∈ p.members
  climb : ∀ x ∈ p.members, x ≠ p.top → ∃ y ∈ p.members, forest.parent? x = some y

theorem Rooted.climb_top (h : forest.WellFormed) {p : Panel} (hp : p.Rooted forest) (x : OpId)
    (hx : x ∈ p.members) :
    Relation.ReflTransGen (fun a b => forest.parent? a = some b ∧ b ∈ p.members) x p.top := by
  refine h.induction_down (motive := fun x => x ∈ p.members →
    Relation.ReflTransGen (fun a b => forest.parent? a = some b ∧ b ∈ p.members) x p.top) ?_ x hx
  intro x ih hx
  by_cases htop : x = p.top
  · rw [htop]
  · obtain ⟨y, hy, hxy⟩ := hp.climb x hx htop
    exact Relation.ReflTransGen.head ⟨hxy, hy⟩ (ih y hxy hy)

theorem start_toppedBy {op : Operation} {d : Nat} {own : Panel}
    (h : (start op d rules).result = .ok own) : own.ToppedBy op.id ∧ own.members = #[op.id] := by
  obtain ⟨-, hredrawn⟩ := start_eq_ok h
  refine ⟨⟨hredrawn.top, ?_⟩, hredrawn.members⟩
  rw [hredrawn.members]
  simp [blank]

theorem foldHead_members {own head acc : Panel}
    (h : (foldHead parent declared forest rules own head).result = .ok acc)
    (hown : own.ToppedBy parent.id) (hhead : parent.id ∉ head.members) :
    acc.ToppedBy parent.id ∧
      acc.members.toList.Perm (head.members.toList ++ own.members.toList) := by
  obtain ⟨htop, -, hmembers⟩ := foldHead_eq_ok h
  have hperm : acc.members.toList.Perm (head.members.toList ++ own.members.toList) := by
    rw [hmembers, hown.top]
    exact joinMembers_perm hhead hown.once
  have hzero : head.members.toList.count parent.id = 0 :=
    List.count_eq_zero.mpr fun hmem => hhead (Array.mem_toList_iff.mp hmem)
  refine ⟨⟨htop.trans hown.top, ?_⟩, hperm⟩
  rw [hperm.count_eq, List.count_append, hzero, hown.once]

theorem mem_foldHead {own head acc : Panel} {x : OpId}
    (h : (foldHead parent declared forest rules own head).result = .ok acc)
    (hown : own.ToppedBy parent.id) (hhead : parent.id ∉ head.members) :
    x ∈ acc.members ↔ x ∈ head.members ∨ x ∈ own.members := by
  obtain ⟨-, hperm⟩ := foldHead_members h hown hhead
  rw [← Array.mem_toList_iff, hperm.mem_iff, List.mem_append, Array.mem_toList_iff,
    Array.mem_toList_iff]

theorem foldHeads_members {own gathered : Panel} {heads : List Panel}
    (h : foldHeads parent declared forest rules own heads = .ok gathered)
    (hown : own.ToppedBy parent.id) (hheads : ∀ head ∈ heads, parent.id ∉ head.members) :
    gathered.ToppedBy parent.id ∧
      gathered.members.toList.Perm (membersOf heads ++ own.members.toList) := by
  induction heads generalizing own with
  | nil =>
    cases h
    exact ⟨hown, List.Perm.refl _⟩
  | cons head heads ih =>
    obtain ⟨acc, hacc, h⟩ := foldHeads_cons_eq_ok.mp h
    obtain ⟨haccTop, hperm⟩ := foldHead_members hacc hown (hheads head (by simp))
    obtain ⟨htop, hgathered⟩ := ih h haccTop fun p hp => hheads p (by simp [hp])
    refine ⟨htop, hgathered.trans ((hperm.append_left _).trans ?_)⟩
    rw [membersOf_cons, List.append_assoc]
    exact List.perm_append_comm_assoc _ _ _

/-- Heads rooted at children of the parent make one panel rooted at the parent. -/
theorem foldHeads_rooted {own gathered : Panel} {heads : List Panel}
    (h : foldHeads parent declared forest rules own heads = .ok gathered)
    (hown : own.ToppedBy parent.id) (hrooted : own.Rooted forest)
    (hheads : ∀ head ∈ heads, parent.id ∉ head.members ∧ head.Rooted forest ∧
      forest.parent? head.top = some parent.id) : gathered.Rooted forest := by
  induction heads generalizing own with
  | nil =>
    cases h
    exact hrooted
  | cons head heads ih =>
    obtain ⟨acc, hacc, h⟩ := foldHeads_cons_eq_ok.mp h
    obtain ⟨hhead, hheadRooted, hparent⟩ := hheads head (by simp)
    obtain ⟨haccTop, -⟩ := foldHead_members hacc hown hhead
    have hmem (x : OpId) : x ∈ acc.members ↔ x ∈ head.members ∨ x ∈ own.members :=
      mem_foldHead hacc hown hhead
    have htop : parent.id ∈ own.members := hown.top ▸ hrooted.top_mem
    refine ih h haccTop ⟨?_, fun x hx hne => ?_⟩ fun p hp => hheads p (by simp [hp])
    · rw [haccTop.top, hmem]
      exact Or.inr htop
    · obtain hx | hx := (hmem x).mp hx
      · by_cases hxTop : x = head.top
        · exact ⟨parent.id, (hmem _).mpr (Or.inr htop), hxTop ▸ hparent⟩
        · obtain ⟨y, hy, hxy⟩ := hheadRooted.climb x hx hxTop
          exact ⟨y, (hmem y).mpr (Or.inl hy), hxy⟩
      · rw [haccTop.top, ← hown.top] at hne
        obtain ⟨y, hy, hxy⟩ := hrooted.climb x hx hne
        exact ⟨y, (hmem y).mpr (Or.inr hy), hxy⟩

theorem byTop_perm (panels : List Panel) : (byTop panels).Perm panels := List.mergeSort_perm _ _

theorem mem_byTop {p : Panel} {panels : List Panel} : p ∈ byTop panels ↔ p ∈ panels :=
  (byTop_perm panels).mem_iff

theorem le_top_trans (a b c : Panel) (hab : decide (a.top ≤ b.top)) (hbc : decide (b.top ≤ c.top)) :
    decide (a.top ≤ c.top) := by
  simp only [decide_eq_true_eq] at hab hbc ⊢
  exact Nat.le_trans hab hbc

theorem le_top_total (a b : Panel) : decide (a.top ≤ b.top) || decide (b.top ≤ a.top) := by
  simp only [Bool.or_eq_true, decide_eq_true_eq]
  exact Nat.le_total a.top b.top

theorem pairwise_byTop (panels : List Panel) :
    (byTop panels).Pairwise fun a b => a.top ≤ b.top :=
  (List.pairwise_mergeSort le_top_trans le_top_total panels).imp of_decide_eq_true

/-- A sort that is stable leaves elements in their order where it may leave each before each. -/
theorem filter_mergeSort {α : Type} {le : α → α → Bool} {keep : α → Bool}
    (htrans : ∀ a b c, le a b → le b c → le a c) (htotal : ∀ a b, le a b || le b a)
    (hkeep : ∀ a b, keep a → keep b → le a b) (l : List α) :
    (l.mergeSort le).filter keep = l.filter keep := by
  have hordered : (l.filter keep).Pairwise fun a b => le a b :=
    List.pairwise_of_forall_mem_list fun a ha b hb =>
      hkeep a b (List.mem_filter.mp ha).2 (List.mem_filter.mp hb).2
  have hsub := (List.sublist_mergeSort htrans htotal hordered List.filter_sublist).filter keep
  rw [List.filter_filter, show (fun a => keep a && keep a) = keep from
    funext fun a => Bool.and_self _] at hsub
  exact (hsub.eq_of_length ((List.mergeSort_perm l le).filter keep).length_eq.symm).symm

theorem orderedInsert_append {α : Type} {le : α → α → Prop} [DecidableRel le] {a : α}
    {before after : List α} (hbefore : ∀ b ∈ before, ¬ le a b) (hafter : ∀ b ∈ after, le a b) :
    (before ++ after).orderedInsert le a = before ++ a :: after := by
  induction before with
  | nil =>
    cases after with
    | nil => rfl
    | cons b after => exact List.orderedInsert_cons_of_le _ _ (hafter b List.mem_cons_self)
  | cons b before ih =>
    obtain ⟨hb, hbefore⟩ := List.forall_mem_cons.mp hbefore
    rw [List.cons_append, List.orderedInsert_of_not_le _ _ hb, ih hbefore, List.cons_append]

/-- A stable sort is the one by insertion, which is evaluated by its recursion over the list. -/
theorem mergeSort_eq_insertionSort {α : Type} {le : α → α → Bool}
    (htrans : ∀ a b c, le a b → le b c → le a c) (htotal : ∀ a b, le a b || le b a)
    (l : List α) : l.mergeSort le = l.insertionSort (le · ·) := by
  induction l with
  | nil => exact List.mergeSort_nil
  | cons a l ih =>
    obtain ⟨before, after, hsorted, hl, hbefore⟩ := List.mergeSort_cons htrans htotal a l
    have hordered := List.pairwise_mergeSort htrans htotal (a :: l)
    rw [hsorted] at hordered
    obtain ⟨-, hafter, -⟩ := List.pairwise_append.mp hordered
    rw [hsorted, List.insertionSort_cons, ← ih, hl,
      orderedInsert_append (by simpa using hbefore) (List.pairwise_cons.mp hafter).1]

theorem byTop_eq_insertionSort (panels : List Panel) :
    byTop panels = panels.insertionSort fun a b => decide (a.top ≤ b.top) :=
  mergeSort_eq_insertionSort le_top_trans le_top_total panels

theorem filter_byTop (panels : List Panel) (id : OpId) :
    (byTop panels).filter (·.top = id) = panels.filter (·.top = id) := by
  refine filter_mergeSort le_top_trans le_top_total (fun a b ha hb => ?_) panels
  simp only [decide_eq_true_eq] at ha hb ⊢
  exact Nat.le_of_eq (ha.trans hb.symm)

theorem byTop_eq_of_perm {xs ys : List Panel} (h : xs.Perm ys)
    (hinj : ∀ a ∈ xs, ∀ b ∈ xs, a.top = b.top → a = b) : byTop xs = byTop ys := by
  refine List.Perm.eq_of_pairwise (fun a b ha hb hab hba => ?_) (pairwise_byTop xs)
    (pairwise_byTop ys) ((byTop_perm xs).trans (h.trans (byTop_perm ys).symm))
  exact hinj a (mem_byTop.mp ha) b (h.mem_iff.mpr (mem_byTop.mp hb)) (Nat.le_antisymm hab hba)

theorem byTop_filter_eq_of_perm {xs ys : List Panel} (h : xs.Perm ys)
    (hinj : ∀ a ∈ xs, ∀ b ∈ xs, a.top = b.top → a = b) (keep : Panel → Bool) :
    byTop (xs.filter keep) = byTop (ys.filter keep) := by
  refine byTop_eq_of_perm (h.filter keep) fun a ha b hb => ?_
  exact hinj a (List.mem_of_mem_filter ha) b (List.mem_of_mem_filter hb)

theorem orphans_append_joining_perm (rules : Rules) (wanted : Option Chart) (heads : List Panel) :
    (byTop (orphans rules wanted heads) ++ byTop (joining rules wanted heads)).Perm heads := by
  refine ((byTop_perm _).append (byTop_perm _)).trans ?_
  have hjoining : joining rules wanted heads =
      heads.filter fun head => !(head.objection? rules wanted).isSome := by
    simp [joining]
  rw [hjoining]
  exact List.filter_append_perm _ heads

end ChartFold.Panel
