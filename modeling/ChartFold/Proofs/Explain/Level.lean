import ChartFold.Proofs.Explain.Partition
import ChartFold.Proofs.Panel.Family

/-! One level of the recursion with all that goes into it: the lists that the children left, what
the operation starts with, and the panel that it gathers. -/
namespace ChartFold.Forest
open Panel
variable {f : Forest} {rules : Rules} {res : OpId → Nat → Explaining (List Panel)}
  {op : Operation} {d : Nat} {list : List Panel} {lists : List (List Panel)} {profile : Profile}
  {own gathered : Panel}

def folded (rules : Rules) (profile : Profile) (lists : List (List Panel)) : List Panel :=
  byTop (joining rules profile.chart (lists.filterMap List.getLast?))

def passed (rules : Rules) (profile : Profile) (lists : List (List Panel)) : List Panel :=
  lists.flatMap List.dropLast ++
    byTop (orphans rules profile.chart (lists.filterMap List.getLast?))

/-- The operation `op`, at depth `d`, makes `list` of the lists of its children. -/
structure Level (f : Forest) (rules : Rules) (res : OpId → Nat → Explaining (List Panel))
    (op : Operation) (d : Nat) (list : List Panel) (lists : List (List Panel)) (profile : Profile)
    (own gathered : Panel) : Prop where
  found : f.get? op.id = some op
  children : List.Forall₂ (fun c l => (res c (d + 1)).result = .ok l) op.children lists
  known : rules.profile? op.kind = some profile
  shapes : (checkShapes profile op f rules).result = .ok ()
  starts : (start op d rules).result = .ok own
  gathers : foldHeads op profile.chart f rules own (folded rules profile lists) = .ok gathered
  leaves : list = passed rules profile lists ++ [gathered]

theorem Recursion.eq_ok_iff (hres : f.Recursion rules res) (hop : f.get? op.id = some op) :
    (res op.id d).result = .ok list ↔
      ∃ lists profile own gathered, f.Level rules res op d list lists profile own gathered := by
  rw [hres op.id op d hop, explainBy_eq_ok]
  constructor
  · intro ⟨lists, hlists, profile, own, gathered, hprofile, hshapes, hown, hfold, hlist⟩
    exact ⟨lists, profile, own, gathered, hop, hlists, hprofile, hshapes, hown, hfold, hlist⟩
  · intro ⟨lists, profile, own, gathered, hlevel⟩
    exact ⟨lists, hlevel.children, profile, own, gathered, hlevel.known, hlevel.shapes,
      hlevel.starts, hlevel.gathers, hlevel.leaves⟩

section Lists
variable {R : Panel → Panel → Prop} {more : List (List Panel)}

theorem folded_forall₂ (rules : Rules) (profile : Profile)
    (h : List.Forall₂ (List.Forall₂ R) lists more) (htop : ∀ p q, R p q → q.top = p.top)
    (hchart : ∀ p q, R p q → q.chart = p.chart) :
    List.Forall₂ R (folded rules profile lists) (folded rules profile more) :=
  byTop_forall₂ (joining_forall₂ (heads_forall₂ h) hchart) htop

theorem passed_forall₂ (rules : Rules) (profile : Profile)
    (h : List.Forall₂ (List.Forall₂ R) lists more) (htop : ∀ p q, R p q → q.top = p.top)
    (hchart : ∀ p q, R p q → q.chart = p.chart) :
    List.Forall₂ R (passed rules profile lists) (passed rules profile more) :=
  List.rel_append (carried_forall₂ h)
    (byTop_forall₂ (orphans_forall₂ (heads_forall₂ h) hchart) htop)

end Lists

theorem mem_folded {head : Panel} (hhead : head ∈ folded rules profile lists) :
    head ∈ lists.filterMap List.getLast? := List.mem_of_mem_filter (mem_byTop.mp hhead)

theorem Left.exists_top (h : f.WellFormed) (hres : f.Recursion rules res) {p : OpId}
    {children : List OpId} (hleft : f.Left res p d children lists) {head : Panel}
    (hhead : head ∈ lists.filterMap List.getLast?) : ∃ child, f.get? head.top = some child := by
  have hparent := (hleft.of_head h hres hhead).1
  exact lt_size_iff.mp (h.lt_of_mem_children (h.mem_children.mpr hparent))

namespace Level

theorem result_eq (hlevel : f.Level rules res op d list lists profile own gathered)
    (hres : f.Recursion rules res) : (res op.id d).result = .ok list :=
  (hres.eq_ok_iff hlevel.found).mpr ⟨lists, profile, own, gathered, hlevel⟩

theorem left (hlevel : f.Level rules res op d list lists profile own gathered)
    (h : f.WellFormed) : f.Left res op.id d op.children lists :=
  h.left hlevel.found hlevel.children

theorem exists_top (hlevel : f.Level rules res op d list lists profile own gathered)
    (h : f.WellFormed) (hres : f.Recursion rules res) :
    ∀ head ∈ folded rules profile lists, ∃ child, f.get? head.top = some child :=
  fun _ hhead => (hlevel.left h).exists_top h hres (mem_folded hhead)

theorem fresh (hlevel : f.Level rules res op d list lists profile own gathered)
    (h : f.WellFormed) (hres : f.Recursion rules res) :
    ∀ head ∈ folded rules profile lists, op.id ∉ head.members :=
  fun _ hhead => ((hlevel.left h).of_head h hres (mem_folded hhead)).2.1

theorem id_not_mem (hlevel : f.Level rules res op d list lists profile own gathered)
    (h : f.WellFormed) (hres : f.Recursion rules res) :
    op.id ∉ membersOf (folded rules profile lists) := by
  intro hmem
  obtain ⟨head, hhead, hin⟩ := mem_membersOf.mp hmem
  exact hlevel.fresh h hres head hhead hin

theorem own_eq (hlevel : f.Level rules res op d list lists profile own gathered) :
    own = (blank op.id d).redraw (Look.start profile op.toFlow) := by
  obtain ⟨profile', hprofile, rfl⟩ := start_eq_ok_iff.mp hlevel.starts
  obtain rfl := Option.some.inj (hlevel.known.symm.trans hprofile)
  rfl

theorem members (hlevel : f.Level rules res op d list lists profile own gathered)
    (h : f.WellFormed) (hres : f.Recursion rules res) :
    gathered.ToppedBy op.id ∧
      gathered.members.toList.Perm (membersOf (folded rules profile lists) ++ [op.id]) := by
  obtain ⟨htop, hmembers⟩ := start_toppedBy hlevel.starts
  have hgathered := foldHeads_members hlevel.gathers htop (hlevel.fresh h hres)
  rwa [hmembers] at hgathered

theorem nodup (hlevel : f.Level rules res op d list lists profile own gathered)
    (h : f.WellFormed) (hres : f.Recursion rules res) :
    (membersOf (passed rules profile lists) ++
      (membersOf (folded rules profile lists) ++ [op.id])).Nodup := by
  have hnodup := (hres.account h (lt_size_of_get? hlevel.found) (hlevel.result_eq hres)).nodup
  rw [hlevel.leaves, membersOf_append, membersOf_singleton] at hnodup
  exact ((hlevel.members h hres).2.append_left _).nodup_iff.mp hnodup

end Level

end ChartFold.Forest
