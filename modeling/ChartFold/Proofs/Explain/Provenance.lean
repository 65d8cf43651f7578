import ChartFold.Proofs.Explain.Cut
import ChartFold.Proofs.Explain.Heads
import ChartFold.Proofs.Panel.Charts
import Mathlib.Data.Finset.Card
import Mathlib.Data.Finset.Dedup

/-! Where the charts of a tree come from. Each goes back to an operation in its panel that declares
a chart. Panels part only between two of them, so there are at most as many panels as operations
that declare one. -/
namespace ChartFold

namespace Panel

theorem length_le_filter_membersOf {panels : List Panel} {counts : OpId → Bool}
    (h : ∀ p ∈ panels, ∃ x ∈ p.members, counts x) :
    panels.length ≤ ((membersOf panels).filter counts).length := by
  induction panels with
  | nil => exact Nat.zero_le _
  | cons p panels ih =>
    obtain ⟨⟨x, hx, hcounts⟩, h⟩ := List.forall_mem_cons.mp h
    have hmem : x ∈ p.members.toList.filter counts :=
      List.mem_filter.mpr ⟨Array.mem_toList_iff.mpr hx, hcounts⟩
    have hpos := List.length_pos_of_mem hmem
    have hrest := ih h
    rw [membersOf_cons, List.filter_append, List.length_append, List.length_cons]
    omega

end Panel

namespace Forest
open Panel
variable {f : Forest} {rules : Rules} {res : OpId → Nat → Explaining (List Panel)}
  {op : Operation} {id : OpId} {d : Nat} {list : List Panel} {profile : Profile} {p q : Panel}
  {c : Chart}

def Declares (f : Forest) (rules : Rules) (p : Panel) : Prop :=
  ∃ x ∈ p.members, (f.wanted? rules x).isSome

/-- The chart is declared by a member, or an allowed rule makes it of some chart and one that a
member declares. -/
def Accounts (f : Forest) (rules : Rules) (p : Panel) (c : Chart) : Prop :=
  (∃ x ∈ p.members, f.wanted? rules x = some c) ∨
  ∃ own declared rule, rules.compositions.get? own declared = some rule ∧ rule.allowed ∧
    rule.resultChart = c ∧ ∃ x ∈ p.members, f.wanted? rules x = some declared

theorem Accounts.mono (h : f.Accounts rules p c) (hpq : ∀ x ∈ p.members, x ∈ q.members) :
    f.Accounts rules q c := by
  obtain ⟨x, hx, hc⟩ | ⟨own, declared, rule, hrule, hallowed, hc, x, hx, hdeclared⟩ := h
  · exact Or.inl ⟨x, hpq x hx, hc⟩
  · exact Or.inr ⟨own, declared, rule, hrule, hallowed, hc, x, hpq x hx, hdeclared⟩

theorem Accounts.declares (h : f.Accounts rules p c) : f.Declares rules p := by
  obtain ⟨x, hx, hc⟩ | ⟨_, declared, _, _, _, _, x, hx, hdeclared⟩ := h
  · exact ⟨x, hx, Option.isSome_of_eq_some hc⟩
  · exact ⟨x, hx, Option.isSome_of_eq_some hdeclared⟩

theorem Joins.accounts {own head extended : Panel}
    (hjoins : f.Joins rules op profile own head extended)
    (hown : ∀ c ∈ own.chart, f.Accounts rules own c)
    (hhead : ∀ c ∈ head.chart, f.Accounts rules head c) :
    ∀ c ∈ (extended.overlay own profile.chart).chart,
      f.Accounts rules (extended.overlay own profile.chart) c := by
  intro c hc
  have hmem {x : OpId} := hjoins.mem_members (x := x)
  have hop : op.id ∈ (extended.overlay own profile.chart).members :=
    hmem.mpr (Or.inr hjoins.toppedBy.mem)
  have hwanted := wanted?_of_get? hjoins.found hjoins.known
  obtain hextended | hacc := overlaidChart_eq_some hc
  · obtain ⟨profile', child, l, hprofile', hl, rfl⟩ := exists_look_of_extend hjoins.grown
    cases hjoins.known.symm.trans hprofile'
    obtain hkept | hadopted | ⟨chart, wanted, rule, hdeclared, hrule, hresult⟩ :=
      Look.chart_of_extend hl hextended
    · exact (hhead c hkept).mono fun x hx => hmem.mpr (Or.inl hx)
    · exact Or.inl ⟨op.id, hop, hwanted.trans hadopted⟩
    · obtain ⟨hget, hallowed⟩ := Option.filter_eq_some_iff.mp hrule
      exact Or.inr ⟨chart, wanted, rule, hget, hallowed, hresult, op.id, hop,
        hwanted.trans hdeclared⟩
  · exact (hown c hacc).mono fun x hx => hmem.mpr (Or.inr hx)

theorem Recursion.accounts (h : f.WellFormed) (hres : f.Recursion rules res) (hid : id < f.size)
    (hok : (res id d).result = .ok list) : ∀ p ∈ list, ∀ c ∈ p.chart, f.Accounts rules p c := by
  refine hres.forall_mem h ?_ (fun hjoins hown hhead => hjoins.accounts hown hhead) hid hok
  intro op profile own d hop hprofile hown c hc
  subst hown
  obtain ⟨hdeclared, -⟩ := Look.start_bound hc
  exact Or.inl ⟨op.id, by simp [redraw, blank], (wanted?_of_get? hop hprofile).trans hdeclared⟩

/-- Every panel that is carried along declares a chart, and so does the last one unless it is
alone. -/
theorem Recursion.declares (h : f.WellFormed) (hres : f.Recursion rules res) {carried : List Panel}
    {last : Panel} (hid : id < f.size) (hok : (res id d).result = .ok (carried ++ [last])) :
    (∀ p ∈ carried, f.Declares rules p) ∧ (carried ≠ [] → f.Declares rules last) := by
  refine h.induction (motive := fun id => ∀ d carried last,
    (res id d).result = .ok (carried ++ [last]) →
      (∀ p ∈ carried, f.Declares rules p) ∧ (carried ≠ [] → f.Declares rules last))
    ?_ hid d carried last hok
  intro id op hop ih d carried last hok
  have hmem : id ∈ last.members := (hres.account h (lt_size_of_get? hop) hok).mem_last
  obtain ⟨lists, gathered, hleft, hlist, -, hmembers⟩ :=
    hres.exists_gathered h (lt_size_of_get? hop) hok
  obtain ⟨rfl, hlast⟩ := List.append_inj' hlist rfl
  cases hlast
  -- a head is refused by an operation that declares a chart, so that the gathered panel does too
  have horphan : ∀ p ∈ byTop (orphans rules (f.wanted? rules id)
      (lists.filterMap List.getLast?)), f.Declares rules p ∧ f.Declares rules last := by
    intro p hp
    obtain ⟨hhead, chart, wanted, hchart, hwanted, -⟩ := mem_orphans.mp hp
    obtain ⟨hparent, -, l, hl, hlast⟩ := hleft.of_head h hres hhead
    have haccounts := hres.accounts h (h.lt_of_mem_children (h.mem_children.mpr hparent)) hl p
      (List.mem_of_getLast? hlast) chart hchart
    exact ⟨haccounts.declares, id, hmem, Option.isSome_of_eq_some hwanted⟩
  have hchild : ∀ p ∈ lists.flatMap List.dropLast, f.Declares rules p ∧ f.Declares rules last := by
    intro p hp
    obtain ⟨l, hl, hp⟩ := List.mem_flatMap.mp hp
    obtain ⟨c, hc, hparent, hchild⟩ := Except.exists_left hleft hl
    obtain ⟨earlier, head, hsame, -, hrefused, hjoins⟩ :=
      hres.carried_or_joined_of_child h hparent hok
    obtain rfl := Except.ok.inj (hchild.symm.trans hsame)
    rw [List.dropLast_concat] at hp
    obtain ⟨hearlier, hhead⟩ := ih c (children_of_get? hop ▸ hc) (d + 1) earlier head hchild
    refine ⟨hearlier p hp, ?_⟩
    by_cases hrefuse : head.Refused rules (f.wanted? rules id)
    · obtain ⟨_, wanted, _, hwanted, -⟩ := hrefuse
      exact ⟨id, hmem, Option.isSome_of_eq_some hwanted⟩
    · obtain ⟨x, hx, hdeclares⟩ := hhead (List.ne_nil_of_mem hp)
      exact ⟨x, hjoins hrefuse x hx, hdeclares⟩
  have hall : ∀ p ∈ lists.flatMap List.dropLast ++ byTop (orphans rules (f.wanted? rules id)
      (lists.filterMap List.getLast?)), f.Declares rules p ∧ f.Declares rules last := by
    intro p hp
    obtain hp | hp := List.mem_append.mp hp
    · exact hchild p hp
    · exact horphan p hp
  refine ⟨fun p hp => (hall p hp).1, fun hne => ?_⟩
  obtain ⟨p, hp⟩ := List.exists_mem_of_ne_nil _ hne
  exact (hall p hp).2

/-- The chart of every panel of a tree is declared by one of its members, or comes of a rule that
allows some chart in one that a member declares. There are no more panels than operations in the
tree that declare a chart, or one if there is none. -/
theorem explain_provenance (hf : f.Reachable) {root : OpId} {panels : List Panel}
    (hok : (f.explain rules root).result = .ok panels) :
    (∀ p ∈ panels, ∀ c, p.chart = some c → (∃ x ∈ p.members, f.wanted? rules x = some c) ∨
      ∃ own declared rule, rules.compositions.get? own declared = some rule ∧ rule.allowed ∧
        rule.resultChart = c ∧ ∃ x ∈ p.members, f.wanted? rules x = some declared) ∧
    ∃ declaring : Finset OpId,
      (∀ x, x ∈ declaring ↔ (∃ d, f.Below root x d) ∧ (f.wanted? rules x).isSome) ∧
      panels.length ≤ max 1 declaring.card := by
  have h := hf.wellFormed
  obtain ⟨res, hres⟩ := h.exists_recursion rules
  obtain ⟨hroot, list, hlist, rfl⟩ := (explain_eq_ok h hres).mp hok
  have haccount := hres.account h hroot hlist
  have hperm := byDepth_perm list
  refine ⟨fun p hp c hc => hres.accounts h hroot hlist p (hperm.mem_iff.mp hp) c hc, ?_⟩
  have hnodup := haccount.nodup.filter fun x => (f.wanted? rules x).isSome
  refine ⟨((membersOf list).filter fun x => (f.wanted? rules x).isSome).toFinset, fun x => ?_, ?_⟩
  · rw [List.mem_toFinset, List.mem_filter, haccount.mem_iff]
  · rw [List.toFinset_card_of_nodup hnodup, length_byDepth]
    obtain ⟨carried, last, rfl, -⟩ := haccount.head
    obtain ⟨hcarried, hlast⟩ := hres.declares h hroot hlist
    by_cases halone : carried = []
    · rw [halone]
      exact Nat.le_max_left 1 _
    · refine (length_le_filter_membersOf fun p hp => ?_).trans (Nat.le_max_right 1 _)
      obtain hp | hp := List.mem_append.mp hp
      · exact hcarried p hp
      · rw [List.mem_singleton.mp hp]
        exact hlast halone

theorem explain_provenance_sample : (sample.explain sampleRules 0).result = .ok samplePanels ∧
    ∃ declaring : Finset OpId, 2 ∈ declaring ∧ 0 ∈ declaring ∧ 1 ∉ declaring ∧
      samplePanels.length ≤ max 1 declaring.card := by
  obtain ⟨-, declaring, hdeclaring, hlength⟩ :=
    explain_provenance reachable_sample explain_sample
  have hnone : sample.wanted? sampleRules 1 = none := rfl
  refine ⟨explain_sample, declaring, (hdeclaring 2).mpr ⟨⟨1, Below.refl.child rfl⟩, rfl⟩,
    (hdeclaring 0).mpr ⟨⟨0, Below.refl⟩, rfl⟩, fun h => ?_, hlength⟩
  have hdeclares := ((hdeclaring 1).mp h).2
  rw [hnone] at hdeclares
  cases hdeclares

end Forest

end ChartFold
