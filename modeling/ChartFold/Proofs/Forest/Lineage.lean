import ChartFold.Proofs.Forest.Reachable
import Mathlib.Data.List.Nodup

/-! The shape of a forest that has grown by calls. Parent links and child lists say the same, and
the links upwards lead from every operation to a root, so the search of a lineage is over before its
bound is reached. A call that fails is one that leaves no trace. -/
namespace ChartFold.Forest
variable {f g : Forest} {x root : OpId} {d : Nat}

/-! Climbing to the root -/

theorem WellFormed.exists_root (h : f.WellFormed) (x : OpId) :
    ∃ root d, f.Below root x d ∧ f.parent? root = none := by
  refine h.induction_down (motive := fun x => ∃ root d, f.Below root x d ∧ f.parent? root = none)
    ?_ x
  intro x ih
  cases hx : f.parent? x with
  | none => exact ⟨x, 0, Below.refl, hx⟩
  | some p =>
    obtain ⟨root, d, hb, hroot⟩ := ih p hx
    exact ⟨root, d + 1, hb.child hx, hroot⟩

/-- The operations met on the way from `x` up to `root`, both included, link by link. -/
structure Climbs (f : Forest) (x root : OpId) (way : List OpId) : Prop where
  starts : way.head? = some x
  links : way.IsChain fun a b => f.parent? a = some b
  ends : way.getLast? = some root

theorem climbs_refl (f : Forest) (root : OpId) : f.Climbs root root [root] :=
  ⟨rfl, List.IsChain.singleton _, rfl⟩

theorem Climbs.cons {p : OpId} {way : List OpId} (h : f.Climbs p root way)
    (hx : f.parent? x = some p) : f.Climbs x root (x :: way) := by
  obtain ⟨hstarts, hlinks, hends⟩ := h
  cases way with
  | nil => cases hstarts
  | cons q way =>
    cases hstarts
    exact ⟨rfl, List.isChain_cons_cons.mpr ⟨hx, hlinks⟩, hends⟩

/-- With more rounds than there are links upwards, the search ends at the root. -/
theorem Below.climbs_go (hb : f.Below root x d) (hroot : f.parent? root = none) {n : Nat}
    (hd : d < n) : (lineage.go f n x).length = d + 1 ∧ f.Climbs x root (lineage.go f n x) := by
  induction n generalizing x d with
  | zero => exact absurd hd (Nat.not_lt_zero d)
  | succ n ih =>
    rw [lineage.go]
    cases hb with
    | refl =>
      rw [hroot]
      exact ⟨rfl, climbs_refl f root⟩
    | child hp hx =>
      rw [hx]
      obtain ⟨hlength, hclimbs⟩ := ih hp (by omega)
      exact ⟨congrArg Nat.succ hlength, hclimbs.cons hx⟩

/-! Calls that fail -/

theorem size_add {name : String} {parent : Option OpId} {kind : OpKind} {flow : Flow} {id : OpId}
    (h : f.add name parent kind flow = .ok (g, id)) : g.size = f.size + 1 := by
  obtain ⟨-, -, fresh, -, rfl⟩ := add_eq_ok_iff.mp h
  exact size_insert f fresh parent kind flow

theorem ne_of_answer_ok {call : Call} (h : f.answer call = .ok g) : g ≠ f := by
  intro hsame
  subst hsame
  cases call with
  | add name parent kind flow =>
    obtain ⟨⟨g', id⟩, hadd, rfl⟩ := Except.map_eq_ok.mp h
    exact absurd (size_add hadd) (Nat.ne_of_lt (Nat.lt_succ_self _))
  | attach c p =>
    obtain ⟨hc, -, hroot, -, hg⟩ := attach_eq_ok h
    have hparent : g.parent? c = some p := by
      rw [hg, parent?_appendChild, parent?_setParent hc, if_pos rfl]
    rw [hroot] at hparent
    cases hparent

theorem perform_eq_self_iff {call : Call} :
    f.perform call = f ↔ ∃ failure, f.answer call = .error failure := by
  cases h : f.answer call with
  | ok g => simp [perform_of_ok h, ne_of_answer_ok h]
  | error failure => simp [perform_of_error h]

/-- After any calls, failing ones included, an operation bears the number of its place, and its
parent and children are operations of the forest. A child is listed once by its parent and by no
other operation. From every operation the links lead up to a root in fewer steps than there are
operations, and the lineage is the whole way. A call that fails leaves the forest as it was, names
included; every other call changes it. -/
theorem reachable_forest (hf : f.Reachable) :
    (∀ i op, f.get? i = some op → op.id = i ∧ (∀ p, op.parent = some p → p < f.size) ∧
      ∀ c ∈ op.children, c < f.size) ∧
    (∀ p c, (f.children p).count c = if f.parent? c = some p then 1 else 0) ∧
    (∀ x < f.size, ∃ root d, f.Below root x d ∧ f.parent? root = none ∧ d < f.size ∧
      (f.lineage x).length = d + 1 ∧ f.Climbs x root (f.lineage x)) ∧
    ∀ call, f.perform call = f ↔ ∃ e, f.answer call = .error e := by
  have h := hf.wellFormed
  refine ⟨fun i op hop => ⟨h.numbered i op hop, fun p hp => ?_, fun c hc => ?_⟩, fun p c => ?_,
    fun x hx => ?_, fun _ => perform_eq_self_iff⟩
  · exact h.mem_of_parent? ((parent?_of_get? hop).trans hp)
  · exact h.lt_of_mem_children (children_of_get? hop ▸ hc)
  · by_cases hc : f.parent? c = some p
    · rw [if_pos hc]
      exact List.count_eq_one_of_mem (h.nodup_children p) (h.mem_children.mpr hc)
    · rw [if_neg hc]
      exact List.count_eq_zero.mpr fun hmem => hc (h.mem_children.mp hmem)
  · obtain ⟨root, d, hb, hroot⟩ := h.exists_root x
    have hd := h.below_lt_size hb hx
    obtain ⟨hlength, hclimbs⟩ := hb.climbs_go hroot hd
    exact ⟨root, d, hb, hroot, hd, hlength, hclimbs⟩

/-! Two numbers and their sum, built from the numbers upwards; two of the calls fail -/

def looseCalls : List Call := [
  .add "a" none "scalar" { outputs := ["a"] },
  .add "b" none "scalar" { outputs := ["b"] },
  .add "sum" none "scalar_sum" { inputs := ["a", "b"], outputs := ["s"] }]

def graftCalls : List Call := looseCalls ++ [.attach 1 2, .attach 2 1, .attach 0 2, .attach 0 1]

def grafted : Forest := empty.replay graftCalls

theorem reachable_grafted : grafted.Reachable := ⟨graftCalls, rfl⟩

theorem reachable_forest_grafted :
    (grafted.children 2).count 0 = 1 ∧ (grafted.children 2).count 2 = 0 ∧
    (∃ root d, grafted.Below root 0 d ∧ grafted.parent? root = none ∧ d < 3 ∧
      grafted.Climbs 0 root (grafted.lineage 0)) ∧
    grafted.perform (.attach 2 1) = grafted := by
  obtain ⟨-, hcount, hlineage, hfail⟩ := reachable_forest reachable_grafted
  obtain ⟨root, d, hb, hroot, hd, -, hclimbs⟩ := hlineage 0 (by decide)
  exact ⟨hcount 2 0, hcount 2 2, ⟨root, d, hb, hroot, hd, hclimbs⟩, (hfail _).mpr ⟨_, rfl⟩⟩

end ChartFold.Forest
