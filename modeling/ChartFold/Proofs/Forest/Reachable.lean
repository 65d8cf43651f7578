import ChartFold.Forest.Basic
import ChartFold.Proofs.Except
import Mathlib.Data.List.Perm.Subperm

/-! Forests that grow from nothing by calls that may fail. Parent links and child lists are two
copies of one relation, which has no cycle; every call keeps them so. -/
namespace ChartFold.Forest
variable {f g : Forest}

inductive Call where
  | add (name : String) (parent : Option OpId) (kind : OpKind) (flow : Flow)
  | attach (child parent : OpId)
deriving DecidableEq

def answer (f : Forest) : Call → Except GrowFailure Forest
  | .add name parent kind flow => (f.add name parent kind flow).map Prod.fst
  | .attach child parent => f.attach child parent

def perform (f : Forest) (call : Call) : Forest :=
  match f.answer call with
  | .ok g => g
  | .error failure => failure.forest

def replay (f : Forest) (calls : List Call) : Forest := calls.foldl perform f

def Reachable (f : Forest) : Prop := ∃ calls, f = empty.replay calls

/-- `x` is reached from `root` by `d` steps from an operation to one of its children. -/
inductive Below (f : Forest) (root : OpId) : OpId → Nat → Prop where
  | refl : Below f root root 0
  | child {p c : OpId} {d : Nat} : Below f root p d → f.parent? c = some p → Below f root c (d + 1)

def Numbered (f : Forest) : Prop := ∀ i op, f.get? i = some op → op.id = i

structure WellFormed (f : Forest) : Prop where
  numbered : f.Numbered
  mem_children : ∀ {c p}, c ∈ f.children p ↔ f.parent? c = some p
  nodup_children : ∀ p, (f.children p).Nodup
  /-- Links upwards climb, so they never come back. -/
  grounded : ∃ height : OpId → Nat, ∀ {c p}, f.parent? c = some p → height c < height p

/-! Views of the operations that grow a forest -/

theorem get?_size (f : Forest) : f.get? f.size = none := by
  simp [get?, size]

theorem lt_size_iff {i : OpId} : i < f.size ↔ ∃ op, f.get? i = some op := by
  rw [← Option.isSome_iff_exists, get?, size]
  simp

theorem lt_size_of_get? {i : OpId} {op : Operation} (h : f.get? i = some op) : i < f.size :=
  lt_size_iff.mpr ⟨op, h⟩

theorem get_eq_ok_iff {i : OpId} {op : Operation} : f.get i = .ok op ↔ f.get? i = some op := by
  unfold get
  cases f.get? i <;> simp

theorem check_of_lt {i : OpId} (h : i < f.size) : f.check i = .ok () := if_pos h

theorem check_of_not_lt {i : OpId} (h : ¬ i < f.size) :
    f.check i = .error ⟨.refused (.unknown i), f⟩ := if_neg h

theorem parent?_of_get? {i : OpId} {op : Operation} (h : f.get? i = some op) :
    f.parent? i = op.parent := by
  simp [parent?, h]

theorem children_of_get? {i : OpId} {op : Operation} (h : f.get? i = some op) :
    f.children i = op.children := by
  simp [children, h]

theorem get?_push (f : Forest) (name : String) (parent : Option OpId) (kind : OpKind) (flow : Flow)
    (i : OpId) : (f.push name parent kind flow).get? i = if i = f.size then
      some { flow with id := f.size, name, kind, parent } else f.get? i := by
  simp only [push, get?, size, Array.getElem?_push]
  rfl

theorem get?_appendChild (f : Forest) (p c i : OpId) : (f.appendChild p c).get? i =
    if i = p then (f.get? i).map fun op => { op with children := op.children ++ [c] }
    else f.get? i := by
  simp only [appendChild, get?, Array.getElem?_modify, eq_comm]

theorem get?_setParent (f : Forest) (c p i : OpId) : (f.setParent c p).get? i =
    if i = c then (f.get? i).map fun op => { op with parent := some p } else f.get? i := by
  simp only [setParent, get?, Array.getElem?_modify, eq_comm]

theorem parent?_push (f : Forest) (name : String) (parent : Option OpId) (kind : OpKind)
    (flow : Flow) (i : OpId) :
    (f.push name parent kind flow).parent? i = if i = f.size then parent else f.parent? i := by
  rw [parent?, get?_push]
  split <;> rfl

theorem children_push (f : Forest) (name : String) (parent : Option OpId) (kind : OpKind)
    (flow : Flow) (i : OpId) : (f.push name parent kind flow).children i = f.children i := by
  rw [children, get?_push]
  split
  · subst i
    simp [children, get?_size]
  · rfl

theorem parent?_appendChild (f : Forest) (p c i : OpId) :
    (f.appendChild p c).parent? i = f.parent? i := by
  rw [parent?, get?_appendChild]
  split
  · rw [parent?]
    cases f.get? i <;> rfl
  · rfl

theorem children_appendChild {p : OpId} (hp : p < f.size) (c i : OpId) :
    (f.appendChild p c).children i = if i = p then f.children p ++ [c] else f.children i := by
  obtain ⟨op, hop⟩ := lt_size_iff.mp hp
  rw [children, get?_appendChild]
  split
  · subst i
    simp [children, hop]
  · rfl

theorem parent?_setParent {c : OpId} (hc : c < f.size) (p i : OpId) :
    (f.setParent c p).parent? i = if i = c then some p else f.parent? i := by
  obtain ⟨op, hop⟩ := lt_size_iff.mp hc
  rw [parent?, get?_setParent]
  split
  · subst i
    simp [hop]
  · rfl

theorem children_setParent (f : Forest) (c p i : OpId) :
    (f.setParent c p).children i = f.children i := by
  rw [children, get?_setParent]
  split
  · rw [children]
    cases f.get? i <;> rfl
  · rfl

theorem Numbered.push (h : f.Numbered) (name : String) (parent : Option OpId) (kind : OpKind)
    (flow : Flow) : (f.push name parent kind flow).Numbered := by
  intro i op hop
  rw [get?_push] at hop
  split at hop
  · cases hop
    exact Eq.symm ‹_›
  · exact h i op hop

theorem Numbered.appendChild (h : f.Numbered) (p c : OpId) : (f.appendChild p c).Numbered := by
  intro i op hop
  rw [get?_appendChild] at hop
  split at hop
  · obtain ⟨old, hold, rfl⟩ := Option.map_eq_some_iff.mp hop
    exact h i old hold
  · exact h i op hop

theorem Numbered.setParent (h : f.Numbered) (c p : OpId) : (f.setParent c p).Numbered := by
  intro i op hop
  rw [get?_setParent] at hop
  split at hop
  · obtain ⟨old, hold, rfl⟩ := Option.map_eq_some_iff.mp hop
    exact h i old hold
  · exact h i op hop

/-! Steps below an operation -/

theorem Below.cons {a b x : OpId} {d : Nat} (hb : f.parent? b = some a) (h : f.Below b x d) :
    f.Below a x (d + 1) := by
  induction h with
  | refl => exact Below.refl.child hb
  | child _ hc ih => exact ih.child hc

theorem Below.trans {a b x : OpId} {m n : Nat} (hab : f.Below a b m) (hbx : f.Below b x n) :
    f.Below a x (m + n) := by
  induction hbx with
  | refl => exact hab
  | child _ hc ih => exact ih.child hc

theorem Below.total {a b x : OpId} {m n : Nat} (ha : f.Below a x m) (hb : f.Below b x n)
    (hmn : m ≤ n) : f.Below b a (n - m) := by
  induction ha generalizing n with
  | refl => exact hb
  | child _ hc ih =>
    cases hb with
    | refl => omega
    | child hb' hc' =>
      rw [hc] at hc'
      cases hc'
      have h := ih hb' (by omega)
      rwa [show _ + 1 - (_ + 1) = _ - _ from Nat.add_sub_add_right _ 1 _]

namespace WellFormed

theorem mem_of_parent? (h : f.WellFormed) {c p : OpId} (hc : f.parent? c = some p) :
    p < f.size := by
  have hmem := h.mem_children.mpr hc
  by_contra hp
  have hnone : f.get? p = none := by
    by_contra hne
    obtain ⟨op, hop⟩ := Option.ne_none_iff_exists'.mp hne
    exact hp (lt_size_of_get? hop)
  simp [children, hnone] at hmem

theorem lt_of_mem_children (h : f.WellFormed) {c p : OpId} (hc : c ∈ f.children p) :
    c < f.size := by
  have hp := h.mem_children.mp hc
  obtain ⟨op, hop, -⟩ := Option.bind_eq_some_iff.mp hp
  exact lt_size_of_get? hop

theorem exists_height (h : f.WellFormed) : ∃ height : OpId → Nat,
    ∀ {a x d}, f.Below a x d → height x + d ≤ height a := by
  obtain ⟨height, hheight⟩ := h.grounded
  refine ⟨height, fun hb => ?_⟩
  induction hb with
  | refl => exact Nat.le_refl _
  | child _ hc ih =>
    have := hheight hc
    omega

theorem eq_zero_of_below_self (h : f.WellFormed) {x : OpId} {d : Nat} (hb : f.Below x x d) :
    d = 0 := by
  obtain ⟨height, hheight⟩ := h.exists_height
  have := hheight hb
  omega

theorem below_unique (h : f.WellFormed) {a x : OpId} {m n : Nat} (hm : f.Below a x m)
    (hn : f.Below a x n) : m = n := by
  have hle {m n : Nat} (hm : f.Below a x m) (hn : f.Below a x n) : m ≤ n := by
    by_contra hlt
    have hzero := h.eq_zero_of_below_self (hn.total hm (by omega))
    omega
  exact Nat.le_antisymm (hle hm hn) (hle hn hm)

theorem not_below_of_below (h : f.WellFormed) {x y : OpId} {m n : Nat}
    (hxy : f.Below x y (m + 1)) : ¬ f.Below y x n := by
  intro hyx
  obtain ⟨height, hheight⟩ := h.exists_height
  have hdown := hheight hxy
  have hup := hheight hyx
  omega

theorem exists_path (h : f.WellFormed) {a x : OpId} {d : Nat} (hb : f.Below a x d)
    (hx : x < f.size) : ∃ path : List OpId, path.length = d + 1 ∧ path.Nodup ∧
      ∀ y ∈ path, y < f.size ∧ ∃ k, f.Below y x k := by
  induction hb with
  | refl => exact ⟨[a], rfl, by simp, by simpa using ⟨hx, 0, Below.refl⟩⟩
  | @child p c d _ hc ih =>
    obtain ⟨path, hlen, hnodup, hpath⟩ := ih (h.mem_of_parent? hc)
    refine ⟨c :: path, by simp [hlen], ?_, ?_⟩
    · refine List.nodup_cons.mpr ⟨fun hmem => ?_, hnodup⟩
      obtain ⟨-, k, hk⟩ := hpath c hmem
      have := h.eq_zero_of_below_self (hk.child hc)
      omega
    · intro y hy
      obtain rfl | hy := List.mem_cons.mp hy
      · exact ⟨hx, 0, Below.refl⟩
      · obtain ⟨hlt, k, hk⟩ := hpath y hy
        exact ⟨hlt, k + 1, hk.child hc⟩

theorem below_lt_size (h : f.WellFormed) {a x : OpId} {d : Nat} (hb : f.Below a x d)
    (hx : x < f.size) : d < f.size := by
  obtain ⟨path, hlen, hnodup, hpath⟩ := h.exists_path hb hx
  have hsub : path ⊆ List.range f.size := fun y hy => List.mem_range.mpr (hpath y hy).1
  have hle := (hnodup.subperm hsub).length_le
  rw [hlen, List.length_range] at hle
  omega

theorem induction_down (h : f.WellFormed) {motive : OpId → Prop}
    (step : ∀ x, (∀ y, f.parent? x = some y → motive y) → motive x) (x : OpId) : motive x := by
  have hbounded : ∀ m x, (∀ a k, f.Below a x k → k ≤ m) → motive x := by
    intro m
    induction m with
    | zero =>
      intro x hx
      refine step x fun y hy => ?_
      have := hx y 1 (Below.refl.child hy)
      omega
    | succ m ih =>
      intro x hx
      refine step x fun y hy => ih y fun a k hk => ?_
      have := hx a (k + 1) (hk.child hy)
      omega
  refine step x fun y hy => hbounded f.size y fun a k hk => ?_
  exact Nat.le_of_lt (h.below_lt_size hk (h.mem_of_parent? hy))

end WellFormed

theorem mem_lineage_go {a : OpId} (n : Nat) (x : OpId) :
    a ∈ lineage.go f n x ↔ ∃ d < n, f.Below a x d := by
  induction n generalizing x with
  | zero => simp [lineage.go]
  | succ n ih =>
    rw [lineage.go, List.mem_cons]
    constructor
    · intro hmem
      obtain rfl | hmem := hmem
      · exact ⟨0, n.succ_pos, Below.refl⟩
      · split at hmem
        · rename_i p hp
          obtain ⟨d, hd, hb⟩ := (ih p).mp hmem
          exact ⟨d + 1, by omega, hb.child hp⟩
        · simp at hmem
    · intro ⟨d, hd, hb⟩
      cases hb with
      | refl => exact Or.inl rfl
      | @child p _ d hb hp =>
        rw [hp]
        exact Or.inr ((ih p).mpr ⟨d, by omega, hb⟩)

/-- The lineage of an operation is long enough to hold all that lie above it. -/
theorem WellFormed.mem_lineage (h : f.WellFormed) {a x : OpId} (hx : x < f.size) :
    a ∈ f.lineage x ↔ ∃ d, f.Below a x d := by
  rw [lineage, mem_lineage_go]
  constructor
  · intro ⟨d, _, hb⟩
    exact ⟨d, hb⟩
  · intro ⟨d, hb⟩
    exact ⟨d, h.below_lt_size hb hx, hb⟩

/-! Growing keeps a forest well formed -/

/-- A new link from a root `c` to some `p` that does not lie below it. -/
theorem WellFormed.link (h : f.WellFormed) {c p : OpId} (hroot : f.parent? c = none)
    (hcp : ∀ d, ¬ f.Below c p d) (hnumbered : g.Numbered)
    (hparent : ∀ i, g.parent? i = if i = c then some p else f.parent? i)
    (hchildren : ∀ i, g.children i = if i = p then f.children p ++ [c] else f.children i) :
    g.WellFormed := by
  have hc (i : OpId) : c ∉ f.children i := by
    intro hmem
    simp [h.mem_children.mp hmem] at hroot
  refine ⟨hnumbered, ?_, ?_, ?_⟩
  · intro i q
    rw [hchildren, hparent]
    by_cases hi : i = c <;> by_cases hq : q = p
    · simp [hi, hq]
    · simp [hi, hq, hc, Ne.symm hq]
    · simp [hi, hq, h.mem_children]
    · simp [hi, hq, h.mem_children]
  · intro q
    rw [hchildren]
    split
    · refine List.nodup_append.mpr ⟨h.nodup_children p, by simp, ?_⟩
      intro i hi j hj hij
      rw [hij, List.mem_singleton.mp hj] at hi
      exact hc p hi
    · exact h.nodup_children q
  · obtain ⟨height, hheight⟩ := h.grounded
    -- all that lies above `p` is lifted over `c`
    classical
    refine ⟨fun i => if ∃ d, f.Below i p d then height i + height c + 1 else height i, ?_⟩
    intro i q hq
    dsimp only
    rw [hparent] at hq
    split at hq
    · cases hq
      subst i
      rw [if_neg (not_exists.mpr hcp), if_pos ⟨0, Below.refl⟩]
      omega
    · have hlt := hheight hq
      by_cases hi : ∃ d, f.Below i p d
      · obtain ⟨d, hd⟩ := hi
        rw [if_pos ⟨d, hd⟩, if_pos ⟨d + 1, hd.cons hq⟩]
        omega
      · rw [if_neg hi]
        split <;> omega

theorem WellFormed.empty : WellFormed empty := by
  refine ⟨?_, ?_, ?_, fun _ => 0, ?_⟩ <;> simp [Numbered, Forest.empty, get?, children, parent?]

theorem WellFormed.push_root (h : f.WellFormed) (name : String) (kind : OpKind) (flow : Flow) :
    (f.push name none kind flow).WellFormed := by
  have hparent (i : OpId) : (f.push name none kind flow).parent? i = f.parent? i := by
    rw [parent?_push]
    split
    · subst i
      simp [parent?, get?_size]
    · rfl
  refine ⟨h.numbered.push name none kind flow, ?_, ?_, ?_⟩
  · intro c p
    rw [children_push, hparent, h.mem_children]
  · intro p
    rw [children_push]
    exact h.nodup_children p
  · obtain ⟨height, hheight⟩ := h.grounded
    exact ⟨height, fun hc => hheight (hparent _ ▸ hc)⟩

theorem WellFormed.not_below_size (h : f.WellFormed) {x : OpId} (hx : x < f.size) (d : Nat) :
    ¬ f.Below f.size x d := by
  intro hb
  have hlt : f.size < f.size := by
    induction hb with
    | refl => exact hx
    | child _ hc ih => exact ih (h.mem_of_parent? hc)
  omega

theorem add_of_lt {name : String} {parent : Option OpId} (hp : ∀ p, parent = some p → p < f.size)
    (kind : OpKind) (flow : Flow) : f.add name parent kind flow = match f.freshName? name with
      | none => .error ⟨.overflow name, f⟩
      | some fresh => .ok (f.insert fresh parent kind flow, f.size) := by
  cases parent with
  | none => rfl
  | some p =>
    rw [add]
    simp only [check_of_lt (hp p rfl)]
    rfl

theorem add_of_freshName? {name fresh : String} {parent : Option OpId}
    (hp : ∀ p, parent = some p → p < f.size) (hfresh : f.freshName? name = some fresh)
    (kind : OpKind) (flow : Flow) :
    f.add name parent kind flow = .ok (f.insert fresh parent kind flow, f.size) := by
  rw [add_of_lt hp, hfresh]

theorem add_of_not_lt {p : OpId} (hp : ¬ p < f.size) (name : String) (kind : OpKind)
    (flow : Flow) : f.add name (some p) kind flow = .error ⟨.refused (.unknown p), f⟩ := by
  rw [add]
  simp only [check_of_not_lt hp]
  rfl

theorem add_eq_ok_iff {name : String} {parent : Option OpId} {kind : OpKind} {flow : Flow}
    {id : OpId} : f.add name parent kind flow = .ok (g, id) ↔
      (∀ p, parent = some p → p < f.size) ∧ id = f.size ∧
        ∃ fresh, f.freshName? name = some fresh ∧ g = f.insert fresh parent kind flow := by
  by_cases hp : ∀ p, parent = some p → p < f.size
  · rw [add_of_lt hp]
    cases f.freshName? name with
    | none => simp
    | some fresh =>
      constructor
      · intro h
        cases h
        exact ⟨hp, rfl, fresh, rfl, rfl⟩
      · intro ⟨_, hid, _, hfresh, hg⟩
        cases hfresh
        rw [hid, hg]
  · obtain ⟨p, rfl, hp'⟩ : ∃ p, parent = some p ∧ ¬ p < f.size := by simpa using hp
    simp [add_of_not_lt hp', hp']

theorem attach_of_not_lt {c p : OpId} (hc : ¬ c < f.size) :
    f.attach c p = .error ⟨.refused (.unknown c), f⟩ := by
  rw [attach, check_of_not_lt hc]
  rfl

theorem attach_of_parent_not_lt {c p : OpId} (hc : c < f.size) (hp : ¬ p < f.size) :
    f.attach c p = .error ⟨.refused (.unknown p), f⟩ := by
  rw [attach, check_of_lt hc, check_of_not_lt hp]
  rfl

theorem attach_of_lt {c p : OpId} (hc : c < f.size) (hp : p < f.size) :
    f.attach c p = match f.parent? c with
      | some q => .error ⟨.refused (.hasParent c q), f⟩
      | none => if c ∈ f.lineage p then .error ⟨.refused (.cycle c p), f⟩
        else .ok ((f.setParent c p).appendChild p c) := by
  rw [attach, check_of_lt hc, check_of_lt hp]
  cases f.parent? c with
  | some q => rfl
  | none => by_cases hcycle : c ∈ f.lineage p <;> simp only [hcycle] <;> rfl

theorem attach_eq_ok {c p : OpId} (hok : f.attach c p = .ok g) :
    c < f.size ∧ p < f.size ∧ f.parent? c = none ∧ c ∉ f.lineage p ∧
      g = (f.setParent c p).appendChild p c := by
  have hc : c < f.size := by
    by_contra hc
    rw [attach_of_not_lt hc] at hok
    cases hok
  have hp : p < f.size := by
    by_contra hp
    rw [attach_of_parent_not_lt hc hp] at hok
    cases hok
  rw [attach_of_lt hc hp] at hok
  split at hok
  · cases hok
  · split at hok
    · cases hok
    · cases hok
      exact ⟨hc, hp, ‹_›, ‹_›, rfl⟩

theorem WellFormed.insert (h : f.WellFormed) {parent : Option OpId}
    (hp : ∀ p, parent = some p → p < f.size) (name : String) (kind : OpKind) (flow : Flow) :
    (f.insert name parent kind flow).WellFormed := by
  cases parent with
  | none => exact h.push_root name kind flow
  | some p =>
    have hlt := hp p rfl
    have hgrown : p < (f.push name (some p) kind flow).size := by
      rw [size_push]
      exact Nat.lt_succ_of_lt hlt
    refine h.link (c := f.size) (p := p) (by simp [parent?, get?_size])
      (h.not_below_size hlt) ((h.numbered.push name _ kind flow).appendChild p _) ?_ ?_
    · intro i
      rw [Forest.insert, parent?_appendChild, parent?_push]
    · intro i
      rw [Forest.insert, children_appendChild hgrown, children_push, children_push]

theorem WellFormed.add (h : f.WellFormed) {name : String} {parent : Option OpId} {kind : OpKind}
    {flow : Flow} {id : OpId} (hadd : f.add name parent kind flow = .ok (g, id)) :
    g.WellFormed := by
  obtain ⟨hp, -, fresh, -, rfl⟩ := add_eq_ok_iff.mp hadd
  exact h.insert hp fresh kind flow

theorem WellFormed.attach (h : f.WellFormed) {c p : OpId} (hok : f.attach c p = .ok g) :
    g.WellFormed := by
  obtain ⟨hc, hp, hroot, hlineage, rfl⟩ := attach_eq_ok hok
  rw [h.mem_lineage hp, not_exists] at hlineage
  have hp' : p < (f.setParent c p).size := by rwa [size_setParent]
  refine h.link hroot hlineage ((h.numbered.setParent c p).appendChild p c) ?_ ?_
  · intro i
    rw [parent?_appendChild, parent?_setParent hc]
  · intro i
    rw [children_appendChild hp', children_setParent, children_setParent]

/-! Calls -/

theorem perform_of_ok {call : Call} (h : f.answer call = .ok g) : f.perform call = g := by
  rw [perform, h]

theorem forest_of_add_error {name : String} {parent : Option OpId} {kind : OpKind} {flow : Flow}
    {failure : GrowFailure} (h : f.add name parent kind flow = .error failure) :
    failure.forest = f := by
  by_cases hp : ∀ p, parent = some p → p < f.size
  · rw [add_of_lt hp] at h
    split at h
    · cases h
      rfl
    · cases h
  · obtain ⟨p, rfl, hp'⟩ : ∃ p, parent = some p ∧ ¬ p < f.size := by simpa using hp
    rw [add_of_not_lt hp'] at h
    cases h
    rfl

theorem forest_of_attach_error {c p : OpId} {failure : GrowFailure}
    (h : f.attach c p = .error failure) : failure.forest = f := by
  by_cases hc : c < f.size
  · by_cases hp : p < f.size
    · rw [attach_of_lt hc hp] at h
      split at h
      · cases h
        rfl
      · split at h <;> cases h
        rfl
    · rw [attach_of_parent_not_lt hc hp] at h
      cases h
      rfl
  · rw [attach_of_not_lt hc] at h
    cases h
    rfl

theorem forest_of_answer_error {call : Call} {failure : GrowFailure}
    (h : f.answer call = .error failure) : failure.forest = f := by
  cases call with
  | add name parent kind flow =>
    rw [answer] at h
    cases hadd : f.add name parent kind flow with
    | ok grown => rw [hadd] at h; cases h
    | error e =>
      rw [hadd] at h
      cases h
      exact forest_of_add_error hadd
  | attach c p => exact forest_of_attach_error h

theorem perform_of_error {call : Call} {failure : GrowFailure}
    (h : f.answer call = .error failure) : f.perform call = f := by
  rw [perform, h]
  exact forest_of_answer_error h

theorem perform_cases (f : Forest) (call : Call) :
    ((∃ failure, f.answer call = .error failure) ∧ f.perform call = f) ∨
    (∃ name parent kind flow id, call = .add name parent kind flow ∧
      f.add name parent kind flow = .ok (f.perform call, id)) ∨
    ∃ c p, call = .attach c p ∧ f.attach c p = .ok (f.perform call) := by
  cases h : f.answer call with
  | error failure => exact Or.inl ⟨⟨failure, rfl⟩, perform_of_error h⟩
  | ok g =>
    rw [perform_of_ok h]
    cases call with
    | add name parent kind flow =>
      obtain ⟨⟨g, id⟩, hadd, rfl⟩ := Except.map_eq_ok.mp h
      exact Or.inr (Or.inl ⟨name, parent, kind, flow, id, rfl, hadd⟩)
    | attach c p => exact Or.inr (Or.inr ⟨c, p, rfl, h⟩)

theorem WellFormed.perform (h : f.WellFormed) (call : Call) : (f.perform call).WellFormed := by
  obtain ⟨-, hsame⟩ | ⟨name, parent, kind, flow, id, -, hadd⟩ | ⟨c, p, -, hattach⟩ :=
    perform_cases f call
  · rwa [hsame]
  · exact h.add hadd
  · exact h.attach hattach

theorem replay_invariant {P : Forest → Prop} (step : ∀ f call, P f → P (f.perform call))
    (h : P f) (calls : List Call) : P (f.replay calls) := by
  induction calls generalizing f with
  | nil => exact h
  | cons call calls ih => exact ih (step f call h)

theorem WellFormed.replay (h : f.WellFormed) (calls : List Call) : (f.replay calls).WellFormed :=
  replay_invariant (fun _ call h => h.perform call) h calls

theorem Reachable.wellFormed (h : f.Reachable) : f.WellFormed := by
  obtain ⟨calls, rfl⟩ := h
  exact WellFormed.empty.replay calls

end ChartFold.Forest
