import ChartFold.Proofs.Explain.Literal
import ChartFold.Proofs.Explain.Outcome
import Mathlib.Data.Set.Function

/-! Trees built in another order. The ids of a tree say in which order its operations were added,
and heads are folded in the order of the ids. It comes to the same wherever the heads that an
operation takes in agree with one another. -/
namespace ChartFold

namespace Forest
variable {f g : Forest} {root root' : OpId} {σ : OpId → OpId}

/-- `σ` takes the tree at `root`, one to one, to the tree at `root'` of another forest. The links,
the kinds and the flows of the operations are kept, but not the order of the ids or of the
children. -/
structure Renumbering (f g : Forest) (root root' : OpId) (σ : OpId → OpId) : Prop where
  bijOn : Set.BijOn σ {x | ∃ m, f.Below root x m} {y | ∃ n, g.Below root' y n}
  top : σ root = root'
  parent : ∀ {x p m}, f.Below root p m → f.parent? x = some p → g.parent? (σ x) = some (σ p)
  operation : ∀ {x m}, f.Below root x m →
    (g.get? (σ x)).map (fun op => (op.kind, op.toFlow)) =
      (f.get? x).map (fun op => (op.kind, op.toFlow))

namespace Renumbering

theorem below (h : f.Renumbering g root root' σ) {x : OpId} {m : Nat} (hx : f.Below root x m) :
    g.Below root' (σ x) m := by
  induction hx with
  | refl =>
    rw [h.top]
    exact Below.refl
  | child hp hc ih => exact ih.child (h.parent hp hc)

theorem exists_get? (h : f.Renumbering g root root' σ) {x : OpId} {m : Nat}
    (hx : f.Below root x m) {op : Operation} (hop : f.get? x = some op) :
    ∃ op', g.get? (σ x) = some op' ∧ op'.kind = op.kind ∧ op'.toFlow = op.toFlow := by
  have hsame := h.operation hx
  rw [hop, Option.map_some, Option.map_eq_some_iff] at hsame
  obtain ⟨op', hop', heq⟩ := hsame
  exact ⟨op', hop', congrArg Prod.fst heq, congrArg Prod.snd heq⟩

theorem profiled_iff (h : f.Renumbering g root root' σ) (rules : Rules) {x : OpId} {m : Nat}
    (hx : f.Below root x m) : g.Profiled rules (σ x) ↔ f.Profiled rules x := by
  have hprofiled (f : Forest) (x : OpId) : f.Profiled rules x ↔ ∃ kind flow profile,
      (f.get? x).map (fun op => (op.kind, op.toFlow)) = some (kind, flow) ∧
        rules.profile? kind = some profile := by
    simp only [Profiled, Option.map_eq_some_iff, Prod.mk.injEq]
    constructor
    · intro ⟨op, profile, hop, hprofile⟩
      exact ⟨op.kind, op.toFlow, profile, ⟨op, hop, rfl, rfl⟩, hprofile⟩
    · intro ⟨_, _, profile, ⟨op, hop, hkind, _⟩, hprofile⟩
      exact ⟨op, profile, hop, hkind ▸ hprofile⟩
  rw [hprofiled, hprofiled, h.operation hx]

theorem children_perm (h : f.Renumbering g root root' σ) (hf : f.WellFormed) (hg : g.WellFormed)
    {p : OpId} {m : Nat} (hp : f.Below root p m) :
    ((f.children p).map σ).Perm (g.children (σ p)) := by
  have hnodup : ((f.children p).map σ).Nodup := by
    refine List.Nodup.map_on (fun x hx y hy heq => ?_) (hf.nodup_children p)
    exact h.bijOn.injOn ⟨m + 1, hp.child (hf.mem_children.mp hx)⟩
      ⟨m + 1, hp.child (hf.mem_children.mp hy)⟩ heq
  refine (List.perm_ext_iff_of_nodup hnodup (hg.nodup_children (σ p))).mpr fun y => ?_
  rw [List.mem_map, hg.mem_children]
  constructor
  · intro ⟨x, hx, hy⟩
    rw [← hy]
    exact h.parent hp (hf.mem_children.mp hx)
  · intro hy
    obtain ⟨x, ⟨n, hx⟩, rfl⟩ := h.bijOn.surjOn ⟨m + 1, (h.below hp).child hy⟩
    refine ⟨x, ?_, rfl⟩
    cases hx with
    | refl =>
      -- the counterpart of the root lies below no operation of its tree
      have hloop := (h.below hp).child hy
      rw [h.top] at hloop
      have hzero := hg.eq_zero_of_below_self hloop
      omega
    | @child q _ _ hq hx =>
      have hqy := h.parent hq hx
      rw [hy] at hqy
      obtain rfl := h.bijOn.injOn ⟨m, hp⟩ ⟨_, hq⟩ (Option.some.inj hqy)
      exact hf.mem_children.mpr hx

end Renumbering

end Forest

namespace Panel
variable {σ : OpId → OpId} {xs ys : List Panel}

structure Counterpart (σ : OpId → OpId) (p q : Panel) : Prop where
  top : q.top = σ p.top
  members : q.members.toList.Perm (p.members.toList.map σ)
  chart : q.chart = p.chart
  encodings : q.encodings = p.encodings
  depth : q.depth = p.depth

theorem membersOf_counterpart (h : Paired (Counterpart σ) xs ys) :
    (membersOf ys).Perm ((membersOf xs).map σ) := by
  obtain ⟨zs, hzs, hperm⟩ := h
  refine (membersOf_perm hperm.symm).trans ?_
  clear hperm
  induction hzs with
  | nil => exact List.Perm.refl _
  | cons hpq _ ih =>
    rw [membersOf_cons, membersOf_cons, List.map_append]
    exact hpq.members.append ih

theorem depth_le_of_counterpart (h : Paired (Counterpart σ) xs ys) (n : Nat) :
    (∀ q ∈ ys, q.depth ≤ n) ↔ ∀ p ∈ xs, p.depth ≤ n := by
  obtain ⟨zs, hzs, hperm⟩ := h
  constructor
  · intro hall p hp
    obtain ⟨q, hq, hpq⟩ := Except.exists_right hzs hp
    rw [← hpq.depth]
    exact hall q (hperm.mem_iff.mp hq)
  · intro hall q hq
    obtain ⟨p, hp, hpq⟩ := Except.exists_left hzs (hperm.mem_iff.mpr hq)
    rw [hpq.depth]
    exact hall p hp

structure Like (R : Panel → Panel → Prop) (xs ys : List Panel) : Prop where
  carried : Paired R xs.dropLast ys.dropLast
  head : Option.Rel R xs.getLast? ys.getLast?

section Like
variable {R : Panel → Panel → Prop} {lists same more : List (List Panel)}

theorem Like.concat {p q : Panel} (h : Paired R xs ys) (hpq : R p q) :
    Like R (xs ++ [p]) (ys ++ [q]) := by
  constructor
  · rwa [List.dropLast_concat, List.dropLast_concat]
  · rw [List.getLast?_concat, List.getLast?_concat]
    exact Option.Rel.some hpq

theorem Like.paired (h : Like R xs ys) : Paired R xs ys := by
  have hcarried := h.carried
  have hhead := h.head
  cases hxs : xs.getLast? with
  | none =>
    rw [hxs] at hhead
    generalize hys : ys.getLast? = last at hhead
    cases hhead
    rw [List.getLast?_eq_none_iff.mp hxs, List.getLast?_eq_none_iff.mp hys]
    exact Paired.of_forall₂ List.Forall₂.nil
  | some p =>
    rw [hxs] at hhead
    generalize hys : ys.getLast? = last at hhead
    cases hhead with
    | some hpq =>
      obtain ⟨carried, rfl⟩ := List.getLast?_eq_some_iff.mp hxs
      obtain ⟨carried', rfl⟩ := List.getLast?_eq_some_iff.mp hys
      rw [List.dropLast_concat, List.dropLast_concat] at hcarried
      exact hcarried.append (Paired.of_forall₂ (List.Forall₂.cons hpq List.Forall₂.nil))

theorem heads_paired (h : List.Forall₂ (Like R) lists same) (hperm : same.Perm more) :
    Paired R (lists.filterMap List.getLast?) (more.filterMap List.getLast?) :=
  ⟨_, List.rel_filterMap (fun {_ _} hlike => hlike.head) h, hperm.filterMap _⟩

theorem carried_paired (h : List.Forall₂ (Like R) lists same) (hperm : same.Perm more) :
    Paired R (lists.flatMap List.dropLast) (more.flatMap List.dropLast) := by
  have hsame : Paired R (lists.flatMap List.dropLast) (same.flatMap List.dropLast) := by
    clear hperm
    induction h with
    | nil => exact Paired.of_forall₂ List.Forall₂.nil
    | cons hlike _ ih => exact hlike.carried.append ih
  exact hsame.of_perm (List.Perm.refl _) (hperm.flatMap_right _)

end Like

end Panel

namespace Forest
open Panel
variable {f g : Forest} {rules : Rules} {res more : OpId → Nat → Explaining (List Panel)}
  {root root' : OpId} {σ : OpId → OpId} {op op' : Operation} {d m : Nat} {list : List Panel}
  {lists lists' : List (List Panel)} {profile : Profile} {own gathered : Panel}

/-- A head that the tree of a child leaves, explained on its own, and that can be folded into `op`;
taken after it has been extended by `op`. -/
def JoinedBy (f : Forest) (rules : Rules) (op : Operation) (extended : Panel) : Prop :=
  ∃ c ∈ op.children, ∃ panels head, (f.explain rules c).result = .ok panels ∧ head ∈ panels ∧
    head.top = c ∧ (head.fits op rules).result = .ok true ∧
      (head.extend op f rules).result = .ok extended

/-- Any two heads that an operation of the tree takes in agree once they are extended by it. -/
def Agreeing (f : Forest) (rules : Rules) (root : OpId) : Prop :=
  ∀ p d op, f.Below root p d → f.get? p = some op →
    ∀ a b, f.JoinedBy rules op a → f.JoinedBy rules op b →
      Look.Agree (f.wanted? rules p) a.look b.look

theorem Level.exists_joined (hlevel : f.Level rules res op d list lists profile own gathered)
    (h : f.WellFormed) (hres : f.Recursion rules res) {head extended : Panel}
    (hhead : head ∈ folded rules profile lists)
    (hextended : (head.extend op f rules).result = .ok extended) :
    ∃ a, f.JoinedBy rules op a ∧ a.look = extended.look := by
  obtain ⟨child, hchild⟩ := hlevel.exists_top h hres head hhead
  obtain ⟨hparent, -, list, hlist, hlast⟩ := (hlevel.left h).of_head h hres (mem_folded hhead)
  have hmem : head.top ∈ op.children := by
    rw [← children_of_get? hlevel.found]
    exact h.mem_children.mpr hparent
  have hjoins : head.objection? rules profile.chart = none := by
    rw [folded, mem_byTop, joining, List.mem_filter] at hhead
    exact Option.isNone_iff_eq_none.mp hhead.2
  have hfits : (head.fits op rules).result = .ok true := by
    rw [result_fits hlevel.known, hjoins]
    rfl
  rw [← Nat.zero_add (d + 1)] at hlist
  obtain ⟨low, hlow, rfl⟩ := hres.exists_low h (lt_size_of_get? hchild) (d + 1) 0 hlist
  rw [List.getLast?_map, Option.map_eq_some_iff] at hlast
  obtain ⟨base, hbase, rfl⟩ := hlast
  have hakin : Akin f f (base.raise (d + 1)) base := ⟨rfl, child, child, hchild, hchild, rfl⟩
  refine ⟨_, ⟨base.top, hmem, byDepth low, base,
    (explain_eq_ok h hres).mpr ⟨lt_size_of_get? hchild, low, hlow, rfl⟩,
    (byDepth_perm low).mem_iff.mpr (List.mem_of_getLast? hbase), rfl,
    hfits, hakin.extend rfl rfl hextended⟩, rfl⟩

theorem Renumbering.exists_gathered (hσ : f.Renumbering g root root' σ) (h : f.WellFormed)
    (hres : f.Recursion rules res) (hagree : f.Agreeing rules root)
    (hlevel : f.Level rules res op d list lists profile own gathered)
    (hop : f.Below root op.id m) (hid : op'.id = σ op.id) (hkind : op'.kind = op.kind)
    (hflow : op'.toFlow = op.toFlow) {own' : Panel}
    (hstarts : (Panel.start op' d rules).result = .ok own')
    {heads' : List Panel} (hheads : Paired (Counterpart σ) (folded rules profile lists) heads')
    (hfresh : ∀ head ∈ heads', op'.id ∉ head.members) :
    ∃ gathered', foldHeads op' profile.chart g rules own' heads' = .ok gathered' ∧
      Counterpart σ gathered gathered' := by
  have hown : own' = (blank op'.id d).redraw (Look.start profile op'.toFlow) := by
    obtain ⟨profile', hprofile, rfl⟩ := start_eq_ok_iff.mp hstarts
    rw [hkind, hlevel.known] at hprofile
    cases hprofile
    rfl
  -- the heads are first brought into the order of their counterparts
  obtain ⟨turned, hperm, hpairs⟩ := hheads.exists_perm
  obtain ⟨middle, hmiddle, hmiddleLook⟩ := foldHeads_perm hperm
    (fun head hhead head' hhead' a b ha hb => by
      obtain ⟨a', hjoined, hlook⟩ := hlevel.exists_joined h hres hhead ha
      obtain ⟨b', hjoined', hlook'⟩ := hlevel.exists_joined h hres hhead' hb
      have hagrees := hagree op.id m op hop hlevel.found a' b' hjoined hjoined'
      rwa [wanted?_of_get? hlevel.found hlevel.known, hlook, hlook'] at hagrees) hlevel.gathers
  have htops : ∀ head ∈ turned, ∃ child, f.get? head.top = some child ∧
      f.Below root head.top (m + 1) := by
    intro head hhead
    have hhead := hperm.mem_iff.mpr hhead
    obtain ⟨child, hchild⟩ := hlevel.exists_top h hres head hhead
    have hparent := ((hlevel.left h).of_head h hres (mem_folded hhead)).1
    exact ⟨child, hchild, hop.child hparent⟩
  have hakin : List.Forall₂ (Akin f g) turned heads' := by
    refine ((List.forall₂_and_left _ _).mpr ⟨htops, hpairs⟩).imp fun p q hpq => ?_
    obtain ⟨⟨child, hchild, hbelow⟩, hcounter⟩ := hpq
    obtain ⟨child', hchild', -, hflow'⟩ := hσ.exists_get? hbelow hchild
    refine ⟨?_, child, child', hchild, hcounter.top ▸ hchild', hflow'⟩
    rw [look, look, hcounter.chart, hcounter.encodings]
  have hownLook : own'.look = own.look := by
    rw [hown, hlevel.own_eq, hflow]
    rfl
  obtain ⟨gathered', hfold, hlook⟩ := foldHeads_akin hakin hownLook hkind hflow hmiddle
  have hlook := Look.mk.inj (hlook.trans hmiddleLook)
  obtain ⟨htop, hmembers⟩ := hlevel.members h hres
  obtain ⟨htop', hmembers'⟩ := foldHeads_members hfold (start_toppedBy hstarts).1 hfresh
  rw [(start_toppedBy hstarts).2] at hmembers'
  refine ⟨gathered', hfold, ?_, ?_, hlook.1, hlook.2, ?_⟩
  · rw [htop'.top, htop.top, hid]
  · calc
      gathered'.members.toList.Perm (membersOf heads' ++ [op'.id]) := hmembers'
      List.Perm _ ((membersOf (folded rules profile lists) ++ [op.id]).map σ) := by
        rw [List.map_append, List.map_singleton, ← hid]
        exact (membersOf_counterpart hheads).append_right _
      List.Perm _ (gathered.members.toList.map σ) := (hmembers.map σ).symm
  · refine eq_of_forall_ge_iff fun n => ?_
    rw [foldHeads_depth_le hfold, foldHeads_depth_le hlevel.gathers, depth_le_of_counterpart hheads,
      hown, hlevel.own_eq]
    rfl

theorem Recursion.exists_counterparts (h : f.WellFormed) (hg : g.WellFormed)
    (hσ : f.Renumbering g root root' σ) (hagree : f.Agreeing rules root)
    (hres : f.Recursion rules res) (hmore : g.Recursion rules more) {id : OpId} (hlt : id < f.size)
    (hid : f.Below root id m) (hok : (res id d).result = .ok list) :
    ∃ list', (more (σ id) d).result = .ok list' ∧ Like (Counterpart σ) list list' := by
  refine h.induction (motive := fun id => ∀ m d list, f.Below root id m →
    (res id d).result = .ok list → ∃ list', (more (σ id) d).result = .ok list' ∧
      Like (Counterpart σ) list list') ?_ hlt m d list hid hok
  intro id op hop ih m d list hid hok
  obtain rfl := h.numbered id op hop
  obtain ⟨lists, profile, own, gathered, hlevel⟩ := (hres.eq_ok_iff hop).mp hok
  obtain ⟨op', hop', hkind, hflow⟩ := hσ.exists_get? hid hop
  have hid' := hg.numbered _ op' hop'
  have hparent : ∀ c ∈ op.children, f.Below root c (m + 1) := by
    intro c hc
    rw [← children_of_get? hop, h.mem_children] at hc
    exact hid.child hc
  have hchildren := hσ.children_perm h hg hid
  rw [children_of_get? hop, children_of_get? hop'] at hchildren
  -- the lists of the counterparts of the children, and then in the order that they have
  obtain ⟨same, hsame, hlike⟩ := Except.exists_forall₂ hlevel.children
    fun c hc l hl => ih c hc (m + 1) (d + 1) l (hparent c hc) hl
  replace hsame : List.Forall₂ (fun c l => (more c (d + 1)).result = .ok l) (op.children.map σ)
      same := List.forall₂_map_left_iff.mpr hsame
  obtain ⟨lists', hlists', hperm⟩ := List.perm_comp_forall₂ hchildren.symm hsame
  have hchart : ∀ p q, Counterpart σ p q → q.chart = p.chart := fun _ _ hpq => hpq.chart
  have hheads := heads_paired hlike hperm.symm
  have hfolded : Paired (Counterpart σ) (folded rules profile lists)
      (folded rules profile lists') := (hheads.joining hchart).byTop
  have hpassed : Paired (Counterpart σ) (passed rules profile lists)
      (passed rules profile lists') :=
    (carried_paired hlike hperm.symm).append (hheads.orphans hchart).byTop
  have hknown : rules.profile? op'.kind = some profile := hkind ▸ hlevel.known
  have hstarts : (Panel.start op' d rules).result =
      .ok ((blank op'.id d).redraw (Look.start profile op'.toFlow)) :=
    start_eq_ok_iff.mpr ⟨profile, hknown, rfl⟩
  have hshapes : (checkShapes profile op' g rules).result = .ok () := by
    refine checkShapes_eq_ok.mpr fun c' hc' => ?_
    obtain ⟨c, hc, rfl⟩ := List.mem_map.mp (hchildren.mem_iff.mpr hc')
    exact (hσ.profiled_iff rules (hparent c hc)).mpr (checkShapes_eq_ok.mp hlevel.shapes c hc)
  have hfresh : ∀ head ∈ folded rules profile lists', op'.id ∉ head.members := fun head hhead =>
    hid' ▸ ((hg.left hop' hlists').of_head hg hmore (mem_folded hhead)).2.1
  obtain ⟨gathered', hfold, hgathered⟩ := hσ.exists_gathered h hres hagree hlevel hid hid' hkind
    hflow hstarts hfolded hfresh
  have hlevel' : g.Level rules more op' d _ lists' profile _ gathered' :=
    ⟨hid' ▸ hop', hlists', hknown, hshapes, hstarts, hfold, rfl⟩
  rw [← hid', hlevel.leaves]
  exact ⟨_, hlevel'.result_eq hmore, Like.concat hpassed hgathered⟩

/-- Where the heads that each operation takes in agree with one another, the order in which a tree
was built decides neither whether it can be explained nor by which panels. -/
theorem explain_renumbered (hf : f.Reachable) (hg : g.Reachable)
    (hσ : f.Renumbering g root root' σ) (hagree : f.Agreeing rules root) :
    (f.explain rules root).result.isOk = (g.explain rules root').result.isOk ∧
      ∀ panels panels', (f.explain rules root).result = .ok panels →
        (g.explain rules root').result = .ok panels' →
          Paired (Counterpart σ) panels panels' := by
  have h := hf.wellFormed
  have h' := hg.wellFormed
  constructor
  · refine Except.isOk_congr ?_
    rw [h.exists_explain_iff, h'.exists_explain_iff]
    constructor
    · intro hall y n hy
      obtain ⟨x, ⟨m, hx⟩, rfl⟩ := hσ.bijOn.surjOn ⟨n, hy⟩
      exact (hσ.profiled_iff rules hx).mpr (hall x m hx)
    · intro hall x m hx
      exact (hσ.profiled_iff rules hx).mp (hall (σ x) m (hσ.below hx))
  · intro panels panels' hfe hge
    obtain ⟨res, hres⟩ := h.exists_recursion rules
    obtain ⟨more, hmore⟩ := h'.exists_recursion rules
    obtain ⟨hroot, list, hlist, rfl⟩ := (explain_eq_ok h hres).mp hfe
    obtain ⟨-, list', hlist', rfl⟩ := (explain_eq_ok h' hmore).mp hge
    obtain ⟨same, hsame, hlike⟩ :=
      hres.exists_counterparts h h' hσ hagree hmore hroot Below.refl hlist
    rw [hσ.top, hlist'] at hsame
    cases hsame
    exact hlike.paired.of_perm (byDepth_perm list) (byDepth_perm list').symm

/-! The sample, built from its vectors upwards -/

def sampleCallsUpwards : List Call := [
  .add "y_hat" none "vector" { outputs := ["y_hat"] },
  .add "y" none "vector" { outputs := ["y"] },
  .add "ss" none "vector_sum" { inputs := ["res"], outputs := ["ss"] },
  .add "res" (some 2) "vector_difference" { inputs := ["y", "y_hat"], outputs := ["res"] },
  .attach 0 3,
  .attach 1 3]

def sampleUpwards : Forest := empty.replay sampleCallsUpwards

def upwards : OpId → OpId
  | 0 => 2
  | 1 => 1
  | 2 => 3
  | _ => 0

theorem renumbering_sample : sample.Renumbering sampleUpwards 0 2 upwards := by
  have hlt {x m : Nat} (hx : sample.Below 0 x m) : x < 4 :=
    reachable_sample.wellFormed.lt_size_of_below (by decide) hx
  have hlt' {y n : Nat} (hy : sampleUpwards.Below 2 y n) : y < 4 :=
    Reachable.wellFormed ⟨sampleCallsUpwards, rfl⟩ |>.lt_size_of_below (by decide) hy
  have hparent : ∀ x < 4, ∀ p ∈ sample.parent? x,
      sampleUpwards.parent? (upwards x) = some (upwards p) := by
    decide
  have hoperation : ∀ x < 4,
      (sampleUpwards.get? (upwards x)).map (fun op => (op.kind, op.toFlow)) =
        (sample.get? x).map fun op => (op.kind, op.toFlow) := by
    decide
  have hinj : ∀ x < 4, ∀ y < 4, upwards x = upwards y → x = y := by decide
  have hdown : ∀ {x p m : Nat}, sample.Below 0 p m → sample.parent? x = some p →
      sampleUpwards.parent? (upwards x) = some (upwards p) :=
    fun hp hx => hparent _ (hlt (hp.child hx)) _ hx
  refine ⟨⟨?_, ?_, ?_⟩, rfl, hdown, fun hx => hoperation _ (hlt hx)⟩
  · intro x ⟨m, hx⟩
    refine ⟨m, ?_⟩
    induction hx with
    | refl => exact Below.refl
    | child hp hx ih => exact ih.child (hdown hp hx)
  · intro x ⟨m, hx⟩ y ⟨n, hy⟩ heq
    exact hinj x (hlt hx) y (hlt hy) heq
  · intro y ⟨n, hy⟩
    have hsurj : ∀ y < 4, ∃ x < 4, upwards x = y := by decide
    have hbelow : ∀ x : Nat, x < 4 → ∃ m, sample.Below 0 x m := by
      intro x hx
      have hdifference : sample.Below 0 2 1 := Below.refl.child rfl
      obtain rfl | rfl | rfl | rfl : x = 0 ∨ x = 1 ∨ x = 2 ∨ x = 3 := by omega
      · exact ⟨0, Below.refl⟩
      · exact ⟨2, hdifference.child rfl⟩
      · exact ⟨1, hdifference⟩
      · exact ⟨2, hdifference.child rfl⟩
    obtain ⟨x, hx, heq⟩ := hsurj y (hlt' hy)
    exact ⟨x, hbelow x hx, heq⟩

def differencePanel : Panel := { samplePanels[0] with depth := 1 }

theorem explain_difference : (sample.explain sampleRules 2).result = .ok [differencePanel] := by
  simp only [explain, explainVisits, explainVisit, byDepth_eq_insertionSort, Panel.gather,
    Panel.byTop_eq_insertionSort]
  decide +kernel

theorem joinedBy_sample {p : OpId} {op : Operation} {extended : Panel}
    (hop : sample.get? p = some op) (hjoined : sample.JoinedBy sampleRules op extended) :
    ∃ profile, sampleRules.profile? op.kind = some profile ∧
      extended.look = Look.start profile op.toFlow := by
  obtain ⟨c, hc, panels, head, hexplain, hhead, -, hfits, hextended⟩ := hjoined
  have hchildren : ∀ p < 4, ∀ op ∈ sample.get? p, ∀ c ∈ op.children,
      p = 0 ∧ c = 2 ∨ p = 2 ∧ (c = 1 ∨ c = 3) := by
    decide
  have hrefused : ∀ op ∈ sample.get? 0,
      (differencePanel.fits op sampleRules).result = .ok false := by
    decide
  obtain ⟨rfl, rfl⟩ | ⟨-, hc⟩ := hchildren p (lt_size_of_get? hop) op hop c hc
  · rw [explain_difference] at hexplain
    cases hexplain
    rw [List.mem_singleton.mp hhead, hrefused op hop] at hfits
    cases hfits
  · have h := reachable_sample.wellFormed
    obtain ⟨res, hres⟩ := h.exists_recursion sampleRules
    obtain ⟨leaf, hleaf, hchildless, hlit⟩ : ∃ leaf, sample.get? c = some leaf ∧
        leaf.children = [] ∧ sampleRules.profile? leaf.kind =
          some { operand := .any, product := .vector } := by
      obtain rfl | rfl := hc <;> exact ⟨_, rfl, rfl, rfl⟩
    obtain rfl := h.numbered c leaf hleaf
    obtain ⟨-, list, hlist, rfl⟩ := (explain_eq_ok h hres).mp hexplain
    rw [hres.result_of_plain_leaf hleaf hchildless hlit ⟨rfl, rfl, rfl⟩ 0] at hlist
    cases hlist
    obtain rfl := List.mem_singleton.mp ((byDepth_perm _).mem_iff.mp hhead)
    obtain ⟨profile, hprofile⟩ := exists_profile_of_extend hextended
    obtain ⟨l, hl, rfl⟩ := (extend_eq_ok_iff hprofile hleaf).mp hextended
    have hblank : (blank leaf.id 0).look = Look.blank := rfl
    rw [hblank, Look.extend_blank] at hl
    cases hl
    exact ⟨profile, hprofile, rfl⟩

theorem agreeing_sample : sample.Agreeing sampleRules 0 := by
  intro p d op _ hop a b ha hb
  obtain ⟨profile, hprofile, hlook⟩ := joinedBy_sample hop ha
  obtain ⟨profile', hprofile', hlook'⟩ := joinedBy_sample hop hb
  rw [hprofile] at hprofile'
  cases hprofile'
  rw [hlook, hlook']
  exact Look.Agree.refl _ _

theorem explain_renumbered_sample : ∃ panels, (sampleUpwards.explain sampleRules 2).result =
    .ok panels ∧ Paired (Counterpart upwards) samplePanels panels := by
  have hreachable : sampleUpwards.Reachable := ⟨sampleCallsUpwards, rfl⟩
  obtain ⟨hisOk, hpaired⟩ :=
    explain_renumbered reachable_sample hreachable renumbering_sample agreeing_sample
  cases hupwards : (sampleUpwards.explain sampleRules 2).result with
  | error e =>
    rw [explain_sample, hupwards] at hisOk
    cases hisOk
  | ok panels => exact ⟨panels, rfl, hpaired samplePanels panels explain_sample hupwards⟩

end Forest

end ChartFold
