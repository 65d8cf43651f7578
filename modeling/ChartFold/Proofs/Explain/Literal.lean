import ChartFold.Proofs.Explain.Level
import ChartFold.Proofs.Forest.Names
import Mathlib.Data.Nat.Basic
import Mathlib.Order.Basic

/-! Literals are neutral. An operation that brings neither a chart nor a look of its own joins the
panel of the operation it is put under and changes nothing but the members and the depth of that
panel: as a head it comes to show what its parent shows by itself, and that has been laid down
before. -/
namespace ChartFold

def Operation.withChild (op : Operation) (c : OpId) : Operation :=
  { op with children := op.children ++ [c] }

/-- The profile gives an operation nothing to show by itself. -/
structure Profile.Plain (p : Profile) : Prop where
  chart : p.chart = none
  defaultLook : p.defaultLook = none
  fallbacks : p.fallbacks = []

theorem Look.start_of_plain {p : Profile} (h : p.Plain) (flow : Flow) :
    Look.start p flow = Look.blank := by
  have hnone : p.outputEncoding flow.inputs Encodings.empty = none := by
    simp [Profile.outputEncoding, Profile.fallbackEncoding, h.defaultLook, h.fallbacks]
  have hdefaults : Look.blank.withDefaults p flow = Look.blank := by
    unfold withDefaults
    rw [show Look.blank.encodings = Encodings.empty from rfl, hnone]
  rw [start, h.chart, hdefaults]

/-! What is gathered covers what an operation shows by itself -/

theorem Look.overlay_self (l : Look) (declared : Option Chart) : l.overlay l declared = l := by
  have hchart : Panel.overlaidChart l.chart l.chart declared = l.chart := by
    simp [Panel.overlaidChart]
  rw [overlay, hchart, Encodings.union_self]

theorem Look.overlay_overlay {declared : Option Chart} {own l acc : Look}
    (hown : own.chart = none ∨ own.chart = declared) (h : own.overlay acc declared = acc) :
    own.overlay (l.overlay acc declared) declared = l.overlay acc declared := by
  obtain ⟨hchart, hencodings⟩ := Look.mk.inj h
  have hcharts : Panel.overlaidChart own.chart (Panel.overlaidChart l.chart acc.chart declared)
      declared = Panel.overlaidChart l.chart acc.chart declared := by
    rw [Panel.overlaidChart_of_plain hown] at hchart ⊢
    by_cases hl : l.chart = none ∨ l.chart = declared
    · rw [Panel.overlaidChart_of_plain hl]
      cases hacc : acc.chart with
      | none =>
        rw [hacc, Option.none_or] at hchart
        rw [hchart, Option.or_none]
      | some chart => rfl
    · rw [Panel.overlaidChart_of_not_plain hl]
      exact Option.or_of_isSome (Option.isSome_iff_ne_none.mpr fun hnone => hl (Or.inl hnone))
  have hunions : own.encodings.union (l.encodings.union acc.encodings) =
      l.encodings.union acc.encodings := by
    calc
      own.encodings.union (l.encodings.union acc.encodings)
        = ((own.encodings.union l.encodings).union own.encodings).union acc.encodings := by
          rw [Encodings.union_assoc _ own.encodings, hencodings, Encodings.union_assoc]
      _ = (l.encodings.union own.encodings).union acc.encodings := by
          rw [Encodings.union_union_self]
      _ = l.encodings.union acc.encodings := by
          rw [Encodings.union_assoc, hencodings]
  rw [overlay, overlay, hcharts, hunions]

namespace Panel
variable {x new : OpId} {k : Nat} {p q own : Panel} {declared : Option Chart}

/-- What becomes of a panel when `new` is put under `x`, at depth `k`: the panel that holds `x`
takes it in, and any other stays as it is. -/
structure Grown (x new : OpId) (k : Nat) (p q : Panel) : Prop where
  top : q.top = p.top
  chart : q.chart = p.chart
  encodings : q.encodings = p.encodings
  inside : x ∈ p.members →
    q.members.toList.Perm (p.members.toList ++ [new]) ∧ q.depth = max p.depth k
  outside : x ∉ p.members → q = p

theorem Grown.refl (hx : x ∉ p.members) : Grown x new k p p :=
  ⟨rfl, rfl, rfl, fun hmem => absurd hmem hx, fun _ => rfl⟩

theorem Grown.look (h : Grown x new k p q) : q.look = p.look := by
  rw [Panel.look, Panel.look, h.chart, h.encodings]

theorem grown_refl {panels : List Panel} (hx : x ∉ membersOf panels) :
    List.Forall₂ (Grown x new k) panels panels :=
  List.forall₂_same.mpr fun p hp =>
    Grown.refl fun hmem => hx (mem_membersOf.mpr ⟨p, hp, hmem⟩)

theorem eq_of_grown {ps qs : List Panel} (h : List.Forall₂ (Grown x new k) ps qs)
    (hx : x ∉ membersOf ps) : qs = ps := by
  induction h with
  | nil => rfl
  | @cons p q ps qs hpq _ ih =>
    rw [membersOf_cons, List.mem_append, not_or, Array.mem_toList_iff] at hx
    rw [hpq.outside hx.1, ih hx.2]

theorem membersOf_grown {ps qs : List Panel} (h : List.Forall₂ (Grown x new k) ps qs)
    (hnodup : (membersOf ps).Nodup) (hx : x ∈ membersOf ps) :
    (membersOf qs).Perm (membersOf ps ++ [new]) := by
  induction h with
  | nil => simp [membersOf] at hx
  | @cons p q ps qs hpq hrest ih =>
    rw [membersOf_cons] at hnodup hx
    obtain ⟨-, hpsNodup, hdisjoint⟩ := List.nodup_append.mp hnodup
    rw [membersOf_cons, membersOf_cons]
    by_cases hxp : x ∈ p.members
    · have hxps : x ∉ membersOf ps := fun hmem =>
        hdisjoint x (Array.mem_toList_iff.mpr hxp) x hmem rfl
      rw [eq_of_grown hrest hxps, List.append_assoc]
      refine ((hpq.inside hxp).1.append_right _).trans ?_
      rw [List.append_assoc]
      exact List.perm_append_comm.append_left _
    · have hxps : x ∈ membersOf ps :=
        (List.mem_append.mp hx).resolve_left fun hmem => hxp (Array.mem_toList_iff.mp hmem)
      rw [hpq.outside hxp, List.append_assoc]
      exact (ih hpsNodup hxps).append_left _

theorem depth_le_of_grown {ps qs : List Panel} (h : List.Forall₂ (Grown x new k) ps qs)
    (hx : x ∈ membersOf ps) (n : Nat) :
    (∀ q ∈ qs, q.depth ≤ n) ↔ (∀ p ∈ ps, p.depth ≤ n) ∧ k ≤ n := by
  induction h with
  | nil => simp [membersOf] at hx
  | @cons p q ps qs hpq hrest ih =>
    rw [membersOf_cons, List.mem_append, Array.mem_toList_iff] at hx
    rw [List.forall_mem_cons, List.forall_mem_cons]
    by_cases hxps : x ∈ membersOf ps
    · rw [ih hxps]
      by_cases hxp : x ∈ p.members
      · rw [(hpq.inside hxp).2, Nat.max_le]
        tauto
      · rw [hpq.outside hxp]
        tauto
    · rw [(hpq.inside (hx.resolve_right hxps)).2, Nat.max_le, eq_of_grown hrest hxps]
      tauto

theorem look_overlay_own {extra : Panel} (hextra : extra.look = own.look)
    (hown : own.chart = none ∨ own.chart = declared) (extended : List Panel) :
    (extra.overlay (overlayAll declared own extended) declared).look =
      (overlayAll declared own extended).look := by
  rw [look_overlay, hextra, look_overlayAll]
  -- the invariant of the fold is that what has been gathered covers `own`
  have hcovered : ∀ (looks : List Look) (acc : Look), own.look.overlay acc declared = acc →
      own.look.overlay (looks.foldl (fun acc l => l.overlay acc declared) acc) declared =
        looks.foldl (fun acc l => l.overlay acc declared) acc := by
    intro looks
    induction looks with
    | nil => exact fun acc h => h
    | cons l looks ih =>
      exact fun acc h => ih (l.overlay acc declared) (Look.overlay_overlay hown h)
  exact hcovered _ own.look (Look.overlay_self own.look declared)

theorem byTop_concat {panels : List Panel} (h : ∀ r ∈ panels, r.top < q.top)
    (hinj : ∀ a ∈ panels, ∀ b ∈ panels, a.top = b.top → a = b) :
    byTop (panels ++ [q]) = byTop panels ++ [q] := by
  have hsorted : (byTop panels ++ [q]).Pairwise fun a b => decide (a.top ≤ b.top) = true := by
    refine List.pairwise_append.mpr ⟨?_, List.pairwise_singleton _ _, fun a ha b hb => ?_⟩
    · exact (pairwise_byTop panels).imp decide_eq_true
    · rw [List.mem_singleton.mp hb, decide_eq_true_eq]
      exact Nat.le_of_lt (h a (mem_byTop.mp ha))
  have hdistinct : ∀ a ∈ panels ++ [q], ∀ b ∈ panels ++ [q], a.top = b.top → a = b := by
    intro a ha b hb htop
    obtain ha | ha := List.mem_append.mp ha <;> obtain hb | hb := List.mem_append.mp hb
    · exact hinj a ha b hb htop
    · have hlt := h a ha
      rw [htop, List.mem_singleton.mp hb] at hlt
      exact absurd hlt (Nat.lt_irrefl _)
    · have hlt := h b hb
      rw [← htop, List.mem_singleton.mp ha] at hlt
      exact absurd hlt (Nat.lt_irrefl _)
    · rw [List.mem_singleton.mp ha, List.mem_singleton.mp hb]
  rw [byTop_eq_of_perm ((byTop_perm panels).symm.append_right [q]) hdistinct, byTop]
  exact List.mergeSort_of_pairwise hsorted

end Panel

namespace Forest
open Panel
variable {f g : Forest} {rules : Rules} {res more : OpId → Nat → Explaining (List Panel)}
  {x : OpId} {leaf : Operation}

theorem Recursion.result_of_plain_leaf (hres : f.Recursion rules res)
    (hleaf : f.get? leaf.id = some leaf) (hchildless : leaf.children = []) {lit : Profile}
    (hlit : rules.profile? leaf.kind = some lit) (hplain : lit.Plain) (d : Nat) :
    (res leaf.id d).result = .ok [blank leaf.id d] := by
  have hstart : (Panel.start leaf d rules).result = .ok (blank leaf.id d) := by
    rw [start_eq_ok_iff]
    refine ⟨lit, hlit, ?_⟩
    rw [Look.start_of_plain hplain]
    rfl
  have hisLeaf : leaf.isLeaf := by
    rw [Operation.isLeaf, hchildless]
    rfl
  rw [hres leaf.id leaf d hleaf, explainBy, if_pos hisLeaf, Traced.result_bind,
    Except.bind_of_ok hstart]
  rfl

/-- `g` is `f` with a new last operation, which is the last child of `x` and has no children. -/
structure Planted (f g : Forest) (x : OpId) (leaf : Operation) : Prop where
  last : ∀ {i op}, f.get? i = some op → i < leaf.id
  new : g.get? leaf.id = some leaf
  childless : leaf.children = []
  same : ∀ {i op}, i ≠ x → f.get? i = some op → g.get? i = some op
  grown : ∀ {op}, f.get? x = some op →
    g.get? x = some (op.withChild leaf.id)

theorem planted_insert (hx : x < f.size) (name : String) (kind : OpKind) (flow : Flow) :
    f.Planted (f.insert name (some x) kind flow) x
      { flow with id := f.size, name, kind, parent := some x } := by
  have hxlast : x ≠ f.size := Nat.ne_of_lt hx
  refine ⟨fun hop => lt_size_of_get? hop, ?_, rfl, fun {i op} hi hop => ?_, fun hop => ?_⟩
  · rw [insert, get?_appendChild, if_neg hxlast.symm, get?_push, if_pos rfl]
  · rw [insert, get?_appendChild, if_neg hi, get?_push,
      if_neg (Nat.ne_of_lt (lt_size_of_get? hop)), hop]
  · rw [insert, get?_appendChild, if_pos rfl, get?_push, if_neg hxlast, hop]
    rfl

theorem Planted.exists_get? (h : f.Planted g x leaf) {i : OpId} {op : Operation}
    (hop : f.get? i = some op) :
    ∃ op', g.get? i = some op' ∧ op'.kind = op.kind ∧ op'.toFlow = op.toFlow := by
  by_cases hi : i = x
  · subst hi
    exact ⟨_, h.grown hop, rfl, rfl⟩
  · exact ⟨op, h.same hi hop, rfl, rfl⟩

theorem Planted.akin (h : f.Planted g x leaf) {k : Nat} {p q : Panel}
    (hgrown : Grown x leaf.id k p q) (htop : ∃ op, f.get? p.top = some op) : Akin f g p q := by
  obtain ⟨op, hop⟩ := htop
  obtain ⟨op', hop', -, hflow⟩ := h.exists_get? hop
  exact ⟨hgrown.look, op, op', hop, hgrown.top ▸ hop', hflow⟩

theorem Planted.checkShapes (h : f.Planted g x leaf) {op : Operation} {profile : Profile}
    {children : List OpId} (hshapes : (checkShapes profile op f rules).result = .ok ())
    (hnew : ∀ c ∈ children, c ∈ op.children ∨ c = leaf.id) {lit : Profile}
    (hlit : rules.profile? leaf.kind = some lit) :
    (Panel.checkShapes profile { op with children } g rules).result = .ok () := by
  rw [checkShapes_eq_ok] at hshapes ⊢
  intro c hc
  obtain hc | rfl := hnew c hc
  · obtain ⟨child, below, hchild, hbelow⟩ := hshapes c hc
    obtain ⟨child', hchild', hkind, -⟩ := h.exists_get? hchild
    exact ⟨child', below, hchild', hkind ▸ hbelow⟩
  · exact ⟨leaf, lit, h.new, hlit⟩

section Level
variable {op : Operation} {d k : Nat} {list : List Panel} {lists : List (List Panel)}
  {profile lit : Profile} {own gathered : Panel}

theorem Planted.foldHeads_above (hplanted : f.Planted g x leaf) (h : f.WellFormed)
    (hres : f.Recursion rules res) (hne : x ≠ op.id)
    (hlevel : f.Level rules res op d list lists profile own gathered) {heads' : List Panel}
    (hheads : List.Forall₂ (Grown x leaf.id k) (folded rules profile lists) heads') :
    ∃ gathered', foldHeads op profile.chart g rules own heads' = .ok gathered' ∧
      Grown x leaf.id k gathered gathered' := by
  obtain ⟨htop, hmembers⟩ := hlevel.members h hres
  have htops := hlevel.exists_top h hres
  have hmem : x ∈ gathered.members ↔ x ∈ membersOf (folded rules profile lists) := by
    rw [← Array.mem_toList_iff, hmembers.mem_iff]
    simp [hne]
  by_cases hx : x ∈ membersOf (folded rules profile lists)
  · have hnodup := (List.nodup_append.mp (hlevel.nodup h hres)).2.1
    have hgrown := membersOf_grown hheads (List.nodup_append.mp hnodup).1 hx
    have hid : op.id ∉ membersOf heads' := by
      rw [hgrown.mem_iff]
      simpa [Nat.ne_of_lt (hplanted.last hlevel.found)] using hlevel.id_not_mem h hres
    have hakin : List.Forall₂ (Akin f g) (folded rules profile lists) heads' :=
      ((List.forall₂_and_left _ _).mpr ⟨htops, hheads⟩).imp fun _ _ hpq =>
        hplanted.akin hpq.2 hpq.1
    obtain ⟨gathered', hfold, hlook⟩ := foldHeads_akin hakin rfl rfl rfl hlevel.gathers
    have hlook := Look.mk.inj hlook
    obtain ⟨hownTop, hown⟩ := start_toppedBy hlevel.starts
    obtain ⟨htop', hmembers'⟩ := foldHeads_members hfold hownTop fun head hhead hmem =>
      hid (mem_membersOf.mpr ⟨head, hhead, hmem⟩)
    rw [hown] at hmembers'
    refine ⟨gathered', hfold, htop'.top.trans htop.top.symm, hlook.1, hlook.2, fun _ => ⟨?_, ?_⟩,
      fun hout => absurd (hmem.mpr hx) hout⟩
    · calc
        gathered'.members.toList.Perm (membersOf heads' ++ [op.id]) := hmembers'
        List.Perm _ ((membersOf (folded rules profile lists) ++ [leaf.id]) ++ [op.id]) :=
          hgrown.append_right _
        List.Perm _ ((membersOf (folded rules profile lists) ++ [op.id]) ++ [leaf.id]) := by
          rw [List.append_assoc, List.append_assoc]
          exact List.perm_append_comm.append_left _
        List.Perm _ (gathered.members.toList ++ [leaf.id]) := hmembers.symm.append_right _
    · refine eq_of_forall_ge_iff fun n => ?_
      rw [foldHeads_depth_le hfold, Nat.max_le, foldHeads_depth_le hlevel.gathers,
        depth_le_of_grown hheads hx, and_assoc]
  · rw [eq_of_grown hheads hx]
    refine ⟨gathered, foldHeads_same (fun head hhead => ?_) rfl rfl rfl hlevel.gathers,
      Grown.refl fun hin => hx (hmem.mp hin)⟩
    have hout : x ∉ head.members := fun hin => hx (mem_membersOf.mpr ⟨head, hhead, hin⟩)
    exact hplanted.akin (Grown.refl (k := k) hout) (htops head hhead)

theorem Planted.exists_above (hplanted : f.Planted g x leaf) (h : f.WellFormed)
    (hres : f.Recursion rules res) (hmore : g.Recursion rules more)
    (hlit : rules.profile? leaf.kind = some lit) (hne : x ≠ op.id)
    (hlevel : f.Level rules res op d list lists profile own gathered)
    {lists' : List (List Panel)}
    (hlists' : List.Forall₂ (fun c l => (more c (d + 1)).result = .ok l) op.children lists')
    (hgrown : List.Forall₂ (List.Forall₂ (Grown x leaf.id k)) lists lists') :
    ∃ list', (more op.id d).result = .ok list' ∧ List.Forall₂ (Grown x leaf.id k) list list' := by
  have htop : ∀ p q, Grown x leaf.id k p q → q.top = p.top := fun _ _ hpq => hpq.top
  have hchart : ∀ p q, Grown x leaf.id k p q → q.chart = p.chart := fun _ _ hpq => hpq.chart
  have hpassed := passed_forall₂ rules profile hgrown htop hchart
  obtain ⟨gathered', hfold, hgathered⟩ := hplanted.foldHeads_above h hres hne hlevel
    (folded_forall₂ rules profile hgrown htop hchart)
  have hop := hplanted.same hne.symm hlevel.found
  have hshapes := hplanted.checkShapes hlevel.shapes (fun _ hc => Or.inl hc) hlit
  have hlevel' : g.Level rules more op d _ lists' profile own gathered' :=
    ⟨hop, hlists', hlevel.known, hshapes, hlevel.starts, hfold, rfl⟩
  refine ⟨_, hlevel'.result_eq hmore, ?_⟩
  rw [hlevel.leaves]
  exact List.rel_append hpassed (List.Forall₂.cons hgathered List.Forall₂.nil)

/-- At `x` itself, the new leaf is one more head, which leaves no trace but its members and its
depth. -/
theorem Planted.foldHeads_at (hplanted : f.Planted g op.id leaf) (h : f.WellFormed)
    (hres : f.Recursion rules res)
    (hlevel : f.Level rules res op d list lists profile own gathered) :
    ∃ gathered', foldHeads (op.withChild leaf.id) profile.chart g rules own
        (folded rules profile lists ++ [blank leaf.id (d + 1)]) = .ok gathered' ∧
      Grown op.id leaf.id (d + 1) gathered gathered' := by
  have hlook : own.look = Look.start profile op.toFlow := by
    rw [hlevel.own_eq]
    rfl
  have hid := hlevel.id_not_mem h hres
  have hsame : foldHeads (op.withChild leaf.id) profile.chart g rules own
      (folded rules profile lists) = .ok gathered := by
    refine foldHeads_same (fun head hhead => ?_) rfl rfl rfl hlevel.gathers
    have hout : op.id ∉ head.members := fun hmem => hid (mem_membersOf.mpr ⟨head, hhead, hmem⟩)
    exact hplanted.akin (Grown.refl (k := d + 1) hout) (hlevel.exists_top h hres head hhead)
  -- the leaf comes to show what the operation shows by itself
  obtain ⟨extra, hextra, hextraLook⟩ : ∃ extra, ((blank leaf.id (d + 1)).extend
      (op.withChild leaf.id) g rules).result = .ok extra ∧ extra.look = own.look :=
    ⟨_, (extend_eq_ok_iff (p := blank leaf.id (d + 1)) hlevel.known hplanted.new).mpr
      ⟨_, Look.extend_blank, rfl⟩, hlook.symm⟩
  have hlast : (foldHead (op.withChild leaf.id) profile.chart g rules gathered
      (blank leaf.id (d + 1))).result = .ok (extra.overlay gathered profile.chart) :=
    foldHead_eq_ok_iff.mpr ⟨extra, hextra, rfl⟩
  have hfold := foldHeads_append_eq_ok.mpr
    ⟨gathered, hsame, foldHeads_cons_eq_ok.mpr ⟨_, hlast, foldHeads_nil _ _ _ _ _⟩⟩
  have hshown : (extra.overlay gathered profile.chart).look = gathered.look := by
    obtain ⟨extended, -, rfl⟩ := foldHeads_eq_ok_iff.mp hlevel.gathers
    refine look_overlay_own hextraLook ?_ extended
    rw [show own.chart = own.look.chart from rfl, hlook]
    exact Look.chart_start profile op.toFlow
  have hshown := Look.mk.inj hshown
  obtain ⟨htop, hmembers⟩ := hlevel.members h hres
  have hnew : op.id ∉ (blank leaf.id (d + 1)).members := by
    simpa [blank] using Nat.ne_of_lt (hplanted.last hlevel.found)
  obtain ⟨htop', hmembers'⟩ := foldHead_members hlast htop hnew
  refine ⟨_, hfold, htop'.top.trans htop.top.symm, hshown.1, hshown.2,
    fun _ => ⟨hmembers'.trans List.perm_append_comm, ?_⟩, fun hout => ?_⟩
  · rw [(foldHead_eq_ok hlast).2.1, Nat.max_comm]
    rfl
  · have hin : op.id ∈ gathered.members := by
      rw [← Array.mem_toList_iff, hmembers.mem_iff]
      simp
    exact absurd hin hout

theorem Planted.folded_leaf (hplanted : f.Planted g op.id leaf) (h : f.WellFormed)
    (hres : f.Recursion rules res) (hlevel : f.Level rules res op d list lists profile own gathered)
    (n : Nat) : folded rules profile (lists ++ [[blank leaf.id n]]) =
        folded rules profile lists ++ [blank leaf.id n] ∧
      passed rules profile (lists ++ [[blank leaf.id n]]) = passed rules profile lists := by
  have hjoins : (blank leaf.id n).objection? rules profile.chart = none := rfl
  constructor
  · have hheads : joining rules profile.chart
        ((lists ++ [[blank leaf.id n]]).filterMap List.getLast?) =
          joining rules profile.chart (lists.filterMap List.getLast?) ++ [blank leaf.id n] := by
      simp [joining, hjoins]
    rw [folded, hheads]
    refine byTop_concat (fun r hr => ?_) fun a ha b hb => ?_
    · obtain ⟨child, hchild⟩ := hlevel.exists_top h hres r (mem_byTop.mpr hr)
      exact hplanted.last hchild
    · exact (hlevel.left h).head_injective h hres (List.mem_of_mem_filter ha)
        (List.mem_of_mem_filter hb)
  · simp [passed, orphans, hjoins]

theorem Planted.exists_at (hplanted : f.Planted g op.id leaf) (h : f.WellFormed)
    (hres : f.Recursion rules res) (hmore : g.Recursion rules more)
    (hlit : rules.profile? leaf.kind = some lit) (hplain : lit.Plain)
    (hlevel : f.Level rules res op d list lists profile own gathered)
    (hlists : List.Forall₂ (fun c l => (more c (d + 1)).result = .ok l) op.children lists) :
    ∃ list', (more op.id d).result = .ok list' ∧
      List.Forall₂ (Grown op.id leaf.id (d + 1)) list list' := by
  obtain ⟨hfolded, hpassed⟩ := hplanted.folded_leaf h hres hlevel (d + 1)
  obtain ⟨gathered', hfold, hgathered⟩ := hplanted.foldHeads_at h hres hlevel
  have hleaf := hmore.result_of_plain_leaf hplanted.new hplanted.childless hlit hplain (d + 1)
  have hop := hplanted.grown hlevel.found
  have hnew : ∀ c ∈ op.children ++ [leaf.id], c ∈ op.children ∨ c = leaf.id := by simp
  have hshapes := hplanted.checkShapes hlevel.shapes hnew hlit
  rw [← hfolded] at hfold
  have hlevel' : g.Level rules more (op.withChild leaf.id) d _
      (lists ++ [[blank leaf.id (d + 1)]]) profile own gathered' :=
    ⟨hop, List.rel_append hlists (List.Forall₂.cons hleaf List.Forall₂.nil), hlevel.known, hshapes,
      hlevel.starts, hfold, rfl⟩
  refine ⟨_, hlevel'.result_eq hmore, ?_⟩
  rw [hlevel.leaves, hpassed]
  refine List.rel_append (grown_refl fun hmem => ?_) (List.Forall₂.cons hgathered List.Forall₂.nil)
  exact (List.nodup_append.mp (hlevel.nodup h hres)).2.2 op.id hmem op.id (by simp) rfl

end Level

theorem Recursion.exists_grown (h : f.WellFormed) (hplanted : f.Planted g x leaf)
    (hres : f.Recursion rules res) (hmore : g.Recursion rules more) {lit : Profile}
    (hlit : rules.profile? leaf.kind = some lit) (hplain : lit.Plain) {id : OpId} {d k : Nat}
    {list : List Panel} (hid : id < f.size) (hk : ∀ m, f.Below id x m → k = d + m + 1)
    (hok : (res id d).result = .ok list) :
    ∃ list', (more id d).result = .ok list' ∧ List.Forall₂ (Grown x leaf.id k) list list' := by
  refine h.induction (motive := fun id => ∀ d list, (∀ m, f.Below id x m → k = d + m + 1) →
    (res id d).result = .ok list → ∃ list', (more id d).result = .ok list' ∧
      List.Forall₂ (Grown x leaf.id k) list list') ?_ hid d list hk hok
  intro id op hop ih d list hk hok
  obtain rfl := h.numbered id op hop
  obtain ⟨lists, profile, own, gathered, hlevel⟩ := (hres.eq_ok_iff hop).mp hok
  obtain ⟨lists', hlists', hgrown⟩ := Except.exists_forall₂ hlevel.children fun c hc l hl =>
    ih c hc (d + 1) l (fun m hm => by
      rw [← children_of_get? hop, h.mem_children] at hc
      rw [hk (m + 1) (hm.cons hc)]
      omega) hl
  by_cases hx : x = op.id
  · subst hx
    obtain rfl := hk 0 Below.refl
    have hsame : lists' = lists := by
      have hout : ∀ l ∈ lists, op.id ∉ membersOf l := by
        intro l hl
        obtain ⟨c, -, hc, hok⟩ := Except.exists_left (hlevel.left h) hl
        exact hres.not_mem_of_child h hc hok
      have heq := ((List.forall₂_and_left _ _).mpr ⟨hout, hgrown⟩).imp fun l l' hl =>
        (eq_of_grown hl.2 hl.1).symm
      rw [List.forall₂_eq_eq_eq] at heq
      exact heq.symm
    exact hplanted.exists_at h hres hmore hlit hplain hlevel (hsame ▸ hlists')
  · exact hplanted.exists_above h hres hmore hlit hx hlevel hlists' hgrown

/-- Literals are neutral. When an operation that brings neither a chart nor a look of its own is put
under an operation of a tree, the tree can still be explained, and by the same panels. The panel
that holds the operation above takes the new one in, and reaches down to it; no other panel
changes. The operation is always put there, unless the forest is so large that the counter of the
forms of its name overflows. -/
theorem explain_literal (hf : f.Reachable) {root : OpId} {panels : List Panel}
    (hok : (f.explain rules root).result = .ok panels) {d : Nat} (hx : f.Below root x d)
    {kind : OpKind} {lit : Profile} (hlit : rules.profile? kind = some lit) (hplain : lit.Plain)
    (name : String) (flow : Flow) :
    (∃ g panels', f.add name (some x) kind flow = .ok (g, f.size) ∧
      (g.explain rules root).result = .ok panels' ∧
      Paired (Grown x f.size (d + 1)) panels panels') ∨
    candidateCount ≤ f.size ∧ f.add name (some x) kind flow = .error ⟨.overflow name, f⟩ := by
  have h := hf.wellFormed
  obtain ⟨res, hres⟩ := h.exists_recursion rules
  obtain ⟨hroot, list, hlist, rfl⟩ := (explain_eq_ok h hres).mp hok
  have hxlt := h.lt_size_of_below hroot hx
  have hparent : ∀ p, some x = some p → p < f.size := by simpa using hxlt
  cases hfresh : f.freshName? name with
  | none =>
    refine Or.inr ⟨?_, by rw [add_of_lt hparent, hfresh]⟩
    by_contra hsize
    obtain ⟨fresh, hsome⟩ := hf.indexed.exists_freshName? (Nat.lt_of_not_le hsize) name
    rw [hfresh] at hsome
    cases hsome
  | some fresh =>
    have hadd := add_of_freshName? hparent hfresh kind flow
    have hplanted := planted_insert hxlt fresh kind flow
    have hg := h.add hadd
    obtain ⟨more, hmore⟩ := hg.exists_recursion rules
    have hdistance : ∀ m, f.Below root x m → d + 1 = 0 + m + 1 := by
      intro m hm
      rw [h.below_unique hx hm, Nat.zero_add]
    obtain ⟨list', hlist', hgrown⟩ :=
      hres.exists_grown h hplanted hmore hlit hplain hroot hdistance hlist
    obtain ⟨op, hop⟩ := lt_size_iff.mp hroot
    obtain ⟨op', hop', -⟩ := hplanted.exists_get? hop
    refine Or.inl ⟨_, byDepth list', hadd,
      (explain_eq_ok hg hmore).mpr ⟨lt_size_of_get? hop', list', hlist', rfl⟩, ?_⟩
    exact (Paired.of_forall₂ hgrown).of_perm (byDepth_perm list) (byDepth_perm list').symm

theorem explain_literal_sample : ∃ g panels,
    sample.add "z" (some 2) "vector" { outputs := ["z"] } = .ok (g, 4) ∧
      (g.explain sampleRules 0).result = .ok panels ∧
      Paired (Grown 2 4 2) samplePanels panels := by
  refine (explain_literal reachable_sample explain_sample (Below.refl.child rfl)
    (show sampleRules.profile? "vector" = some _ from rfl) ⟨rfl, rfl, rfl⟩ "z"
    { outputs := ["z"] }).resolve_right fun ⟨hsize, _⟩ => ?_
  exact absurd hsize (by decide)

end Forest

end ChartFold
