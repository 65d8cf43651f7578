import ChartFold.Proofs.Explain.Heads
import ChartFold.Proofs.Explain.Locality
import ChartFold.Proofs.Panel.Writes

/-! Where the encodings of a tree come from. A panel shows all that its members show by themselves,
and nothing that none of them carries; what it anchors, it anchors to a result of a member or as the
default look of a member says. -/
namespace ChartFold

namespace Forest
open Panel
variable {f : Forest} {rules : Rules} {op : Operation} {profile : Profile} {p q : Panel}
  {d : Datum}

def Carried (f : Forest) (p : Panel) (d : Datum) : Prop :=
  ∃ x ∈ p.members, ∃ op, f.get? x = some op ∧ op.Carries d

def Anchored (f : Forest) (rules : Rules) (p : Panel) (a : Datum) : Prop :=
  ∃ x ∈ p.members, ∃ op profile, f.get? x = some op ∧ rules.profile? op.kind = some profile ∧
    profile.Anchors op.toFlow a

/-- The panel shows what its members show, and what it shows comes of them. -/
structure Sourced (f : Forest) (rules : Rules) (p : Panel) : Prop where
  top_mem : p.top ∈ p.members
  shows : ∀ x ∈ p.members, ∃ op profile, f.get? x = some op ∧
    rules.profile? op.kind = some profile ∧
      ∀ d, (Look.start profile op.toFlow).encodings.contains d → p.encodings.contains d
  within : p.encodings.Within (f.Carried p) (f.Anchored rules p)

theorem within_of_members (h : p.encodings.Within (f.Carried p) (f.Anchored rules p))
    (hpq : ∀ x ∈ p.members, x ∈ q.members) :
    p.encodings.Within (f.Carried q) (f.Anchored rules q) := by
  refine h.mono ?_ ?_
  · intro d ⟨x, hx, hop⟩
    exact ⟨x, hpq x hx, hop⟩
  · intro a ⟨x, hx, hop⟩
    exact ⟨x, hpq x hx, hop⟩

theorem sourced_start (hop : f.get? op.id = some op)
    (hprofile : rules.profile? op.kind = some profile) (k : Nat) :
    f.Sourced rules ((blank op.id k).redraw (Look.start profile op.toFlow)) := by
  have hmem : op.id ∈ (blank op.id k).members := by simp [blank]
  refine ⟨hmem, fun x hx => ?_, Look.within_start.mono ?_ ?_⟩
  · obtain rfl : x = op.id := by simpa [redraw, blank] using hx
    exact ⟨op, profile, hop, hprofile, fun d hd => hd⟩
  · intro d hd
    exact ⟨op.id, hmem, op, hop, hd⟩
  · intro a ha
    exact ⟨op.id, hmem, op, profile, hop, hprofile, ha⟩

theorem Joins.sourced {own head extended : Panel}
    (hjoins : f.Joins rules op profile own head extended) (hown : f.Sourced rules own)
    (hhead : f.Sourced rules head) : f.Sourced rules (extended.overlay own profile.chart) := by
  have hmem {x : OpId} := hjoins.mem_members (x := x)
  have hop : op.id ∈ (extended.overlay own profile.chart).members :=
    hmem.mpr (Or.inr hjoins.toppedBy.mem)
  obtain ⟨child, below, hchild, hbelow, -⟩ := hhead.shows _ hhead.top_mem
  obtain ⟨l, hl, rfl⟩ := (extend_eq_ok_iff hjoins.known hchild).mp hjoins.grown
  have hunion : (((head.redraw l).addMember op.id).overlay own profile.chart).encodings =
      l.encodings.union own.encodings := rfl
  refine ⟨hmem.mpr (Or.inr hown.top_mem), fun x hx => ?_, ?_⟩
  · rw [hunion]
    obtain hx | hx := hmem.mp hx
    · obtain ⟨xop, xprofile, hxop, hxprofile, hshown⟩ := hhead.shows x hx
      refine ⟨xop, xprofile, hxop, hxprofile, fun d hd => ?_⟩
      rw [Encodings.contains_union, Look.contains_extend hl (hshown d hd), Bool.true_or]
    · obtain ⟨xop, xprofile, hxop, hxprofile, hshown⟩ := hown.shows x hx
      refine ⟨xop, xprofile, hxop, hxprofile, fun d hd => ?_⟩
      rw [Encodings.contains_union, hshown d hd, Bool.or_true]
  · have hheadWithin := within_of_members hhead.within fun x hx => hmem.mpr (Or.inl hx)
    have hownWithin := within_of_members hown.within fun x hx => hmem.mpr (Or.inr hx)
    refine Encodings.Within.union (Look.within_extend hl hheadWithin ?_ ?_ ?_) hownWithin
    · intro d hd
      exact ⟨op.id, hop, op, hjoins.found, hd⟩
    · intro a ha
      exact ⟨op.id, hop, op, profile, hjoins.found, hjoins.known, ha⟩
    · intro a ha
      exact ⟨head.top, hmem.mpr (Or.inl hhead.top_mem), child, below, hchild, hbelow, Or.inl ha⟩

/-- Nothing is lost and nothing foreign is shown. Every datum that a member of a panel shows by
itself is shown by the panel. Every datum that the panel shows is an input or an output of a member,
and every anchor is the primary output of a member or the anchor of its default look. -/
theorem explain_sourced (hf : f.Reachable) {root : OpId} {panels : List Panel}
    (hok : (f.explain rules root).result = .ok panels) : ∀ p ∈ panels,
    (∀ x ∈ p.members, ∃ op, f.get? x = some op ∧ ∀ k, ∃ own,
      (start op k rules).result = .ok own ∧
        ∀ d, own.encodings.contains d → p.encodings.contains d) ∧
    (∀ d, p.encodings.contains d → ∃ x ∈ p.members, ∃ op, f.get? x = some op ∧
      (d ∈ op.inputs ∨ d ∈ op.outputs)) ∧
    ∀ d e a, p.encodings.get? d = some e → e.anchor = some a →
      ∃ x ∈ p.members, ∃ op profile, f.get? x = some op ∧
        rules.profile? op.kind = some profile ∧ (op.primary? = some a ∨
          ∃ look, profile.defaultLook = some look ∧ look.anchor = some a) := by
  have h := hf.wellFormed
  obtain ⟨res, hres⟩ := h.exists_recursion rules
  obtain ⟨hroot, list, hlist, rfl⟩ := (explain_eq_ok h hres).mp hok
  intro p hp
  have hsourced : f.Sourced rules p := by
    refine hres.forall_mem h ?_ (fun hjoins hown hhead => hjoins.sourced hown hhead) hroot hlist p
      ((byDepth_perm list).mem_iff.mp hp)
    intro op profile own d hop hprofile hown
    rw [hown]
    exact sourced_start hop hprofile d
  refine ⟨fun x hx => ?_, fun d hd => ?_, fun d e a he ha => hsourced.within.anchor he ha⟩
  · obtain ⟨op, profile, hop, hprofile, hshown⟩ := hsourced.shows x hx
    exact ⟨op, hop, fun k => ⟨_, start_eq_ok_iff.mpr ⟨profile, hprofile, rfl⟩, hshown⟩⟩
  · rw [Encodings.contains_eq_isSome] at hd
    obtain ⟨e, he⟩ := Option.isSome_iff_exists.mp hd
    exact hsourced.within.key he

theorem explain_sourced_nested : ∃ p ∈ nestedPanels, 0 ∈ p.members ∧
    (∃ op own, nested.get? 0 = some op ∧ (start op 1 Rules.standard).result = .ok own ∧
      own.encodings.contains "res" ∧ p.encodings.contains "res") ∧
    (∃ e, p.encodings.get? "res" = some e ∧ e.anchor = some "ss") ∧
    ∃ x ∈ p.members, ∃ op profile, nested.get? x = some op ∧
      Rules.standard.profile? op.kind = some profile ∧ (op.primary? = some "ss" ∨
        ∃ look, profile.defaultLook = some look ∧ look.anchor = some "ss") := by
  have hmem : nestedPanels[1] ∈ nestedPanels := by simp [nestedPanels]
  have hzero : 0 ∈ nestedPanels[1].members := by simp [nestedPanels]
  obtain ⟨hshown, -, hanchors⟩ := explain_sourced reachable_nested explain_nested _ hmem
  obtain ⟨op, hop, hstart⟩ := hshown 0 hzero
  obtain ⟨own, hown, hkeys⟩ := hstart 1
  have hres : own.encodings.contains "res" := by
    obtain rfl := Option.some.inj (hop.symm.trans rfl)
    obtain rfl := Except.ok.inj (hown.symm.trans rfl)
    rfl
  exact ⟨_, hmem, hzero, ⟨op, own, hop, hown, hres, hkeys "res" hres⟩, ⟨_, rfl, rfl⟩,
    hanchors "res" _ "ss" rfl rfl⟩

end Forest

end ChartFold
