import ChartFold.Panel.Gather
import ChartFold.Proofs.Except

/-! What the steps of gathering leave alone: drawing never touches the top, the members or the depth
of a panel, and a panel joins its parent by one member. -/
namespace ChartFold

theorem Rules.profileOf_eq_ok {rules : Rules} {op : Operation} {profile : Profile} :
    rules.profileOf op = .ok profile ↔ rules.profile? op.kind = some profile := by
  unfold profileOf
  cases rules.profile? op.kind <;> simp

namespace Panel
variable {p q r : Panel} {rules : Rules}

structure Redrawn (p q : Panel) : Prop where
  top : q.top = p.top
  members : q.members = p.members
  depth : q.depth = p.depth

theorem Redrawn.refl (p : Panel) : Redrawn p p := ⟨rfl, rfl, rfl⟩

theorem Redrawn.trans (h : Redrawn p q) (h' : Redrawn q r) : Redrawn p r :=
  ⟨h'.top.trans h.top, h'.members.trans h.members, h'.depth.trans h.depth⟩

theorem redrawn_withDefaults (p : Panel) (profile : Profile) (op : Operation) :
    Redrawn p (p.withDefaults profile op) := by
  constructor <;> simp

theorem redrawn_draw {chart : Chart} {op : Operation} (h : (p.draw chart op).result = .ok q) :
    Redrawn p q := by
  rw [draw, result_writeAll] at h
  cases h
  exact ⟨rfl, rfl, rfl⟩

theorem redrawn_adopt {chart : Chart} {op : Operation} {refused : ExplainError → Event}
    (h : (p.adopt chart op refused).result = .ok q) : Redrawn p q := by
  rw [adopt] at h
  split at h
  · cases h
    exact Redrawn.refl p
  · exact redrawn_draw h

theorem redrawn_compose {rule : Composition} {child parent : Operation}
    (h : (p.compose rule child parent).result = .ok q) : Redrawn p q := by
  rw [compose, Traced.result_bind, Except.bind_eq_ok] at h
  obtain ⟨tied, htied, h⟩ := h
  cases htied
  have hdraw := redrawn_draw h
  exact ⟨hdraw.top, hdraw.members, hdraw.depth⟩

theorem redrawn_settle {wanted : Option Chart} {parent : Operation} {forest : Forest}
    (h : (p.settle wanted parent forest rules).result = .ok q) : Redrawn p q := by
  unfold settle at h
  split at h
  · cases h
    exact Redrawn.refl p
  · exact redrawn_adopt h
  · split at h
    · cases h
    · rw [Traced.result_bind, Except.bind_eq_ok] at h
      obtain ⟨child, _, h⟩ := h
      exact redrawn_compose h

theorem start_eq_ok {op : Operation} {d : Nat} (h : (start op d rules).result = .ok p) :
    (∃ profile, rules.profile? op.kind = some profile) ∧ Redrawn (blank op.id d) p := by
  rw [start, Traced.result_bind, Except.bind_eq_ok] at h
  obtain ⟨profile, hprofile, h⟩ := h
  refine ⟨⟨profile, Rules.profileOf_eq_ok.mp hprofile⟩, ?_⟩
  refine (redrawn_withDefaults _ profile op).trans ?_
  split at h
  · exact redrawn_adopt h
  · cases h
    exact Redrawn.refl _

/-- The panel is bound, and no rule lets its chart be folded into the one that is wanted. -/
def Refused (rules : Rules) (p : Panel) (wanted : Option Chart) : Prop :=
  ∃ own chart, p.chart = some own ∧ wanted = some chart ∧ rules.composition? own chart = none

theorem isSome_objection? {wanted : Option Chart} :
    (p.objection? rules wanted).isSome ↔ p.Refused rules wanted := by
  unfold objection? Refused
  split
  · rename_i own chart hown
    rw [Rules.composes, Compositions.composes]
    cases hrule : rules.compositions.permitted? own chart <;>
      simp [hown, Rules.composition?, hrule]
  · rename_i hnone
    constructor
    · intro h
      simp at h
    · rintro ⟨own, chart, hown, hwanted, _⟩
      exact absurd hwanted (hnone own chart hown)

theorem result_fits {parent : Operation} {profile : Profile}
    (hprofile : rules.profile? parent.kind = some profile) (p : Panel) :
    (p.fits parent rules).result = .ok (p.objection? rules profile.chart).isNone := by
  rw [fits, Rules.profileOf_eq_ok.mpr hprofile, Traced.ofExcept_ok, pure_bind]
  cases p.objection? rules profile.chart <;> rfl

theorem extend_eq_ok {parent : Operation} {forest : Forest}
    (h : (p.extend parent forest rules).result = .ok q) :
    ∃ r, Redrawn p r ∧ q = r.addMember parent.id := by
  rw [extend] at h
  split at h
  · cases h
  · rename_i profile hprofile
    obtain ⟨r, hr, hq⟩ := Except.bind_eq_ok.mp ((Traced.result_bind _ _).symm.trans h)
    cases hq
    rw [Traced.result_mapError, Except.mapError_eq_ok] at hr
    exact ⟨r, (redrawn_withDefaults p profile parent).trans (redrawn_settle hr), rfl⟩

theorem foldHead_eq_ok {parent : Operation} {declared : Option Chart} {forest : Forest}
    {acc head : Panel} (h : (foldHead parent declared forest rules acc head).result = .ok q) :
    q.top = acc.top ∧ q.depth = max head.depth acc.depth ∧
      q.members = joinMembers acc.top (head.members.push parent.id) acc.members := by
  rw [foldHead, Traced.result_bind, Except.bind_eq_ok] at h
  obtain ⟨extended, hextended, hq⟩ := h
  rw [Traced.result_mapError, Except.mapError_eq_ok] at hextended
  obtain ⟨r, hr, rfl⟩ := extend_eq_ok hextended
  cases hq
  refine ⟨rfl, ?_, ?_⟩
  · rw [← hr.depth]
    rfl
  · rw [← hr.members]
    rfl

def foldHeads (parent : Operation) (declared : Option Chart) (forest : Forest) (rules : Rules)
    (own : Panel) (heads : List Panel) : Except ExplainError Panel :=
  heads.foldlM (fun acc head => (foldHead parent declared forest rules acc head).result) own

@[simp] theorem foldHeads_nil (parent : Operation) (declared : Option Chart) (forest : Forest)
    (rules : Rules) (own : Panel) : foldHeads parent declared forest rules own [] = .ok own := rfl

theorem foldHeads_cons_eq_ok {parent : Operation} {declared : Option Chart} {forest : Forest}
    {own head gathered : Panel} {heads : List Panel} :
    foldHeads parent declared forest rules own (head :: heads) = .ok gathered ↔
      ∃ acc, (foldHead parent declared forest rules own head).result = .ok acc ∧
        foldHeads parent declared forest rules acc heads = .ok gathered := by
  rw [foldHeads, List.foldlM_cons, Except.bind_eq_ok]
  rfl

theorem foldHeads_append_eq_ok {parent : Operation} {declared : Option Chart} {forest : Forest}
    {own gathered : Panel} {heads more : List Panel} :
    foldHeads parent declared forest rules own (heads ++ more) = .ok gathered ↔
      ∃ acc, foldHeads parent declared forest rules own heads = .ok acc ∧
        foldHeads parent declared forest rules acc more = .ok gathered := by
  rw [foldHeads, List.foldlM_append, Except.bind_eq_ok]
  rfl

@[simp] theorem byTop_nil : byTop [] = [] := List.mergeSort_nil

@[simp] theorem joining_nil (rules : Rules) (wanted : Option Chart) :
    joining rules wanted [] = [] := rfl

@[simp] theorem orphans_nil (rules : Rules) (wanted : Option Chart) :
    orphans rules wanted [] = [] := rfl

theorem gather_eq_ok {parent : Operation} {d : Nat} {heads list : List Panel} {forest : Forest} :
    (gather parent d heads forest rules).result = .ok list ↔
      ∃ profile own gathered, rules.profile? parent.kind = some profile ∧
        (checkShapes profile parent forest rules).result = .ok () ∧
        (start parent d rules).result = .ok own ∧
        foldHeads parent profile.chart forest rules own
          (byTop (joining rules profile.chart heads)) = .ok gathered ∧
        list = byTop (orphans rules profile.chart heads) ++ [gathered] := by
  rw [gather]
  simp only [foldHeads, Traced.result_bind, Except.bind_eq_ok, Traced.result_ofExcept,
    Rules.profileOf_eq_ok, Traced.result_noteAll, Traced.result_foldlM, Traced.result_pure]
  constructor
  · intro ⟨profile, hprofile, _, hshapes, own, hown, _, _, gathered, hgathered, hlist⟩
    cases hlist
    exact ⟨profile, own, gathered, hprofile, hshapes, hown, hgathered, rfl⟩
  · intro ⟨profile, own, gathered, hprofile, hshapes, hown, hgathered, hlist⟩
    subst hlist
    exact ⟨profile, hprofile, (), hshapes, own, hown, (), trivial, gathered, hgathered, rfl⟩

theorem gather_singleton {parent : Operation} {profile : Profile} {own head gathered : Panel}
    {d : Nat} {forest : Forest} (hprofile : rules.profile? parent.kind = some profile)
    (hshapes : (checkShapes profile parent forest rules).result = .ok ())
    (hown : (start parent d rules).result = .ok own)
    (hjoins : head.objection? rules profile.chart = none)
    (hfold : (foldHead parent profile.chart forest rules own head).result = .ok gathered) :
    (gather parent d [head] forest rules).result = .ok [gathered] := by
  have hjoining : joining rules profile.chart [head] = [head] := by
    rw [joining, List.filter_singleton, hjoins]
    rfl
  have horphans : orphans rules profile.chart [head] = [] := by
    rw [orphans, List.filter_singleton, hjoins]
    rfl
  refine gather_eq_ok.mpr ⟨profile, own, gathered, hprofile, hshapes, hown, ?_, ?_⟩
  · rw [hjoining, byTop, List.mergeSort_singleton]
    exact foldHeads_cons_eq_ok.mpr ⟨gathered, hfold, rfl⟩
  · rw [horphans, byTop_nil]
    rfl

end Panel

end ChartFold
