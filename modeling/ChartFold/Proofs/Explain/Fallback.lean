import ChartFold.Proofs.Explain.Drawn
import ChartFold.Proofs.Panel.Start

/-! What becomes of the fallbacks of an operation that wants no chart and no look of its own. Each
head would be given the first fallback that suits what it shows, but the operation starts with
nothing shown, so that its very first fallback suits there, and that one comes out on top. -/
namespace ChartFold

namespace Encoding

structure Bare (e : Encoding) : Prop where
  axis : e.axis = none
  skip : e.skip = none
  anchor : e.anchor = none

theorem Bare.lay_some {e : Encoding} (h : e.Bare) (high : Encoding) :
    lay (some e) (some high) = some high := by
  simp [lay, Patch.onto, apply, toPatch, h.axis, h.skip, h.anchor]

end Encoding

theorem Fallback.bare_encoding (fallback : Fallback) : fallback.encoding.Bare := ⟨rfl, rfl, rfl⟩

namespace Encodings
variable {m n : Encodings} {ds : List Datum} {e e' : Encoding}

theorem mergeAt_union_mergeAt (h : e.Bare) :
    (m.mergeAt ds e).union (n.mergeAt ds e') = (m.union n).mergeAt ds e' := by
  rw [← union_mergeAt]
  ext x : 1
  rw [get?_union, get?_union, get?_mergeAt, get?_mergeAt]
  split
  · cases hn : Encoding.lay (n.get? x) (some e') with
    | none => cases hx : n.get? x <;> simp [hx, Encoding.lay, Patch.onto] at hn
    | some high => rw [Encoding.lay_assoc, h.lay_some]
  · rfl

end Encodings

namespace Profile
variable {profile : Profile}

theorem chart_of_ungoverned (h : profile.ungoverned) : profile.chart = none := by
  rw [ungoverned, Bool.and_eq_true] at h
  exact Option.isNone_iff_eq_none.mp h.1

theorem outputEncoding_of_ungoverned (h : profile.ungoverned) (inputs : List Datum)
    (m : Encodings) : profile.outputEncoding inputs m =
      (profile.fallbacks.find? (·.suits inputs m)).map Fallback.encoding := by
  have hlook : profile.defaultLook = none := by
    rw [ungoverned, Bool.and_eq_true] at h
    exact Option.isNone_iff_eq_none.mp h.2
  rw [outputEncoding, hlook, fallbackEncoding, if_pos h, Option.none_or]

theorem firstLook_of_ungoverned (h : profile.ungoverned) :
    profile.firstLook = profile.fallbacks.head?.map Fallback.encoding := by
  rw [ungoverned, Bool.and_eq_true] at h
  rw [firstLook, Option.isNone_iff_eq_none.mp h.2, if_pos h.1, Option.none_or]

/-- The outputs are shown as the first fallback wants that suits what has been `shown`. Where none
suits, no output comes to be shown. -/
structure Followed (profile : Profile) (flow : Flow) (shown result : Encodings) : Prop where
  chosen : ∀ e, profile.fallbackEncoding flow.inputs shown = some e → ∀ x ∈ flow.outputs,
    ∃ e', result.get? x = some e' ∧ e'.mark = e.mark ∧ e'.channel = e.channel
  unchosen : profile.fallbackEncoding flow.inputs shown = none → ∀ x ∈ flow.outputs,
    shown.get? x = none → result.get? x = none

/-- The first fallback on top of what has been shown; only that if there are no fallbacks. -/
def withFirst (profile : Profile) (flow : Flow) (shown : Encodings) : Encodings :=
  match profile.fallbacks.head? with
  | some first => shown.mergeAt flow.outputs first.encoding
  | none => shown

theorem followed_withFirst (hfree : profile.ungoverned) {flow : Flow} {shown : Encodings}
    (hsuits : ∀ first ∈ profile.fallbacks.head?, first.suits flow.inputs shown) :
    profile.Followed flow shown (profile.withFirst flow shown) := by
  have hfallback : profile.fallbackEncoding flow.inputs shown =
      profile.fallbacks.head?.map Fallback.encoding := by
    rw [fallbackEncoding, if_pos hfree]
    cases hfallbacks : profile.fallbacks with
    | nil => rfl
    | cons first rest =>
      simp [hsuits first (by rw [hfallbacks]; rfl)]
  unfold withFirst
  cases hfirst : profile.fallbacks.head? with
  | none =>
    rw [hfirst] at hfallback
    refine ⟨fun e he => ?_, fun _ x _ hx => hx⟩
    rw [hfallback] at he
    cases he
  | some first =>
    rw [hfirst] at hfallback
    refine ⟨fun e he x hx => ?_, fun hnone => ?_⟩
    · rw [hfallback] at he
      cases he
      rw [Encodings.get?_mergeAt, if_pos hx]
      cases shown.get? x <;> exact ⟨_, rfl, rfl, rfl⟩
    · rw [hfallback] at hnone
      cases hnone

theorem encodings_withDefaults_blank (hfree : profile.ungoverned) (flow : Flow) :
    (Look.blank.withDefaults profile flow).encodings = profile.withFirst flow .empty := by
  unfold Look.withDefaults withFirst
  rw [Look.blank, outputEncoding_blank, firstLook_of_ungoverned hfree]
  cases profile.fallbacks.head? <;> rfl

theorem union_withFirst (hfree : profile.ungoverned) (l : Look) (flow : Flow) (shown : Encodings) :
    (l.withDefaults profile flow).encodings.union (profile.withFirst flow shown) =
      profile.withFirst flow (l.encodings.union shown) := by
  unfold Look.withDefaults withFirst
  rw [outputEncoding_of_ungoverned hfree]
  cases hfallbacks : profile.fallbacks with
  | nil => rfl
  | cons first rest =>
    cases (first :: rest).find? (·.suits flow.inputs l.encodings) with
    | none => exact Encodings.union_mergeAt _ _ _ _
    | some chosen => exact Encodings.mergeAt_union_mergeAt chosen.bare_encoding

end Profile

namespace Panel
variable {rules : Rules} {forest : Forest} {op : Operation} {d : Nat} {profile : Profile}
  {heads list extended : List Panel} {head own p : Panel}

/-! An operation that wants no chart -/

theorem joining_none (rules : Rules) (heads : List Panel) : joining rules none heads = heads := by
  refine List.filter_eq_self.mpr fun head _ => ?_
  unfold objection?
  cases head.chart <;> rfl

theorem orphans_none (rules : Rules) (heads : List Panel) : orphans rules none heads = [] := by
  refine List.filter_eq_nil_iff.mpr fun head _ => ?_
  unfold objection?
  cases head.chart <;> simp

theorem result_extend_of_chartless (hprofile : rules.profile? op.kind = some profile)
    (hchart : profile.chart = none) (p : Panel) : (p.extend op forest rules).result =
      .ok ((p.withDefaults profile op).addMember op.id) := by
  have hsettle : ((p.withDefaults profile op).settle profile.chart op forest rules).result =
      .ok (p.withDefaults profile op) := by
    rw [hchart, settle]
    rfl
  rw [extend, Rules.profileOf_eq_ok.mpr hprofile]
  simp only [Traced.result_bind, Traced.result_mapError, hsettle]
  rfl

def shownAll (heads : List Panel) : Encodings :=
  heads.foldl (fun acc head => head.encodings.union acc) .empty

theorem encodings_overlayAll_withFirst (hfree : profile.ungoverned)
    (hprofile : rules.profile? op.kind = some profile)
    (hextended : List.Forall₂ (fun head p => (head.extend op forest rules).result = .ok p)
      heads extended) {shown : Encodings}
    (hown : own.encodings = profile.withFirst op.toFlow shown) :
    (overlayAll none own extended).encodings = profile.withFirst op.toFlow
      (heads.foldl (fun acc head => head.encodings.union acc) shown) := by
  induction hextended generalizing own shown with
  | nil => exact hown
  | @cons head p heads extended hp _ ih =>
    rw [result_extend_of_chartless hprofile (profile.chart_of_ungoverned hfree)] at hp
    obtain rfl := Except.ok.inj hp
    have hunion := profile.union_withFirst hfree head.look op.toFlow shown
    rw [← hown] at hunion
    have hacc : (((head.withDefaults profile op).addMember op.id).overlay own none).encodings =
        profile.withFirst op.toFlow (head.encodings.union shown) := by
      rw [withDefaults_eq_redraw]
      exact hunion
    exact ih hacc

theorem encodings_start_of_ungoverned (hfree : profile.ungoverned)
    (hprofile : rules.profile? op.kind = some profile)
    (hown : (start op d rules).result = .ok own) :
    own.encodings = profile.withFirst op.toFlow .empty := by
  obtain ⟨profile', hprofile', rfl⟩ := start_eq_ok_iff.mp hown
  obtain rfl := Option.some.inj (hprofile.symm.trans hprofile')
  unfold Look.start
  rw [profile.chart_of_ungoverned hfree]
  exact profile.encodings_withDefaults_blank hfree op.toFlow

end Panel

namespace Forest
open Panel
variable {f : Forest} {rules : Rules} {op : Operation} {d : Nat} {profile : Profile}
  {heads list : List Panel}

/-- An operation with neither a chart nor a look of its own gathers all heads, whatever they are,
into one panel: what they showed, with its first fallback on top of its outputs, whether that suits
what was shown or not. Only if it suits are the fallbacks followed. -/
theorem gather_fallback (hprofile : rules.profile? op.kind = some profile)
    (hfree : profile.ungoverned) (hgather : (gather op d heads f rules).result = .ok list) :
    ∃ gathered, list = [gathered] ∧
      gathered.encodings = profile.withFirst op.toFlow (shownAll (byTop heads)) ∧
      ((∀ first ∈ profile.fallbacks.head?, first.suits op.inputs (shownAll (byTop heads))) →
        profile.Followed op.toFlow (shownAll (byTop heads)) gathered.encodings) := by
  have hchart := profile.chart_of_ungoverned hfree
  obtain ⟨profile', own, gathered, hprofile', -, hown, hfold, rfl⟩ := gather_eq_ok.mp hgather
  obtain rfl := Option.some.inj (hprofile.symm.trans hprofile')
  rw [hchart, joining_none] at hfold
  obtain ⟨extended, hextended, rfl⟩ := foldHeads_eq_ok_iff.mp hfold
  have hshown := encodings_overlayAll_withFirst hfree hprofile hextended
    (encodings_start_of_ungoverned hfree hprofile hown)
  refine ⟨_, by rw [hchart, orphans_none, byTop_nil]; rfl, hshown, fun hsuits => ?_⟩
  rw [hshown]
  exact profile.followed_withFirst hfree hsuits

/-! Two operations over one leaf each, to be drawn space-filling where the leaf is an area and as a
line anywhere else. The first leaf is an area, the second one is not. -/

def emphasisRules : Rules where
  grammar := .ofList [
    ("extent", {
      operand := .any, product := .vector
      defaultLook := some { mark := .area, channel := .area } }),
    ("series", {
      operand := .any, product := .vector
      defaultLook := some { mark := .point, channel := .position } }),
    ("emphasis", {
      operand := .any, product := .scalar
      fallbacks := [{ inputMark := some .area, mark := .spaceFilling, channel := .area },
        { mark := .line, channel := .length }] })]
  compositions := {}

def emphasisCalls : List Call := [
  .add "share" none "emphasis" { inputs := ["a"], outputs := ["share"] },
  .add "a" (some 0) "extent" { outputs := ["a"] },
  .add "trend" none "emphasis" { inputs := ["b"], outputs := ["trend"] },
  .add "b" (some 2) "series" { outputs := ["b"] }]

def emphases : Forest := empty.replay emphasisCalls

theorem reachable_emphases : emphases.Reachable := ⟨emphasisCalls, rfl⟩

def shareOp : Operation := countRoot 0 "emphasis" "share" "a"

def trendOp : Operation := countRoot 2 "emphasis" "trend" "b"

def shareHead : Panel := leafPanel 1 none ("a", { mark := .area, channel := .area })

def trendHead : Panel := leafPanel 3 none ("b", { mark := .point, channel := .position })

def sharePanel : Panel where
  top := 0
  members := #[1, 0]
  chart := none
  encodings := .ofList [
    ("a", { mark := .area, channel := .area }),
    ("share", { mark := .spaceFilling, channel := .area })]
  depth := 1

def trendPanel : Panel where
  top := 2
  members := #[3, 2]
  chart := none
  encodings := .ofList [
    ("b", { mark := .point, channel := .position }),
    ("trend", { mark := .spaceFilling, channel := .area })]
  depth := 1

theorem gather_share :
    (gather shareOp 0 [shareHead] emphases emphasisRules).result = .ok [sharePanel] :=
  gather_singleton rfl rfl rfl rfl rfl

theorem gather_trend :
    (gather trendOp 0 [trendHead] emphases emphasisRules).result = .ok [trendPanel] :=
  gather_singleton rfl rfl rfl rfl rfl

theorem shownAll_singleton (head : Panel) : shownAll (byTop [head]) = head.encodings := by
  rw [byTop, List.mergeSort_singleton, shownAll, List.foldl_cons, List.foldl_nil]
  ext x : 1
  rw [Encodings.get?_union, Encodings.get?_empty, Encoding.lay_none]

theorem gather_fallback_share : ∃ profile, emphasisRules.profile? "emphasis" = some profile ∧
    profile.Followed shareOp.toFlow shareHead.encodings sharePanel.encodings := by
  obtain ⟨gathered, hlist, -, hfollowed⟩ := gather_fallback rfl rfl gather_share
  cases hlist
  rw [shownAll_singleton] at hfollowed
  exact ⟨_, rfl, hfollowed (by decide)⟩

/-- Over points the second fallback is the right one, and the first comes out. -/
theorem not_always_followed : ¬ ∀ (f : Forest) (rules : Rules) (op : Operation)
    (profile : Profile) (d : Nat) (heads orphans : List Panel) (gathered : Panel),
    f.Reachable → f.get? op.id = some op → rules.profile? op.kind = some profile →
    profile.ungoverned → f.HandedTo rules op d heads →
    (gather op d heads f rules).result = .ok (orphans ++ [gathered]) →
    profile.Followed op.toFlow (shownAll (byTop (joining rules profile.chart heads)))
      gathered.encodings := by
  intro hall
  have hchildren : trendOp.children = [(countLeaf 2 "series" "b").id] := rfl
  have hheads : emphases.HandedTo emphasisRules trendOp 0 [trendHead] :=
    handedTo_leaf reachable_emphases.wellFormed hchildren rfl rfl rfl
  have hfollowed := hall emphases emphasisRules trendOp _ 0 [trendHead] [] trendPanel
    reachable_emphases rfl rfl rfl hheads gather_trend
  rw [show joining emphasisRules _ [trendHead] = [trendHead] from rfl,
    shownAll_singleton] at hfollowed
  obtain ⟨e, he, hmark, -⟩ := hfollowed.chosen { mark := .line, channel := .length } rfl "trend"
    (by decide)
  revert hmark
  cases he
  decide

end Forest

end ChartFold
