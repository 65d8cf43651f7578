import ChartFold.Proofs.Panel.Members

/-! What the gathering of panels reads. Two sets of rules that agree on it, and two forests that do,
make the same panels and fail for the same reasons; the notes on the way may differ. -/
namespace ChartFold

/-! Agreement -/

theorem rel_refl {α : Type} {R : α → α → Prop} (h : ∀ a, R a a) (x : Option α) :
    Option.Rel R x x := by
  cases x with
  | none => exact Option.Rel.none
  | some a => exact Option.Rel.some (h a)

theorem rel_map_left {α : Type} {R : α → α → Prop} {k : α → α} (h : ∀ a, R (k a) a)
    (x : Option α) : Option.Rel R (x.map k) x := by
  cases x with
  | none => exact Option.Rel.none
  | some a => exact Option.Rel.some (h a)

/-- Profiles that differ in nothing but shapes, and in fallbacks where these are never tried. -/
structure Profile.Agrees (p q : Profile) : Prop where
  chart : p.chart = q.chart
  defaultLook : p.defaultLook = q.defaultLook
  fallbacks : p.chart = none → p.defaultLook = none → p.fallbacks = q.fallbacks

theorem Profile.Agrees.refl (p : Profile) : p.Agrees p := ⟨rfl, rfl, fun _ _ => rfl⟩

structure Composition.Agrees (r s : Composition) : Prop where
  resultChart : r.resultChart = s.resultChart
  tie : r.tie = s.tie

theorem Composition.Agrees.refl (r : Composition) : r.Agrees r := ⟨rfl, rfl⟩

/-- Rules that speak about the same operations among the given ones and let the same charts be
folded into one another, and that agree on all of them. -/
structure Rules.AgreeOn (rules others : Rules) (kinds : Set OpKind) : Prop where
  profiles : ∀ kind ∈ kinds,
    Option.Rel Profile.Agrees (rules.profile? kind) (others.profile? kind)
  compositions : ∀ child parent,
    Option.Rel Composition.Agrees (rules.composition? child parent)
      (others.composition? child parent)

theorem Rules.AgreeOn.refl (rules : Rules) (kinds : Set OpKind) : rules.AgreeOn rules kinds :=
  ⟨fun _ _ => rel_refl Profile.Agrees.refl _, fun _ _ => rel_refl Composition.Agrees.refl _⟩

theorem Rules.AgreeOn.mono {rules others : Rules} {kinds fewer : Set OpKind}
    (h : rules.AgreeOn others kinds) (hsub : fewer ⊆ kinds) : rules.AgreeOn others fewer :=
  ⟨fun kind hkind => h.profiles kind (hsub hkind), h.compositions⟩

/-- The same operation, but perhaps for the link upwards. -/
def Operation.Alike (a b : Operation) : Prop := ∃ parent, b = { a with parent }

/-- The forests have the same operation in a place, or both none, but perhaps for the link
upwards. -/
def Forest.SameAt (f g : Forest) (x : OpId) : Prop :=
  Option.Rel Operation.Alike (f.get? x) (g.get? x)

variable {rules others : Rules} {kinds : Set OpKind} {f g : Forest} {op parent : Operation}

theorem Forest.SameAt.refl (f : Forest) (x : OpId) : f.SameAt f x :=
  rel_refl (fun op => ⟨op.parent, rfl⟩) _

theorem Forest.SameAt.result_bind_get {α : Type} {x : OpId} (h : f.SameAt g x)
    {k k' : Operation → Explaining α}
    (hk : ∀ a b, f.get? x = some a → a.Alike b → (k a).result = (k' b).result) :
    ((Traced.ofExcept (f.get x)).mapError ExplainError.forest >>= k).result =
      ((Traced.ofExcept (g.get x)).mapError ExplainError.forest >>= k').result := by
  unfold SameAt at h
  rw [get, get]
  generalize f.get? x = a, g.get? x = b at h hk
  cases h with
  | none => rfl
  | some h =>
    rw [Traced.mapError_ofExcept_ok, Traced.mapError_ofExcept_ok, pure_bind, pure_bind]
    exact hk _ _ rfl h

/-! Profiles and rules -/

theorem Profile.Agrees.outputEncoding_eq {p q : Profile} (h : p.Agrees q) (inputs : List Datum)
    (m : Encodings) : p.outputEncoding inputs m = q.outputEncoding inputs m := by
  have hungoverned : p.ungoverned = q.ungoverned := by
    rw [ungoverned, ungoverned, h.chart, h.defaultLook]
  rw [outputEncoding, outputEncoding, fallbackEncoding, fallbackEncoding, ← hungoverned,
    h.defaultLook]
  split
  · rename_i hp
    have hnone : p.chart = none ∧ p.defaultLook = none := by simpa [ungoverned] using hp
    rw [h.fallbacks hnone.1 hnone.2]
  · rfl

theorem Rules.AgreeOn.profileOf_cases (h : rules.AgreeOn others kinds) (hop : op.kind ∈ kinds) :
    (∃ e, rules.profileOf op = .error e ∧ others.profileOf op = .error e) ∨
    ∃ p q, rules.profileOf op = .ok p ∧ others.profileOf op = .ok q ∧ p.Agrees q := by
  have hprofile := h.profiles op.kind hop
  rw [profileOf, profileOf]
  generalize rules.profile? op.kind = p, others.profile? op.kind = q at hprofile
  cases hprofile with
  | none => exact Or.inl ⟨_, rfl, rfl⟩
  | some hagrees => exact Or.inr ⟨_, _, rfl, rfl, hagrees⟩

theorem Rules.AgreeOn.composes_eq (h : rules.AgreeOn others kinds) (child parent : Chart) :
    rules.composes child parent = others.composes child parent := by
  have hrule := h.compositions child parent
  change (rules.composition? child parent).isSome = (others.composition? child parent).isSome
  generalize rules.composition? child parent = r, others.composition? child parent = s at hrule
  cases hrule <;> rfl

namespace Panel
variable {p : Panel} {heads : List Panel} {wanted : Option Chart}

/-! The steps -/

theorem withDefaults_agrees {profile profile' : Profile} (h : profile.Agrees profile') :
    p.withDefaults profile op = p.withDefaults profile' op := by
  rw [withDefaults, withDefaults, h.outputEncoding_eq]

theorem compose_agrees {r s : Composition} (h : r.Agrees s) (child parent : Operation) :
    p.compose r child parent = p.compose s child parent := by
  rw [compose, compose, Composition.ties, Composition.ties, h.tie, h.resultChart]

theorem start_agrees (h : rules.AgreeOn others kinds) (hop : op.kind ∈ kinds) (d : Nat) :
    start op d rules = start op d others := by
  obtain ⟨e, he, he'⟩ | ⟨profile, profile', hp, hp', hagrees⟩ := h.profileOf_cases hop
  · rw [start, start, he, he']
  · simp only [start, hp, hp', Traced.ofExcept_ok, pure_bind, withDefaults_agrees hagrees,
      hagrees.chart]

theorem objection?_agrees (h : rules.AgreeOn others kinds) (p : Panel) (wanted : Option Chart) :
    p.objection? rules wanted = p.objection? others wanted := by
  simp only [objection?, h.composes_eq]

theorem joining_agrees (h : rules.AgreeOn others kinds) (wanted : Option Chart)
    (heads : List Panel) : joining rules wanted heads = joining others wanted heads := by
  simp only [joining, objection?_agrees h]

theorem orphans_agrees (h : rules.AgreeOn others kinds) (wanted : Option Chart)
    (heads : List Panel) : orphans rules wanted heads = orphans others wanted heads := by
  simp only [orphans, objection?_agrees h]

theorem settle_agrees (h : rules.AgreeOn others kinds) (htop : f.SameAt g p.top) :
    (p.settle wanted parent f rules).result = (p.settle wanted parent g others).result := by
  unfold settle
  split
  · rfl
  · rfl
  · rename_i own chart _
    have hrule := h.compositions own chart
    generalize rules.composition? own chart = r, others.composition? own chart = s at hrule
    cases hrule with
    | none => rfl
    | some hagrees =>
      refine htop.result_bind_get fun a b _ hab => ?_
      obtain ⟨above, rfl⟩ := hab
      rw [compose_agrees hagrees]
      rfl

theorem extend_agrees (h : rules.AgreeOn others kinds) (hparent : parent.kind ∈ kinds)
    (htop : f.SameAt g p.top) :
    (p.extend parent f rules).result = (p.extend parent g others).result := by
  obtain ⟨e, he, he'⟩ | ⟨profile, profile', hp, hp', hagrees⟩ := h.profileOf_cases hparent
  · rw [extend, extend, he, he']
  · have htop' : f.SameAt g (p.withDefaults profile' parent).top := by
      rwa [top_withDefaults]
    simp only [extend, hp, hp', Traced.result_bind, Traced.result_mapError, hagrees.chart,
      withDefaults_agrees hagrees, settle_agrees h htop']

theorem foldHeads_agrees (h : rules.AgreeOn others kinds) (hparent : parent.kind ∈ kinds)
    (hheads : ∀ head ∈ heads, f.SameAt g head.top) (own : Panel) :
    foldHeads parent wanted f rules own heads = foldHeads parent wanted g others own heads := by
  induction heads generalizing own with
  | nil => rfl
  | cons head heads ih =>
    have hhead : (foldHead parent wanted f rules own head).result =
        (foldHead parent wanted g others own head).result := by
      simp only [foldHead, Traced.result_bind, Traced.result_mapError,
        extend_agrees h hparent (hheads head (by simp))]
    have hrest (acc : Panel) := ih (fun p hp => hheads p (by simp [hp])) acc
    simp only [foldHeads] at hrest ⊢
    simp only [List.foldlM_cons, hhead, hrest]

/-- The shapes are looked at, but decide nothing. -/
theorem checkShapes_agrees (h : rules.AgreeOn others kinds) (profile profile' : Profile)
    (hchildren : ∀ c ∈ parent.children, f.SameAt g c ∧ ∀ op, f.get? c = some op → op.kind ∈ kinds) :
    (checkShapes profile parent f rules).result =
      (checkShapes profile' parent g others).result := by
  refine Traced.result_forM_congr fun c hc => ?_
  obtain ⟨hsame, hkinds⟩ := hchildren c hc
  refine hsame.result_bind_get fun a b ha hab => ?_
  obtain ⟨above, rfl⟩ := hab
  change (Traced.ofExcept (rules.profileOf a) >>= _).result =
    (Traced.ofExcept (others.profileOf a) >>= _).result
  obtain ⟨e, he, he'⟩ | ⟨p, q, hp, hq, -⟩ := h.profileOf_cases (hkinds a ha)
  · rw [he, he']
    rfl
  · rw [hp, hq, Traced.ofExcept_ok, Traced.ofExcept_ok, pure_bind, pure_bind]
    dsimp only
    split <;> split <;> rfl

theorem result_gather {profile : Profile} (hprofile : rules.profileOf parent = .ok profile)
    (d : Nat) (heads : List Panel) : (gather parent d heads f rules).result = (do
      (checkShapes profile parent f rules).result
      let own ← (start parent d rules).result
      let gathered ← foldHeads parent profile.chart f rules own
        (byTop (joining rules profile.chart heads))
      return byTop (orphans rules profile.chart heads) ++ [gathered]) := by
  rw [gather, hprofile, Traced.ofExcept_ok, pure_bind]
  simp only [Traced.result_bind, Traced.result_foldlM, foldHeads]
  rfl

theorem gather_agrees (h : rules.AgreeOn others kinds) (hparent : parent.kind ∈ kinds)
    (hchildren : ∀ c ∈ parent.children, f.SameAt g c ∧ ∀ op, f.get? c = some op → op.kind ∈ kinds)
    (hheads : ∀ head ∈ heads, f.SameAt g head.top) (d : Nat) :
    (gather parent d heads f rules).result = (gather parent d heads g others).result := by
  obtain ⟨e, he, he'⟩ | ⟨profile, profile', hp, hp', hagrees⟩ := h.profileOf_cases hparent
  · rw [gather, gather, he, he']
    rfl
  · have hjoining : ∀ head ∈ byTop (joining others profile'.chart heads), f.SameAt g head.top :=
      fun head hhead => hheads head (List.mem_of_mem_filter (mem_byTop.mp hhead))
    simp only [result_gather hp, result_gather hp', checkShapes_agrees h profile profile' hchildren,
      start_agrees h hparent, hagrees.chart, joining_agrees h, orphans_agrees h,
      foldHeads_agrees h hparent hjoining]

end Panel

end ChartFold
