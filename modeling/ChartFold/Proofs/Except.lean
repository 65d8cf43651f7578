import Mathlib.Data.List.Forall2

/-! Computations that may fail, taken apart at a success. A run over a list succeeds with a list
that matches it place by place. -/
namespace ChartFold.Except
variable {ε δ α β : Type}

theorem bind_eq_ok {x : Except ε α} {k : α → Except ε β} {b : β} :
    x >>= k = .ok b ↔ ∃ a, x = .ok a ∧ k a = .ok b := by
  cases x with
  | error e => exact ⟨nofun, nofun⟩
  | ok a =>
    constructor
    · intro h
      exact ⟨a, rfl, h⟩
    · intro ⟨_, h, hk⟩
      cases h
      exact hk

theorem bind_of_ok {x : Except ε α} {a : α} (h : x = .ok a) (k : α → Except ε β) :
    x >>= k = k a := by
  rw [h]
  rfl

theorem bind_of_error {x : Except ε α} {e : ε} (h : x = .error e) (k : α → Except ε β) :
    x >>= k = .error e := by
  rw [h]
  rfl

theorem bind_congr_ok {x : Except ε α} {k k' : α → Except ε β} (h : ∀ a, x = .ok a → k a = k' a) :
    x >>= k = x >>= k' := by
  cases x with
  | error e => rfl
  | ok a => exact h a rfl

theorem map_eq_ok {g : α → β} {x : Except ε α} {b : β} :
    g <$> x = .ok b ↔ ∃ a, x = .ok a ∧ g a = b := by
  cases x with
  | error e => exact ⟨nofun, nofun⟩
  | ok a => simp [Functor.map, Except.map]

theorem mapError_eq_ok {x : Except ε α} {wrap : ε → δ} {a : α} :
    x.mapError wrap = .ok a ↔ x = .ok a := by
  cases x with
  | error e => exact ⟨nofun, nofun⟩
  | ok b => simp [Except.mapError]

theorem isOk_congr {x : Except ε α} {y : Except δ β}
    (h : (∃ a, x = .ok a) ↔ ∃ b, y = .ok b) : x.isOk = y.isOk := by
  cases x with
  | ok a =>
    obtain ⟨b, hb⟩ := h.mp ⟨a, rfl⟩
    rw [hb]
    rfl
  | error e =>
    cases y with
    | ok b =>
      obtain ⟨a, ha⟩ := h.mpr ⟨b, rfl⟩
      cases ha
    | error e' => rfl

theorem mapM_eq_ok {l : List α} {f : α → Except ε β} {bs : List β} :
    l.mapM f = .ok bs ↔ List.Forall₂ (fun a b => f a = .ok b) l bs := by
  induction l generalizing bs with
  | nil =>
    rw [List.mapM_nil, List.forall₂_nil_left_iff]
    constructor
    · intro h
      cases h
      rfl
    · intro h
      rw [h]
      rfl
  | cons a l ih =>
    rw [List.mapM_cons, bind_eq_ok, List.forall₂_cons_left_iff]
    constructor
    · intro ⟨b, hb, h⟩
      obtain ⟨cs, hcs, h⟩ := bind_eq_ok.mp h
      cases h
      exact ⟨b, cs, hb, ih.mp hcs, rfl⟩
    · intro ⟨b, cs, hb, hcs, h⟩
      rw [h]
      exact ⟨b, hb, bind_eq_ok.mpr ⟨cs, ih.mpr hcs, rfl⟩⟩

theorem exists_left {R : α → β → Prop} {as : List α} {bs : List β} (h : List.Forall₂ R as bs)
    {b : β} (hb : b ∈ bs) : ∃ a ∈ as, R a b := by
  induction h with
  | nil => simp at hb
  | @cons a b' as bs hR _ ih =>
    obtain rfl | hb := List.mem_cons.mp hb
    · exact ⟨a, by simp, hR⟩
    · obtain ⟨a', ha', hR'⟩ := ih hb
      exact ⟨a', by simp [ha'], hR'⟩

theorem exists_right {R : α → β → Prop} {as : List α} {bs : List β} (h : List.Forall₂ R as bs)
    {a : α} (ha : a ∈ as) : ∃ b ∈ bs, R a b := exists_left h.flip ha

theorem exists_forall₂ {γ : Type} {R : α → β → Prop} {S : β → γ → Prop} {T : α → γ → Prop}
    {as : List α} {bs : List β} (h : List.Forall₂ R as bs)
    (step : ∀ a ∈ as, ∀ b, R a b → ∃ c, T a c ∧ S b c) :
    ∃ cs, List.Forall₂ T as cs ∧ List.Forall₂ S bs cs := by
  induction h with
  | nil => exact ⟨[], List.Forall₂.nil, List.Forall₂.nil⟩
  | @cons a b as bs hR _ ih =>
    obtain ⟨c, hT, hS⟩ := step a (by simp) b hR
    obtain ⟨cs, hTs, hSs⟩ := ih fun a' ha' => step a' (by simp [ha'])
    exact ⟨c :: cs, List.Forall₂.cons hT hTs, List.Forall₂.cons hS hSs⟩

theorem exists_forall₂_square {γ ω : Type} {R : α → β → Prop} {S : α → γ → Prop}
    {T : β → ω → Prop} {U : γ → ω → Prop} {as : List α} {bs : List β} {cs : List γ}
    (hR : List.Forall₂ R as bs) (hS : List.Forall₂ S as cs)
    (step : ∀ a ∈ as, ∀ b c, R a b → S a c → ∃ d, T b d ∧ U c d) :
    ∃ ds, List.Forall₂ T bs ds ∧ List.Forall₂ U cs ds := by
  induction hR generalizing cs with
  | nil =>
    cases hS
    exact ⟨[], List.Forall₂.nil, List.Forall₂.nil⟩
  | @cons a b as bs hab _ ih =>
    cases hS with
    | @cons _ c _ cs hac hS =>
      obtain ⟨d, hT, hU⟩ := step a (by simp) b c hab hac
      obtain ⟨ds, hTs, hUs⟩ := ih hS fun a' ha' => step a' (by simp [ha'])
      exact ⟨d :: ds, List.Forall₂.cons hT hTs, List.Forall₂.cons hU hUs⟩

theorem exists_forall₂_of_forall {R : α → β → Prop} {as : List α} (h : ∀ a ∈ as, ∃ b, R a b) :
    ∃ bs, List.Forall₂ R as bs := by
  induction as with
  | nil => exact ⟨[], List.Forall₂.nil⟩
  | cons a as ih =>
    obtain ⟨b, hb⟩ := h a (by simp)
    obtain ⟨bs, hbs⟩ := ih fun a' ha' => h a' (by simp [ha'])
    exact ⟨b :: bs, List.Forall₂.cons hb hbs⟩

end ChartFold.Except
