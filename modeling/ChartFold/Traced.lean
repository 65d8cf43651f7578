/-!
Computations that may fail and that leave a trace of events. What was noted before a failure stays
noted, and a computation can only add to the trace of what went before.
-/
namespace ChartFold

structure Traced (ω ε α : Type) where
  events : Array ω
  result : Except ε α

namespace Traced

variable {ω ε δ α β γ : Type}

@[ext] theorem ext_parts {x y : Traced ω ε α} (he : x.events = y.events)
    (hr : x.result = y.result) : x = y := by
  cases x; cases y; simp_all

protected def pure (a : α) : Traced ω ε α := ⟨#[], .ok a⟩

protected def bind (x : Traced ω ε α) (f : α → Traced ω ε β) : Traced ω ε β :=
  match x with
  | ⟨events, .error e⟩ => ⟨events, .error e⟩
  | ⟨events, .ok a⟩ =>
    let y := f a
    ⟨events ++ y.events, y.result⟩

instance : Monad (Traced ω ε) where
  pure := Traced.pure
  bind := Traced.bind

def note (event : ω) : Traced ω ε Unit := ⟨#[event], .ok ()⟩

def noteAll (events : Array ω) : Traced ω ε Unit := ⟨events, .ok ()⟩

def fail (e : ε) : Traced ω ε α := ⟨#[], .error e⟩

def ofExcept (x : Except ε α) : Traced ω ε α := ⟨#[], x⟩

def mapError (f : ε → δ) (x : Traced ω ε α) : Traced ω δ α := ⟨x.events, x.result.mapError f⟩

@[simp] theorem events_pure (a : α) : (pure a : Traced ω ε α).events = #[] := rfl

@[simp] theorem result_pure (a : α) : (pure a : Traced ω ε α).result = .ok a := rfl

@[simp] theorem events_note (event : ω) : (note event : Traced ω ε Unit).events = #[event] := rfl

@[simp] theorem result_note (event : ω) : (note event : Traced ω ε Unit).result = .ok () := rfl

@[simp] theorem result_noteAll (events : Array ω) :
    (noteAll events : Traced ω ε Unit).result = .ok () := rfl

@[simp] theorem result_fail (e : ε) : (fail e : Traced ω ε α).result = .error e := rfl

@[simp] theorem result_ofExcept (x : Except ε α) : (ofExcept x : Traced ω ε α).result = x := rfl

@[simp] theorem result_mapError (f : ε → δ) (x : Traced ω ε α) :
    (x.mapError f).result = x.result.mapError f := rfl

theorem ofExcept_ok (a : α) : (ofExcept (.ok a) : Traced ω ε α) = pure a := rfl

theorem mapError_ofExcept_ok (f : ε → δ) (a : α) :
    (ofExcept (.ok a) : Traced ω ε α).mapError f = pure a := rfl

@[simp] theorem result_bind (x : Traced ω ε α) (f : α → Traced ω ε β) :
    (x >>= f).result = x.result >>= fun a => (f a).result := by
  rcases x with ⟨events, _ | a⟩ <;> rfl

theorem events_bind_ok {x : Traced ω ε α} {a : α} (h : x.result = .ok a) (f : α → Traced ω ε β) :
    (x >>= f).events = x.events ++ (f a).events := by
  rcases x with ⟨events, _ | b⟩
  · cases h
  · cases h; rfl

theorem events_bind_error {x : Traced ω ε α} {e : ε} (h : x.result = .error e)
    (f : α → Traced ω ε β) : (x >>= f).events = x.events := by
  rcases x with ⟨events, _ | b⟩
  · rfl
  · cases h

@[simp] theorem result_map (f : α → β) (x : Traced ω ε α) :
    (f <$> x).result = f <$> x.result := by
  rcases x with ⟨events, _ | a⟩ <;> rfl

theorem result_foldlM (f : β → α → Traced ω ε β) (l : List α) (b : β) :
    (l.foldlM f b).result = l.foldlM (fun b a => (f b a).result) b := by
  induction l generalizing b with
  | nil => rfl
  | cons a l ih => simp [List.foldlM_cons, ih]

instance : LawfulMonad (Traced ω ε) := by
  refine LawfulMonad.mk' _ (fun x => ?_) (fun a f => ?_) (fun x f g => ?_)
  · rcases x with ⟨events, _ | a⟩ <;> simp [Functor.map, Traced.bind, Traced.pure]
  · simp [pure, bind, Traced.bind, Traced.pure]
  · rcases x with ⟨events, _ | a⟩
    · rfl
    · rcases h : f a with ⟨more, _ | b⟩ <;> simp [bind, Traced.bind, h, Array.append_assoc]

/-- What follows a computation is only ever run on what that returns. -/
theorem bind_congr_ok {x : Traced ω ε α} {f g : α → Traced ω ε β}
    (h : ∀ a, x.result = .ok a → f a = g a) : x >>= f = x >>= g := by
  rcases x with ⟨events, _ | a⟩
  · rfl
  · simp [bind, Traced.bind, h a rfl]

theorem result_mapM (f : α → Traced ω ε β) (l : List α) :
    (l.mapM f).result = l.mapM fun a => (f a).result := by
  induction l with
  | nil => rfl
  | cons a l ih => simp [ih]

theorem result_forM_eq_ok {f : α → Traced ω ε Unit} {l : List α} :
    (l.forM f).result = .ok () ↔ ∀ a ∈ l, (f a).result = .ok () := by
  induction l with
  | nil => exact ⟨fun _ _ h => (List.not_mem_nil h).elim, fun _ => rfl⟩
  | cons a l ih =>
    change (f a >>= fun _ => l.forM f).result = .ok () ↔ _
    rw [result_bind, List.forall_mem_cons, ← ih]
    cases (f a).result with
    | error e => exact ⟨nofun, fun h => nomatch h.1⟩
    | ok _ => exact ⟨fun h => ⟨rfl, h⟩, fun h => h.2⟩

theorem result_forM_congr {f g : α → Traced ω ε Unit} {l : List α}
    (h : ∀ a ∈ l, (f a).result = (g a).result) : (l.forM f).result = (l.forM g).result := by
  induction l with
  | nil => rfl
  | cons a l ih =>
    change (f a >>= fun _ => l.forM f).result = (g a >>= fun _ => l.forM g).result
    rw [result_bind, result_bind, h a (by simp), ih fun b hb => h b (by simp [hb])]

theorem mapM_congr {l : List α} {f g : α → Traced ω ε β} (h : ∀ a ∈ l, f a = g a) :
    l.mapM f = l.mapM g := by
  induction l with
  | nil => rfl
  | cons a l ih =>
    rw [List.mapM_cons, List.mapM_cons, h a (by simp), ih fun b hb => h b (by simp [hb])]

theorem result_mapM_congr {l : List α} {f g : α → Traced ω ε β}
    (h : ∀ a ∈ l, (f a).result = (g a).result) : (l.mapM f).result = (l.mapM g).result := by
  induction l with
  | nil => rfl
  | cons a l ih =>
    simp only [List.mapM_cons, result_bind, h a (by simp), ih fun b hb => h b (by simp [hb])]

theorem foldl_bind (f : β → α → Traced ω ε β) (l : List α) (x : Traced ω ε β) :
    l.foldl (fun done a => done >>= (f · a)) x = x >>= fun b => l.foldlM f b := by
  induction l generalizing x with
  | nil => simp
  | cons a l ih => simp [ih, bind_assoc]

end Traced

end ChartFold
