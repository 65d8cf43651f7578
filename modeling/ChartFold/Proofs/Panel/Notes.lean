import ChartFold.Proofs.Forest.Reachable
import ChartFold.Proofs.Panel.Frame

/-! What is noted while panels are started, checked and gathered. Extending a head notes refused
adoptions and dropped patches and nothing else, so of all other kinds of events a family notes those
that follow from the operation, its children and the heads. -/
namespace ChartFold

namespace Traced
variable {ω ε α β : Type} {keep : ω → Bool} {x : Traced ω ε α} {a : α}

def noted (keep : ω → Bool) (x : Traced ω ε α) : List ω := x.events.toList.filter keep

@[simp] theorem noted_pure (a : α) : (pure a : Traced ω ε α).noted keep = [] := rfl

@[simp] theorem noted_noteAll (events : Array ω) :
    (noteAll events : Traced ω ε Unit).noted keep = events.toList.filter keep := rfl

@[simp] theorem noted_ofExcept (x : Except ε α) :
    (ofExcept x : Traced ω ε α).noted keep = [] := rfl

theorem noted_bind_of_ok (h : x.result = .ok a) (k : α → Traced ω ε β) :
    (x >>= k).noted keep = x.noted keep ++ (k a).noted keep := by
  simp only [noted, events_bind_ok h, Array.toList_append, List.filter_append]

theorem noted_bind_of_error {e : ε} (h : x.result = .error e) (k : α → Traced ω ε β) :
    (x >>= k).noted keep = x.noted keep := by
  rw [noted, events_bind_error h, noted]

theorem noted_bind_eq_nil {k : α → Traced ω ε β} (hx : x.noted keep = [])
    (hk : ∀ a, (k a).noted keep = []) : (x >>= k).noted keep = [] := by
  cases h : x.result with
  | error e => rw [noted_bind_of_error h, hx]
  | ok a => rw [noted_bind_of_ok h, hx, hk a, List.append_nil]

theorem noted_bind_pure (x : Traced ω ε α) (g : α → β) :
    (x >>= fun a => pure (g a)).noted keep = x.noted keep := by
  cases h : x.result with
  | error e => rw [noted_bind_of_error h]
  | ok a => rw [noted_bind_of_ok h, noted_pure, List.append_nil]

theorem noted_mapM_eq_nil {f : α → Traced ω ε β} {l : List α}
    (h : ∀ a ∈ l, (f a).noted keep = []) : (l.mapM f).noted keep = [] := by
  induction l with
  | nil => rfl
  | cons a l ih =>
    rw [List.mapM_cons]
    refine noted_bind_eq_nil (h a (by simp)) fun b => noted_bind_eq_nil ?_ fun bs => rfl
    exact ih fun a' ha' => h a' (by simp [ha'])

theorem noted_forM_eq_nil {f : α → Traced ω ε Unit} {l : List α}
    (h : ∀ a ∈ l, (f a).noted keep = []) : (l.forM f).noted keep = [] := by
  induction l with
  | nil => rfl
  | cons a l ih =>
    exact noted_bind_eq_nil (h a (by simp)) fun _ => ih fun a' ha' => h a' (by simp [ha'])

theorem noted_foldlM_eq_nil {f : β → α → Traced ω ε β} (h : ∀ b a, (f b a).noted keep = [])
    (l : List α) (b : β) : (l.foldlM f b).noted keep = [] := by
  induction l generalizing b with
  | nil => rfl
  | cons a l ih =>
    rw [List.foldlM_cons]
    exact noted_bind_eq_nil (h b a) ih

theorem noted_mapM_of_ok {f : α → Traced ω ε β} {l : List α} {bs : List β}
    (h : (l.mapM f).result = .ok bs) :
    (l.mapM f).noted keep = l.flatMap fun a => (f a).noted keep := by
  induction l generalizing bs with
  | nil => rfl
  | cons a l ih =>
    rw [List.mapM_cons, result_bind, Except.bind_eq_ok] at h
    obtain ⟨b, hb, h⟩ := h
    rw [result_bind, Except.bind_eq_ok] at h
    obtain ⟨bs', hbs, -⟩ := h
    rw [List.mapM_cons, noted_bind_of_ok hb, noted_bind_of_ok hbs, noted_pure, List.append_nil,
      ih hbs, List.flatMap_cons]

theorem noted_forM_of_ok {f : α → Traced ω ε Unit} {l : List α}
    (h : (l.forM f).result = .ok ()) :
    (l.forM f).noted keep = l.flatMap fun a => (f a).noted keep := by
  induction l with
  | nil => rfl
  | cons a l ih =>
    rw [result_forM_eq_ok, List.forall_mem_cons] at h
    change (f a >>= fun _ => l.forM f).noted keep = _
    rw [noted_bind_of_ok h.1, ih (result_forM_eq_ok.mpr h.2), List.flatMap_cons]

end Traced

def Event.hasMessage (text : String) (e : Event) : Bool := e.message == text

theorem Event.filter_hasMessage {events : List Event} {kind : String}
    (h : ∀ e ∈ events, e.message = kind) (text : String) :
    events.filter (Event.hasMessage text) = if text = kind then events else [] := by
  split
  · subst text
    exact List.filter_eq_self.mpr fun e he => beq_iff_eq.mpr (h e he)
  · rename_i hne
    refine List.filter_eq_nil_iff.mpr fun e he hmessage => hne ?_
    rw [← h e he, beq_iff_eq.mp hmessage]

/-- Takes no notice of what is noted while panels are extended and drawn. -/
structure Event.Undrawn (keep : Event → Bool) : Prop where
  adoption : ∀ parent reason, keep (.adoptionRefused parent reason) = false
  patch : ∀ key patch, keep (.patchDropped key patch) = false

namespace Panel
open Traced
variable {p : Panel} {rules : Rules} {forest : Forest} {op parent : Operation} {profile : Profile}
  {keep : Event → Bool} {own : Panel} {heads : List Panel} {d : Nat}

theorem noted_writeAll (hkeep : Event.Undrawn keep) (p : Panel) (patches : List (Datum × Patch)) :
    (p.writeAll patches).noted keep = [] := by
  rw [noted, writeAll, List.filter_eq_nil_iff]
  intro e he
  obtain ⟨⟨key, patch⟩, -, rfl⟩ := List.mem_map.mp he
  rw [hkeep.patch]
  exact Bool.false_ne_true

theorem noted_draw (hkeep : Event.Undrawn keep) (p : Panel) (chart : Chart) (op : Operation) :
    (p.draw chart op).noted keep = [] := noted_writeAll hkeep _ _

theorem noted_adopt (hkeep : Event.Undrawn keep) (p : Panel) (chart : Chart) (op : Operation)
    (refused : ExplainError → Event) : (p.adopt chart op refused).noted keep =
      ((p.unmet? chart op).map refused).toList.filter keep := by
  rw [adopt]
  cases p.unmet? chart op with
  | none => exact noted_draw hkeep p chart op
  | some reason => exact (noted_bind_of_ok rfl _).trans (List.append_nil _)

theorem noted_compose (hkeep : Event.Undrawn keep) (p : Panel) (rule : Composition)
    (child parent : Operation) : (p.compose rule child parent).noted keep = [] :=
  noted_bind_eq_nil (noted_writeAll hkeep _ _) fun tied => noted_draw hkeep tied _ _

theorem noted_settle (hkeep : Event.Undrawn keep) (p : Panel) (wanted : Option Chart)
    (parent : Operation) (forest : Forest) (rules : Rules) :
    (p.settle wanted parent forest rules).noted keep = [] := by
  unfold settle
  split
  · rfl
  · rename_i chart _
    rw [noted_adopt hkeep]
    cases p.unmet? chart parent <;> simp [hkeep.adoption]
  · split
    · rfl
    · exact noted_bind_eq_nil rfl fun child => noted_compose hkeep _ _ _ _

theorem noted_extend (hkeep : Event.Undrawn keep) (p : Panel) (parent : Operation)
    (forest : Forest) (rules : Rules) : (p.extend parent forest rules).noted keep = [] := by
  rw [extend]
  split
  · rfl
  · exact noted_bind_eq_nil (noted_settle hkeep _ _ _ _ _) fun _ => rfl

theorem noted_foldHead (hkeep : Event.Undrawn keep) (parent : Operation) (declared : Option Chart)
    (forest : Forest) (rules : Rules) (acc head : Panel) :
    (foldHead parent declared forest rules acc head).noted keep = [] :=
  noted_bind_eq_nil (noted_extend hkeep head parent forest rules) fun _ => rfl

/-- Why the chart that an operation declares is refused when the operation starts, if it is. -/
def refusal? (rules : Rules) (op : Operation) : Option ExplainError := do
  let profile ← rules.profile? op.kind
  let chart ← profile.chart
  ((blank op.id 0).withDefaults profile op).unmet? chart op

def startedUnbound? (rules : Rules) (op : Operation) : Option Event :=
  (refusal? rules op).map (.startedUnbound op.name)

def mismatch? (profile : Profile) (parent : Operation) (forest : Forest) (rules : Rules)
    (child : OpId) : Option Event := do
  let op ← forest.get? child
  let produced := (← rules.profile? op.kind).product
  if profile.operand.takes produced then none
  else some (.shapeMismatch parent.name op.name profile.operand produced)

def ownEvents (profile : Profile) (op : Operation) (forest : Forest) (rules : Rules) :
    List Event :=
  op.children.filterMap (mismatch? profile op forest rules) ++ (startedUnbound? rules op).toList

theorem unmet?_blank (profile : Profile) (op : Operation) (chart : Chart) (d : Nat) :
    ((blank op.id d).withDefaults profile op).unmet? chart op =
      ((blank op.id 0).withDefaults profile op).unmet? chart op := by
  have hencodings : ((blank op.id d).withDefaults profile op).encodings =
      ((blank op.id 0).withDefaults profile op).encodings := by
    simp only [withDefaults, blank]
    cases profile.outputEncoding op.inputs .empty <;> rfl
  rw [unmet?, unmet?, hencodings]

theorem noted_start (hkeep : Event.Undrawn keep) (op : Operation) (d : Nat) (rules : Rules) :
    (start op d rules).noted keep = (startedUnbound? rules op).toList.filter keep := by
  rw [start, startedUnbound?, refusal?, Rules.profileOf]
  cases rules.profile? op.kind with
  | none => rfl
  | some profile =>
    rw [noted_bind_of_ok rfl]
    simp only [noted_ofExcept, List.nil_append, Option.bind_eq_bind, Option.bind_some]
    cases profile.chart with
    | none => rfl
    | some chart => simp only [noted_adopt hkeep, unmet?_blank, Option.bind_some]

theorem noted_checkShapes (h : (checkShapes profile parent forest rules).result = .ok ()) :
    (checkShapes profile parent forest rules).noted keep =
      (parent.children.filterMap (mismatch? profile parent forest rules)).filter keep := by
  have hchecked := result_forM_eq_ok.mp h
  rw [checkShapes, noted_forM_of_ok h, List.filterMap_eq_flatMap_toList, List.filter_flatMap]
  refine List.flatMap_congr fun c hc => ?_
  obtain ⟨child, hchild, hknown⟩ :=
    Except.bind_eq_ok.mp ((result_bind _ _).symm.trans (hchecked c hc))
  obtain ⟨below, hbelow, -⟩ := Except.bind_eq_ok.mp ((result_bind _ _).symm.trans hknown)
  rw [result_mapError, Except.mapError_eq_ok, result_ofExcept] at hchild
  rw [result_ofExcept] at hbelow
  rw [hchild, mapError_ofExcept_ok, pure_bind, hbelow, ofExcept_ok, pure_bind]
  simp only [mismatch?, Forest.get_eq_ok_iff.mp hchild, Rules.profileOf_eq_ok.mp hbelow,
    Option.bind_eq_bind, Option.bind_some]
  split <;> rfl

theorem noted_foldlM_foldHead (hkeep : Event.Undrawn keep) (parent : Operation)
    (declared : Option Chart) (forest : Forest) (rules : Rules) (heads : List Panel) (own : Panel) :
    (heads.foldlM (foldHead parent declared forest rules) own).noted keep = [] :=
  noted_foldlM_eq_nil (noted_foldHead hkeep parent declared forest rules) heads own

/-- A family that is gathered notes, besides what the operation does in any case, the heads that are
handed up. -/
theorem noted_gather (hkeep : Event.Undrawn keep)
    (hprofile : rules.profile? parent.kind = some profile)
    (hshapes : (checkShapes profile parent forest rules).result = .ok ())
    (hown : (start parent d rules).result = .ok own) :
    (gather parent d heads forest rules).noted keep =
      (ownEvents profile parent forest rules ++ (orphans rules profile.chart heads).flatMap
        (orphanEvents rules parent profile.chart)).filter keep := by
  rw [gather, Rules.profileOf_eq_ok.mpr hprofile, ofExcept_ok, pure_bind, noted_bind_of_ok hshapes,
    noted_checkShapes hshapes, noted_bind_of_ok hown, noted_start hkeep,
    noted_bind_of_ok (result_noteAll _),
    noted_bind_eq_nil (noted_foldlM_foldHead hkeep _ _ _ _ _ _) fun _ => rfl]
  simp only [ownEvents, noted_noteAll, List.filter_append, List.append_nil, List.append_assoc]

/-! The kinds of these events -/

theorem message_mismatch? {child : OpId} {e : Event}
    (h : mismatch? profile parent forest rules child = some e) :
    e.message = "data shape mismatch" := by
  simp only [mismatch?, Option.bind_eq_bind, Option.bind_eq_some_iff] at h
  obtain ⟨op, -, below, -, h⟩ := h
  split at h <;> cases h
  rfl

theorem message_startedUnbound? {e : Event} (h : startedUnbound? rules op = some e) :
    e.message = "seeded unbound" := by
  obtain ⟨reason, -, rfl⟩ := Option.map_eq_some_iff.mp h
  rfl

theorem filter_hasMessage_orphanEvents {text : String} (hobjected : text ≠ "not mergeable")
    (horphaned : text ≠ "orphaned child container") (rules : Rules) (parent : Operation)
    (wanted : Option Chart) (heads : List Panel) :
    (heads.flatMap (orphanEvents rules parent wanted)).filter (Event.hasMessage text) = [] := by
  refine List.filter_eq_nil_iff.mpr fun e he hmessage => ?_
  obtain ⟨head, -, he⟩ := List.mem_flatMap.mp he
  rw [Event.hasMessage, beq_iff_eq] at hmessage
  unfold orphanEvents at he
  split at he
  · obtain rfl | he := List.mem_cons.mp he
    · exact hobjected hmessage.symm
    · rw [List.mem_singleton.mp he] at hmessage
      exact horphaned hmessage.symm
  · cases he

theorem filter_hasMessage_ownEvents (text : String) (profile : Profile) (op : Operation)
    (forest : Forest) (rules : Rules) :
    (ownEvents profile op forest rules).filter (Event.hasMessage text) =
      (if text = "data shape mismatch"
        then op.children.filterMap (mismatch? profile op forest rules) else []) ++
      (if text = "seeded unbound" then (startedUnbound? rules op).toList else []) := by
  rw [ownEvents, List.filter_append, Event.filter_hasMessage, Event.filter_hasMessage]
  · intro e he
    exact message_startedUnbound? (Option.mem_toList.mp he)
  · intro e he
    obtain ⟨child, -, h⟩ := List.mem_filterMap.mp he
    exact message_mismatch? h

theorem length_filter_orphanEvents (hkeep : ∀ reason chart,
      ([Event.objected parent.name reason, .orphaned parent.name chart].filter keep).length = 1)
    (rules : Rules) (wanted : Option Chart) (heads : List Panel) :
    (((orphans rules wanted heads).flatMap (orphanEvents rules parent wanted)).filter keep).length =
      (orphans rules wanted heads).length := by
  have hone : ∀ head ∈ orphans rules wanted heads,
      ((orphanEvents rules parent wanted head).filter keep).length = 1 := by
    intro head hhead
    obtain ⟨reason, hreason⟩ := Option.isSome_iff_exists.mp (List.mem_filter.mp hhead).2
    rw [orphanEvents, hreason]
    exact hkeep reason head.chart
  rw [List.filter_flatMap, List.length_flatMap, List.map_congr_left hone]
  simp

/-! Whether it fails or not, no family sums up a tree. -/

theorem undrawn_summary : Event.Undrawn (Event.hasMessage "resolved tree") :=
  ⟨fun _ _ => rfl, fun _ _ => rfl⟩

theorem noted_start_summary (op : Operation) (d : Nat) (rules : Rules) :
    (start op d rules).noted (Event.hasMessage "resolved tree") = [] := by
  rw [noted_start undrawn_summary, Event.filter_hasMessage fun e he =>
    message_startedUnbound? (Option.mem_toList.mp he), if_neg (by decide)]

theorem noted_checkShapes_summary (profile : Profile) (parent : Operation) (forest : Forest)
    (rules : Rules) :
    (checkShapes profile parent forest rules).noted (Event.hasMessage "resolved tree") = [] := by
  refine noted_forM_eq_nil fun c _ => ?_
  refine noted_bind_eq_nil rfl fun op => noted_bind_eq_nil rfl fun below => ?_
  dsimp only
  split <;> rfl

theorem noted_gather_summary (parent : Operation) (d : Nat) (heads : List Panel)
    (forest : Forest) (rules : Rules) :
    (gather parent d heads forest rules).noted (Event.hasMessage "resolved tree") = [] := by
  refine noted_bind_eq_nil rfl fun profile => ?_
  refine noted_bind_eq_nil (noted_checkShapes_summary profile parent forest rules) fun _ => ?_
  refine noted_bind_eq_nil (noted_start_summary parent d rules) fun own => ?_
  refine noted_bind_eq_nil ?_ fun _ => ?_
  · exact filter_hasMessage_orphanEvents (by decide) (by decide) rules parent profile.chart _
  · exact noted_bind_eq_nil (noted_foldlM_foldHead undrawn_summary _ _ _ _ _ _) fun _ => rfl

end Panel

end ChartFold
