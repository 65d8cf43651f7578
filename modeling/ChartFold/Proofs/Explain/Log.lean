import ChartFold.Proofs.Explain.Level
import ChartFold.Proofs.Panel.Notes

/-! The log of a tree that is explained. Every operation is started once, every link is checked once
and every head is tested once, so the log tells the operations, the links and the panels. -/
namespace ChartFold.Forest
open Panel Traced
variable {f : Forest} {rules : Rules} {res : OpId → Nat → Explaining (List Panel)}
  {op : Operation} {id root : OpId} {d : Nat} {list : List Panel} {lists : List (List Panel)}
  {profile : Profile} {own gathered : Panel} {keep : Event → Bool} {ids : List OpId}
  {visits : List Visit}

def startedUnbound? (f : Forest) (rules : Rules) (id : OpId) : Option Event :=
  (f.get? id).bind (Panel.startedUnbound? rules)

def mismatch? (f : Forest) (rules : Rules) (link : OpId × OpId) : Option Event := do
  let parent ← f.get? link.1
  let profile ← rules.profile? parent.kind
  Panel.mismatch? profile parent f rules link.2

def linksOf (f : Forest) (tree : List OpId) : List (OpId × OpId) :=
  tree.flatMap fun p => (f.children p).map fun c => (p, c)

theorem mem_linksOf (h : f.WellFormed) {tree : List OpId} {p c : OpId} :
    (p, c) ∈ f.linksOf tree ↔ p ∈ tree ∧ f.parent? c = some p := by
  simp only [linksOf, List.mem_flatMap, List.mem_map, Prod.mk.injEq, ← h.mem_children]
  constructor
  · rintro ⟨_, hp, _, hc, rfl, rfl⟩
    exact ⟨hp, hc⟩
  · intro ⟨hp, hc⟩
    exact ⟨p, hp, c, hc, rfl, rfl⟩

theorem nodup_linksOf (h : f.WellFormed) {tree : List OpId} (htree : tree.Nodup) :
    (f.linksOf tree).Nodup := by
  refine List.nodup_flatMap.mpr ⟨fun p _ => (h.nodup_children p).map fun a b hab => ?_, ?_⟩
  · exact (Prod.mk.inj hab).2
  · refine htree.imp fun {p q} hne link hp hq => hne ?_
    obtain ⟨_, -, rfl⟩ := List.mem_map.mp hp
    obtain ⟨_, -, hlink⟩ := List.mem_map.mp hq
    exact (Prod.mk.inj hlink).1.symm

theorem filterMap_linksOf (tree : List OpId) : (f.linksOf tree).filterMap (f.mismatch? rules) =
    tree.flatMap fun p => (f.children p).filterMap fun c => f.mismatch? rules (p, c) := by
  simp only [linksOf, List.filterMap_flatMap, List.filterMap_map, Function.comp_def]

theorem filter_hasMessage_of_get? (hop : f.get? op.id = some op)
    (hprofile : rules.profile? op.kind = some profile) (text : String) :
    (ownEvents profile op f rules).filter (Event.hasMessage text) =
      (if text = "data shape mismatch"
        then (f.children op.id).filterMap fun c => f.mismatch? rules (op.id, c) else []) ++
      (if text = "seeded unbound" then (f.startedUnbound? rules op.id).toList else []) := by
  simp [filter_hasMessage_ownEvents, children_of_get? hop, mismatch?, startedUnbound?, hop,
    hprofile]

/-- One level of the recursion notes what the trees below note, then what the operation does by
itself, then the heads that it hands up. -/
theorem Level.noted (hlevel : f.Level rules res op d list lists profile own gathered)
    (hres : f.Recursion rules res) (hkeep : Event.Undrawn keep) :
    (res op.id d).noted keep = (op.children.flatMap fun c => (res c (d + 1)).noted keep) ++
      (ownEvents profile op f rules ++
        (orphans rules profile.chart (lists.filterMap List.getLast?)).flatMap
          (orphanEvents rules op profile.chart)).filter keep := by
  rw [hres op.id op d hlevel.found, explainBy]
  by_cases hleaf : op.isLeaf
  · have hnil : op.children = [] := List.isEmpty_iff.mp hleaf
    have hlists : lists = [] := by
      have hchildren := hlevel.children
      rwa [hnil, List.forall₂_nil_left_iff] at hchildren
    rw [if_pos hleaf, noted_bind_pure, noted_start hkeep]
    simp [ownEvents, hnil, hlists]
  · have hmapM : (op.children.mapM (res · (d + 1))).result = .ok lists := by
      rw [result_mapM, Except.mapM_eq_ok]
      exact hlevel.children
    rw [if_neg hleaf, noted_bind_of_ok hmapM, noted_mapM_of_ok hmapM, noted_bind_pure,
      noted_gather hkeep hlevel.known hlevel.shapes hlevel.starts]

theorem Recursion.noted_visits (h : f.WellFormed) (hres : f.Recursion rules res) (text : String)
    (hkeep : Event.Undrawn (Event.hasMessage text)) (hobjected : text ≠ "not mergeable")
    (horphaned : text ≠ "orphaned child container") (hp : f.PostOrdered ids d visits)
    (hlists : List.Forall₂ (fun id list => (res id d).result = .ok list) ids lists) :
    (ids.flatMap fun id => (res id d).noted (Event.hasMessage text)) =
      (visits.map Visit.id).flatMap fun x =>
        (if text = "data shape mismatch"
          then (f.children x).filterMap fun c => f.mismatch? rules (x, c) else []) ++
        (if text = "seeded unbound" then (f.startedUnbound? rules x).toList else []) := by
  induction hp generalizing lists with
  | nil => rfl
  | @cons id op ids d below rest hop _ _ ihbelow ihrest =>
    obtain rfl := h.numbered id op hop
    cases hlists with
    | @cons _ list _ lists hlist hrest =>
      obtain ⟨inner, profile, own, gathered, hlevel⟩ := (hres.eq_ok_iff hop).mp hlist
      rw [List.flatMap_cons, hlevel.noted hres hkeep, ihbelow hlevel.children, ihrest hrest,
        List.filter_append, filter_hasMessage_orphanEvents hobjected horphaned, List.append_nil,
        filter_hasMessage_of_get? hop hlevel.known, List.map_append, List.map_cons,
        List.flatMap_append, List.flatMap_cons, List.append_assoc]

theorem Recursion.noted_mismatches (h : f.WellFormed) (hres : f.Recursion rules res)
    (hp : f.PostOrdered [id] d visits) (hlist : (res id d).result = .ok list) :
    (res id d).noted (Event.hasMessage "data shape mismatch") =
      (f.linksOf (visits.map Visit.id)).filterMap (f.mismatch? rules) := by
  have hvisits := hres.noted_visits h "data shape mismatch"
    ⟨fun _ _ => rfl, fun _ _ => rfl⟩ (by decide) (by decide) hp
    (List.Forall₂.cons hlist List.Forall₂.nil)
  simpa [filterMap_linksOf] using hvisits

theorem Recursion.noted_unbound (h : f.WellFormed) (hres : f.Recursion rules res)
    (hp : f.PostOrdered [id] d visits) (hlist : (res id d).result = .ok list) :
    (res id d).noted (Event.hasMessage "seeded unbound") =
      (visits.map Visit.id).filterMap (f.startedUnbound? rules) := by
  have hvisits := hres.noted_visits h "seeded unbound"
    ⟨fun _ _ => rfl, fun _ _ => rfl⟩ (by decide) (by decide) hp
    (List.Forall₂.cons hlist List.Forall₂.nil)
  simpa [List.filterMap_eq_flatMap_toList] using hvisits

theorem length_heads (h : ∀ list ∈ lists, list ≠ []) :
    (lists.filterMap List.getLast?).length = lists.length := by
  induction lists with
  | nil => rfl
  | cons list lists ih =>
    obtain ⟨hlist, h⟩ := List.forall_mem_cons.mp h
    rw [List.filterMap_cons_some (List.getLast?_eq_some_getLast hlist), List.length_cons, ih h,
      List.length_cons]

theorem Level.length (hlevel : f.Level rules res op d list lists profile own gathered)
    (hres : f.Recursion rules res) :
    list.length + op.children.length = lists.flatten.length +
      (orphans rules profile.chart (lists.filterMap List.getLast?)).length + 1 := by
  have hne : ∀ list ∈ lists, list ≠ [] := by
    intro list hlist
    obtain ⟨c, hc, hok⟩ := Except.exists_left hlevel.children hlist
    obtain ⟨child, -, hchild, -⟩ := checkShapes_eq_ok.mp hlevel.shapes c hc
    exact hres.ne_nil hchild hok
  have hcarried := (carried_append_heads_perm lists).length_eq
  rw [List.length_append, length_heads hne, ← hlevel.children.length_eq] at hcarried
  rw [hlevel.leaves, passed, List.length_append, List.length_append, (byTop_perm _).length_eq,
    List.length_singleton]
  omega

/-- A text that is noted once for each orphan is noted as often as panels are handed up beside the
last ones. -/
theorem Recursion.length_noted (h : f.WellFormed) (hres : f.Recursion rules res) (text : String)
    (hkeep : Event.Undrawn (Event.hasMessage text)) (hmismatch : text ≠ "data shape mismatch")
    (hunbound : text ≠ "seeded unbound")
    (hpair : ∀ name reason chart, ([Event.objected name reason, .orphaned name chart].filter
      (Event.hasMessage text)).length = 1)
    (hp : f.PostOrdered ids d visits)
    (hlists : List.Forall₂ (fun id list => (res id d).result = .ok list) ids lists) :
    (ids.flatMap fun id => (res id d).noted (Event.hasMessage text)).length + ids.length =
      lists.flatten.length := by
  induction hp generalizing lists with
  | nil =>
    cases hlists
    rfl
  | @cons id op ids d below rest hop _ _ ihbelow ihrest =>
    obtain rfl := h.numbered id op hop
    cases hlists with
    | @cons _ list _ lists hlist hrest =>
      obtain ⟨inner, profile, own, gathered, hlevel⟩ := (hres.eq_ok_iff hop).mp hlist
      have hbelow := ihbelow hlevel.children
      have hbeside := ihrest hrest
      have hlength := hlevel.length hres
      rw [List.flatMap_cons, hlevel.noted hres hkeep, List.filter_append,
        filter_hasMessage_ownEvents, if_neg hmismatch, if_neg hunbound, List.append_nil,
        List.nil_append, List.length_append, List.length_append,
        length_filter_orphanEvents (hpair op.name), List.flatten_cons, List.length_append,
        List.length_cons]
      omega

theorem Recursion.length_orphaned (h : f.WellFormed) (hres : f.Recursion rules res)
    (hp : f.PostOrdered [id] d visits) (hlist : (res id d).result = .ok list) :
    ((res id d).noted (Event.hasMessage "orphaned child container")).length + 1 = list.length := by
  simpa using hres.length_noted h "orphaned child container"
    ⟨fun _ _ => rfl, fun _ _ => rfl⟩ (by decide) (by decide) (fun _ _ _ => rfl) hp
    (List.Forall₂.cons hlist List.Forall₂.nil)

theorem Recursion.length_objected (h : f.WellFormed) (hres : f.Recursion rules res)
    (hp : f.PostOrdered [id] d visits) (hlist : (res id d).result = .ok list) :
    ((res id d).noted (Event.hasMessage "not mergeable")).length + 1 = list.length := by
  simpa using hres.length_noted h "not mergeable"
    ⟨fun _ _ => rfl, fun _ _ => rfl⟩ (by decide) (by decide) (fun _ _ _ => rfl) hp
    (List.Forall₂.cons hlist List.Forall₂.nil)

theorem Recursion.noted_summary (h : f.WellFormed) (hres : f.Recursion rules res)
    (hid : id < f.size) (d : Nat) : (res id d).noted (Event.hasMessage "resolved tree") = [] := by
  refine h.induction (motive := fun id => ∀ d,
    (res id d).noted (Event.hasMessage "resolved tree") = []) ?_ hid d
  intro id op hop ih d
  rw [hres id op d hop, explainBy]
  split
  · rw [noted_bind_pure, noted_start_summary]
  · refine noted_bind_eq_nil (noted_mapM_eq_nil fun c hc => ih c hc (d + 1)) fun lists => ?_
    rw [noted_bind_pure, noted_gather_summary]

/-- What the log of `run` tells of the tree at `root`, of which `tree` are the operations and
`links` the links, and of the panels that explain it. -/
structure Recorded (f : Forest) (rules : Rules) (root : OpId) (panels : List Panel)
    (run : Explaining (List Panel)) (tree : List OpId) (links : List (OpId × OpId)) : Prop where
  tree_nodup : tree.Nodup
  mem_tree : ∀ x, x ∈ tree ↔ ∃ d, f.Below root x d
  links_nodup : links.Nodup
  mem_links : ∀ p c, (p, c) ∈ links ↔ (∃ d, f.Below root p d) ∧ f.parent? c = some p
  summary : ∃ op earlier, f.get? root = some op ∧
    run.events.toList = earlier ++ [.explained op.name tree.length panels.length] ∧
    earlier.filter (Event.hasMessage "resolved tree") = []
  orphaned : (run.noted (Event.hasMessage "orphaned child container")).length + 1 = panels.length
  objected : (run.noted (Event.hasMessage "not mergeable")).length + 1 = panels.length
  /-- One warning for each link whose parent does not take what the child produces. -/
  mismatched : run.noted (Event.hasMessage "data shape mismatch") =
    links.filterMap (f.mismatch? rules)
  /-- One event for each operation whose declared chart is refused when the operation starts. -/
  unbound : run.noted (Event.hasMessage "seeded unbound") = tree.filterMap (f.startedUnbound? rules)

theorem recorded_of_recursion (h : f.WellFormed) (hres : f.Recursion rules res)
    (hop : f.get? root = some op) (hp : f.PostOrdered [root] 0 visits)
    (hlist : (res root 0).result = .ok list) {run : Explaining (List Panel)} {panels : List Panel}
    (hrun : run.events.toList =
      (res root 0).events.toList ++ [.explained op.name visits.length panels.length])
    (hpanels : panels.length = list.length) :
    f.Recorded rules root panels run (visits.map Visit.id) (f.linksOf (visits.map Visit.id)) := by
  have hmem (x : OpId) : x ∈ visits.map Visit.id ↔ ∃ d, f.Below root x d := by
    simp [hp.mem_ids_iff h]
  have hnodup := hp.nodup h (f.apart_singleton root)
  have hnoted {text : String} (htext : "resolved tree" ≠ text) :
      run.noted (Event.hasMessage text) = (res root 0).noted (Event.hasMessage text) := by
    rw [noted, hrun, List.filter_append, List.filter_singleton, Event.hasMessage, Event.message,
      beq_false_of_ne htext]
    exact List.append_nil _
  refine ⟨hnodup, hmem, nodup_linksOf h hnodup, fun p c => ?_, ⟨op, _, hop, ?_,
    hres.noted_summary h (lt_size_of_get? hop) 0⟩, ?_, ?_, ?_, ?_⟩
  · rw [mem_linksOf h, hmem]
  · rw [hrun, List.length_map]
  · rw [hnoted (by decide), hpanels, hres.length_orphaned h hp hlist]
  · rw [hnoted (by decide), hpanels, hres.length_objected h hp hlist]
  · rw [hnoted (by decide), hres.noted_mismatches h hp hlist]
  · rw [hnoted (by decide), hres.noted_unbound h hp hlist]

/-- The log of a tree that is explained holds one summary, at its end, with the number of the
operations and of the panels; an objection and an orphan for each panel but one; a warning for each
link whose parent does not take what the child produces; and an event for each operation whose
declared chart is refused when it starts. A run that fails sums up nothing. -/
theorem explain_log (hf : f.Reachable) (rules : Rules) (root : OpId) :
    (∀ panels, (f.explain rules root).result = .ok panels →
      ∃ tree links, f.Recorded rules root panels (f.explain rules root) tree links) ∧
    ∀ e, (f.explain rules root).result = .error e →
      (f.explain rules root).noted (Event.hasMessage "resolved tree") = [] := by
  have h := hf.wellFormed
  obtain ⟨res, hres⟩ := h.exists_recursion rules
  cases hop : f.get? root with
  | none =>
    rw [explain_of_not_mem hop]
    exact ⟨nofun, fun _ _ => rfl⟩
  | some op =>
    have hroot := lt_size_of_get? hop
    obtain ⟨visits, hp⟩ := h.exists_postOrdered hroot 0
    rw [explain_eq_of_recursion h hres hop hp]
    cases hlist : (res root 0).result with
    | ok list =>
      refine ⟨fun panels hpanels => ?_, fun e he => ?_⟩
      · rw [result_bind, hlist] at hpanels
        cases hpanels
        refine ⟨_, _, recorded_of_recursion h hres hop hp hlist ?_ (length_byDepth list)⟩
        rw [events_bind_ok hlist, Array.toList_append, length_byDepth]
        rfl
      · rw [result_bind, hlist] at he
        cases he
    | error e =>
      refine ⟨fun panels hpanels => ?_, fun _ _ => ?_⟩
      · rw [result_bind, hlist] at hpanels
        cases hpanels
      · rw [noted_bind_of_error hlist, hres.noted_summary h hroot]

/-! The quotient of a total and a mean. The total is one of vectors and is given a scalar, the mean
cannot be drawn the way it likes, and no rule lets the chart of the total be folded in. -/

def noisyProfiles : List (OpKind × Profile) := [
  ("count", { operand := .any, product := .scalar }),
  ("series", { operand := .any, product := .vector }),
  ("total", { operand := .vector, product := .scalar, chart := some .spacefilling }),
  ("mean", { operand := .vector, product := .scalar, chart := some .distribution }),
  ("ratio", { operand := .scalar, product := .scalar, chart := some .barComparison })]

def noisyRules : Rules where
  grammar := .ofList noisyProfiles

def rootlessRules : Rules where
  grammar := .ofList noisyProfiles.dropLast

def noisyCalls : List Call := [
  .add "q" none "ratio" { inputs := ["t", "m"], outputs := ["q"] },
  .add "t" (some 0) "total" { inputs := ["n"], outputs := ["t"] },
  .add "n" (some 1) "count" { outputs := ["n"] },
  .add "m" (some 0) "mean" { inputs := ["y"], outputs := ["m"] },
  .add "y" (some 3) "series" { outputs := ["y"] }]

def noisy : Forest := empty.replay noisyCalls

theorem reachable_noisy : noisy.Reachable := ⟨noisyCalls, rfl⟩

theorem members_noisy : (fun panels => panels.map Panel.members) <$>
    (noisy.explain noisyRules 0).result = .ok [#[2, 1], #[4, 3, 0]] := by
  simp only [explain, explainVisits, explainVisit, byDepth_eq_insertionSort, Panel.gather,
    Panel.byTop_eq_insertionSort]
  decide +kernel

theorem explain_noisy_rootless :
    (noisy.explain rootlessRules 0).result = .error (.noProfile "ratio" "q") := by
  simp only [explain, explainVisits, explainVisit, byDepth_eq_insertionSort, Panel.gather,
    Panel.byTop_eq_insertionSort]
  decide +kernel

theorem explain_log_noisy :
    (∃ panels tree links, (noisy.explain noisyRules 0).result = .ok panels ∧ panels.length = 2 ∧
      noisy.Recorded noisyRules 0 panels (noisy.explain noisyRules 0) tree links ∧
      links.filterMap (noisy.mismatch? noisyRules) = [.shapeMismatch "t" "n" .vector .scalar] ∧
      tree.filterMap (noisy.startedUnbound? noisyRules) =
        [.startedUnbound "m" (.ineligibleInputs .distribution 3 ["y"])]) ∧
    (noisy.explain rootlessRules 0).noted (Event.hasMessage "resolved tree") = [] := by
  obtain ⟨panels, hok, hmembers⟩ := Except.map_eq_ok.mp members_noisy
  obtain ⟨hrecorded, -⟩ := explain_log reachable_noisy noisyRules 0
  obtain ⟨-, hfailed⟩ := explain_log reachable_noisy rootlessRules 0
  obtain ⟨tree, links, hlog⟩ := hrecorded panels hok
  refine ⟨⟨panels, tree, links, hok, ?_, hlog, ?_, ?_⟩, hfailed _ explain_noisy_rootless⟩
  · simpa using congrArg List.length hmembers
  · rw [← hlog.mismatched]
    simp only [explain, explainVisits, explainVisit, byDepth_eq_insertionSort, Panel.gather,
      Panel.byTop_eq_insertionSort]
    decide +kernel
  · rw [← hlog.unbound]
    simp only [explain, explainVisits, explainVisit, byDepth_eq_insertionSort, Panel.gather,
      Panel.byTop_eq_insertionSort]
    decide +kernel

end ChartFold.Forest
