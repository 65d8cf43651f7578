import ChartFold.Proofs.Explain.Agree
import ChartFold.Proofs.Forest.Lineage

/-! A forest may grow anywhere but below an operation, and the operation itself may be put elsewhere
with all that lies below it: its tree is walked and explained as before. -/
namespace ChartFold.Forest
variable {f g : Forest} {root : OpId} {calls : List Call}

/-! Calls that spare a tree -/

def Call.target? : Call → Option OpId
  | .add _ parent _ _ => parent
  | .attach _ parent => some parent

/-- The call does not put anything below `root`; it may fail at the attempt. -/
def Spares (f : Forest) (root : OpId) (call : Call) : Prop :=
  ∀ g p d, f.answer call = .ok g → call.target? = some p → ¬ f.Below root p d

def Spared (root : OpId) : Forest → List Call → Prop
  | _, [] => True
  | f, call :: calls => f.Spares root call ∧ Spared root (f.perform call) calls

theorem spares_of_error {call : Call} {failure : GrowFailure}
    (h : f.answer call = .error failure) : f.Spares root call := by
  intro g p d hok
  rw [h] at hok
  cases hok

theorem spares_of_not_mem_lineage (h : f.WellFormed) {call : Call}
    (hcall : ∀ p, call.target? = some p → p < f.size ∧ root ∉ f.lineage p) :
    f.Spares root call := by
  intro g p d _ htarget hb
  obtain ⟨hp, hroot⟩ := hcall p htarget
  exact hroot ((h.mem_lineage hp).mpr ⟨d, hb⟩)

theorem size_le_perform (f : Forest) (call : Call) : f.size ≤ (f.perform call).size := by
  obtain ⟨-, hsame⟩ | ⟨name, parent, kind, flow, id, -, hadd⟩ | ⟨c, p, -, hattach⟩ :=
    perform_cases f call
  · exact Nat.le_of_eq (congrArg size hsame.symm)
  · rw [size_add hadd]
    exact Nat.le_succ _
  · obtain ⟨-, -, -, -, hg⟩ := attach_eq_ok hattach
    simp [hg]

theorem size_le_replay (f : Forest) (calls : List Call) : f.size ≤ (f.replay calls).size :=
  replay_invariant (P := fun g => f.size ≤ g.size)
    (fun g call h => Nat.le_trans h (g.size_le_perform call)) (Nat.le_refl _) calls

/-! One call -/

theorem get?_add {name : String} {parent : Option OpId} {kind : OpKind} {flow : Flow} {id x : OpId}
    (h : f.add name parent kind flow = .ok (g, id)) (hx : x ≠ f.size) (hparent : parent ≠ some x) :
    g.get? x = f.get? x := by
  obtain ⟨-, -, fresh, -, rfl⟩ := add_eq_ok_iff.mp h
  cases parent with
  | none => rw [Forest.insert, get?_push, if_neg hx]
  | some p =>
    have hne : x ≠ p := fun hxp => hparent (congrArg some hxp.symm)
    rw [Forest.insert, get?_appendChild, if_neg hne, get?_push, if_neg hx]

theorem sameAt_attach {c p x : OpId} (h : f.attach c p = .ok g) (hx : x ≠ p) : f.SameAt g x := by
  obtain ⟨-, -, -, -, rfl⟩ := attach_eq_ok h
  rw [SameAt, get?_appendChild, if_neg hx, get?_setParent]
  split
  · cases f.get? x with
    | none => exact Option.Rel.none
    | some op => exact Option.Rel.some ⟨some p, rfl⟩
  · exact SameAt.refl f x

theorem ne_size_of_below {x : OpId} {d : Nat} (hb : f.Below root x d) (hroot : root ≠ f.size) :
    x ≠ f.size := by
  intro hx
  cases hb with
  | refl => exact hroot hx
  | child _ hparent =>
    rw [hx, parent?, get?_size] at hparent
    cases hparent

/-- A call that puts nothing below an operation, and does not add that operation, leaves the tree of
the operation as it was. -/
theorem Spares.sameTree {call : Call} (h : f.Spares root call)
    (hroot : root < (f.perform call).size → root < f.size) : f.SameTree (f.perform call) root := by
  intro x d hb
  have htarget : ∀ g, f.answer call = .ok g → call.target? ≠ some x :=
    fun g hok htarget => h g x d hok htarget hb
  obtain ⟨-, hsame⟩ | ⟨name, parent, kind, flow, id, rfl, hadd⟩ | ⟨c, p, rfl, hattach⟩ :=
    perform_cases f call
  · rw [hsame]
    exact SameAt.refl f x
  · -- the place that the call fills is new, so it lies in no tree but perhaps its own
    have hne : root ≠ f.size := by
      intro heq
      have hlt : root < f.size := hroot (by rw [size_add hadd, heq]; exact Nat.lt_succ_self _)
      exact Nat.ne_of_lt hlt heq
    have hparent : parent ≠ some x := htarget _ (by rw [answer, hadd]; rfl)
    rw [SameAt, get?_add hadd (ne_size_of_below hb hne) hparent]
    exact SameAt.refl f x
  · exact sameAt_attach hattach fun hx => htarget _ hattach (congrArg some hx.symm)

/-! Walking the tree -/

theorem PostOrdered.of_sameTree (h : f.WellFormed) {ids : List OpId} {d : Nat} {visits : List Visit}
    (hp : f.PostOrdered ids d visits) (hsame : ∀ id ∈ ids, f.SameTree g id) :
    g.PostOrdered ids d visits := by
  induction hp with
  | nil => exact PostOrdered.nil
  | @cons id op ids d below rest hop _ _ ihbelow ihrest =>
    have htree := hsame id (by simp)
    obtain ⟨_, hop', above, rfl⟩ := (htree id 0 Below.refl).exists_get? hop
    refine PostOrdered.cons hop' (ihbelow fun c hc => ?_)
      (ihrest fun x hx => hsame x (by simp [hx]))
    exact htree.child (h.mem_children.mp (children_of_get? hop ▸ hc))

theorem SameTree.postOrder_eq (h : f.WellFormed) (hg : g.WellFormed) (hsame : f.SameTree g root) :
    g.postOrder root = f.postOrder root := by
  have hroot := hsame root 0 Below.refl
  cases hop : f.get? root with
  | none =>
    rw [postOrder_of_get?_eq_none hop, postOrder_of_get?_eq_none (hroot.get?_eq_none hop)]
  | some op =>
    obtain ⟨op', hop', -⟩ := hroot.exists_get? hop
    obtain ⟨visits, hp⟩ := h.exists_postOrdered (lt_size_of_get? hop) 0
    have hp' : g.PostOrdered [root] 0 visits := hp.of_sameTree h (by simpa using hsame)
    rw [h.postOrder_eq (lt_size_of_get? hop) hp, hg.postOrder_eq (lt_size_of_get? hop') hp']

/-! All calls -/

/-- What the calls of a run leave alone one by one, the run leaves alone. -/
theorem Spared.replay_eq {α : Type} (answers : Forest → α) (h : f.WellFormed)
    (hanswers : ∀ {f g : Forest}, f.WellFormed → g.WellFormed → f.SameTree g root →
      answers g = answers f)
    (hspared : Spared root f calls) (hroot : root < (f.replay calls).size → root < f.size) :
    answers (f.replay calls) = answers f := by
  induction calls generalizing f with
  | nil => rfl
  | cons call calls ih =>
    obtain ⟨hspares, hrest⟩ := hspared
    have hgrown := f.size_le_perform call
    have hleft := (f.perform call).size_le_replay calls
    have hafter : f.replay (call :: calls) = (f.perform call).replay calls := rfl
    rw [hafter] at hroot ⊢
    have hsame : f.SameTree (f.perform call) root :=
      hspares.sameTree fun hlt => hroot (Nat.lt_of_lt_of_le hlt hleft)
    rw [ih (h.perform call) hrest fun hlt => Nat.lt_of_lt_of_le (hroot hlt) hgrown,
      hanswers h (h.perform call) hsame]

/-- After any calls none of which puts an operation below `root`, failing ones and those that put
`root` itself under another operation included, the tree at `root` is walked in the same order and
explained by the same panels, or not explained for the same reason. If `root` is not in the forest,
this holds as long as it is not added. -/
theorem explain_undisturbed (hf : f.Reachable) (hspared : Spared root f calls)
    (hroot : root < (f.replay calls).size → root < f.size) :
    (f.replay calls).postOrder root = f.postOrder root ∧
    ∀ rules, ((f.replay calls).explain rules root).result = (f.explain rules root).result := by
  have h := hf.wellFormed
  refine ⟨?_, fun rules => ?_⟩
  · exact hspared.replay_eq (fun f => f.postOrder root) h
      (fun h hg hsame => hsame.postOrder_eq h hg) hroot
  · exact hspared.replay_eq (fun f => (f.explain rules root).result) h
      (fun h hg hsame => (explain_agrees h hg hsame (.refl rules _)).symm) hroot

/-! The sum of squares put under a ratio, beside another tree -/

def besideCalls : List Call := [
  .add "ratio" none "ratio" { inputs := ["ss", "n"], outputs := ["r"] },
  .add "n" (some 4) "scalar" { outputs := ["n"] },
  .attach 3 1,
  .attach 0 4,
  .attach 4 2]

theorem spared_besideCalls : Spared 0 sample besideCalls := by
  have h := reachable_sample.wellFormed
  have hone := h.replay (besideCalls.take 1)
  have hthree := h.replay (besideCalls.take 3)
  refine ⟨spares_of_not_mem_lineage h nofun, spares_of_not_mem_lineage hone ?_,
    spares_of_error rfl, spares_of_not_mem_lineage hthree ?_, spares_of_error rfl, trivial⟩
  · intro p hp
    cases hp
    decide
  · intro p hp
    cases hp
    decide

theorem explain_undisturbed_sample :
    (sample.replay besideCalls).parent? 0 = some 4 ∧
    ((sample.replay besideCalls).explain sampleRules 0).result = .ok samplePanels := by
  obtain ⟨-, hexplain⟩ := explain_undisturbed reachable_sample spared_besideCalls
    fun _ => (by decide : 0 < sample.size)
  exact ⟨rfl, (hexplain sampleRules).trans explain_sample⟩

end ChartFold.Forest
