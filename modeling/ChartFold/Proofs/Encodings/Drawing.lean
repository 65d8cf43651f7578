import ChartFold.Chart.Template
import ChartFold.Proofs.Encodings.Union

/-! What a list of patches makes of each datum. What a chart has drawn is not changed by drawing it
once more, lasts whatever is laid under it, and leaves the inputs as eligible as they were. -/
namespace ChartFold

theorem Patch.onto_lay (p : Patch) (low : Option Encoding) (e : Encoding) :
    p.onto (Encoding.lay low (some e)) = Encoding.lay low (some (e.apply p)) := by
  cases low with
  | none => rfl
  | some e' => simp [Encoding.lay, onto, Encoding.apply, Encoding.toPatch, Option.or_assoc]

theorem Patch.onto_of_complete {p : Patch} {e : Encoding} (h : p.toEncoding? = some e)
    (shown : Option Encoding) : p.onto shown = Encoding.lay shown (some e) := by
  cases shown with
  | none => exact h
  | some e' =>
    obtain ⟨_ | mark, _ | channel, axis, skip, anchor⟩ := p <;> cases h
    rfl

theorem Encoding.mark_lay (low : Option Encoding) (e : Encoding) :
    (lay low (some e)).map Encoding.mark = some e.mark := by
  cases low <;> rfl

namespace Encodings
variable {m n : Encodings} {d : Datum} {patches : List (Datum × Patch)}

/-- What the patches make of what a datum shows. -/
def patched (patches : List (Datum × Patch)) (d : Datum) (shown : Option Encoding) :
    Option Encoding :=
  patches.foldl (fun e patch => if patch.1 = d then patch.2.onto e else e) shown

theorem patched_cons (patch : Datum × Patch) (patches : List (Datum × Patch)) (d : Datum)
    (shown : Option Encoding) : patched (patch :: patches) d shown =
      patched patches d (if patch.1 = d then patch.2.onto shown else shown) := rfl

theorem patched_append (patches more : List (Datum × Patch)) (d : Datum)
    (shown : Option Encoding) :
    patched (patches ++ more) d shown = patched more d (patched patches d shown) :=
  List.foldl_append

theorem get?_writeAll (m : Encodings) (patches : List (Datum × Patch)) (d : Datum) :
    (m.writeAll patches).get? d = patched patches d (m.get? d) := by
  induction patches generalizing m with
  | nil => rfl
  | cons patch patches ih =>
    rw [writeAll, List.foldl_cons, ← writeAll, ih, get?_write, patched_cons]

theorem patched_of_forall_ne (h : ∀ patch ∈ patches, patch.1 ≠ d) (shown : Option Encoding) :
    patched patches d shown = shown := by
  induction patches generalizing shown with
  | nil => rfl
  | cons patch patches ih =>
    obtain ⟨hne, h⟩ := List.forall_mem_cons.mp h
    rw [patched_cons, if_neg hne, ih h]

theorem patched_lay (patches : List (Datum × Patch)) (d : Datum) (low : Option Encoding)
    (e : Encoding) :
    patched patches d (Encoding.lay low (some e)) =
      Encoding.lay low (patched patches d (some e)) := by
  induction patches generalizing e with
  | nil => rfl
  | cons patch patches ih =>
    rw [patched_cons, patched_cons]
    split
    · rw [Patch.onto_lay, ih]
      rfl
    · exact ih e

theorem patched_of_complete (h : ∀ patch ∈ patches, patch.2.toEncoding?.isSome) (d : Datum)
    (shown : Option Encoding) :
    patched patches d shown = Encoding.lay shown (patched patches d none) := by
  induction patches generalizing shown with
  | nil => rfl
  | cons patch patches ih =>
    obtain ⟨hpatch, h⟩ := List.forall_mem_cons.mp h
    obtain ⟨e, he⟩ := Option.isSome_iff_exists.mp hpatch
    rw [patched_cons, patched_cons]
    split
    · rw [Patch.onto_of_complete he, Patch.onto_of_complete he, patched_lay, Encoding.none_lay]
    · exact ih h shown

theorem patched_drawEach (ds : List Datum) (e : Encoding) (d : Datum) (shown : Option Encoding) :
    patched (Chart.drawEach ds e) d shown =
      if d ∈ ds then Encoding.lay shown (some e) else shown := by
  induction ds generalizing shown with
  | nil => rfl
  | cons d' ds ih =>
    rw [Chart.drawEach, List.map_cons, patched_cons, ← Chart.drawEach, ih,
      Patch.onto_of_complete (Encoding.toEncoding?_toPatch e)]
    by_cases hd : d' = d
    · simp [hd, Encoding.lay_assoc, Encoding.lay_self]
    · simp [hd, Ne.symm hd]

theorem patched_onAxis (ds : List Datum) (a : Axis) (d : Datum) (shown : Option Encoding) :
    patched (ds.map fun d => (d, Patch.onAxis a)) d shown =
      if d ∈ ds then shown.map (·.onAxis a) else shown := by
  have hpatch (shown : Option Encoding) :
      (Patch.onAxis a).onto shown = shown.map (·.onAxis a) := by
    cases shown <;> rfl
  induction ds generalizing shown with
  | nil => rfl
  | cons d' ds ih =>
    rw [List.map_cons, patched_cons, ih, hpatch]
    by_cases hd : d' = d
    · cases shown <;> simp [hd, Encoding.onAxis]
    · simp [hd, Ne.symm hd]

/-! What is shown stays shown -/

theorem isSome_onto (p : Patch) {shown : Option Encoding} (h : shown.isSome) :
    (p.onto shown).isSome := by
  obtain ⟨e, rfl⟩ := Option.isSome_iff_exists.mp h
  rfl

theorem isSome_patched (patches : List (Datum × Patch)) (d : Datum) {shown : Option Encoding}
    (h : shown.isSome) : (patched patches d shown).isSome := by
  induction patches generalizing shown with
  | nil => exact h
  | cons patch patches ih =>
    rw [patched_cons]
    split
    · exact ih (isSome_onto _ h)
    · exact ih h

theorem isSome_patched_of_mem {patch : Datum × Patch} (h : patch ∈ patches)
    (hcomplete : patch.2.toEncoding?.isSome) (shown : Option Encoding) :
    (patched patches patch.1 shown).isSome := by
  obtain ⟨before, after, rfl⟩ := List.append_of_mem h
  rw [patched_append, patched_cons, if_pos rfl]
  refine isSome_patched _ _ ?_
  obtain ⟨e, he⟩ := Option.isSome_iff_exists.mp hcomplete
  rw [Patch.onto_of_complete he]
  cases patched before patch.1 shown <;> rfl

theorem exists_complete_of_patched {e : Encoding} (h : patched patches d none = some e) :
    ∃ patch ∈ patches, patch.1 = d ∧ patch.2.toEncoding?.isSome := by
  induction patches with
  | nil => cases h
  | cons patch patches ih =>
    rw [patched_cons] at h
    by_cases hpatch : patch.1 = d ∧ patch.2.toEncoding?.isSome
    · exact ⟨patch, by simp, hpatch⟩
    · have hnone : (if patch.1 = d then patch.2.onto none else none) = none := by
        split
        · exact Option.not_isSome_iff_eq_none.mp fun hsome => hpatch ⟨‹_›, hsome⟩
        · rfl
      rw [hnone] at h
      obtain ⟨patch', hmem, hpatch'⟩ := ih h
      exact ⟨patch', by simp [hmem], hpatch'⟩

/-! Patches that are written once more -/

/-- Written once more, the patches change nothing at the datum. -/
def Keeps (m : Encodings) (patches : List (Datum × Patch)) (d : Datum) : Prop :=
  (m.writeAll patches).get? d = m.get? d

theorem keeps_iff : m.Keeps patches d ↔ patched patches d (m.get? d) = m.get? d := by
  rw [Keeps, get?_writeAll]

theorem writeAll_eq_self (h : ∀ d, m.Keeps patches d) : m.writeAll patches = m := ext_get? h

theorem Keeps.of_lay {low : Option Encoding} {e : Encoding} (h : m.Keeps patches d)
    (hm : m.get? d = some e) (hn : n.get? d = Encoding.lay low (some e)) : n.Keeps patches d := by
  rw [keeps_iff, hm] at h
  rw [keeps_iff, hn, patched_lay, h]

end Encodings

namespace Chart
open Encodings
variable {c : Chart} {flow : Flow} {m n : Encodings} {d : Datum}

theorem eq_distribution_of_requiredMarks (h : c.requiredMarks ≠ none) : c = .distribution := by
  cases c <;> simp_all [requiredMarks]

theorem complete_of_mem_drawing (h : c.requiredMarks = none) {patch : Datum × Patch}
    (hpatch : patch ∈ c.drawing flow) : patch.2.toEncoding?.isSome := by
  cases c with
  | distribution => cases h
  | custom name => cases hpatch
  | scatterWithDiagonal =>
    simp only [drawing, drawPoints, drawEach, List.mem_append, List.mem_map] at hpatch
    obtain ⟨_, _, rfl⟩ | ⟨_, _, rfl⟩ := hpatch <;> rfl
  | stackedBar | barComparison =>
    simp only [drawing, drawEach, List.mem_map] at hpatch
    obtain ⟨_, _, rfl⟩ := hpatch
    rfl
  | barDifference | spacefilling =>
    simp only [drawing, drawEach, List.mem_append, List.mem_map] at hpatch
    obtain ⟨_, _, rfl⟩ | ⟨_, _, rfl⟩ := hpatch <;> rfl

theorem patched_distribution (flow : Flow) (d : Datum) (shown : Option Encoding) :
    patched (distribution.drawing flow) d shown =
      if d ∈ flow.outputs then
        Encoding.lay (if d ∈ flow.inputs then shown.map (·.onAxis .x) else shown)
          (some { mark := .line, channel := .scalarLocation, axis := some .x })
      else if d ∈ flow.inputs then shown.map (·.onAxis .x) else shown := by
  rw [drawing, patched_append, patched_onAxis, patched_drawEach]

theorem keeps_drawing (c : Chart) (flow : Flow) (m : Encodings) (d : Datum) :
    (m.writeAll (c.drawing flow)).Keeps (c.drawing flow) d := by
  rw [keeps_iff, get?_writeAll]
  by_cases h : c.requiredMarks = none
  · have hdrawing : ∀ patch ∈ c.drawing flow, patch.2.toEncoding?.isSome :=
      fun _ hpatch => complete_of_mem_drawing h hpatch
    have hcomplete := patched_of_complete hdrawing d
    rw [hcomplete (patched _ d (m.get? d)), hcomplete (m.get? d), Encoding.lay_assoc,
      Encoding.lay_self]
  · obtain rfl := eq_distribution_of_requiredMarks h
    simp only [patched_distribution]
    by_cases houtput : d ∈ flow.outputs <;> by_cases hinput : d ∈ flow.inputs <;>
      cases m.get? d <;>
      simp [houtput, hinput, Encoding.lay, Encoding.onAxis, Encoding.toPatch, Encoding.apply,
        Patch.onto, Patch.toEncoding?]

theorem mem_ineligible : d ∈ c.ineligible flow m ↔
    d ∈ flow.inputs ∧ ∃ marks, c.requiredMarks = some marks ∧ ∀ e, m.get? d = some e →
      e.mark ∉ marks := by
  unfold ineligible
  split
  · rename_i hnone
    simp [hnone]
  · rename_i marks hmarks
    cases hd : m.get? d <;> simp [hmarks, hd]

theorem ineligible_eq_nil_iff : c.ineligible flow m = [] ↔
    ∀ d ∈ flow.inputs, ∀ marks, c.requiredMarks = some marks →
      ∃ e, m.get? d = some e ∧ e.mark ∈ marks := by
  simp only [List.eq_nil_iff_forall_not_mem, mem_ineligible, not_and, not_exists,
    Classical.not_forall, Classical.not_not, exists_prop]

theorem ineligible_of_requiredMarks (h : c.requiredMarks = none) (flow : Flow) (m : Encodings) :
    c.ineligible flow m = [] := by
  rw [ineligible, h]

theorem isSome_of_drawn (h : c.ineligible flow m = []) {patch : Datum × Patch}
    (hpatch : patch ∈ c.drawing flow) :
    ((m.writeAll (c.drawing flow)).get? patch.1).isSome := by
  rw [get?_writeAll]
  by_cases hasks : c.requiredMarks = none
  · exact isSome_patched_of_mem hpatch (complete_of_mem_drawing hasks hpatch) _
  · obtain rfl := eq_distribution_of_requiredMarks hasks
    obtain hinput | houtput := List.mem_append.mp hpatch
    · obtain ⟨d, hd, rfl⟩ := List.mem_map.mp hinput
      obtain ⟨e, he, -⟩ := ineligible_eq_nil_iff.mp h d hd _ rfl
      exact isSome_patched _ _ (Option.isSome_of_eq_some he)
    · obtain ⟨d, hd, rfl⟩ := List.mem_map.mp houtput
      exact isSome_patched_of_mem hpatch rfl _

theorem ineligible_writeAll (h : c.ineligible flow m = []) :
    c.ineligible flow (m.writeAll (c.drawing flow)) = [] := by
  by_cases hasks : c.requiredMarks = none
  · exact ineligible_of_requiredMarks hasks _ _
  · obtain rfl := eq_distribution_of_requiredMarks hasks
    refine ineligible_eq_nil_iff.mpr fun d hinput marks hmarks => ?_
    obtain ⟨e, he, hmark⟩ := ineligible_eq_nil_iff.mp h d hinput marks hmarks
    cases hmarks
    rw [get?_writeAll, patched_distribution, if_pos hinput, he]
    by_cases houtput : d ∈ flow.outputs
    · rw [if_pos houtput]
      exact ⟨_, rfl, List.mem_cons_self⟩
    · rw [if_neg houtput]
      exact ⟨_, rfl, hmark⟩

theorem mem_ineligible_of_lay {low : Option Encoding} {e : Encoding} (hm : m.get? d = some e)
    (hn : n.get? d = Encoding.lay low (some e)) :
    d ∈ c.ineligible flow n ↔ d ∈ c.ineligible flow m := by
  obtain ⟨e', he', hmark⟩ := Option.map_eq_some_iff.mp (Encoding.mark_lay low e)
  simp only [mem_ineligible, hm, hn, he', Option.some.injEq, forall_eq', hmark]

end Chart

end ChartFold
