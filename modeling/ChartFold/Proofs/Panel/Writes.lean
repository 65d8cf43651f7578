import ChartFold.Proofs.Encodings.Within
import ChartFold.Proofs.Panel.Charts

/-! What an operation writes into what it shows. However a look is extended, that is done by writes
alone: so it loses no datum, and only gains what the operation carries and anchors. -/
namespace ChartFold

namespace Flow

def Carries (flow : Flow) (d : Datum) : Prop := d ∈ flow.inputs ∨ d ∈ flow.outputs

end Flow

namespace Profile
variable {profile : Profile} {flow : Flow} {a : Datum}

/-- What an operation may anchor a datum to: its result, or what its default look is anchored to. -/
def Anchors (profile : Profile) (flow : Flow) (a : Datum) : Prop :=
  flow.primary? = some a ∨ ∃ look, profile.defaultLook = some look ∧ look.anchor = some a

/-- A fallback anchors nothing, so an anchor of the outputs is that of the default look. -/
theorem anchors_of_outputEncoding {inputs : List Datum} {m : Encodings} {e : Encoding}
    (he : profile.outputEncoding inputs m = some e) (ha : e.anchor = some a) :
    profile.Anchors flow a := by
  obtain hlook | ⟨-, hfallback⟩ := Option.or_eq_some_iff.mp he
  · exact Or.inr ⟨e, hlook, ha⟩
  · rw [fallbackEncoding] at hfallback
    split at hfallback
    · obtain ⟨fallback, -, rfl⟩ := Option.map_eq_some_iff.mp hfallback
      cases ha
    · cases hfallback

end Profile

namespace Look
variable {l m : Look} {rules : Rules} {profile : Profile} {child parent : Flow} {d : Datum}
  {keys anchors : Datum → Prop}

/-- A write that a parent with the given flow may make, where its child has the other one. -/
structure Writes (profile : Profile) (child parent : Flow) (patch : Datum × Patch) : Prop where
  key : patch.2.toEncoding?.isSome → parent.Carries patch.1
  anchor : ∀ a, patch.2.anchor = some a → profile.Anchors parent a ∨ child.primary? = some a

theorem writes_drawing {c : Chart} {patch : Datum × Patch} (h : patch ∈ c.drawing parent) :
    Writes profile child parent patch := by
  obtain ⟨hkey, hanchor⟩ := Chart.mem_drawing h
  refine ⟨fun _ => hkey, fun a ha => ?_⟩
  rw [hanchor] at ha
  cases ha

theorem writes_ties {rule : Composition} {patch : Datum × Patch}
    (h : patch ∈ rule.ties child parent) : Writes profile child parent patch := by
  obtain ⟨hpartial, hanchor⟩ := Composition.mem_ties h
  refine ⟨fun hcomplete => ?_, fun a ha => (hanchor a ha).symm.imp_left Or.inl⟩
  rw [hpartial] at hcomplete
  cases hcomplete

theorem withDefaults_eq_writeAll (l : Look) (profile : Profile) (child parent : Flow) :
    ∃ patches, (l.withDefaults profile parent).encodings = l.encodings.writeAll patches ∧
      ∀ patch ∈ patches, Writes profile child parent patch := by
  unfold withDefaults
  split
  · rename_i e he
    refine ⟨Chart.drawEach parent.outputs e, Encodings.mergeAt_eq_writeAll _ _ _, ?_⟩
    intro patch hpatch
    obtain ⟨d, hd, rfl⟩ := List.mem_map.mp hpatch
    exact ⟨fun _ => Or.inr hd, fun a ha => Or.inl (Profile.anchors_of_outputEncoding he ha)⟩
  · exact ⟨[], rfl, by simp⟩

/-- Whatever a parent makes of a look, it makes by writes: its default look, then the ties of a
composition, then the drawing of a chart. -/
theorem extend_eq_writeAll (h : l.extend rules profile child parent = some m) :
    ∃ patches, m.encodings = l.encodings.writeAll patches ∧
      ∀ patch ∈ patches, Writes profile child parent patch := by
  obtain ⟨defaults, hdefaults, hwrites⟩ := withDefaults_eq_writeAll l profile child parent
  obtain ⟨-, rfl⟩ | ⟨wanted, -, -, rfl⟩ | ⟨own, wanted, rule, -, -, -, rfl⟩ := extend_cases h
  · exact ⟨defaults, hdefaults, hwrites⟩
  · obtain ⟨-, hdraws⟩ | ⟨-, hsame⟩ := adopt_cases (l.withDefaults profile parent) wanted parent
    · refine ⟨defaults ++ wanted.drawing parent, ?_, ?_⟩
      · rw [hdraws.encodings, hdefaults, Encodings.writeAll_append]
      · exact List.forall_mem_append.mpr ⟨hwrites, fun _ hpatch => writes_drawing hpatch⟩
    · rw [hsame]
      exact ⟨defaults, hdefaults, hwrites⟩
  · refine ⟨defaults ++ (rule.ties child parent ++ rule.resultChart.drawing parent), ?_, ?_⟩
    · rw [compose, hdefaults, Encodings.writeAll_append, Encodings.writeAll_append]
    · refine List.forall_mem_append.mpr ⟨hwrites, List.forall_mem_append.mpr ⟨?_, ?_⟩⟩
      · exact fun _ hpatch => writes_ties hpatch
      · exact fun _ hpatch => writes_drawing hpatch

theorem contains_extend (hextend : l.extend rules profile child parent = some m)
    (h : l.encodings.contains d) : m.encodings.contains d := by
  obtain ⟨patches, hm, -⟩ := extend_eq_writeAll hextend
  rw [hm]
  exact Encodings.contains_writeAll h patches

theorem within_extend (hextend : l.extend rules profile child parent = some m)
    (h : l.encodings.Within keys anchors) (hkeys : ∀ d, parent.Carries d → keys d)
    (hanchors : ∀ a, profile.Anchors parent a → anchors a)
    (hchild : ∀ a, child.primary? = some a → anchors a) : m.encodings.Within keys anchors := by
  obtain ⟨patches, hm, hwrites⟩ := extend_eq_writeAll hextend
  rw [hm]
  refine h.writeAll (fun patch hpatch hcomplete => ?_) fun patch hpatch a ha => ?_
  · exact hkeys _ ((hwrites patch hpatch).key hcomplete)
  · exact ((hwrites patch hpatch).anchor a ha).elim (hanchors a) (hchild a)

theorem within_start : (start profile parent).encodings.Within parent.Carries
    (profile.Anchors parent) := by
  have hextend : blank.extend {} profile parent parent = some (start profile parent) := extend_blank
  exact within_extend hextend Encodings.within_empty (fun _ hd => hd) (fun _ ha => ha)
    fun _ ha => Or.inl ha

end Look

end ChartFold
