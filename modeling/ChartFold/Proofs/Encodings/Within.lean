import ChartFold.Proofs.Encodings.Drawing
import ChartFold.Rules.Composition

/-! What writes take from where. A write takes no datum away; it encodes none but its own and
anchors it to none but its own anchor. Drawing a chart encodes inputs and outputs and anchors
nothing, and tying encodes nothing and anchors to primary outputs. -/
namespace ChartFold

theorem Patch.anchor_onto {p : Patch} {shown : Option Encoding} {e : Encoding} {a : Datum}
    (h : p.onto shown = some e) (ha : e.anchor = some a) :
    p.anchor = some a ∨ ∃ low, shown = some low ∧ low.anchor = some a := by
  cases shown with
  | some low =>
    cases h
    obtain hp | ⟨-, hlow⟩ := Option.or_eq_some_iff.mp ha
    · exact Or.inl hp
    · exact Or.inr ⟨low, rfl, hlow⟩
  | none =>
    obtain ⟨_ | mark, _ | channel, axis, skip, anchor⟩ := p <;> cases h
    exact Or.inl ha

namespace Encodings
variable {m n : Encodings} {d : Datum} {patches : List (Datum × Patch)}
  {keys anchors : Datum → Prop}

theorem writeAll_append (m : Encodings) (patches more : List (Datum × Patch)) :
    m.writeAll (patches ++ more) = (m.writeAll patches).writeAll more := List.foldl_append

/-! Nothing is lost -/

theorem contains_writeAll (h : m.contains d) (patches : List (Datum × Patch)) :
    (m.writeAll patches).contains d := by
  rw [contains_eq_isSome] at h ⊢
  rw [get?_writeAll]
  exact isSome_patched patches d h

theorem mergeAt_eq_writeAll (m : Encodings) (ds : List Datum) (e : Encoding) :
    m.mergeAt ds e = m.writeAll (Chart.drawEach ds e) := by
  rw [writeAll, Chart.drawEach, List.foldl_map]
  rfl

/-! Nothing else is added -/

/-- No datum is encoded but those in `keys`, and none is anchored but to those in `anchors`. -/
structure Within (m : Encodings) (keys anchors : Datum → Prop) : Prop where
  key : ∀ {d e}, m.get? d = some e → keys d
  anchor : ∀ {d e a}, m.get? d = some e → e.anchor = some a → anchors a

theorem within_empty : empty.Within keys anchors :=
  ⟨fun h => by simp at h, fun h => by simp at h⟩

theorem Within.mono {keys' anchors' : Datum → Prop} (h : m.Within keys anchors)
    (hkeys : ∀ d, keys d → keys' d) (hanchors : ∀ a, anchors a → anchors' a) :
    m.Within keys' anchors' :=
  ⟨fun he => hkeys _ (h.key he), fun he ha => hanchors _ (h.anchor he ha)⟩

theorem Within.write (h : m.Within keys anchors) {p : Patch}
    (hkey : p.toEncoding?.isSome → keys d) (hanchor : ∀ a, p.anchor = some a → anchors a) :
    (m.write d p).Within keys anchors := by
  have hold {k : Datum} {e : Encoding} (he : (m.write d p).get? k = some e) :
      m.get? k = some e ∨ (d = k ∧ p.onto (m.get? k) = some e) := by
    rw [get?_write] at he
    split at he
    · exact Or.inr ⟨‹_›, he⟩
    · exact Or.inl he
  constructor
  · intro k e he
    obtain he | ⟨rfl, he⟩ := hold he
    · exact h.key he
    · cases hm : m.get? d with
      | some low => exact h.key hm
      | none =>
        rw [hm] at he
        exact hkey (Option.isSome_of_eq_some he)
  · intro k e a he ha
    obtain he | ⟨rfl, he⟩ := hold he
    · exact h.anchor he ha
    · obtain hp | ⟨low, hlow, ha⟩ := Patch.anchor_onto he ha
      · exact hanchor a hp
      · exact h.anchor hlow ha

theorem Within.writeAll (h : m.Within keys anchors)
    (hkeys : ∀ patch ∈ patches, patch.2.toEncoding?.isSome → keys patch.1)
    (hanchors : ∀ patch ∈ patches, ∀ a, patch.2.anchor = some a → anchors a) :
    (m.writeAll patches).Within keys anchors := by
  induction patches generalizing m with
  | nil => exact h
  | cons patch patches ih =>
    obtain ⟨hkey, hkeys⟩ := List.forall_mem_cons.mp hkeys
    obtain ⟨hanchor, hanchors⟩ := List.forall_mem_cons.mp hanchors
    exact ih (h.write hkey hanchor) hkeys hanchors

theorem Within.union (hm : m.Within keys anchors) (hn : n.Within keys anchors) :
    (m.union n).Within keys anchors := by
  constructor
  · intro d e he
    rw [get?_union] at he
    cases hd : n.get? d with
    | some high => exact hn.key hd
    | none =>
      rw [hd] at he
      exact hm.key he
  · intro d e a he ha
    rw [get?_union] at he
    cases hd : n.get? d with
    | some high =>
      rw [hd] at he
      obtain hhigh | ⟨low, hlow, ha⟩ := Patch.anchor_onto he ha
      · exact hn.anchor hd hhigh
      · exact hm.anchor hlow ha
    | none =>
      rw [hd] at he
      exact hm.anchor he ha

end Encodings

theorem Chart.mem_drawing {c : Chart} {flow : Flow} {patch : Datum × Patch}
    (h : patch ∈ c.drawing flow) :
    (patch.1 ∈ flow.inputs ∨ patch.1 ∈ flow.outputs) ∧ patch.2.anchor = none := by
  cases c with
  | custom name => cases h
  | scatterWithDiagonal =>
    simp only [drawing, drawPoints, drawEach, List.mem_append, List.mem_map] at h
    obtain ⟨⟨d, axis⟩, hd, rfl⟩ | ⟨d, hd, rfl⟩ := h
    · exact ⟨Or.inl (List.of_mem_zip hd).1, rfl⟩
    · exact ⟨Or.inr hd, rfl⟩
  | stackedBar | barComparison =>
    obtain ⟨d, hd, rfl⟩ := List.mem_map.mp h
    exact ⟨Or.inl hd, rfl⟩
  | barDifference | spacefilling | distribution =>
    simp only [drawing, drawEach, List.mem_append, List.mem_map] at h
    obtain ⟨d, hd, rfl⟩ | ⟨d, hd, rfl⟩ := h
    · exact ⟨Or.inl hd, rfl⟩
    · exact ⟨Or.inr hd, rfl⟩

theorem Composition.mem_ties {rule : Composition} {child parent : Flow} {patch : Datum × Patch}
    (h : patch ∈ rule.ties child parent) : patch.2.toEncoding? = none ∧
      ∀ a, patch.2.anchor = some a → child.primary? = some a ∨ parent.primary? = some a := by
  have htied {ds : List Datum} {anchor : Option Datum} (h : patch ∈ tieAll ds anchor) :
      patch.2.toEncoding? = none ∧ patch.2.anchor = anchor := by
    cases anchor with
    | none => cases h
    | some a =>
      obtain ⟨d, -, rfl⟩ := List.mem_map.mp h
      exact ⟨rfl, rfl⟩
  unfold ties at h
  split at h
  · cases h
  · obtain ⟨hnone, hanchor⟩ := htied h
    exact ⟨hnone, fun a ha => Or.inl (hanchor.symm.trans ha)⟩
  · obtain ⟨hnone, hanchor⟩ := htied h
    exact ⟨hnone, fun a ha => Or.inr (hanchor.symm.trans ha)⟩

end ChartFold
