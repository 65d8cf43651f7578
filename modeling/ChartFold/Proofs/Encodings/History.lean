import ChartFold.Proofs.Encodings.Within
import Mathlib.Data.List.Induction

/-! What a map of encodings remembers of all that was ever written into it. A datum is encoded from
the first complete write to it on; from there on each field is as it was set last, and what was
written before is forgotten. -/
namespace ChartFold

/-! Patches taken together -/

namespace Patch
variable {p : Patch} {patches : List Patch} {e : Encoding} {α : Type}

def Complete (p : Patch) : Prop := p.mark.isSome ∧ p.channel.isSome

instance (p : Patch) : Decidable p.Complete := inferInstanceAs (Decidable (_ ∧ _))

theorem isSome_toEncoding? : p.toEncoding?.isSome ↔ p.Complete := by
  obtain ⟨_ | mark, _ | channel, axis, skip, anchor⟩ := p <;> simp [toEncoding?, Complete]

theorem toEncoding?_of_not_complete (h : ¬ p.Complete) : p.toEncoding? = none :=
  Option.not_isSome_iff_eq_none.mp (mt isSome_toEncoding?.mp h)

theorem fields_of_toEncoding? (h : p.toEncoding? = some e) :
    p.mark = some e.mark ∧ p.channel = some e.channel ∧ p.axis = e.axis ∧ p.skip = e.skip ∧
      p.anchor = e.anchor := by
  obtain ⟨_ | mark, _ | channel, axis, skip, anchor⟩ := p <;> cases h
  exact ⟨rfl, rfl, rfl, rfl, rfl⟩

/-- A field as it was set last. -/
def lastSet (field : Patch → Option α) (patches : List Patch) : Option α :=
  patches.reverse.findSome? field

theorem lastSet_append (field : Patch → Option α) (patches more : List Patch) :
    lastSet field (patches ++ more) = (lastSet field more).or (lastSet field patches) := by
  rw [lastSet, List.reverse_append, List.findSome?_append, lastSet, lastSet]

theorem lastSet_cons (field : Patch → Option α) (p : Patch) (patches : List Patch) :
    lastSet field (p :: patches) = (lastSet field patches).or (field p) := by
  rw [← List.singleton_append, lastSet_append]
  cases h : field p <;> simp [lastSet, h]

theorem isSome_lastSet_cons {field : Patch → Option α} (h : (field p).isSome)
    (patches : List Patch) : (lastSet field (p :: patches)).isSome := by
  rw [lastSet_cons, Option.isSome_or, h, Bool.or_true]

def overall (patches : List Patch) : Patch where
  mark := lastSet Patch.mark patches
  channel := lastSet Patch.channel patches
  axis := lastSet Patch.axis patches
  skip := lastSet Patch.skip patches
  anchor := lastSet Patch.anchor patches

/-- The patches from the first complete one on. -/
def effective (patches : List Patch) : List Patch := patches.dropWhile fun p => ¬ p.Complete

theorem effective_cons (h : p.Complete) (patches : List Patch) :
    effective (p :: patches) = p :: patches := by
  simp [effective, h]

theorem effective_cons_of_not_complete (h : ¬ p.Complete) (patches : List Patch) :
    effective (p :: patches) = effective patches := by
  simp [effective, h]

theorem lastSet_of_effective {field : Patch → Option α} {a : α}
    (h : lastSet field (effective patches) = some a) : lastSet field patches = some a := by
  have hsplit : patches.takeWhile (fun p => ¬ p.Complete) ++ effective patches = patches :=
    List.takeWhile_append_dropWhile
  have happend := lastSet_append field (patches.takeWhile fun p => ¬ p.Complete) (effective patches)
  rw [hsplit, h] at happend
  exact happend

theorem complete_overall_effective :
    (overall (effective patches)).Complete ↔ ∃ p ∈ patches, p.Complete := by
  induction patches with
  | nil => simp [effective, overall, lastSet, Complete]
  | cons p patches ih =>
    by_cases hp : p.Complete
    · rw [effective_cons hp]
      refine ⟨fun _ => ⟨p, List.mem_cons_self, hp⟩, fun _ => ?_⟩
      exact ⟨isSome_lastSet_cons hp.1 patches, isSome_lastSet_cons hp.2 patches⟩
    · rw [effective_cons_of_not_complete hp, ih]
      simp [hp]

/-- The patches one after another, where the first come first. -/
def ontoAll (patches : List Patch) (shown : Option Encoding) : Option Encoding :=
  patches.foldl (fun shown p => p.onto shown) shown

theorem apply_overall_cons (e : Encoding) (p : Patch) (patches : List Patch) :
    e.apply (overall (p :: patches)) = (e.apply p).apply (overall patches) := by
  simp [Encoding.apply, overall, lastSet_cons, Option.or_assoc, Option.getD_or]

theorem ontoAll_some (patches : List Patch) (e : Encoding) :
    ontoAll patches (some e) = some (e.apply (overall patches)) := by
  induction patches generalizing e with
  | nil => rfl
  | cons p patches ih =>
    rw [apply_overall_cons, ← ih]
    rfl

theorem toEncoding?_overall_cons (h : p.toEncoding? = some e) (patches : List Patch) :
    (overall (p :: patches)).toEncoding? = some (e.apply (overall patches)) := by
  obtain ⟨_ | mark, _ | channel, axis, skip, anchor⟩ := p <;> cases h
  simp [toEncoding?, overall, lastSet_cons, Encoding.apply]

theorem ontoAll_none (patches : List Patch) :
    ontoAll patches none = (overall (effective patches)).toEncoding? := by
  induction patches with
  | nil => rfl
  | cons p patches ih =>
    have hcons : ontoAll (p :: patches) none = ontoAll patches p.toEncoding? := rfl
    rw [hcons]
    -- from the first complete patch on there is an encoding, and each patch goes on top of it
    by_cases hp : p.Complete
    · obtain ⟨e, he⟩ := Option.isSome_iff_exists.mp (isSome_toEncoding?.mpr hp)
      rw [he, ontoAll_some, effective_cons hp, toEncoding?_overall_cons he]
    · rw [toEncoding?_of_not_complete hp, ih, effective_cons_of_not_complete hp]

end Patch

namespace Encodings
variable {m : Encodings} {d : Datum} {p : Patch} {e : Encoding} {edits : List Edit}

/-! A history of edits -/

inductive Edit where
  | write (d : Datum) (p : Patch)
  | merge (d : Datum) (e : Encoding)
  | union (n : Encodings)

/-- The writes that a call makes; a union makes one for each entry. -/
def Edit.writes : Edit → List (Datum × Patch)
  | write d p => [(d, p)]
  | merge d e => [(d, e.toPatch)]
  | union n => n.toList.map fun (d, e) => (d, e.toPatch)

def perform (m : Encodings) : Edit → Encodings
  | .write d p => m.write d p
  | .merge d e => m.merge d e
  | .union n => m.union n

def replay (edits : List Edit) : Encodings := edits.foldl perform empty

def patchesTo (d : Datum) (edits : List Edit) : List Patch :=
  ((edits.flatMap Edit.writes).filter (·.1 = d)).map Prod.snd

theorem perform_eq_writeAll (m : Encodings) (edit : Edit) :
    m.perform edit = m.writeAll edit.writes := by
  cases edit with
  | write d p => rfl
  | merge d e => rfl
  | union n =>
    rw [writeAll, Edit.writes, List.foldl_map]
    rfl

theorem replay_eq_writeAll (edits : List Edit) :
    replay edits = empty.writeAll (edits.flatMap Edit.writes) := by
  induction edits using List.reverseRecOn with
  | nil => rfl
  | append_singleton edits edit ih =>
    rw [replay, List.foldl_append, ← replay, List.foldl_cons, List.foldl_nil, ih,
      perform_eq_writeAll, ← writeAll_append, List.flatMap_append, List.flatMap_singleton]

theorem patched_eq_ontoAll (writes : List (Datum × Patch)) (d : Datum) (shown : Option Encoding) :
    patched writes d shown =
      Patch.ontoAll ((writes.filter (·.1 = d)).map Prod.snd) shown := by
  induction writes generalizing shown with
  | nil => rfl
  | cons w writes ih =>
    rw [patched_cons, ih]
    by_cases h : w.1 = d
    · simp [h, Patch.ontoAll]
    · simp [h]

theorem get?_replay (edits : List Edit) (d : Datum) :
    (replay edits).get? d = (Patch.overall (Patch.effective (patchesTo d edits))).toEncoding? := by
  rw [replay_eq_writeAll, get?_writeAll, get?_empty, patched_eq_ontoAll, Patch.ontoAll_none]
  rfl

theorem contains_replay :
    (replay edits).contains d ↔ ∃ p ∈ patchesTo d edits, p.Complete := by
  rw [contains_eq_isSome, get?_replay, Patch.isSome_toEncoding?, Patch.complete_overall_effective]

/-- What the patches have left behind: mark and channel as they were set last, each other field as
it was set last among the patches that count. -/
structure Remembers (patches : List Patch) (e : Encoding) : Prop where
  mark : Patch.lastSet Patch.mark patches = some e.mark
  channel : Patch.lastSet Patch.channel patches = some e.channel
  axis : Patch.lastSet Patch.axis (Patch.effective patches) = e.axis
  skip : Patch.lastSet Patch.skip (Patch.effective patches) = e.skip
  anchor : Patch.lastSet Patch.anchor (Patch.effective patches) = e.anchor

theorem remembers_of_get?_replay (h : (replay edits).get? d = some e) :
    Remembers (patchesTo d edits) e := by
  rw [get?_replay] at h
  obtain ⟨hmark, hchannel, haxis, hskip, hanchor⟩ := Patch.fields_of_toEncoding? h
  exact ⟨Patch.lastSet_of_effective hmark, Patch.lastSet_of_effective hchannel, haxis, hskip,
    hanchor⟩

theorem replay_append (edits more : List Edit) :
    replay (edits ++ more) = more.foldl perform (replay edits) := List.foldl_append

/-- A patch that comes before any complete one to its datum might as well not have been written. -/
theorem replay_strike {before after : List Edit}
    (hbefore : ∀ q ∈ patchesTo d before, ¬ q.Complete) (hp : ¬ p.Complete) :
    replay (before ++ .write d p :: after) = replay (before ++ after) := by
  have hrefused : (replay before).accepts d p = false := by
    have hcontains : (replay before).contains d = false := by
      rw [Bool.eq_false_iff, Ne, contains_replay]
      rintro ⟨q, hq, hcomplete⟩
      exact hbefore q hq hcomplete
    rw [accepts, hcontains, Patch.toEncoding?_of_not_complete hp]
    rfl
  have hsame : (replay before).perform (.write d p) = replay before := write_of_not_accepts hrefused
  rw [replay_append, List.foldl_cons, hsame, ← replay_append]

theorem accepts_iff_mem_keys : m.accepts d p ↔ d ∈ (m.write d p).keys := by
  rw [mem_keys, contains_eq_isSome, accepts_eq_isSome]

/-- Whatever is written to a map that starts empty, a datum is encoded at the end just where some
write to it was complete, and then it is encoded as the writes to it were set last, counted from
the first complete one on. A write before that leaves no trace in the whole map. A single patch is
accepted just where its datum is encoded afterwards; it touches no other datum, and a patch that is
refused changes nothing. -/
theorem replay_remembers (edits : List Edit) (d : Datum) :
    (d ∈ (replay edits).keys ↔ ∃ p ∈ patchesTo d edits, p.Complete) ∧
    (∀ e, (replay edits).get? d = some e → Remembers (patchesTo d edits) e) ∧
    (∀ before p after, edits = before ++ .write d p :: after →
      (∀ q ∈ patchesTo d before, ¬ q.Complete) → ¬ p.Complete →
        replay edits = replay (before ++ after)) ∧
    ∀ (m : Encodings) (p : Patch),
      (m.accepts d p ↔ d ∈ (m.write d p).keys) ∧
      (∀ k, k ≠ d → (m.write d p).get? k = m.get? k) ∧
      (m.accepts d p = false → m.write d p = m) := by
  refine ⟨mem_keys.trans contains_replay, fun _ => remembers_of_get?_replay, ?_, fun m p => ?_⟩
  · rintro before p after rfl hbefore hp
    exact replay_strike hbefore hp
  · refine ⟨accepts_iff_mem_keys, fun k hk => ?_, write_of_not_accepts⟩
    rw [get?_write, if_neg (Ne.symm hk)]

/-! A datum is put on an axis in vain, drawn as a line, tied, overridden by a union and coloured. -/

def recolored : List Edit := [
  .write "x" (.onAxis .y),
  .merge "y" { mark := .bar, channel := .length },
  .write "x" { mark := some .line, channel := some .length, skip := some true },
  .write "x" (.anchoredTo "y"),
  .union (.ofList [("x", { mark := .point, channel := .position, anchor := some "z" })]),
  .write "x" { channel := some .color }]

theorem replay_remembers_recolored :
    "x" ∈ (replay recolored).keys ∧
    (∀ e, (replay recolored).get? "x" = some e →
      e = { mark := .point, channel := .color, skip := some true, anchor := some "z" }) ∧
    replay recolored = replay recolored.tail := by
  obtain ⟨hkeys, hremembers, hstrike, -⟩ := replay_remembers recolored "x"
  have hpatches : patchesTo "x" recolored = [.onAxis .y,
      { mark := some .line, channel := some .length, skip := some true }, .anchoredTo "y",
      { mark := some .point, channel := some .position, anchor := some "z" },
      { channel := some .color }] := by decide
  rw [hpatches] at hkeys hremembers
  refine ⟨hkeys.mpr (by decide), fun e he => ?_, ?_⟩
  · obtain ⟨hmark, hchannel, haxis, hskip, hanchor⟩ := hremembers e he
    obtain ⟨mark, channel, axis, skip, anchor⟩ := e
    cases hmark
    cases hchannel
    cases haxis
    cases hskip
    cases hanchor
    rfl
  · exact hstrike [] _ _ rfl (by simp [patchesTo]) (by decide)

end Encodings

end ChartFold
