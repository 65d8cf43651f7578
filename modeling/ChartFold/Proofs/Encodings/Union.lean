import ChartFold.Encodings

/-! What a union shows, datum by datum: the later encoding field by field, the earlier one where the
later is silent. From that come the laws of the union. -/
namespace ChartFold

namespace Encoding

/-- What a datum shows once `high`, if there is one, is laid over `low`. -/
def lay (low high : Option Encoding) : Option Encoding :=
  match high with
  | some e => e.toPatch.onto low
  | none => low

@[simp] theorem lay_none (low : Option Encoding) : lay low none = low := rfl

@[simp] theorem none_lay (high : Option Encoding) : lay none high = high := by
  cases high <;> rfl

theorem lay_assoc (a b c : Option Encoding) : lay (lay a b) c = lay a (lay b c) := by
  cases a <;> cases b <;> cases c <;>
    simp [lay, Patch.onto, toPatch, Patch.toEncoding?, apply, Option.or_assoc]

theorem lay_lay_self (a b : Option Encoding) : lay (lay a b) a = lay b a := by
  cases a with
  | none => simp
  | some e =>
    cases b with
    | none => simp [lay, Patch.onto, toPatch, apply, Patch.toEncoding?]
    | some e' =>
      simp only [lay, Patch.onto, toPatch, apply, Option.getD_some, Option.some.injEq, mk.injEq,
        true_and]
      refine ⟨?_, ?_, ?_⟩
      · cases e.axis <;> simp
      · cases e.skip <;> simp
      · cases e.anchor <;> simp

theorem lay_self (a : Option Encoding) : lay a a = a := by
  simpa using lay_lay_self a none

/-- No field is set to two different values. -/
structure Compatible (e e' : Encoding) : Prop where
  mark : e.mark = e'.mark
  channel : e.channel = e'.channel
  axis : ∀ a ∈ e.axis, ∀ b ∈ e'.axis, a = b
  skip : ∀ a ∈ e.skip, ∀ b ∈ e'.skip, a = b
  anchor : ∀ a ∈ e.anchor, ∀ b ∈ e'.anchor, a = b

theorem or_comm_iff {α : Type} {a b : Option α} :
    a.or b = b.or a ↔ ∀ x ∈ a, ∀ y ∈ b, x = y := by
  cases a <;> cases b <;> simp

theorem apply_comm_iff {e e' : Encoding} :
    e'.apply e.toPatch = e.apply e'.toPatch ↔ e.Compatible e' := by
  simp only [apply, toPatch, Option.getD_some, mk.injEq, or_comm_iff]
  exact ⟨fun ⟨hmark, hchannel, haxis, hskip, hanchor⟩ => ⟨hmark, hchannel, haxis, hskip, hanchor⟩,
    fun h => ⟨h.mark, h.channel, h.axis, h.skip, h.anchor⟩⟩

end Encoding

namespace Encodings
variable {m n : Encodings} {d : Datum}

theorem get?_merge (m : Encodings) (d k : Datum) (e : Encoding) :
    (m.merge d e).get? k = if d = k then Encoding.lay (m.get? k) (some e) else m.get? k :=
  get?_write m d k e.toPatch

theorem get?_mergeAll_of_forall_ne {entries : List (Datum × Encoding)} (m : Encodings)
    (h : ∀ entry ∈ entries, entry.1 ≠ d) : (m.mergeAll entries).get? d = m.get? d := by
  induction entries generalizing m with
  | nil => rfl
  | cons entry entries ih =>
    obtain ⟨hne, h⟩ := List.forall_mem_cons.mp h
    rw [mergeAll, List.foldl_cons, ← mergeAll, ih _ h, get?_merge, if_neg hne]

theorem get?_mergeAll_of_mem {entries : List (Datum × Encoding)} {e : Encoding} (m : Encodings)
    (hdistinct : entries.Pairwise fun a b => a.1 ≠ b.1) (h : (d, e) ∈ entries) :
    (m.mergeAll entries).get? d = Encoding.lay (m.get? d) (some e) := by
  induction entries generalizing m with
  | nil => simp at h
  | cons entry entries ih =>
    obtain ⟨hentry, hdistinct⟩ := List.pairwise_cons.mp hdistinct
    rw [mergeAll, List.foldl_cons, ← mergeAll]
    obtain rfl | h := List.mem_cons.mp h
    · rw [get?_mergeAll_of_forall_ne _ fun entry hmem => (hentry entry hmem).symm, get?_merge,
        if_pos rfl]
    · rw [ih _ hdistinct h, get?_merge, if_neg (hentry _ h)]

theorem mem_toList {e : Encoding} : (d, e) ∈ m.toList ↔ m.get? d = some e :=
  Std.ExtTreeMap.mem_toList_iff_getElem?_eq_some

theorem pairwise_toList (m : Encodings) : m.toList.Pairwise fun a b => a.1 ≠ b.1 := by
  refine Std.ExtTreeMap.distinct_keys_toList.imp fun hne heq => hne ?_
  rw [heq]
  exact Std.ReflCmp.compare_self

theorem get?_union (m n : Encodings) (d : Datum) :
    (m.union n).get? d = Encoding.lay (m.get? d) (n.get? d) := by
  rw [union]
  cases hn : n.get? d with
  | some e => exact get?_mergeAll_of_mem m n.pairwise_toList (mem_toList.mpr hn)
  | none =>
    refine get?_mergeAll_of_forall_ne m fun entry hmem hd => ?_
    obtain ⟨k, e⟩ := entry
    rw [mem_toList, show k = d from hd, hn] at hmem
    cases hmem

theorem contains_union (m n : Encodings) (d : Datum) :
    (m.union n).contains d = (m.contains d || n.contains d) := by
  simp only [contains_eq_isSome, get?_union]
  cases m.get? d <;> cases n.get? d <;> rfl

theorem mem_keys : d ∈ m.keys ↔ m.contains d :=
  Std.ExtTreeMap.mem_keys.trans Std.ExtTreeMap.mem_iff_contains

theorem mem_keys_union : d ∈ (m.union n).keys ↔ d ∈ m.keys ∨ d ∈ n.keys := by
  simp only [mem_keys, contains_union, Bool.or_eq_true]

theorem union_empty (m : Encodings) : m.union empty = m := by
  ext d : 1
  rw [get?_union, get?_empty, Encoding.lay_none]

theorem empty_union (m : Encodings) : empty.union m = m := by
  ext d : 1
  rw [get?_union, get?_empty, Encoding.none_lay]

theorem union_assoc (a b c : Encodings) : (a.union b).union c = a.union (b.union c) := by
  ext d : 1
  simp only [get?_union, Encoding.lay_assoc]

theorem union_self (m : Encodings) : m.union m = m := by
  ext d : 1
  rw [get?_union, Encoding.lay_self]

theorem union_union_self (a b : Encodings) : (a.union b).union a = b.union a := by
  ext d : 1
  simp only [get?_union, Encoding.lay_lay_self]

theorem get?_mergeAt (m : Encodings) (ds : List Datum) (e : Encoding) (x : Datum) :
    (m.mergeAt ds e).get? x =
      if x ∈ ds then Encoding.lay (m.get? x) (some e) else m.get? x := by
  induction ds generalizing m with
  | nil => rfl
  | cons d ds ih =>
    rw [mergeAt, List.foldl_cons, ← mergeAt, ih, get?_merge]
    by_cases hd : d = x
    · subst hd
      simp only [if_true, List.mem_cons_self]
      split
      · rw [Encoding.lay_assoc, Encoding.lay_self]
      · rfl
    · simp [hd, Ne.symm hd]

theorem union_mergeAt (m n : Encodings) (ds : List Datum) (e : Encoding) :
    m.union (n.mergeAt ds e) = (m.union n).mergeAt ds e := by
  ext x : 1
  rw [get?_union, get?_mergeAt, get?_mergeAt, get?_union]
  split
  · exact (Encoding.lay_assoc _ _ _).symm
  · rfl

def Compatible (m n : Encodings) : Prop :=
  ∀ d, ∀ e ∈ m.get? d, ∀ e' ∈ n.get? d, e.Compatible e'

theorem Compatible.refl (m : Encodings) : m.Compatible m := by
  intro d e he e' he'
  obtain rfl := Option.mem_unique he he'
  exact ⟨rfl, rfl, fun _ ha _ hb => Option.mem_unique ha hb,
    fun _ ha _ hb => Option.mem_unique ha hb, fun _ ha _ hb => Option.mem_unique ha hb⟩

theorem union_comm_iff : m.union n = n.union m ↔ m.Compatible n := by
  constructor
  · intro h d e he e' he'
    have hd : (m.union n).get? d = (n.union m).get? d := by rw [h]
    rw [get?_union, get?_union, he, he'] at hd
    exact Encoding.apply_comm_iff.mp (Option.some.inj hd).symm
  · intro h
    ext d : 1
    rw [get?_union, get?_union]
    cases hm : m.get? d with
    | none => simp
    | some e =>
      cases hn : n.get? d with
      | none => simp
      | some e' => exact congrArg some (Encoding.apply_comm_iff.mpr (h d e hm e' hn)).symm

/-- Laying maps of encodings over one another is associative, with the empty map as its unit. A map
that comes again changes nothing but the order: it has the last word. The keys are those of both
maps, and the order of two maps is of no consequence just where they are compatible. -/
theorem union_laws (a b c : Encodings) :
    (a.union b).union c = a.union (b.union c) ∧
    a.union empty = a ∧ empty.union a = a ∧
    a.union a = a ∧
    (a.union b).union a = b.union a ∧
    (∀ d, d ∈ (a.union b).keys ↔ d ∈ a.keys ∨ d ∈ b.keys) ∧
    (a.union b = b.union a ↔ a.Compatible b) :=
  ⟨union_assoc a b c, union_empty a, empty_union a, union_self a, union_union_self a b,
    fun _ => mem_keys_union, union_comm_iff⟩

end Encodings

end ChartFold
