import ChartFold.Proofs.Forest.Lineage
import Mathlib.Data.Nat.Find
import Std.Data.String.ToNat

/-! The names of a forest. The index, the set of the names that are taken and the operations say the
same after every call, so a name stands for one operation for good. A name that is in use gets the
least number that makes it new; numbers differ in their digits, so there are fewer in use than there
are operations. There are 2147483646 numbers, and a forest of no more operations than these never
runs out of them. -/
namespace ChartFold.Forest
variable {f g : Forest} {i j : OpId} {k : Nat} {s name : String}

def name? (f : Forest) (i : OpId) : Option String := (f.get? i).map (·.name)

/-- The index finds exactly the names that are borne, and just these are taken. -/
structure Indexed (f : Forest) : Prop where
  find?_iff : ∀ s i, f.find? s = some i ↔ f.name? i = some s
  mem_used : ∀ s, s ∈ f.used ↔ ∃ i, f.find? s = some i

/-! Views of the operations that grow a forest -/

theorem name?_push (f : Forest) (name : String) (parent : Option OpId) (kind : OpKind) (flow : Flow)
    (i : OpId) : (f.push name parent kind flow).name? i =
      if i = f.size then some name else f.name? i := by
  rw [name?, get?_push]
  split <;> rfl

theorem name?_appendChild (f : Forest) (p c i : OpId) :
    (f.appendChild p c).name? i = f.name? i := by
  rw [name?, name?, get?_appendChild]
  split
  · cases f.get? i <;> rfl
  · rfl

theorem name?_setParent (f : Forest) (c p i : OpId) : (f.setParent c p).name? i = f.name? i := by
  rw [name?, name?, get?_setParent]
  split
  · cases f.get? i <;> rfl
  · rfl

theorem name?_insert (f : Forest) (name : String) (parent : Option OpId) (kind : OpKind)
    (flow : Flow) (i : OpId) : (f.insert name parent kind flow).name? i =
      if i = f.size then some name else f.name? i := by
  cases parent with
  | none => exact name?_push f name none kind flow i
  | some p => rw [insert, name?_appendChild, name?_push]

theorem find?_insert (f : Forest) (name : String) (parent : Option OpId) (kind : OpKind)
    (flow : Flow) (s : String) : (f.insert name parent kind flow).find? s =
      if name = s then some f.size else f.find? s := by
  cases parent <;> simp [find?, insert, push, appendChild, Std.ExtTreeMap.getElem?_insert]

theorem mem_used_insert (f : Forest) (name : String) (parent : Option OpId) (kind : OpKind)
    (flow : Flow) (s : String) :
    s ∈ (f.insert name parent kind flow).used ↔ name = s ∨ s ∈ f.used := by
  cases parent <;> simp [insert, push, appendChild, Std.ExtTreeSet.mem_insert]

theorem attach_names {c p : OpId} (h : f.attach c p = .ok g) :
    g.names = f.names ∧ g.used = f.used ∧ ∀ i, g.name? i = f.name? i := by
  obtain ⟨-, -, -, -, rfl⟩ := attach_eq_ok h
  exact ⟨rfl, rfl, fun i => by rw [name?_appendChild, name?_setParent]⟩

theorem name?_size (f : Forest) : f.name? f.size = none := by
  rw [name?, get?_size, Option.map_none]

def candidate (name : String) : Nat → String
  | 0 => name
  | k + 1 => s!"{name}_{k + 1}"

/-- How many candidates a call can try before its counter overflows. -/
def candidateCount : Nat := 2147483647

theorem candidate_succ (name : String) (k : Nat) :
    candidate name (k + 1) = name ++ ("_" ++ (k + 1).repr) := by
  simp [candidate, toString, String.append_assoc]

theorem candidate_succ_ne (name : String) (k : Nat) : candidate name (k + 1) ≠ name := by
  intro h
  have hlength := congrArg String.length h
  rw [candidate_succ, String.length_append, String.length_append] at hlength
  have hbar : "_".length = 1 := rfl
  omega

theorem candidate_injective (name : String) : Function.Injective (candidate name) := by
  intro j k h
  cases j with
  | zero =>
    cases k with
    | zero => rfl
    | succ k => exact absurd h.symm (candidate_succ_ne name k)
  | succ j =>
    cases k with
    | zero => exact absurd h (candidate_succ_ne name j)
    | succ k =>
      rw [candidate_succ, candidate_succ, String.append_right_inj, String.append_right_inj] at h
      exact Nat.repr_inj.mp h

theorem numbered_ofNat (hk : k + 1 < candidateCount) (name : String) :
    numbered name (Int32.ofNat (k + 1)) = candidate name (k + 1) := by
  have hfits : k + 1 < 2 ^ 31 := Nat.lt_trans hk (by decide)
  simp only [numbered, candidate, toString, Int32.toInt_ofNat_of_lt hfits]
  rfl

theorem firstFree?_ofNat (hk : k + 1 < candidateCount) (taken : String → Bool) (name : String) :
    firstFree? taken name (Int32.ofNat (k + 1)) =
      if taken (candidate name (k + 1)) then firstFree? taken name (Int32.ofNat (k + 2))
      else some (candidate name (k + 1)) := by
  have hlt : Int32.ofNat (k + 1) < Int32.maxValue :=
    (Int32.ofNat_lt_iff_lt (Nat.lt_trans hk (by decide)) (by decide)).mpr hk
  have hnext : Int32.ofNat (k + 2) = Int32.ofNat (k + 1) + 1 := Int32.ofNat_add (k + 1) 1
  rw [firstFree?, if_pos hlt, numbered_ofNat hk, hnext]

theorem firstFree?_candidateCount (taken : String → Bool) (name : String) :
    firstFree? taken name (Int32.ofNat candidateCount) = none := by
  rw [firstFree?, if_neg (by decide)]

/-- Once it has found the first `k` candidates taken, the search is at the next one. -/
theorem freshName?_of_taken (hk : k < candidateCount)
    (htaken : ∀ j < k, candidate name j ∈ f.used) : f.freshName? name =
      if f.used.contains (candidate name k) then
        firstFree? f.used.contains name (Int32.ofNat (k + 1))
      else some (candidate name k) := by
  induction k with
  | zero => rfl
  | succ k ih =>
    rw [ih (Nat.lt_of_succ_lt hk) fun j hj => htaken j (Nat.lt_succ_of_lt hj),
      if_pos (Std.ExtTreeSet.mem_iff_contains.mp (htaken k (Nat.lt_succ_self k))),
      firstFree?_ofNat hk]

theorem freshName?_cases (f : Forest) (name : String) :
    (∃ k < candidateCount, f.freshName? name = some (candidate name k) ∧
      candidate name k ∉ f.used ∧ ∀ j < k, candidate name j ∈ f.used) ∨
    f.freshName? name = none ∧ ∀ j < candidateCount, candidate name j ∈ f.used := by
  by_cases hfree : ∃ k, k < candidateCount ∧ candidate name k ∉ f.used
  · classical
    obtain ⟨hk, hnew⟩ := Nat.find_spec hfree
    have htaken (j : Nat) (hj : j < Nat.find hfree) : candidate name j ∈ f.used := by
      by_contra hnew
      exact Nat.find_min hfree hj ⟨Nat.lt_trans hj hk, hnew⟩
    refine Or.inl ⟨Nat.find hfree, hk, ?_, hnew, htaken⟩
    rw [freshName?_of_taken hk htaken, if_neg (by simpa using hnew)]
  · have hall : ∀ j < candidateCount, candidate name j ∈ f.used := by simpa using hfree
    refine Or.inr ⟨?_, hall⟩
    have hlast : candidateCount - 1 < candidateCount := by decide
    rw [freshName?_of_taken hlast fun j hj => hall j (Nat.lt_trans hj hlast),
      if_pos (Std.ExtTreeSet.mem_iff_contains.mp (hall _ hlast))]
    exact firstFree?_candidateCount _ _

/-! The same search by a program that does not check the sums of its counter -/

/-- No more candidates are in use than there are operations. -/
theorem le_size_of_borne {k : Nat} (h : ∀ j < k, ∃ i, f.name? i = some (candidate name j)) :
    k ≤ f.size := by
  have hnodup : ((List.range k).map (candidate name)).Nodup :=
    List.nodup_range.map (candidate_injective name)
  have hsub : (List.range k).map (candidate name) ⊆ f.toList.map (·.name) := by
    intro s hs
    obtain ⟨j, hj, rfl⟩ := List.mem_map.mp hs
    obtain ⟨i, hi⟩ := h j (List.mem_range.mp hj)
    obtain ⟨op, hop, hname⟩ := Option.map_eq_some_iff.mp hi
    exact List.mem_map.mpr ⟨op, Array.mem_toList_iff.mpr (Array.mem_of_getElem? hop), hname⟩
  have hle := (hnodup.subperm hsub).length_le
  simpa [toList, size] using hle

namespace Indexed

theorem mem_used_iff (h : f.Indexed) : s ∈ f.used ↔ ∃ i, f.name? i = some s := by
  simp only [h.mem_used, h.find?_iff]

theorem fresh_of_freshName? (h : f.Indexed) {fresh : String}
    (hfresh : f.freshName? name = some fresh) : ∃ k ≤ f.size, fresh = candidate name k ∧
      (∀ i, f.name? i ≠ some (candidate name k)) ∧
        ∀ j < k, ∃ i, f.name? i = some (candidate name j) := by
  obtain ⟨k, -, hk, hnew, htaken⟩ | ⟨hnone, -⟩ := freshName?_cases f name
  · rw [hfresh] at hk
    simp only [h.mem_used_iff] at hnew htaken
    exact ⟨k, le_size_of_borne htaken, Option.some.inj hk, not_exists.mp hnew, htaken⟩
  · rw [hfresh] at hnone
    cases hnone

theorem exists_freshName?_iff (h : f.Indexed) : (∃ fresh, f.freshName? name = some fresh) ↔
    ∃ k < candidateCount, ∀ i, f.name? i ≠ some (candidate name k) := by
  obtain ⟨k, hk, hfresh, hnew, -⟩ | ⟨hnone, hall⟩ := freshName?_cases f name
  · rw [h.mem_used_iff, not_exists] at hnew
    exact iff_of_true ⟨_, hfresh⟩ ⟨k, hk, hnew⟩
  · refine iff_of_false (by simp [hnone]) fun ⟨k, hk, hnew⟩ => ?_
    obtain ⟨i, hi⟩ := h.mem_used_iff.mp (hall k hk)
    exact hnew i hi

theorem exists_freshName? (h : f.Indexed) (hsize : f.size < candidateCount) (name : String) :
    ∃ fresh, f.freshName? name = some fresh := by
  refine h.exists_freshName?_iff.mpr ?_
  by_contra hall
  push Not at hall
  exact Nat.not_lt_of_le (le_size_of_borne hall) hsize

theorem injective (h : f.Indexed) (hi : f.name? i = some s) (hj : f.name? j = some s) : i = j :=
  Option.some.inj (((h.find?_iff s i).mpr hi).symm.trans ((h.find?_iff s j).mpr hj))

/-! Growing keeps the containers in step -/

theorem empty : Indexed empty := by
  constructor <;> simp [Forest.empty, find?, name?, get?]

theorem insert (h : f.Indexed) (hnew : ∀ i, f.name? i ≠ some name) (parent : Option OpId)
    (kind : OpKind) (flow : Flow) : (f.insert name parent kind flow).Indexed := by
  refine ⟨fun s i => ?_, fun s => ?_⟩
  · rw [find?_insert, name?_insert]
    by_cases hs : name = s <;> by_cases hi : i = f.size
    · simp [hs, hi]
    · subst hs
      simp [hi, Ne.symm hi, hnew i]
    · simp [hs, hi, h.find?_iff, name?_size]
    · simp [hs, hi, h.find?_iff]
  · rw [mem_used_insert, h.mem_used, find?_insert]
    by_cases hs : name = s <;> simp [hs]

theorem perform (h : f.Indexed) (call : Call) : (f.perform call).Indexed := by
  obtain ⟨-, hsame⟩ | ⟨name, parent, kind, flow, id, -, hadd⟩ | ⟨c, p, -, hattach⟩ :=
    perform_cases f call
  · rwa [hsame]
  · obtain ⟨-, -, fresh, hfresh, hg⟩ := add_eq_ok_iff.mp hadd
    obtain ⟨k, -, rfl, hnew, -⟩ := h.fresh_of_freshName? hfresh
    rw [hg]
    exact h.insert hnew parent kind flow
  · obtain ⟨hnames, hused, hname⟩ := attach_names hattach
    refine ⟨fun s i => ?_, fun s => ?_⟩
    · rw [find?, hnames, hname]
      exact h.find?_iff s i
    · rw [hused, find?, hnames]
      exact h.mem_used s

theorem replay (h : f.Indexed) (calls : List Call) : (f.replay calls).Indexed :=
  replay_invariant (fun _ call h => h.perform call) h calls

end Indexed

theorem Reachable.indexed (h : f.Reachable) : f.Indexed := by
  obtain ⟨calls, rfl⟩ := h
  exact Indexed.empty.replay calls

/-! A name stays with its operation -/

end ChartFold.Forest
