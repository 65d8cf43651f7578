import ChartFold.Proofs.Panel.Members

/-! Two member lists that meet in one operation. They are joined by moving the shorter one and
dropping a single operation from it. No membership is tested, and still the outcome is, up to its
order, that of testing every operation. -/
namespace ChartFold.Panel
variable {shared x : OpId} {xs ys : Array OpId}

def appendMissing (xs ys : Array OpId) : Array OpId :=
  ys.foldl (fun joined y => if y ∈ joined then joined else joined.push y) xs

theorem toList_appendMissing (hys : ys.toList.Nodup) :
    (appendMissing xs ys).toList = xs.toList ++ ys.toList.filter (· ∉ xs) := by
  rw [appendMissing, ← Array.foldl_toList]
  generalize ys.toList = l at hys
  induction l generalizing xs with
  | nil => simp
  | cons y l ih =>
    obtain ⟨hy, hl⟩ := List.nodup_cons.mp hys
    rw [List.foldl_cons, ih hl]
    by_cases hmem : y ∈ xs
    · simp [hmem]
    · -- `y` is not met again, so that its arrival changes no later test
      have hlater : l.filter (· ∉ xs.push y) = l.filter (· ∉ xs) := by
        refine List.filter_congr fun z hz => ?_
        have hne : z ≠ y := fun he => hy (he ▸ hz)
        simp [hne]
      rw [if_neg hmem, hlater]
      simp [hmem]

/-- Two lists without repetition that hold `shared` and nothing else in common. -/
structure MeetAt (shared : OpId) (xs ys : Array OpId) : Prop where
  left : xs.toList.Nodup
  right : ys.toList.Nodup
  common : ∀ x, x ∈ xs ∧ x ∈ ys ↔ x = shared

namespace MeetAt

theorem symm (h : MeetAt shared xs ys) : MeetAt shared ys xs :=
  ⟨h.right, h.left, fun x => and_comm.trans (h.common x)⟩

theorem erase_eq_filter (h : MeetAt shared xs ys) :
    ys.toList.erase shared = ys.toList.filter (· ∉ xs) := by
  rw [h.right.erase_eq_filter]
  refine List.filter_congr fun x hx => ?_
  have hcommon : x ∈ xs ↔ x = shared := by
    rw [← h.common x, and_iff_left (Array.mem_toList_iff.mp hx)]
  rw [Bool.eq_iff_iff, bne_iff_ne, decide_eq_true_iff, hcommon]

theorem mem_erase (h : MeetAt shared xs ys) : x ∈ ys.toList.erase shared ↔ x ∈ ys ∧ x ∉ xs := by
  rw [h.erase_eq_filter, List.mem_filter, Array.mem_toList_iff, decide_eq_true_iff]

theorem mem_append_erase (h : MeetAt shared xs ys) :
    x ∈ xs.toList ++ ys.toList.erase shared ↔ x ∈ xs ∨ x ∈ ys := by
  rw [List.mem_append, h.mem_erase, Array.mem_toList_iff]
  tauto

theorem nodup_append_erase (h : MeetAt shared xs ys) :
    (xs.toList ++ ys.toList.erase shared).Nodup := by
  refine h.left.append (h.right.erase shared) fun x hx hy => ?_
  exact (h.mem_erase.mp hy).2 (Array.mem_toList_iff.mp hx)

theorem append_erase_perm (h : MeetAt shared xs ys) :
    (xs.toList ++ ys.toList.erase shared).Perm (ys.toList ++ xs.toList.erase shared) := by
  refine (List.perm_ext_iff_of_nodup h.nodup_append_erase h.symm.nodup_append_erase).mpr ?_
  intro x
  rw [h.mem_append_erase, h.symm.mem_append_erase, or_comm]

theorem toList_appendMissing_eq (h : MeetAt shared xs ys) :
    (appendMissing xs ys).toList = xs.toList ++ ys.toList.erase shared := by
  rw [toList_appendMissing h.right, h.erase_eq_filter]

theorem toList_joinMembers_of_le (h : MeetAt shared xs ys) (hsize : ys.size ≤ xs.size) :
    (joinMembers shared xs ys).toList = xs.toList ++ ys.toList.erase shared := by
  rw [joinMembers, if_neg (Nat.not_lt.mpr hsize), Array.toList_append, Array.toList_filter,
    h.right.erase_eq_filter]

theorem toList_joinMembers_of_lt (h : MeetAt shared xs ys) (hsize : xs.size < ys.size) :
    (joinMembers shared xs ys).toList = ys.toList ++ xs.toList.erase shared := by
  rw [joinMembers, if_pos hsize, Array.toList_append, Array.toList_filter, h.left.erase_eq_filter]

theorem joinMembers_perm_append_erase (h : MeetAt shared xs ys) :
    (joinMembers shared xs ys).toList.Perm (xs.toList ++ ys.toList.erase shared) := by
  obtain hsize | hsize := Nat.lt_or_ge xs.size ys.size
  · rw [h.toList_joinMembers_of_lt hsize]
    exact h.append_erase_perm.symm
  · rw [h.toList_joinMembers_of_le hsize]

end MeetAt

/-- What `joined` has to be for two lists that hold `shared`: their union without repetition, the
longer list as it was before the rest of the other, and of two lists of one length the first. -/
structure Joined (shared : OpId) (xs ys joined : Array OpId) : Prop where
  nodup : joined.toList.Nodup
  mem_iff : ∀ x, x ∈ joined ↔ x ∈ xs ∨ x ∈ ys
  of_le : ys.size ≤ xs.size → joined.toList = xs.toList ++ ys.toList.erase shared
  of_lt : xs.size < ys.size → joined.toList = ys.toList ++ xs.toList.erase shared
  perm_appendMissing : joined.toList.Perm (appendMissing xs ys).toList

/-- Laying one panel over another joins their members as testing each of them would. -/
theorem overlay_joined (p acc : Panel) (declared : Option Chart)
    (h : MeetAt acc.top p.members acc.members) :
    Joined acc.top p.members acc.members (p.overlay acc declared).members := by
  have hperm := h.joinMembers_perm_append_erase
  constructor
  case nodup => exact hperm.nodup_iff.mpr h.nodup_append_erase
  case mem_iff =>
    intro x
    rw [← h.mem_append_erase, ← hperm.mem_iff, Array.mem_toList_iff, overlay]
  case of_le => exact h.toList_joinMembers_of_le
  case of_lt => exact h.toList_joinMembers_of_lt
  case perm_appendMissing =>
    rw [h.toList_appendMissing_eq]
    exact hperm

theorem overlay_joined_longer_and_tie :
    let p : Panel := { blank 3 0 with members := #[5, 3, 0] }
    let longer : Panel := { blank 0 0 with members := #[7, 0, 2, 6] }
    let tie : Panel := { blank 0 0 with members := #[2, 0, 1] }
    (p.overlay longer none).members = #[7, 0, 2, 6, 5, 3] ∧
      Joined 0 p.members longer.members (p.overlay longer none).members ∧
      (p.overlay tie none).members = #[5, 3, 0, 2, 1] ∧
      Joined 0 p.members tie.members (p.overlay tie none).members := by
  intro p longer tie
  have hlonger : MeetAt longer.top p.members longer.members := by
    refine ⟨by decide, by decide, fun x => ?_⟩
    simp only [p, longer, blank]
    grind
  have htie : MeetAt tie.top p.members tie.members := by
    refine ⟨by decide, by decide, fun x => ?_⟩
    simp only [p, tie, blank]
    grind
  exact ⟨rfl, overlay_joined p longer none hlonger, rfl, overlay_joined p tie none htie⟩

theorem foldHeads_meetAt {rules : Rules} {forest : Forest} {parent : Operation}
    {declared : Option Chart} {own acc head : Panel} {heads : List Panel}
    (h : foldHeads parent declared forest rules own heads = .ok acc)
    (hown : own.ToppedBy parent.id)
    (hnodup : (membersOf (heads ++ [head]) ++ own.members.toList).Nodup) :
    MeetAt acc.top (head.members.push parent.id) acc.members := by
  rw [membersOf_append, membersOf_singleton] at hnodup
  obtain ⟨hheads, -, hapart⟩ := List.nodup_append'.mp hnodup
  obtain ⟨-, hhead, hfresh⟩ := List.nodup_append'.mp hheads
  have hown' : parent.id ∈ own.members.toList := Array.mem_toList_iff.mpr hown.mem
  have habsent : parent.id ∉ membersOf heads ++ head.members.toList := fun hmem => hapart hmem hown'
  rw [List.mem_append, not_or] at habsent
  obtain ⟨hacc, hperm⟩ := foldHeads_members h hown fun p hp hmem =>
    habsent.1 (mem_membersOf.mpr ⟨p, hp, hmem⟩)
  -- the members gathered so far and those of the head have nothing in common
  have hdisjoint : acc.members.toList.Disjoint head.members.toList := fun x hx hxHead => by
    obtain hx | hx := List.mem_append.mp (hperm.mem_iff.mp hx)
    · exact hfresh hx hxHead
    · exact hapart (List.mem_append_right _ hxHead) hx
  rw [hacc.top]
  constructor
  case left =>
    rw [Array.toList_push, ← List.concat_eq_append]
    exact hhead.concat habsent.2
  case right =>
    refine hperm.nodup_iff.mpr (hnodup.sublist ?_)
    exact (List.sublist_append_left _ _).append (List.Sublist.refl _)
  case common =>
    intro x
    rw [Array.mem_push]
    constructor
    · rintro ⟨hx | rfl, hxAcc⟩
      · exact (hdisjoint (Array.mem_toList_iff.mpr hxAcc) (Array.mem_toList_iff.mpr hx)).elim
      · rfl
    · rintro rfl
      exact ⟨Or.inr rfl, hacc.mem⟩

end ChartFold.Panel
