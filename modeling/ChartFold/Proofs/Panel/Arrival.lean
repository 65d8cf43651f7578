import ChartFold.Proofs.Panel.Agree
import ChartFold.Proofs.Panel.Gathered

/-! The gathering of any heads, whoever they belong to: which of them are handed up and in what
order, and which operations the last panel explains. The order in which heads arrive decides
nothing, neither what is gathered nor why it fails, where the tops tell the heads apart. -/
namespace ChartFold.Panel
variable {rules : Rules} {forest : Forest} {op : Operation} {d : Nat} {profile : Profile}
  {heads arrived fewer list : List Panel} {gathered : Panel} {id : OpId}

def answered (op : Operation) (rules : Rules) (answer : Bool) (heads : List Panel) : List Panel :=
  heads.filter fun head => (head.fits op rules).result = .ok answer

/-- Panels that have no member in common; none holds an operation twice, or the given one. -/
structure Apart (id : OpId) (panels : List Panel) : Prop where
  nodup : ∀ p ∈ panels, p.members.toList.Nodup
  fresh : ∀ p ∈ panels, id ∉ p.members
  disjoint : panels.Pairwise fun p q => p.members.toList.Disjoint q.members.toList

theorem Apart.sublist (h : Apart id heads) (hsub : fewer.Sublist heads) : Apart id fewer where
  nodup p hp := h.nodup p (hsub.subset hp)
  fresh p hp := h.fresh p (hsub.subset hp)
  disjoint := h.disjoint.sublist hsub

theorem Apart.nodup_cons (h : Apart id heads) : (id :: membersOf heads).Nodup := by
  refine List.nodup_cons.mpr ⟨fun hmem => ?_, List.nodup_flatMap.mpr ⟨h.nodup, h.disjoint⟩⟩
  obtain ⟨p, hp, hid⟩ := mem_membersOf.mp hmem
  exact h.fresh p hp hid

structure Arranged (op : Operation) (rules : Rules) (heads handedUp : List Panel)
    (gathered : Panel) : Prop where
  /-- All that do not fit are handed up, as they came, and no others. -/
  rejected : handedUp.Perm (answered op rules false heads)
  ascending : handedUp.Pairwise fun a b => a.top ≤ b.top
  /-- Those of one top keep the order in which they arrived. -/
  arrival : ∀ id, handedUp.filter (·.top = id) =
    (answered op rules false heads).filter (·.top = id)
  top : gathered.top = op.id
  /-- The operation and the members of the heads that fit, each once. -/
  members : Apart op.id heads → gathered.members.toList.Nodup ∧
    gathered.members.toList.Perm (op.id :: membersOf (answered op rules true heads))

theorem orphans_eq_answered (hprofile : rules.profile? op.kind = some profile)
    (heads : List Panel) : orphans rules profile.chart heads = answered op rules false heads := by
  refine List.filter_congr fun head _ => ?_
  rw [result_fits hprofile]
  cases head.objection? rules profile.chart <;> simp

theorem length_orphans_le (rules : Rules) (wanted : Option Chart) (heads : List Panel) :
    (byTop (orphans rules wanted heads)).length ≤ heads.length := by
  rw [(byTop_perm _).length_eq]
  exact List.length_filter_le _ _

theorem foldHeads_top {own : Panel} {declared : Option Chart}
    (h : foldHeads op declared forest rules own heads = .ok gathered) : gathered.top = own.top := by
  induction heads generalizing own with
  | nil =>
    cases h
    rfl
  | cons head heads ih =>
    obtain ⟨acc, hacc, h⟩ := foldHeads_cons_eq_ok.mp h
    exact (ih h).trans (foldHead_eq_ok hacc).1

theorem foldHeads_apart {own : Panel} {declared : Option Chart}
    (hown : (start op d rules).result = .ok own) (hapart : Apart op.id heads)
    (hfold : foldHeads op declared forest rules own (byTop heads) = .ok gathered) :
    gathered.members.toList.Nodup ∧ gathered.members.toList.Perm (op.id :: membersOf heads) := by
  obtain ⟨htopped, hmembers⟩ := start_toppedBy hown
  obtain ⟨-, hperm⟩ := foldHeads_members hfold htopped
    fun head hhead => hapart.fresh head (mem_byTop.mp hhead)
  have hgathered : gathered.members.toList.Perm (op.id :: membersOf heads) := calc
    gathered.members.toList.Perm (membersOf (byTop heads) ++ [op.id]) := by
      rwa [hmembers] at hperm
    List.Perm _ (op.id :: membersOf (byTop heads)) := List.perm_append_singleton _ _
    List.Perm _ (op.id :: membersOf heads) := (membersOf_perm (byTop_perm heads)).cons _
  exact ⟨hgathered.nodup_iff.mpr hapart.nodup_cons, hgathered⟩

theorem arranged_of_gather (h : (gather op d heads forest rules).result = .ok list) :
    ∃ handedUp gathered, list = handedUp ++ [gathered] ∧ handedUp.length ≤ heads.length ∧
      Arranged op rules heads handedUp gathered := by
  obtain ⟨profile, own, gathered, hprofile, -, hown, hfold, hlist⟩ := gather_eq_ok.mp h
  refine ⟨byTop (orphans rules profile.chart heads), gathered, hlist,
    length_orphans_le rules profile.chart heads, ?_⟩
  rw [orphans_eq_answered hprofile]
  rw [joining_eq_filter_fits hprofile] at hfold
  refine ⟨byTop_perm _, pairwise_byTop _, filter_byTop _, ?_, fun hapart => ?_⟩
  · exact (foldHeads_top hfold).trans (start_toppedBy hown).1.top
  · exact foldHeads_apart hown (hapart.sublist List.filter_sublist) hfold

theorem result_gather_of_perm (hperm : arrived.Perm heads) (hdistinct : (heads.map (·.top)).Nodup) :
    (gather op d arrived forest rules).result = (gather op d heads forest rules).result := by
  have hinj : ∀ a ∈ arrived, ∀ b ∈ arrived, a.top = b.top → a = b := fun a ha b hb htop =>
    List.inj_on_of_nodup_map hdistinct (hperm.mem_iff.mp ha) (hperm.mem_iff.mp hb) htop
  cases hprofile : rules.profileOf op with
  | error e =>
    rw [gather, gather, hprofile]
    rfl
  | ok profile =>
    rw [result_gather hprofile, result_gather hprofile, joining, joining, orphans, orphans,
      byTop_filter_eq_of_perm hperm hinj, byTop_filter_eq_of_perm hperm hinj]

/-- An operation that is given any heads hands up those that do not fit, by their tops, and puts
one panel after them. Heads that are apart go into that panel member by member. And heads whose
tops differ come to the same, or fail for the same reason, in every order. -/
theorem gather_arranged (op : Operation) (d : Nat) (heads : List Panel) (forest : Forest)
    (rules : Rules) :
    (∀ list, (gather op d heads forest rules).result = .ok list →
      (∃ handedUp gathered, list = handedUp ++ [gathered] ∧
        Arranged op rules heads handedUp gathered) ∧
      1 ≤ list.length ∧ list.length ≤ heads.length + 1) ∧
    ((heads.map (·.top)).Nodup → ∀ arrived, arrived.Perm heads →
      (gather op d arrived forest rules).result = (gather op d heads forest rules).result) := by
  refine ⟨fun list h => ?_, fun hdistinct arrived hperm => result_gather_of_perm hperm hdistinct⟩
  obtain ⟨handedUp, gathered, rfl, hlength, harranged⟩ := arranged_of_gather h
  refine ⟨⟨handedUp, gathered, rfl, harranged⟩, ?_⟩
  rw [List.length_append, List.length_singleton]
  omega

/-! Three heads, two of them bound to a chart that has no place in a sum, and two heads whose tops
are not in the forest. -/

def disputedHeads : List Panel := [mixedHead 3 3 (some .barComparison),
  mixedHead 2 2 none, mixedHead 1 1 (some .barComparison)]

def strayHeads : List Panel := [mixedHead 9 9 (some .stackedBar),
  mixedHead 8 8 (some .spacefilling)]

def disputedPanel : Panel := { mixedPanel with members := #[2, 0], chart := some .stackedBar }

theorem gather_disputed : (gather mixedSum 0 disputedHeads .empty mixedRules).result =
    .ok [mixedHead 1 1 (some .barComparison), mixedHead 3 3 (some .barComparison),
      disputedPanel] := by
  simp only [gather, byTop_eq_insertionSort]
  decide +kernel

theorem gather_stray : (gather mixedSum 0 strayHeads .empty mixedRules).result =
    .error (.forest (.unknown 8)) := by
  simp only [gather, byTop_eq_insertionSort]
  decide +kernel

theorem gather_arranged_reversed :
    (∃ handedUp gathered, Arranged mixedSum mixedRules disputedHeads handedUp gathered ∧
      handedUp.map (·.top) = [1, 3] ∧
      gathered.members.toList.Perm (0 :: membersOf [mixedHead 2 2 none])) ∧
    (gather mixedSum 0 disputedHeads.reverse .empty mixedRules).result =
      .ok [mixedHead 1 1 (some .barComparison), mixedHead 3 3 (some .barComparison),
        disputedPanel] ∧
    (gather mixedSum 0 strayHeads.reverse .empty mixedRules).result =
      .error (.forest (.unknown 8)) := by
  obtain ⟨hok, hreversed⟩ := gather_arranged mixedSum 0 disputedHeads .empty mixedRules
  obtain ⟨⟨handedUp, gathered, hlist, harranged⟩, -⟩ := hok _ gather_disputed
  obtain ⟨-, hstray⟩ := gather_arranged mixedSum 0 strayHeads .empty mixedRules
  have hsplit : [_, _] ++ [_] = handedUp ++ [gathered] := hlist
  have hapart : Apart mixedSum.id disputedHeads := by
    constructor <;> simp [disputedHeads, mixedHead, mixedSum]
  refine ⟨⟨handedUp, gathered, harranged, ?_, (harranged.members hapart).2⟩, ?_, ?_⟩
  · rw [← List.append_inj_left' hsplit rfl]
    rfl
  · rw [hreversed (by decide) _ (List.reverse_perm _), gather_disputed]
  · rw [hstray (by decide) _ (List.reverse_perm _), gather_stray]

end ChartFold.Panel
