import ChartFold.Proofs.Rules.Tables
import Mathlib.Data.List.Nodup
import Mathlib.Data.List.Pairwise

/-! A table of compositions as the canonical form of the list that it is made from. The list makes
a table unless it speaks about a pair of charts twice, and then the first rule that does so is
named. The table lists the same rules in the order of their pairs, whatever order they came in. -/
namespace ChartFold.Compositions
variable {t : Compositions} {rules list : List Composition} {r r' : Composition}
  {pair : RepeatedPair}

/-! The first repetition -/

/-- Some rule speaks about the pair again, and no rule before it repeats any pair. -/
def FirstRepeat (rules : List Composition) (pair : RepeatedPair) : Prop :=
  ∃ before r after, rules = before ++ r :: after ∧ before.Pairwise Apart ∧
    (∃ earlier ∈ before, ¬ Apart earlier r) ∧ pair = ⟨r.child, r.parent⟩

theorem not_apart : ¬ Apart r r' ↔ r.child = r'.child ∧ r.parent = r'.parent := by
  rw [Apart, Classical.not_not, Prod.mk.injEq]

theorem FirstRepeat.not_pairwise (h : FirstRepeat rules pair) : ¬ rules.Pairwise Apart := by
  obtain ⟨before, r, after, rfl, -, ⟨earlier, hearlier, hsame⟩, -⟩ := h
  intro hdistinct
  obtain ⟨-, -, hacross⟩ := List.pairwise_append.mp hdistinct
  exact hsame (hacross earlier hearlier r List.mem_cons_self)

theorem pairwise_or_firstRepeat (rules : List Composition) :
    rules.Pairwise Apart ∨ ∃ pair, FirstRepeat rules pair := by
  induction rules using List.reverseRecOn with
  | nil => exact Or.inl List.Pairwise.nil
  | append_singleton rules last ih =>
    -- the last rule is the first to repeat a pair unless one before it did
    obtain hdistinct | ⟨pair, before, r, after, rfl, hbefore, hrepeat, hpair⟩ := ih
    · by_cases hrepeat : ∃ earlier ∈ rules, ¬ Apart earlier last
      · exact Or.inr ⟨_, rules, last, [], rfl, hdistinct, hrepeat, rfl⟩
      · refine Or.inl (List.pairwise_append.mpr ⟨hdistinct, List.pairwise_singleton _ _, ?_⟩)
        rintro earlier hearlier r hr
        obtain rfl := List.mem_singleton.mp hr
        exact Classical.not_not.mp fun hsame => hrepeat ⟨earlier, hearlier, hsame⟩
    · exact Or.inr ⟨pair, before, r, after ++ [last], by simp, hbefore, hrepeat, hpair⟩

theorem add_of_get? (h : t.get? r.child r.parent = some r') :
    t.add r = .error ⟨r.child, r.parent⟩ := by
  rw [add, contains_eq_isSome, h]
  rfl

theorem ofList_of_firstRepeat (h : FirstRepeat rules pair) : ofList rules = .error pair := by
  obtain ⟨before, r, after, rfl, hbefore, ⟨earlier, hearlier, hsame⟩, rfl⟩ := h
  obtain ⟨t, ht⟩ := exists_ofList hbefore
  obtain ⟨hchild, hparent⟩ := not_apart.mp hsame
  have hget : t.get? r.child r.parent = some earlier :=
    (get?_ofList ht).mpr ⟨hearlier, hchild, hparent⟩
  have hrepeat : ofList (before ++ [r]) = .error ⟨r.child, r.parent⟩ := by
    rw [ofList_concat, Except.bind_of_ok ht, add_of_get? hget]
  calc
    ofList (before ++ r :: after) = ofList (before ++ [r]) >>= fun t => after.foldlM add t := by
      rw [ofList, ofList, List.append_cons, List.foldlM_append]
    _ = .error ⟨r.child, r.parent⟩ := Except.bind_of_error hrepeat _

theorem ofList_eq_error_iff : ofList rules = .error pair ↔ FirstRepeat rules pair := by
  refine ⟨fun h => ?_, ofList_of_firstRepeat⟩
  obtain hdistinct | ⟨first, hfirst⟩ := pairwise_or_firstRepeat rules
  · obtain ⟨t, ht⟩ := exists_ofList hdistinct
    cases ht.symm.trans h
  · cases (ofList_of_firstRepeat hfirst).symm.trans h
    exact hfirst

theorem exists_error_iff : (∃ pair, ofList rules = .error pair) ↔ ¬ rules.Pairwise Apart := by
  simp only [ofList_eq_error_iff]
  refine ⟨fun ⟨_, hfirst⟩ => hfirst.not_pairwise, fun h => ?_⟩
  exact (pairwise_or_firstRepeat rules).resolve_left h

theorem pairwise_of_ofList (h : ofList rules = .ok t) : rules.Pairwise Apart := by
  by_contra hrepeat
  obtain ⟨pair, hpair⟩ := exists_error_iff.mpr hrepeat
  cases hpair.symm.trans h

/-! The rules in order -/

def Before (r r' : Composition) : Prop :=
  pairOrder (r.child, r.parent) (r'.child, r'.parent) = .lt

theorem pairwise_before_toList (t : Compositions) : t.toList.Pairwise Before :=
  List.pairwise_map.mpr Std.ExtTreeMap.ordered_keys_toList

theorem nodup_of_pairwise_apart (h : rules.Pairwise Apart) : rules.Nodup :=
  h.imp fun happart heq => happart (by rw [heq])

theorem mem_iff_get? (h : ofList rules = .ok t) :
    r ∈ rules ↔ t.get? r.child r.parent = some r := by
  simp [get?_ofList h]

theorem toList_perm (h : ofList rules = .ok t) : t.toList.Perm rules := by
  refine (List.perm_ext_iff_of_nodup (nodup_of_pairwise_apart t.pairwise_toList)
    (nodup_of_pairwise_apart (pairwise_of_ofList h))).mpr fun r => ?_
  rw [mem_toList, mem_iff_get? h]

theorem size_eq_length_toList (t : Compositions) : t.size = t.toList.length := by
  rw [toList, List.length_map, Std.ExtTreeMap.length_toList, size]

theorem ofList_of_perm (hperm : list.Perm rules) (h : ofList rules = .ok t) :
    ofList list = .ok t := by
  have hdistinct : list.Pairwise Apart :=
    hperm.symm.pairwise (pairwise_of_ofList h) fun happart => happart.symm
  exact ofList_of_mem_iff hdistinct fun r => hperm.mem_iff.trans (mem_iff_get? h)

def notAfter (r r' : Composition) : Bool :=
  (pairOrder (r.child, r.parent) (r'.child, r'.parent)).isLE

theorem notAfter_trans (a b c : Composition) (hab : notAfter a b) (hbc : notAfter b c) :
    notAfter a c := Std.TransCmp.isLE_trans hab hbc

theorem notAfter_total (r r' : Composition) : notAfter r r' || notAfter r' r := by
  have hswap : pairOrder (r'.child, r'.parent) (r.child, r.parent) =
      (pairOrder (r.child, r.parent) (r'.child, r'.parent)).swap := Std.OrientedCmp.eq_swap
  rw [notAfter, notAfter, hswap]
  cases pairOrder (r.child, r.parent) (r'.child, r'.parent) <;> rfl

theorem eq_pair_of_notAfter (h : notAfter r r') (h' : notAfter r' r) :
    (r.child, r.parent) = (r'.child, r'.parent) :=
  Std.LawfulEqCmp.eq_of_compare (Std.OrientedCmp.isLE_antisymm h h')

theorem Before.notAfter (h : Before r r') : notAfter r r' := by
  rw [Compositions.notAfter, show pairOrder _ _ = .lt from h]
  rfl

def byPair (rules : List Composition) : List Composition := rules.mergeSort notAfter

theorem byPair_perm (rules : List Composition) : (byPair rules).Perm rules :=
  List.mergeSort_perm _ _

theorem eq_of_mem_toList (hr : r ∈ t.toList) (hr' : r' ∈ t.toList)
    (hpair : (r.child, r.parent) = (r'.child, r'.parent)) : r = r' := by
  obtain ⟨hchild, hparent⟩ := Prod.mk.inj hpair
  have hget := mem_toList.mp hr
  rw [hchild, hparent, mem_toList.mp hr'] at hget
  exact (Option.some.inj hget).symm

theorem byPair_eq_toList (h : list.Perm t.toList) : byPair list = t.toList := by
  have hperm : (byPair list).Perm t.toList := (byPair_perm list).trans h
  have hsorted : (byPair list).Pairwise fun r r' => notAfter r r' :=
    List.pairwise_mergeSort notAfter_trans notAfter_total list
  have hlisted : t.toList.Pairwise fun r r' => notAfter r r' :=
    t.pairwise_before_toList.imp Before.notAfter
  refine hperm.eq_of_pairwise (fun r r' hr hr' hle hge => ?_) hsorted hlisted
  exact eq_of_mem_toList (hperm.mem_iff.mp hr) hr' (eq_pair_of_notAfter hle hge)

/-! The table of a list -/

structure Holds (t : Compositions) (rules : List Composition) : Prop where
  get : ∀ child parent r, t.get? child parent = some r ↔
    r ∈ rules ∧ r.child = child ∧ r.parent = parent
  size : t.size = rules.length
  perm : t.toList.Perm rules
  ascending : t.toList.Pairwise Before

theorem holds_of_ofList (h : ofList rules = .ok t) : t.Holds rules where
  get _ _ _ := get?_ofList h
  size := (size_eq_length_toList t).trans (toList_perm h).length_eq
  perm := toList_perm h
  ascending := t.pairwise_before_toList

/-- A list of rules fails to make a table just where two rules speak about one pair, and the error
names the pair that is repeated first. Otherwise the table finds each rule by its pair and lists all
of them in strictly ascending order. The same rules in any other order make the same table, sorting
them gives its list, and the list makes the table again. -/
theorem ofList_canonical (rules : List Composition) :
    ((∃ pair, ofList rules = .error pair) ↔ ¬ rules.Pairwise Apart) ∧
    (∀ pair, ofList rules = .error pair ↔ FirstRepeat rules pair) ∧
    ∀ t, ofList rules = .ok t →
      t.Holds rules ∧
      (∀ list : List Composition, list.Perm rules →
        ofList list = .ok t ∧ byPair list = t.toList) ∧
      ofList t.toList = .ok t := by
  refine ⟨exists_error_iff, fun _ => ofList_eq_error_iff, fun t h => ?_⟩
  refine ⟨holds_of_ofList h, fun list hperm => ?_, ofList_toList t⟩
  exact ⟨ofList_of_perm hperm h, byPair_eq_toList (hperm.trans (toList_perm h).symm)⟩

/-! Three rules, those for stacked bars not in order. -/

def intoRadial : Composition :=
  { child := .stackedBar, parent := .custom "radial", allowed := false }

def fromRadial : Composition :=
  { child := .custom "radial", parent := .stackedBar, allowed := true }

def intoComparison : Composition where
  child := .stackedBar
  parent := .barComparison
  allowed := true
  tie := some .inputsToChildOutput

theorem ofList_canonical_radial :
    (∃ t, ofList [fromRadial, intoRadial, intoComparison] = .ok t ∧ t.size = 3 ∧
      t.toList = [intoComparison, intoRadial, fromRadial] ∧
      ofList [intoComparison, fromRadial, intoRadial] = .ok t) ∧
    ofList [fromRadial, intoRadial, { fromRadial with allowed := false }, intoRadial] =
      .error ⟨.custom "radial", .stackedBar⟩ := by
  have hdistinct : [fromRadial, intoRadial, intoComparison].Pairwise Apart := by
    simp [Apart, fromRadial, intoRadial, intoComparison]
  obtain ⟨-, -, hok⟩ := ofList_canonical [fromRadial, intoRadial, intoComparison]
  obtain ⟨-, hfirst, -⟩ :=
    ofList_canonical [fromRadial, intoRadial, { fromRadial with allowed := false }, intoRadial]
  constructor
  · obtain ⟨t, ht⟩ := exists_ofList hdistinct
    obtain ⟨hholds, hperm, -⟩ := hok t ht
    obtain ⟨-, hlisted⟩ := hperm [intoComparison, intoRadial, fromRadial] (by decide)
    have hordered : [intoComparison, intoRadial, fromRadial].Pairwise
        fun r r' => notAfter r r' := by decide
    refine ⟨t, ht, hholds.size, ?_, (hperm _ (by decide)).1⟩
    rw [← hlisted, byPair, List.mergeSort_of_pairwise hordered]
  · refine (hfirst _).mpr ⟨[fromRadial, intoRadial], _, [intoRadial], rfl, ?_, ?_, rfl⟩
    · simp [Apart, fromRadial, intoRadial]
    · exact ⟨fromRadial, by simp, by simp [Apart, fromRadial]⟩

end ChartFold.Compositions
