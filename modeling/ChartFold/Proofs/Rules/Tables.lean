import ChartFold.Proofs.Except
import ChartFold.Rules.Basic
import Mathlib.Data.List.Induction

/-! Tables and the lists they are made from. In a grammar the last of several profiles for one
operation stands; a table of compositions is only made from a list that speaks about no pair twice.
Either table comes back from the list of what it holds. -/
namespace ChartFold

namespace Grammar
variable {g : Grammar} {entries : List (OpKind × Profile)} {kind : OpKind} {p : Profile}

theorem mem_toList : (kind, p) ∈ g.toList ↔ g.get? kind = some p :=
  Std.ExtTreeMap.mem_toList_iff_getElem?_eq_some

theorem get?_ofList (entries : List (OpKind × Profile)) (kind : OpKind) :
    (ofList entries).get? kind = (entries.reverse.find? (·.1 = kind)).map Prod.snd := by
  induction entries using List.reverseRecOn with
  | nil => simp [ofList, get?]
  | append_singleton entries entry ih =>
    rw [ofList, List.foldl_append, ← ofList, List.foldl_cons, List.foldl_nil, get?_insert, ih,
      List.reverse_append, List.reverse_singleton, List.singleton_append]
    by_cases h : entry.1 = kind <;> simp [h]

theorem mem_of_get?_ofList (h : (ofList entries).get? kind = some p) : (kind, p) ∈ entries := by
  rw [get?_ofList] at h
  obtain ⟨⟨kind', p'⟩, hfind, rfl⟩ := Option.map_eq_some_iff.mp h
  obtain rfl : kind' = kind := by simpa using List.find?_some hfind
  exact List.mem_reverse.mp (List.mem_of_find?_eq_some hfind)

/-- The entries of a grammar make the grammar again, in whatever order they are listed. -/
theorem ofList_of_perm (h : entries.Perm g.toList) : ofList entries = g := by
  have hmem : ∀ {kind p}, (kind, p) ∈ entries ↔ g.get? kind = some p :=
    fun {_ _} => h.mem_iff.trans mem_toList
  ext kind : 1
  refine Option.ext fun p => ⟨fun hp => hmem.mp (mem_of_get?_ofList hp), fun hp => ?_⟩
  have hsome : (entries.reverse.find? (·.1 = kind)).isSome := by
    rw [List.find?_isSome]
    exact ⟨(kind, p), List.mem_reverse.mpr (hmem.mpr hp), by simp⟩
  obtain ⟨entry, hfind⟩ := Option.isSome_iff_exists.mp hsome
  have hentry : (ofList entries).get? kind = some entry.2 := by
    rw [get?_ofList, hfind]
    rfl
  rw [hentry, ← hp, hmem.mp (mem_of_get?_ofList hentry)]

end Grammar

namespace Compositions
variable {s t : Compositions} {rules : List Composition} {r : Composition} {child parent : Chart}

theorem get?_eq_some : t.get? child parent = some r ↔
    t.entries[(child, parent)]? = some r.toTerms ∧ r.child = child ∧ r.parent = parent := by
  rw [get?, Option.map_eq_some_iff]
  constructor
  · rintro ⟨terms, hterms, rfl⟩
    exact ⟨hterms, rfl, rfl⟩
  · rintro ⟨hterms, rfl, rfl⟩
    exact ⟨r.toTerms, hterms, rfl⟩

theorem mem_toList : r ∈ t.toList ↔ t.get? r.child r.parent = some r := by
  simp only [get?_eq_some, and_true, toList, List.mem_map]
  constructor
  · rintro ⟨⟨pair, terms⟩, hmem, rfl⟩
    exact Std.ExtTreeMap.mem_toList_iff_getElem?_eq_some.mp hmem
  · intro h
    exact ⟨((r.child, r.parent), r.toTerms),
      Std.ExtTreeMap.mem_toList_iff_getElem?_eq_some.mpr h, rfl⟩

def Apart (r r' : Composition) : Prop := (r.child, r.parent) ≠ (r'.child, r'.parent)

theorem pairwise_toList (t : Compositions) : t.toList.Pairwise Apart := by
  refine List.pairwise_map.mpr (Std.ExtTreeMap.distinct_keys_toList.imp fun {a b} hne heq => hne ?_)
  rw [show a.1 = b.1 from heq]
  exact Std.ReflCmp.compare_self

theorem get?_insert (s : Compositions) (r : Composition) (child parent : Chart) :
    get? ⟨s.entries.insert (r.child, r.parent) r.toTerms⟩ child parent =
      if (r.child, r.parent) = (child, parent) then some r else s.get? child parent := by
  rw [get?, Std.ExtTreeMap.getElem?_insert]
  by_cases h : (r.child, r.parent) = (child, parent)
  · obtain ⟨rfl, rfl⟩ := Prod.mk.inj h
    simp
  · simp [h, get?]

theorem contains_eq_isSome (s : Compositions) (child parent : Chart) :
    s.entries.contains (child, parent) = (s.get? child parent).isSome := by
  rw [get?, Option.isSome_map, Std.ExtTreeMap.isSome_getElem?_eq_contains]

theorem add_eq_ok_iff : s.add r = .ok t ↔ s.get? r.child r.parent = none ∧
    ∀ child parent, t.get? child parent =
      if (r.child, r.parent) = (child, parent) then some r else s.get? child parent := by
  rw [add, contains_eq_isSome]
  cases hold : s.get? r.child r.parent with
  | some old => simp
  | none =>
    simp only [Option.isSome_none, Bool.false_eq_true, if_false, Except.ok.injEq, true_and]
    constructor
    · rintro rfl
      exact get?_insert s r
    · intro hget
      ext child parent : 1
      rw [hget, get?_insert]

theorem ofList_concat (rules : List Composition) (r : Composition) :
    ofList (rules ++ [r]) = ofList rules >>= fun t => t.add r := by
  rw [ofList, List.foldlM_append, ofList]
  simp

theorem get?_ofList (h : ofList rules = .ok t) :
    t.get? child parent = some r ↔ r ∈ rules ∧ r.child = child ∧ r.parent = parent := by
  induction rules using List.reverseRecOn generalizing t with
  | nil =>
    cases h
    simp [get?]
  | append_singleton rules last ih =>
    rw [ofList_concat] at h
    obtain ⟨s, hs, hadd⟩ := Except.bind_eq_ok.mp h
    obtain ⟨hnew, hget⟩ := add_eq_ok_iff.mp hadd
    rw [hget, List.mem_append, List.mem_singleton]
    split
    · rename_i hpair
      obtain ⟨rfl, rfl⟩ := Prod.mk.inj hpair
      constructor
      · rintro ⟨⟩
        exact ⟨Or.inr rfl, rfl, rfl⟩
      · rintro ⟨hold | rfl, hchild, hparent⟩
        -- an earlier rule for the pair would have kept the last one out
        · have hsome := (ih hs).mpr ⟨hold, hchild, hparent⟩
          rw [hnew] at hsome
          cases hsome
        · rfl
    · rename_i hpair
      rw [ih hs]
      constructor
      · rintro ⟨hmem, hcharts⟩
        exact ⟨Or.inl hmem, hcharts⟩
      · rintro ⟨hmem | rfl, hchild, hparent⟩
        · exact ⟨hmem, hchild, hparent⟩
        · exact absurd (Prod.ext hchild hparent) hpair

theorem exists_ofList (h : rules.Pairwise Apart) : ∃ t, ofList rules = .ok t := by
  induction rules using List.reverseRecOn with
  | nil => exact ⟨{}, rfl⟩
  | append_singleton rules last ih =>
    obtain ⟨hrules, -, hlast⟩ := List.pairwise_append.mp h
    obtain ⟨s, hs⟩ := ih hrules
    have hnew : s.get? last.child last.parent = none := by
      refine Option.eq_none_iff_forall_ne_some.mpr fun r hr => ?_
      obtain ⟨hmem, hchild, hparent⟩ := (get?_ofList hs).mp hr
      exact hlast r hmem last (List.mem_singleton_self last) (Prod.ext hchild hparent)
    exact ⟨_, by rw [ofList_concat, hs]; exact add_eq_ok_iff.mpr ⟨hnew, get?_insert s last⟩⟩

theorem ofList_of_mem_iff (h : rules.Pairwise Apart)
    (hmem : ∀ r, r ∈ rules ↔ t.get? r.child r.parent = some r) : ofList rules = .ok t := by
  obtain ⟨s, hs⟩ := exists_ofList h
  rw [hs]
  congr 1
  ext child parent : 1
  refine Option.ext fun r => ?_
  rw [get?_ofList hs, hmem]
  constructor
  · rintro ⟨hr, rfl, rfl⟩
    exact hr
  · intro hr
    obtain ⟨-, rfl, rfl⟩ := get?_eq_some.mp hr
    exact ⟨hr, rfl, rfl⟩

theorem ofList_toList (t : Compositions) : ofList t.toList = .ok t :=
  ofList_of_mem_iff t.pairwise_toList fun _ => mem_toList

end Compositions

end ChartFold
