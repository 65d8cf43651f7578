import ChartFold.Forest.Record
import ChartFold.Proofs.Forest.BottomUp
import ChartFold.Proofs.Forest.Names

/-! Forests built from flat records. A list of records can be built if no two of them bear the same
name and each names a parent that stands before it. The forest then shows the records as they are
written, place by place; otherwise the first record that offends is what the failure is about. -/
namespace ChartFold

namespace Forest
variable {f g : Forest}

/-- All that is added: a new operation without children, which comes last among those of its
parent. -/
theorem get?_insert {parent : Option OpId} (hp : ∀ p, parent = some p → p < f.size) (name : String)
    (kind : OpKind) (flow : Flow) (i : OpId) :
    (f.insert name parent kind flow).get? i = if i = f.size then
      some { flow with id := f.size, name, kind, parent } else
      (f.get? i).map fun op =>
        if parent = some i then { op with children := op.children ++ [f.size] } else op := by
  cases parent with
  | none => simp [insert, get?_push]
  | some p =>
    rw [insert, get?_appendChild, get?_push]
    by_cases hi : i = p
    · subst hi
      simp [Nat.ne_of_lt (hp i rfl)]
    · simp [hi, Ne.symm hi]

theorem freshName?_of_not_mem {name : String} (h : name ∉ f.used) :
    f.freshName? name = some name := by
  rw [freshName?, if_neg (by simpa using h)]

end Forest

namespace ForestRecord
open Forest
variable {records before : List OperationRecord} {r s : OperationRecord} {name : String}
  {f g : Forest} {e : ForestError} {record : ForestRecord} {i j : OpId}

/-! Records that can be built -/

def declared (records : List OperationRecord) : List String := records.map (·.name)

/-- What is wrong with a record that comes after those `before`. A name that is taken is found
before a parent that is not declared. -/
inductive Offends (before : List OperationRecord) (r : OperationRecord) : ForestError → Prop where
  | taken : r.name ∈ declared before → Offends before r (.nameTaken r.name)
  | undeclared {p : String} : r.name ∉ declared before → r.parent = some p →
    p ∉ declared before → Offends before r (.undeclaredParent r.name p)

structure Orderly (records : List OperationRecord) : Prop where
  distinct : (declared records).Nodup
  parents : ∀ {before r}, before ++ [r] <+: records → ∀ p ∈ r.parent, p ∈ declared before

theorem declared_concat (before : List OperationRecord) (r : OperationRecord) :
    declared (before ++ [r]) = declared before ++ [r.name] := List.map_append

theorem orderly_nil : Orderly [] :=
  ⟨List.nodup_nil, fun h => by simp at h⟩

theorem Orderly.of_isPrefix (h : Orderly records) (hbefore : before <+: records) : Orderly before :=
  ⟨h.distinct.sublist (hbefore.sublist.map _), fun hr => h.parents (hr.trans hbefore)⟩

theorem orderly_concat_iff :
    Orderly (before ++ [r]) ↔ Orderly before ∧ ∀ e, ¬ Offends before r e := by
  constructor
  · intro h
    refine ⟨h.of_isPrefix (List.prefix_append _ _), fun e he => ?_⟩
    have hdistinct := h.distinct
    rw [declared_concat, List.nodup_append] at hdistinct
    cases he with
    | taken hname => exact hdistinct.2.2 _ hname _ (by simp) rfl
    | undeclared hname hp hundeclared => exact hundeclared (h.parents List.prefix_rfl _ hp)
  · intro ⟨h, hr⟩
    have hname : r.name ∉ declared before := fun hname => hr _ (.taken hname)
    refine ⟨?_, fun {earlier s} hs p hp => ?_⟩
    · rw [declared_concat]
      exact List.nodup_append.mpr ⟨h.distinct, by simp, by grind⟩
    · obtain hsame | hs := List.prefix_concat_iff.mp hs
      · obtain ⟨rfl, hlast⟩ := List.append_inj' hsame rfl
        obtain rfl : s = r := List.singleton_inj.mp hlast
        by_contra hundeclared
        exact hr _ (.undeclared hname hp hundeclared)
      · exact h.parents hs p hp

theorem orderly_or_offends (records : List OperationRecord) : Orderly records ∨
    ∃ before r e, before ++ [r] <+: records ∧ Orderly before ∧ Offends before r e := by
  induction records using List.reverseRecOn with
  | nil => exact Or.inl orderly_nil
  | append_singleton records r ih =>
    obtain horderly | ⟨before, r', e, hbefore, horderly, he⟩ := ih
    · by_cases he : ∃ e, Offends records r e
      · obtain ⟨e, he⟩ := he
        exact Or.inr ⟨records, r, e, List.prefix_rfl, horderly, he⟩
      · exact Or.inl (orderly_concat_iff.mpr ⟨horderly, not_exists.mp he⟩)
    · exact Or.inr ⟨before, r', e, hbefore.trans (List.prefix_append _ _), horderly, he⟩

/-! What a record is built to -/

def place? (records : List OperationRecord) (name : String) : Option OpId :=
  records.findIdx? (·.name = name)

def placesUnder (records : List OperationRecord) (name : String) : List OpId :=
  (List.range records.length).filter fun i => records[i]?.bind (·.parent) = some name

def operationAt (records : List OperationRecord) (i : OpId) (r : OperationRecord) : Operation where
  id := i
  name := r.name
  kind := r.kind
  inputs := r.inputs
  outputs := match r.outputs with
    | .one d => [d]
    | .many ds => ds
  parent := r.parent.bind (place? records)
  children := placesUnder records r.name

/-- The forest shows the records, one operation for each in its place, and finds their names. -/
structure Shows (records : List OperationRecord) (f : Forest) : Prop where
  size : f.size = records.length
  get? : ∀ i, f.get? i = records[i]?.map (operationAt records i)
  find? : ∀ name, f.find? name = place? records name
  mem_used : ∀ name, name ∈ f.used ↔ name ∈ declared records

theorem place?_eq_none_iff : place? records name = none ↔ name ∉ declared records := by
  simp [place?, declared]

theorem place?_concat (before : List OperationRecord) (r : OperationRecord) (name : String) :
    place? (before ++ [r]) name =
      (place? before name).or (if r.name = name then some before.length else none) := by
  rw [place?, List.findIdx?_append, ← place?]
  by_cases h : r.name = name <;> simp [h]

theorem exists_of_place? (h : place? records name = some i) :
    ∃ r, records[i]? = some r ∧ r.name = name := by
  obtain ⟨hi, hname, -⟩ := List.findIdx?_eq_some_iff_getElem.mp h
  exact ⟨records[i], List.getElem?_eq_getElem hi, of_decide_eq_true hname⟩

theorem place?_concat_of_mem (h : name ∈ declared before) (r : OperationRecord) :
    place? (before ++ [r]) name = place? before name := by
  obtain ⟨i, hi⟩ := Option.ne_none_iff_exists'.mp fun hnone => place?_eq_none_iff.mp hnone h
  rw [place?_concat, hi, Option.some_or]

theorem placesUnder_concat (before : List OperationRecord) (r : OperationRecord) (name : String) :
    placesUnder (before ++ [r]) name =
      placesUnder before name ++ if r.parent = some name then [before.length] else [] := by
  rw [placesUnder, List.length_append, List.length_singleton, List.range_succ, List.filter_append]
  congr 1
  · refine List.filter_congr fun i hi => ?_
    rw [List.getElem?_append_left (List.mem_range.mp hi)]
  · by_cases h : r.parent = some name <;> simp [h]

theorem Orderly.injective (h : Orderly records) (hi : records[i]? = some r)
    (hj : records[j]? = some s) (hname : r.name = s.name) : i = j := by
  have hlt : i < (declared records).length := by
    simpa [declared] using (List.getElem?_eq_some_iff.mp hi).1
  refine (List.getElem?_inj hlt h.distinct).mp ?_
  simp [declared, hi, hj, hname]

theorem Orderly.place?_eq_some_iff (h : Orderly records) (hi : records[i]? = some r) :
    place? records name = some i ↔ r.name = name := by
  constructor
  · intro hplace
    obtain ⟨s, hs, rfl⟩ := exists_of_place? hplace
    rw [hi] at hs
    cases hs
    rfl
  · intro hname
    have hmem : name ∈ declared records :=
      List.mem_map.mpr ⟨r, List.mem_of_getElem? hi, hname⟩
    obtain ⟨j, hj⟩ := Option.ne_none_iff_exists'.mp fun hnone => place?_eq_none_iff.mp hnone hmem
    obtain ⟨s, hs, hsname⟩ := exists_of_place? hj
    rw [hj, h.injective hi hs (hname.trans hsname.symm)]

theorem Orderly.parent_mem (h : Orderly records) (hi : records[i]? = some r)
    (hp : r.parent = some name) : name ∈ declared records := by
  obtain ⟨hlt, rfl⟩ := List.getElem?_eq_some_iff.mp hi
  have hbefore : records.take i ++ [records[i]] <+: records := by
    rw [List.take_append_getElem hlt]
    exact List.take_prefix _ _
  exact ((List.take_sublist i records).map _).subset (h.parents hbefore name hp)

/-- What stands before a new record changes only if it is the parent of that. -/
theorem operationAt_concat (horderly : Orderly (before ++ [r])) (hi : before[i]? = some s) :
    operationAt (before ++ [r]) i s =
      if r.parent.bind (place? before) = some i then
        { operationAt before i s with
          children := (operationAt before i s).children ++ [before.length] }
      else operationAt before i s := by
  have hbefore := horderly.of_isPrefix (List.prefix_append _ _)
  have hparent : s.parent.bind (place? (before ++ [r])) = s.parent.bind (place? before) := by
    cases hp : s.parent with
    | none => rfl
    | some p => exact place?_concat_of_mem (hbefore.parent_mem hi hp) r
  have hunder : r.parent.bind (place? before) = some i ↔ r.parent = some s.name := by
    cases r.parent with
    | none => simp
    | some p => simp [hbefore.place?_eq_some_iff hi, eq_comm]
  by_cases h : r.parent = some s.name
  · rw [if_pos (hunder.mpr h)]
    simp [operationAt, hparent, placesUnder_concat, h]
  · rw [if_neg (mt hunder.mp h)]
    simp [operationAt, hparent, placesUnder_concat, h]

theorem placesUnder_eq_nil (h : ∀ r ∈ records, r.parent ≠ some name) :
    placesUnder records name = [] := by
  refine List.filter_eq_nil_iff.mpr fun i _ hi => ?_
  obtain ⟨r, hr, hp⟩ := Option.bind_eq_some_iff.mp (of_decide_eq_true hi)
  exact h r (List.mem_of_getElem? hr) hp

theorem operationAt_length (horderly : Orderly (before ++ [r])) :
    operationAt (before ++ [r]) before.length r = { r.flow with
      id := before.length, name := r.name, kind := r.kind
      parent := r.parent.bind (place? before) } := by
  obtain ⟨hbefore, hfree⟩ := orderly_concat_iff.mp horderly
  have hname : r.name ∉ declared before := fun hname => hfree _ (.taken hname)
  have hparent : r.parent.bind (place? (before ++ [r])) = r.parent.bind (place? before) := by
    cases hp : r.parent with
    | none => rfl
    | some p => exact place?_concat_of_mem (horderly.parents List.prefix_rfl p hp) r
  have hunder : placesUnder (before ++ [r]) r.name = [] := by
    refine placesUnder_eq_nil fun s hs hp => hname ?_
    obtain hs | hs := List.mem_append.mp hs
    · obtain ⟨i, hi⟩ := List.getElem?_of_mem hs
      exact hbefore.parent_mem hi hp
    · obtain rfl := List.mem_singleton.mp hs
      exact horderly.parents List.prefix_rfl s.name hp
  have houtputs : r.flow.outputs = match r.outputs with
      | .one d => [d]
      | .many ds => ds := by
    cases hr : r.outputs <;> simp [OperationRecord.flow, Listing.toList, hr]
  simp only [operationAt, hparent, hunder, ← houtputs]
  rfl

/-! Building -/

theorem addRecord_of_offends (hf : Shows before f) (he : Offends before r e) :
    addRecord f r = .error e := by
  cases he with
  | taken hname =>
    obtain ⟨i, hi⟩ := Option.ne_none_iff_exists'.mp fun hnone => place?_eq_none_iff.mp hnone hname
    rw [addRecord, hf.find?, hi]
    rfl
  | undeclared hname hp hundeclared =>
    rw [addRecord, hf.find?, place?_eq_none_iff.mpr hname, hp]
    simp only [hf.find?, place?_eq_none_iff.mpr hundeclared]
    rfl

theorem lt_length_of_place? (h : place? records name = some i) : i < records.length :=
  (List.findIdx?_eq_some_iff_getElem.mp h).1

theorem addRecord_of_orderly (hf : Shows before f) (horderly : Orderly (before ++ [r])) :
    (∀ i, r.parent.bind (place? before) = some i → i < f.size) ∧
      addRecord f r = .ok (f.insert r.name (r.parent.bind (place? before)) r.kind r.flow) := by
  obtain ⟨-, hfree⟩ := orderly_concat_iff.mp horderly
  have hname : r.name ∉ declared before := fun hname => hfree _ (.taken hname)
  have hfresh : f.freshName? r.name = some r.name :=
    freshName?_of_not_mem (mt (hf.mem_used r.name).mp hname)
  have hlt : ∀ i, r.parent.bind (place? before) = some i → i < f.size := by
    intro i hi
    obtain ⟨p, -, hi⟩ := Option.bind_eq_some_iff.mp hi
    exact hf.size ▸ lt_length_of_place? hi
  have hadd := add_of_freshName? hlt hfresh r.kind r.flow
  refine ⟨hlt, ?_⟩
  rw [addRecord, hf.find?, place?_eq_none_iff.mpr hname]
  cases hp : r.parent with
  | none =>
    rw [hp, Option.bind_none] at hadd
    change (f.add r.name none r.kind r.flow).mapError _ >>= _ = _
    rw [hadd]
    rfl
  | some p =>
    obtain ⟨i, hi⟩ := Option.ne_none_iff_exists'.mp fun hnone =>
      place?_eq_none_iff.mp hnone (horderly.parents List.prefix_rfl p hp)
    rw [hp, Option.bind_some, hi] at hadd
    simp only [hf.find?, hi]
    change (f.add r.name (some i) r.kind r.flow).mapError _ >>= _ = _
    rw [hadd, Option.bind_some, hi]
    rfl

theorem Shows.concat (hf : Shows before f) (horderly : Orderly (before ++ [r])) :
    ∃ g, addRecord f r = .ok g ∧ Shows (before ++ [r]) g := by
  obtain ⟨hparent, hrecord⟩ := addRecord_of_orderly hf horderly
  have hname : place? before r.name = none :=
    place?_eq_none_iff.mpr fun hname => (orderly_concat_iff.mp horderly).2 _ (.taken hname)
  refine ⟨_, hrecord, ?_, fun i => ?_, fun name => ?_, fun name => ?_⟩
  · rw [size_insert, hf.size, List.length_append, List.length_singleton]
  · rw [get?_insert hparent, hf.size, hf.get?]
    by_cases hi : i = before.length
    · simp [hi, operationAt_length horderly]
    · rw [if_neg hi]
      cases hs : before[i]? with
      | none =>
        have hlt := Nat.lt_of_le_of_ne (List.getElem?_eq_none_iff.mp hs) (Ne.symm hi)
        have hnone : (before ++ [r])[i]? = none := by simp; omega
        rw [hnone]
        rfl
      | some s =>
        have hlt := (List.getElem?_eq_some_iff.mp hs).1
        rw [List.getElem?_append_left hlt, hs, Option.map_some, Option.map_some, Option.map_some,
          operationAt_concat horderly hs]
  · rw [find?_insert, hf.find?, hf.size, place?_concat]
    by_cases h : r.name = name
    · simp [← h, hname]
    · simp [h]
  · rw [mem_used_insert, hf.mem_used, declared_concat, List.mem_append, List.mem_singleton,
      or_comm, eq_comm]

theorem shows_nil : Shows [] .empty := by
  refine ⟨rfl, fun i => ?_, fun name => ?_, fun name => ?_⟩
  · simp [Forest.get?, Forest.empty]
  · simp [Forest.find?, Forest.empty, place?]
  · simp [Forest.empty, declared]

theorem exists_shows (h : Orderly records) :
    ∃ f, records.foldlM addRecord .empty = .ok f ∧ Shows records f := by
  induction records using List.reverseRecOn with
  | nil => exact ⟨_, rfl, shows_nil⟩
  | append_singleton before r ih =>
    obtain ⟨f, hfold, hf⟩ := ih (h.of_isPrefix (List.prefix_append _ _))
    obtain ⟨g, hg, hshows⟩ := hf.concat h
    refine ⟨g, ?_, hshows⟩
    rw [List.foldlM_append, hfold]
    change addRecord f r >>= pure = _
    rw [hg]
    rfl

theorem foldlM_addRecord_of_offends (hbefore : before ++ [r] <+: records) (h : Orderly before)
    (he : Offends before r e) : records.foldlM addRecord .empty = .error e := by
  obtain ⟨after, rfl⟩ := hbefore
  obtain ⟨f, hfold, hf⟩ := exists_shows h
  rw [List.append_assoc, List.foldlM_append, hfold]
  change addRecord f r >>= _ = _
  rw [addRecord_of_offends hf he]
  rfl

theorem Shows.unique (hf : Shows records f) (hg : Shows records g) : f = g := by
  refine ext_names_get? ?_ ?_ fun i => (hf.get? i).trans (hg.get? i).symm
  · exact Std.ExtTreeMap.ext_getElem? fun name => (hf.find? name).trans (hg.find? name).symm
  · exact Std.ExtTreeSet.ext_mem fun name => (hf.mem_used name).trans (hg.mem_used name).symm

structure Sound (record : ForestRecord) : Prop where
  orderly : Orderly record.operations
  root : record.root ∈ declared record.operations

/-- Why a record is not built: the first of its operations that offends, or the root, if none of
them does. -/
inductive Fault (record : ForestRecord) : ForestError → Prop where
  | operation {before : List OperationRecord} {r : OperationRecord} {e : ForestError} :
    before ++ [r] <+: record.operations → Orderly before → Offends before r e → Fault record e
  | root : Orderly record.operations → record.root ∉ declared record.operations →
    Fault record (.noRoot record.root)

theorem sound_or_fault (record : ForestRecord) : record.Sound ∨ ∃ e, record.Fault e := by
  obtain horderly | ⟨before, r, e, hbefore, horderly, he⟩ := orderly_or_offends record.operations
  · by_cases hroot : record.root ∈ declared record.operations
    · exact Or.inl ⟨horderly, hroot⟩
    · exact Or.inr ⟨_, .root horderly hroot⟩
  · exact Or.inr ⟨e, .operation hbefore horderly he⟩

theorem build_of_sound (h : record.Sound) : ∃ f root, record.build = .ok (f, root) ∧
    Shows record.operations f ∧ place? record.operations record.root = some root := by
  obtain ⟨f, hfold, hf⟩ := exists_shows h.orderly
  obtain ⟨root, hroot⟩ := Option.ne_none_iff_exists'.mp fun hnone =>
    place?_eq_none_iff.mp hnone h.root
  refine ⟨f, root, ?_, hf, hroot⟩
  rw [build, Except.bind_of_ok hfold, hf.find?, hroot]
  rfl

theorem build_of_fault (h : record.Fault e) : record.build = .error e := by
  cases h with
  | operation hbefore horderly he =>
    rw [build, Except.bind_of_error (foldlM_addRecord_of_offends hbefore horderly he)]
  | root horderly hroot =>
    obtain ⟨f, hfold, hf⟩ := exists_shows horderly
    rw [build, Except.bind_of_ok hfold, hf.find?, place?_eq_none_iff.mpr hroot]
    rfl

theorem build_eq_ok_iff {root : OpId} : record.build = .ok (f, root) ↔
    record.Sound ∧ Shows record.operations f ∧
      place? record.operations record.root = some root := by
  constructor
  · intro h
    obtain hsound | ⟨e, he⟩ := sound_or_fault record
    · obtain ⟨f', root', hbuild, hf, hroot⟩ := build_of_sound hsound
      rw [hbuild] at h
      cases h
      exact ⟨hsound, hf, hroot⟩
    · rw [build_of_fault he] at h
      cases h
  · intro ⟨hsound, hf, hroot⟩
    obtain ⟨f', root', hbuild, hf', hroot'⟩ := build_of_sound hsound
    rw [hbuild, hf'.unique hf, Option.some.inj (hroot'.symm.trans hroot)]

theorem build_eq_error_iff : record.build = .error e ↔ record.Fault e := by
  refine ⟨fun h => ?_, build_of_fault⟩
  obtain hsound | ⟨e', he⟩ := sound_or_fault record
  · obtain ⟨f, root, hbuild, -⟩ := build_of_sound hsound
    rw [hbuild] at h
    cases h
  · rw [build_of_fault he] at h
    cases h
    exact he

/-- A record is built if no two of its operations have the same name, each that has a parent names
an operation before it, and the root is one of them; and then to the one forest that shows the
operations as they are written, each in its place, with the place of the root. Otherwise it fails
over the first operation that offends, over the name before the parent, and over the root only if
no operation does. -/
theorem build_faithful (record : ForestRecord) :
    ((∃ f root, record.build = .ok (f, root)) ↔ record.Sound) ∧
    (∀ f root, record.build = .ok (f, root) ↔ record.Sound ∧ Shows record.operations f ∧
      place? record.operations record.root = some root) ∧
    ∀ e, record.build = .error e ↔ record.Fault e := by
  refine ⟨⟨fun ⟨f, root, hbuild⟩ => (build_eq_ok_iff.mp hbuild).1, fun hsound => ?_⟩,
    fun f root => build_eq_ok_iff, fun e => build_eq_error_iff⟩
  obtain ⟨f, root, hbuild, -⟩ := build_of_sound hsound
  exact ⟨f, root, hbuild⟩

/-- Of two faults of one operation, the name that is taken is reported. -/
example : build {
    root := "total"
    operations := [
      { name := "y", kind := "vector" },
      { name := "y", parent := some "x", kind := "vector" }] } = .error (.nameTaken "y") := by cbv

end ForestRecord

end ChartFold
