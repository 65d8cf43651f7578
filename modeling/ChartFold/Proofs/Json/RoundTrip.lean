import ChartFold.Forest.Json
import ChartFold.Proofs.Json.Text
import ChartFold.Proofs.Rules.Tables
import ChartFold.Rules.Json

/-! Every format that is written is read back to what it was written for. A value is first compared
with the document that is written for it, field by field, and then with the text of that. The only
values that are not read back are those with a chart that goes by the name of another. -/
namespace ChartFold

namespace Json
variable {α : Type} {write : α → Json} {read? : Json → Option α} {a : α} {l : List α}
  {o : Option α}

/-- What is written for the value is read as the value. It is not null, which stands for no value
at all. -/
structure Kept (write : α → Json) (read? : Json → Option α) (a : α) : Prop where
  read : read? (write a) = some a
  writable : (write a).Writable
  ne_null : write a ≠ .null

theorem writable_object {fields : List (String × Json)} (h : ∀ field ∈ fields, field.2.Writable) :
    (object fields).Writable := by
  apply Writable.obj
  intro field hfield
  obtain ⟨entry, hentry, rfl⟩ := List.mem_map.mp hfield
  exact h entry hentry

theorem kept_string (s : String) : Kept ofString string? s := ⟨rfl, .str _, nofun⟩

theorem kept_bool (b : Bool) : Kept Json.bool bool? b := ⟨rfl, .bool b, nofun⟩

theorem kept_choice {name : α → String} {named? : String → Option α}
    (h : named? (name a) = some a) : Kept (fun a => ofString (name a)) (choice? named?) a :=
  ⟨h, .str _, nofun⟩

theorem mapM_eq_some {β : Type} {f : α → Option β} {bs : List β} :
    l.mapM f = some bs ↔ List.Forall₂ (fun a b => f a = some b) l bs := by
  induction l generalizing bs with
  | nil => simp [eq_comm]
  | cons a l ih =>
    simp only [List.mapM_cons, Option.bind_eq_bind, Option.bind_eq_some_iff, ih,
      List.forall₂_cons_left_iff, Option.pure_def, Option.some.injEq]
    constructor
    · rintro ⟨b, hb, bs, hbs, rfl⟩
      exact ⟨b, bs, hb, hbs, rfl⟩
    · rintro ⟨b, bs, hb, hbs, rfl⟩
      exact ⟨b, hb, bs, hbs, rfl⟩

theorem kept_array (h : ∀ a ∈ l, Kept write read? a) : Kept (array write) (list? read?) l := by
  refine ⟨?_, ?_, nofun⟩
  · apply mapM_eq_some.mpr
    rw [List.forall₂_map_left_iff, List.forall₂_same]
    exact fun a ha => (h a ha).read
  · apply Writable.arr
    rw [List.forall_mem_map]
    exact fun a ha => (h a ha).writable

theorem exists_of_list? {j : Json} (h : list? read? j = some l) (ha : a ∈ l) :
    ∃ item, read? item = some a := by
  unfold list? at h
  split at h
  · obtain ⟨item, -, hitem⟩ := Except.exists_left (mapM_eq_some.mp h) ha
    exact ⟨item, hitem⟩
  · cases h

/-! Fields that may have no value -/

theorem writable_nullable (h : ∀ a ∈ o, Kept write read? a) : (nullable write o).Writable := by
  cases o with
  | none => exact .null
  | some a => exact (h a rfl).writable

theorem optional_of_kept (h : Kept write read? a) :
    optional read? (some (write a)) = some (some a) := by
  have hne := h.ne_null
  have hread := h.read
  revert hne hread
  cases write a <;> simp +contextual [optional]

theorem optional_nullable (h : ∀ a ∈ o, Kept write read? a) :
    optional read? (some (nullable write o)) = some o := by
  cases o with
  | none => rfl
  | some a => exact optional_of_kept (h a rfl)

theorem optional_map (h : ∀ a ∈ o, Kept write read? a) :
    optional read? (o.map write) = some o := by
  cases o with
  | none => rfl
  | some a => exact optional_of_kept (h a rfl)

theorem writable_whenSome {key : String} (h : ∀ a ∈ o, Kept write read? a) :
    ∀ field ∈ whenSome key write o, field.2.Writable := by
  cases o with
  | none => nofun
  | some a => simpa [whenSome] using (h a rfl).writable

theorem exists_of_optional {field : Option Json} (h : optional read? field = some o)
    (ha : a ∈ o) : ∃ j, read? j = some a := by
  unfold optional at h
  split at h
  case h_3 =>
    obtain ⟨b, hb, rfl⟩ := Option.map_eq_some_iff.mp h
    cases ha
    exact ⟨_, hb⟩
  all_goals
    cases h
    cases ha

theorem exists_of_required {field : Option Json} (h : required read? field = some a) :
    ∃ j, read? j = some a := by
  obtain ⟨j, -, hj⟩ := Option.bind_eq_some_iff.mp h
  exact ⟨j, hj⟩

end Json

open Json

/-! Encodings and fallbacks -/

theorem Mark.kept (m : Mark) : Kept Mark.toJson Mark.ofJson? m := kept_choice m.named?_name

theorem Channel.kept (c : Channel) : Kept Channel.toJson Channel.ofJson? c :=
  kept_choice c.named?_name

theorem Axis.kept (a : Axis) : Kept Axis.toJson Axis.ofJson? a := kept_choice a.named?_name

theorem Shape.kept (s : Shape) : Kept Shape.toJson Shape.ofJson? s := kept_choice s.named?_name

theorem Tie.kept (t : Tie) : Kept Tie.toJson Tie.ofJson? t := kept_choice t.named?_name

namespace Encoding

theorem fields?_toJson (e : Encoding) : fields? fieldNames e.toJson =
    some [some e.mark.toJson, some e.channel.toJson, e.axis.map Axis.toJson, e.skip.map .bool,
      e.anchor.map ofString] := by
  obtain ⟨mark, channel, axis, skip, anchor⟩ := e
  cases axis <;> cases skip <;> cases anchor <;> rfl

theorem kept (e : Encoding) : Kept toJson ofJson? e where
  read := by
    simp [ofJson?, fields?_toJson, required, e.mark.kept.read, e.channel.kept.read,
      optional_map fun a _ => Axis.kept a, optional_map fun b _ => kept_bool b,
      optional_map fun s _ => kept_string s]
  writable := by
    apply writable_object
    simp only [List.forall_mem_append]
    refine ⟨⟨⟨⟨?_, ?_⟩, ?_⟩, ?_⟩, ?_⟩ <;> apply writable_whenSome
    · exact fun m _ => m.kept
    · exact fun c _ => c.kept
    · exact fun a _ => a.kept
    · exact fun b _ => kept_bool b
    · exact fun s _ => kept_string s
  ne_null := nofun

end Encoding

namespace Fallback

theorem fields?_toJson (f : Fallback) : fields? fieldNames f.toJson =
    some [some (nullable Mark.toJson f.inputMark), some f.mark.toJson, some f.channel.toJson] := rfl

theorem kept (f : Fallback) : Kept toJson ofJson? f where
  read := by
    simp [ofJson?, fields?_toJson, required, f.mark.kept.read, f.channel.kept.read,
      optional_nullable fun m _ => Mark.kept m]
  writable := by
    apply writable_object
    simp only [List.forall_mem_cons]
    exact ⟨writable_nullable fun m _ => m.kept, f.mark.kept.writable, f.channel.kept.writable,
      nofun⟩
  ne_null := nofun

end Fallback

/-! Charts -/

namespace Chart

/-- The chart is what its name stands for: a template is not written out as a custom chart. -/
def Named (c : Chart) : Prop := ∃ name, ofName name = c

theorem Named.kept {c : Chart} (h : c.Named) : Kept toJson ofJson? c := by
  obtain ⟨name, rfl⟩ := h
  refine ⟨?_, .str _, nofun⟩
  rw [toJson, ofJson?, name_ofName]
  rfl

theorem named_of_ofJson? {j : Json} {c : Chart} (h : ofJson? j = some c) : c.Named := by
  obtain ⟨name, -, rfl⟩ := Option.map_eq_some_iff.mp h
  exact ⟨name, rfl⟩

end Chart

namespace Profile

def Named (p : Profile) : Prop := ∀ c ∈ p.chart, c.Named

theorem fields?_toJson (p : Profile) : fields? fieldNames p.toJson =
    some [some p.operand.toJson, some p.product.toJson, some (nullable Chart.toJson p.chart),
      some (nullable Encoding.toJson p.defaultLook), some (array Fallback.toJson p.fallbacks)] :=
  rfl

theorem Named.kept {p : Profile} (h : p.Named) : Kept toJson ofJson? p where
  read := by
    simp [ofJson?, fields?_toJson, required, withDefault, p.operand.kept.read, p.product.kept.read,
      optional_nullable fun c hc => (h c hc).kept, optional_nullable fun e _ => Encoding.kept e,
      (kept_array fun f _ => Fallback.kept f).read]
  writable := by
    apply writable_object
    simp only [List.forall_mem_cons]
    exact ⟨p.operand.kept.writable, p.product.kept.writable,
      writable_nullable fun c hc => (h c hc).kept, writable_nullable fun e _ => e.kept,
      (kept_array fun f _ => Fallback.kept f).writable, nofun⟩
  ne_null := nofun

theorem named_of_ofJson? {j : Json} {p : Profile} (h : ofJson? j = some p) : p.Named := by
  obtain ⟨fields, -, h⟩ := Option.bind_eq_some_iff.mp h
  split at h
  · simp only [Option.bind_eq_bind, Option.bind_eq_some_iff, Option.pure_def,
      Option.some.injEq] at h
    obtain ⟨_, -, _, -, chart, hchart, _, -, _, -, rfl⟩ := h
    intro c hc
    obtain ⟨j, hj⟩ := exists_of_optional hchart hc
    exact Chart.named_of_ofJson? hj
  · cases h

end Profile

namespace Composition

structure Named (r : Composition) : Prop where
  child : r.child.Named
  parent : r.parent.Named
  result : ∀ c ∈ r.result, c.Named

theorem fields?_toJson (r : Composition) : fields? fieldNames r.toJson =
    some [some r.child.toJson, some r.parent.toJson, some (.bool r.allowed),
      some (nullable Chart.toJson r.result), some (nullable Tie.toJson r.tie)] := rfl

theorem Named.kept {r : Composition} (h : r.Named) : Kept toJson ofJson? r where
  read := by
    simp [ofJson?, fields?_toJson, required, h.child.kept.read, h.parent.kept.read,
      (kept_bool r.allowed).read, optional_nullable fun c hc => (h.result c hc).kept,
      optional_nullable fun t _ => Tie.kept t]
  writable := by
    apply writable_object
    simp only [List.forall_mem_cons]
    exact ⟨h.child.kept.writable, h.parent.kept.writable, .bool _,
      writable_nullable fun c hc => (h.result c hc).kept, writable_nullable fun t _ => t.kept,
      nofun⟩
  ne_null := nofun

theorem named_of_ofJson? {j : Json} {r : Composition} (h : ofJson? j = some r) : r.Named := by
  obtain ⟨fields, -, h⟩ := Option.bind_eq_some_iff.mp h
  split at h
  · simp only [Option.bind_eq_bind, Option.bind_eq_some_iff, Option.pure_def,
      Option.some.injEq] at h
    obtain ⟨child, hchild, parent, hparent, _, -, result, hresult, _, -, rfl⟩ := h
    obtain ⟨_, hchild⟩ := exists_of_required hchild
    obtain ⟨_, hparent⟩ := exists_of_required hparent
    refine ⟨Chart.named_of_ofJson? hchild, Chart.named_of_ofJson? hparent, fun c hc => ?_⟩
    obtain ⟨_, hj⟩ := exists_of_optional hresult hc
    exact Chart.named_of_ofJson? hj
  · cases h

end Composition

/-! Tables -/

namespace Grammar

def Named (g : Grammar) : Prop := ∀ kind p, g.get? kind = some p → p.Named

def written (entries : List (OpKind × Profile)) : Json :=
  .object (entries.map fun (kind, p) => (kind, p.toJson))

theorem Named.kept_written {g : Grammar} (h : g.Named) {entries : List (OpKind × Profile)}
    (hentries : entries.Perm g.toList) : Kept (fun _ => written entries) ofJson? g := by
  have hprofile : ∀ entry ∈ entries, Kept Profile.toJson Profile.ofJson? entry.2 := by
    intro entry hentry
    exact (h _ _ (mem_toList.mp (hentries.mem_iff.mp hentry))).kept
  refine ⟨?_, ?_, nofun⟩
  · have hfields : (written entries).entries? =
        some (entries.map fun (kind, p) => (kind, p.toJson)) := by
      apply mapM_eq_some.mpr
      rw [List.forall₂_map_left_iff, List.forall₂_same]
      exact fun _ _ => rfl
    have hread : (entries.map fun (kind, p) => (kind, p.toJson)).mapM
        (fun (kind, value) => (Profile.ofJson? value).map fun p => (kind, p)) = some entries := by
      apply mapM_eq_some.mpr
      rw [List.forall₂_map_left_iff, List.forall₂_same]
      intro entry hentry
      simp [(hprofile entry hentry).read]
    rw [ofJson?, hfields, Option.bind_eq_bind, Option.bind_some, hread]
    exact congrArg some (ofList_of_perm hentries)
  · apply writable_object
    rw [List.forall_mem_map]
    exact fun entry hentry => (hprofile entry hentry).writable

theorem Named.kept {g : Grammar} (h : g.Named) : Kept toJson ofJson? g := by
  have hwritten := h.kept_written (List.Perm.refl g.toList)
  exact ⟨hwritten.read, hwritten.writable, hwritten.ne_null⟩

theorem named_of_ofJson? {j : Json} {g : Grammar} (h : ofJson? j = some g) : g.Named := by
  obtain ⟨fields, -, h⟩ := Option.bind_eq_some_iff.mp h
  obtain ⟨entries, hentries, h⟩ := Option.bind_eq_some_iff.mp h
  cases h
  intro kind p hp
  obtain ⟨field, -, hfield⟩ :=
    Except.exists_left (mapM_eq_some.mp hentries) (mem_of_get?_ofList hp)
  obtain ⟨p', hp', heq⟩ := Option.map_eq_some_iff.mp hfield
  cases heq
  exact Profile.named_of_ofJson? hp'

end Grammar

namespace Compositions

def Named (t : Compositions) : Prop :=
  ∀ child parent r, t.get? child parent = some r → r.Named

theorem Named.kept {t : Compositions} (h : t.Named) :
    Kept (array Composition.toJson) (list? Composition.ofJson?) t.toList :=
  kept_array fun r hr => (h r.child r.parent r (mem_toList.mp hr)).kept

theorem Named.ofText_render {t : Compositions} (h : t.Named) : ofText t.toJson.render = .ok t := by
  rw [ofText, toJson, readFirst?_render h.kept.writable]
  simp [h.kept.read, ofList_toList]

theorem exists_of_ofText {text : String} {t : Compositions} (h : ofText text = .ok t) :
    ∃ j rules, list? Composition.ofJson? j = some rules ∧ ofList rules = .ok t := by
  unfold ofText at h
  split at h
  case h_1 => cases h
  split at h
  case h_1 => cases h
  rename_i j _ _ _ rules hrules
  split at h
  case h_1 => cases h
  rename_i t' ht
  split at h
  case isFalse => cases h
  cases h
  exact ⟨j, rules, hrules, ht⟩

theorem named_of_ofText {text : String} {t : Compositions} (h : ofText text = .ok t) :
    t.Named := by
  obtain ⟨j, rules, hrules, ht⟩ := exists_of_ofText h
  intro child parent r hr
  obtain ⟨j', hj'⟩ := exists_of_list? hrules ((get?_ofList ht).mp hr).1
  exact Composition.named_of_ofJson? hj'

end Compositions

/-! Records of forests -/

theorem Listing.kept (l : Listing) : Kept toJson ofJson? l := by
  cases l with
  | one d => exact ⟨rfl, .str _, nofun⟩
  | many ds =>
    have hds := kept_array fun d (_ : d ∈ ds) => kept_string d
    exact ⟨congrArg (Option.map many) hds.read, hds.writable, nofun⟩

namespace OperationRecord

theorem fields?_toJson (r : OperationRecord) : fields? fieldNames r.toJson =
    some [some (ofString r.name), some (nullable ofString r.parent), some (ofString r.kind),
      some (array ofString r.inputs), some r.outputs.toJson] := rfl

theorem kept (r : OperationRecord) : Kept toJson ofJson? r where
  read := by
    simp [ofJson?, fields?_toJson, required, withDefault, (kept_string _).read,
      optional_nullable fun s _ => kept_string s, (kept_array fun d _ => kept_string d).read,
      r.outputs.kept.read]
  writable := by
    apply writable_object
    simp only [List.forall_mem_cons]
    exact ⟨.str _, writable_nullable fun s _ => kept_string s, .str _,
      (kept_array fun d _ => kept_string d).writable, r.outputs.kept.writable, nofun⟩
  ne_null := nofun

end OperationRecord

namespace ForestRecord

theorem fields?_toJson (r : ForestRecord) : fields? fieldNames r.toJson =
    some [some (ofString r.root), some (array OperationRecord.toJson r.operations)] := rfl

theorem kept (r : ForestRecord) : Kept toJson ofJson? r where
  read := by
    simp [ofJson?, fields?_toJson, required, (kept_string _).read,
      (kept_array fun r _ => OperationRecord.kept r).read]
  writable := by
    apply writable_object
    simp only [List.forall_mem_cons]
    exact ⟨.str _, (kept_array fun r _ => r.kept).writable, nofun⟩
  ne_null := nofun

end ForestRecord

/-! Texts -/

namespace Json
variable {α : Type} {write : α → Json} {read? : Json → Option α} {Sound : α → Prop}

def ofText? (read? : Json → Option α) (text : String) : Option α := (parse? text).bind read?

theorem Kept.ofText?_render {a : α} (h : Kept write read? a) :
    ofText? read? (write a).render = some a := by
  rw [ofText?, parse?_render h.writable, Option.bind_some, h.read]

/-- Sound values are written to texts that they are read from, and whatever is read from a text is
sound, so that writing it again makes no difference. -/
structure RoundTrip (write : α → Json) (ofText? : String → Option α) (Sound : α → Prop) : Prop where
  restores : ∀ a, Sound a → ofText? (write a).render = some a
  rereads : ∀ text a, ofText? text = some a → Sound a ∧ ofText? (write a).render = some a

theorem RoundTrip.of_restores {ofText? : String → Option α}
    (h : ∀ a, Sound a → ofText? (write a).render = some a)
    (hsound : ∀ text a, ofText? text = some a → Sound a) : RoundTrip write ofText? Sound :=
  ⟨h, fun text a ha => ⟨hsound text a ha, h a (hsound text a ha)⟩⟩

theorem RoundTrip.of_kept (hkept : ∀ a, Sound a → Kept write read? a)
    (hsound : ∀ j a, read? j = some a → Sound a) : RoundTrip write (ofText? read?) Sound := by
  apply RoundTrip.of_restores
  · exact fun a ha => (hkept a ha).ofText?_render
  · intro text a ha
    obtain ⟨j, -, hj⟩ := Option.bind_eq_some_iff.mp ha
    exact hsound j a hj

end Json

theorem Compositions.roundTrip :
    RoundTrip toJson (fun text => (ofText text).toOption) Named := by
  apply RoundTrip.of_restores
  · intro t ht
    rw [ht.ofText_render]
    rfl
  · intro text t ht
    cases htext : ofText text with
    | error e => rw [htext] at ht; cases ht
    | ok t' =>
      rw [htext] at ht
      cases ht
      exact named_of_ofText htext

theorem ForestRecord.toOption_ofText (text : String) :
    (ofText text).toOption = ofText? ofJson? text := by
  rw [ofText, ofText?]
  cases (parse? text).bind ofJson? <;> rfl

/-- Encodings, profiles, grammars, composition rules and their tables, data given alone or as a
list, and records of operations and of forests are read from the texts that are written for them, if
their charts are what their names stand for. Nothing else is ever read from a text. A grammar is
read from its entries in any order. -/
theorem formats_roundTrip :
    RoundTrip Encoding.toJson (ofText? Encoding.ofJson?) (fun _ => True) ∧
    RoundTrip Profile.toJson (ofText? Profile.ofJson?) Profile.Named ∧
    RoundTrip Grammar.toJson (ofText? Grammar.ofJson?) Grammar.Named ∧
    (∀ g entries, Grammar.Named g → entries.Perm g.toList →
      ofText? Grammar.ofJson? (Grammar.written entries).render = some g) ∧
    RoundTrip Composition.toJson (ofText? Composition.ofJson?) Composition.Named ∧
    RoundTrip Compositions.toJson (fun text => (Compositions.ofText text).toOption)
      Compositions.Named ∧
    RoundTrip Listing.toJson (ofText? Listing.ofJson?) (fun _ => True) ∧
    RoundTrip OperationRecord.toJson (ofText? OperationRecord.ofJson?) (fun _ => True) ∧
    RoundTrip ForestRecord.toJson (fun text => (ForestRecord.ofText text).toOption)
      (fun _ => True) := by
  refine ⟨?_, ?_, ?_, ?_, ?_, Compositions.roundTrip, ?_, ?_, ?_⟩
  · exact .of_kept (fun e _ => e.kept) fun _ _ _ => trivial
  · exact .of_kept (fun _ => Profile.Named.kept) fun _ _ => Profile.named_of_ofJson?
  · exact .of_kept (fun _ => Grammar.Named.kept) fun _ _ => Grammar.named_of_ofJson?
  · exact fun g entries hg hentries => (hg.kept_written hentries).ofText?_render
  · exact .of_kept (fun _ => Composition.Named.kept) fun _ _ => Composition.named_of_ofJson?
  · exact .of_kept (fun l _ => l.kept) fun _ _ _ => trivial
  · exact .of_kept (fun r _ => r.kept) fun _ _ _ => trivial
  · simp only [ForestRecord.toOption_ofText]
    exact .of_kept (fun r _ => r.kept) fun _ _ _ => trivial

def waterfallProfile : Profile where
  operand := .vector
  product := .any
  chart := some (.custom "waterfall")
  defaultLook := some { mark := .bar, channel := .length, skip := some false }
  fallbacks := [{ inputMark := some .bar, mark := .line, channel := .position }]

def waterfalls : Grammar := .ofList [
  ("total", { operand := .scalar, product := .scalar }), ("waterfall", waterfallProfile)]

theorem named_waterfalls : waterfalls.Named := by
  intro kind p hp c hc
  have hmem := Grammar.mem_of_get?_ofList hp
  simp only [List.mem_cons, Prod.mk.injEq, List.not_mem_nil, or_false] at hmem
  obtain ⟨-, rfl⟩ | ⟨-, rfl⟩ := hmem
  · cases hc
  · cases hc
    exact ⟨"waterfall", rfl⟩

theorem formats_roundTrip_waterfalls :
    ofText? Grammar.ofJson? waterfalls.toJson.render = some waterfalls ∧
    ofText? Grammar.ofJson? (Grammar.written waterfalls.toList.reverse).render =
      some waterfalls := by
  obtain ⟨-, -, hgrammar, hwritten, -⟩ := formats_roundTrip
  exact ⟨hgrammar.restores waterfalls named_waterfalls,
    hwritten waterfalls _ named_waterfalls (List.reverse_perm _)⟩

/-- A custom chart that goes by the name of a template is read as the template. -/
example : Chart.ofJson? (Chart.custom "stacked-bar").toJson = some .stackedBar := by rfl

end ChartFold
