import ChartFold.Proofs.Panel.Gathered
import ChartFold.Proofs.Panel.Sources

/-! What an operation gathers shows each datum as the first of its parts wants it that shows the
datum at all: the operation's own part before the heads, these in the order of their tops. A field
that the first part leaves open is filled from the next one that sets it. -/
namespace ChartFold

namespace Encoding
variable {before after shown : List Encoding} {e : Encoding}

/-- Several encodings of one datum in one, the earlier before the later: mark and channel of the
first, and each other field as it is set first. -/
def foremost? (shown : List Encoding) : Option Encoding :=
  shown.head?.map fun e =>
    { mark := e.mark, channel := e.channel
      axis := shown.findSome? (·.axis)
      skip := shown.findSome? (·.skip)
      anchor := shown.findSome? (·.anchor) }

theorem findSome?_cons_eq_or {α β : Type} (f : α → Option β) (a : α) (l : List α) :
    (a :: l).findSome? f = (f a).or (l.findSome? f) := by
  cases h : f a <;> simp [h]

theorem foremost?_cons (e : Encoding) (shown : List Encoding) :
    foremost? (e :: shown) = lay (foremost? shown) (some e) := by
  cases shown with
  | nil => simp [foremost?, findSome?_cons_eq_or]
  | cons e' shown =>
    simp [foremost?, lay, Patch.onto, apply, toPatch, findSome?_cons_eq_or _ e]

theorem layAll_eq_foremost? (shown : List (Option Encoding)) :
    layAll shown = foremost? (shown.filterMap id) := by
  induction shown with
  | nil => rfl
  | cons high shown ih =>
    rw [layAll, List.foldr_cons, ← layAll, ih]
    cases high with
    | none => simp
    | some e => simp [foremost?_cons]

theorem isSome_foremost? : (foremost? shown).isSome ↔ shown ≠ [] := by
  cases shown <;> simp [foremost?]

/-- What `e` sets is found in `result`, unless one of the encodings `before` it sets it. -/
structure Upheld (before : List Encoding) (e result : Encoding) : Prop where
  mark : before = [] → result.mark = e.mark
  channel : before = [] → result.channel = e.channel
  axis : ∀ a ∈ e.axis, (∀ b ∈ before, b.axis = none) → result.axis = some a
  skip : ∀ s ∈ e.skip, (∀ b ∈ before, b.skip = none) → result.skip = some s
  anchor : ∀ a ∈ e.anchor, (∀ b ∈ before, b.anchor = none) → result.anchor = some a

theorem findSome?_of_forall_none {α β : Type} {f : α → Option β} {before after : List α} {a : α}
    {b : β} (ha : b ∈ f a) (hbefore : ∀ c ∈ before, f c = none) :
    (before ++ a :: after).findSome? f = some b := by
  rw [List.findSome?_append, List.findSome?_eq_none_iff.mpr hbefore, findSome?_cons_eq_or, ha]
  rfl

theorem upheld_of_foremost? {result : Encoding}
    (h : foremost? (before ++ e :: after) = some result) : Upheld before e result := by
  obtain ⟨first, hfirst, rfl⟩ := Option.map_eq_some_iff.mp h
  refine ⟨?_, ?_, fun a => findSome?_of_forall_none, fun s => findSome?_of_forall_none,
    fun a => findSome?_of_forall_none⟩
  all_goals
    rintro rfl
    cases hfirst
    rfl

end Encoding

namespace Panel
variable {rules : Rules} {forest : Forest} {op : Operation} {d : Nat} {profile : Profile}
  {heads list order extended : List Panel} {own gathered : Panel} {declared : Option Chart}

def shownOf (panels : List Panel) (x : Datum) : List Encoding :=
  panels.filterMap (·.encodings.get? x)

theorem get?_overlayAll_eq_foremost? (declared : Option Chart) (own : Panel)
    (extended : List Panel) (x : Datum) : (overlayAll declared own extended).encodings.get? x =
      Encoding.foremost? (shownOf (own :: extended) x) := by
  rw [get?_overlayAll, Encoding.layAll_eq_foremost?, List.filterMap_map]
  rfl

theorem shownOf_append_cons {before after : List Panel} {p : Panel} {x : Datum} {e : Encoding}
    (he : p.encodings.get? x = some e) :
    shownOf (before ++ p :: after) x = shownOf before x ++ e :: shownOf after x := by
  simp [shownOf, he]

theorem shownOf_ne_nil {panels : List Panel} {x : Datum} :
    shownOf panels x ≠ [] ↔ ∃ p ∈ panels, p.encodings.contains x := by
  simp [shownOf, Encodings.contains_eq_isSome, Option.isSome_iff_ne_none]

/-- What an operation gathers, whatever heads it is given, encodes a datum where some part of it
does, the operation's own part or an extended head. Mark and channel are those of the first part
that encodes the datum, and each other field is as it is set first; so nothing is lost that a head
sets unless a part before it sets the same. -/
theorem gather_encodings (h : (gather op d heads forest rules).result = .ok list) :
    ∃ profile own order extended gathered,
      Gathering forest rules op d heads list profile own order extended gathered ∧ ∀ x,
        gathered.encodings.get? x = Encoding.foremost? (shownOf (own :: extended) x) ∧
        (gathered.encodings.contains x ↔ ∃ p ∈ own :: extended, p.encodings.contains x) ∧
        ∀ before p after, own :: extended = before ++ p :: after →
          ∀ e, p.encodings.get? x = some e →
            ∃ result, gathered.encodings.get? x = some result ∧
              Encoding.Upheld (shownOf before x) e result := by
  obtain ⟨profile, own, order, extended, gathered, hgathering, hlays⟩ := exists_gathering h
  refine ⟨profile, own, order, extended, gathered, hgathering, fun x => ?_⟩
  have hshown : gathered.encodings.get? x = Encoding.foremost? (shownOf (own :: extended) x) := by
    rw [hlays, get?_overlayAll_eq_foremost?]
  have hcontains :
      gathered.encodings.contains x ↔ ∃ p ∈ own :: extended, p.encodings.contains x := by
    rw [Encodings.contains_eq_isSome, hshown, Encoding.isSome_foremost?, shownOf_ne_nil]
  refine ⟨hshown, hcontains, fun before p after hsplit e he => ?_⟩
  have hp : gathered.encodings.contains x :=
    hcontains.mpr ⟨p, by simp [hsplit], by rw [Encodings.contains_eq_isSome, he]; rfl⟩
  rw [Encodings.contains_eq_isSome] at hp
  obtain ⟨result, hresult⟩ := Option.isSome_iff_exists.mp hp
  have hforemost : Encoding.foremost? (shownOf before x ++ e :: shownOf after x) = some result := by
    rw [← shownOf_append_cons he, ← hsplit, ← hshown, hresult]
  exact ⟨result, hresult, Encoding.upheld_of_foremost? hforemost⟩

/-! A sum over three heads that all show one datum, each with another field open. The sum shows its
own output by default, which the first head shows as well. -/

def threefoldRules : Rules where
  grammar := .ofList [("total", {
    operand := .any, product := .scalar
    defaultLook := some { mark := .area, channel := .area } })]
  compositions := {}

def threefoldSum : Operation :=
  { id := 0, name := "total", kind := "total", inputs := ["x"], outputs := ["total"] }

def threefoldHead (top : OpId) (shown : List (Datum × Encoding)) : Panel :=
  { top, members := #[top], chart := none, encodings := .ofList shown, depth := 1 }

def threefoldHeads : List Panel := [
  threefoldHead 3 [
    ("x", { mark := .bar, channel := .length, skip := some true, anchor := some "total" })],
  threefoldHead 1 [
    ("x", { mark := .point, channel := .position, axis := some .x }),
    ("total", { mark := .line, channel := .length, axis := some .y })],
  threefoldHead 2 [
    ("x", { mark := .line, channel := .length, axis := some .y, skip := some false })]]

def threefoldPanel : Panel where
  top := 0
  members := #[2, 0, 1, 3]
  chart := none
  encodings := .ofList [
    ("x", {
      mark := .point, channel := .position
      axis := some .x, skip := some false, anchor := some "total" }),
    ("total", { mark := .area, channel := .area, axis := some .y })]
  depth := 1

theorem gather_threefold : (gather threefoldSum 0 threefoldHeads .empty threefoldRules).result =
    .ok [threefoldPanel] := by
  simp only [gather, byTop_eq_insertionSort]
  decide +kernel

theorem gather_encodings_threefold : ∃ profile own order extended,
    Gathering .empty threefoldRules threefoldSum 0 threefoldHeads [threefoldPanel] profile own order
      extended threefoldPanel ∧
    Encoding.foremost? (shownOf (own :: extended) "x") = some {
      mark := .point, channel := .position
      axis := some .x, skip := some false, anchor := some "total" } ∧
    ∃ p ∈ own :: extended, p.encodings.contains "total" := by
  obtain ⟨profile, own, order, extended, gathered, hgathering, hshown⟩ :=
    gather_encodings gather_threefold
  obtain rfl : threefoldPanel = gathered := Option.some.inj hgathering.last
  refine ⟨profile, own, order, extended, hgathering, ?_, (hshown "total").2.1.mp (by decide)⟩
  rw [← (hshown "x").1]
  decide

end Panel

end ChartFold
