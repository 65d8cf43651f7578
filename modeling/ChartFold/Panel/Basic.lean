import ChartFold.Event
import ChartFold.Forest.Basic
import Std.Data.ExtTreeSet

/-!
Panels: charts under assembly. A panel explains some operations of a tree, topped by one of them,
and encodes the data that it shows. It starts unbound and is bound to a chart when it can be; a
bound panel may pass to another chart but never becomes unbound again.
-/
namespace ChartFold

structure Panel where
  top : OpId
  /-- The operations the panel explains, in the order in which they joined. -/
  members : Array OpId
  chart : Option Chart
  encodings : Encodings
  /-- The greatest distance of a member from where the walk started. -/
  depth : Nat
deriving DecidableEq, Inhabited

def Rules.profileOf (rules : Rules) (op : Operation) : Except ExplainError Profile :=
  match rules.profile? op.kind with
  | some profile => .ok profile
  | none => .error (.noProfile op.kind op.name)

namespace Panel

def contains (p : Panel) (id : OpId) : Bool := p.members.contains id

def memberSet (p : Panel) : Std.ExtTreeSet OpId := p.members.foldl (·.insert ·) ∅

def blank (id : OpId) (depth : Nat) : Panel :=
  { top := id, members := #[id], chart := none, encodings := .empty, depth }

def writeAll (p : Panel) (patches : List (Datum × Patch)) : Explaining Panel where
  events := ((p.encodings.dropped patches).map fun (d, patch) => .patchDropped d patch).toArray
  result := .ok { p with encodings := p.encodings.writeAll patches }

@[simp] theorem result_writeAll (p : Panel) (patches : List (Datum × Patch)) :
    (p.writeAll patches).result = .ok { p with encodings := p.encodings.writeAll patches } := rfl

def unmet? (p : Panel) (chart : Chart) (op : Operation) : Option ExplainError :=
  match chart.ineligible op.toFlow p.encodings with
  | [] => none
  | missing => some (.ineligibleInputs chart op.id missing)

def draw (p : Panel) (chart : Chart) (op : Operation) : Explaining Panel :=
  { p with chart := some chart }.writeAll (chart.drawing op.toFlow)

/-- Binds the chart unless its requirements are unmet; then the panel stays as it is. -/
def adopt (p : Panel) (chart : Chart) (op : Operation) (refused : ExplainError → Event) :
    Explaining Panel :=
  match p.unmet? chart op with
  | some reason => do
    .note (refused reason)
    return p
  | none => p.draw chart op

def withDefaults (p : Panel) (profile : Profile) (op : Operation) : Panel :=
  match profile.outputEncoding op.inputs p.encodings with
  | some e => { p with encodings := p.encodings.mergeAt op.outputs e }
  | none => p

@[simp] theorem top_withDefaults (p : Panel) (profile : Profile) (op : Operation) :
    (p.withDefaults profile op).top = p.top := by
  unfold withDefaults; split <;> rfl

@[simp] theorem members_withDefaults (p : Panel) (profile : Profile) (op : Operation) :
    (p.withDefaults profile op).members = p.members := by
  unfold withDefaults; split <;> rfl

@[simp] theorem chart_withDefaults (p : Panel) (profile : Profile) (op : Operation) :
    (p.withDefaults profile op).chart = p.chart := by
  unfold withDefaults; split <;> rfl

@[simp] theorem depth_withDefaults (p : Panel) (profile : Profile) (op : Operation) :
    (p.withDefaults profile op).depth = p.depth := by
  unfold withDefaults; split <;> rfl

def start (op : Operation) (depth : Nat) (rules : Rules) : Explaining Panel := do
  let profile ← .ofExcept (rules.profileOf op)
  let p := (blank op.id depth).withDefaults profile op
  match profile.chart with
  | some chart => p.adopt chart op (.startedUnbound op.name)
  | none => return p

end Panel

end ChartFold
