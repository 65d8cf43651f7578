import ChartFold.Panel.Basic

/-!
Folding a panel into the chart of the operation above it. An unbound panel takes over the chart that
the operation wants, a bound one needs a rule that composes the two charts, and an operation that
wants no chart joins any panel as it is.
-/
namespace ChartFold

/-- Why a panel could not be extended, with the panel as the failure left it. -/
structure ExtendFailure where
  error : ExplainError
  panel : Panel
deriving DecidableEq, Inhabited

namespace Panel

def objection? (p : Panel) (rules : Rules) (wanted : Option Chart) : Option ExplainError :=
  match p.chart, wanted with
  | some own, some chart =>
    if rules.composes own chart then none else some (.noComposition own chart)
  | _, _ => none

def fits (p : Panel) (parent : Operation) (rules : Rules) : Explaining Bool := do
  let profile ← .ofExcept (rules.profileOf parent)
  match p.objection? rules profile.chart with
  | some reason =>
    .note (.objected parent.name reason)
    return false
  | none => return true

def addMember (p : Panel) (id : OpId) : Panel := { p with members := p.members.push id }

/-- Ties the drawing of `child`, the top of the panel, to that of `parent` and draws the chart that
comes of it. -/
def compose (p : Panel) (rule : Composition) (child parent : Operation) : Explaining Panel := do
  let tied ← p.writeAll (rule.ties child.toFlow parent.toFlow)
  tied.draw rule.resultChart parent

def settle (p : Panel) (wanted : Option Chart) (parent : Operation) (forest : Forest)
    (rules : Rules) : Explaining Panel :=
  match p.chart, wanted with
  | _, none => pure p
  | none, some chart => p.adopt chart parent (.adoptionRefused parent.name)
  | some own, some chart =>
    match rules.composition? own chart with
    | none => .fail (.noComposition own chart)
    | some rule => do
      let child ← (Traced.ofExcept (forest.get p.top)).mapError .forest
      p.compose rule child parent

/-- Extends the panel by the operation above its top. What was written before a failure stays. -/
def extend (p : Panel) (parent : Operation) (forest : Forest) (rules : Rules) :
    Traced Event ExtendFailure Panel :=
  match rules.profileOf parent with
  | .error e => .fail ⟨e, p⟩
  | .ok profile => do
    let p := p.withDefaults profile parent
    let settled ← (p.settle profile.chart parent forest rules).mapError fun error => ⟨error, p⟩
    return settled.addMember parent.id

/-- Two member lists that have `shared` and nothing else in common, the longer one first. -/
def joinMembers (shared : OpId) (xs ys : Array OpId) : Array OpId :=
  if ys.size > xs.size then ys ++ xs.filter (· != shared) else xs ++ ys.filter (· != shared)

/-- The chart once `acc` is laid over `own`: that of `acc` if it has one, unless `own` is a chart
other than the declared one. -/
def overlaidChart (own acc declared : Option Chart) : Option Chart :=
  if own.isNone || own == declared then acc.or own else own

/-- Lays `acc` over the panel. Both hold the operation on top of `acc`, which wants `declared`. -/
def overlay (p acc : Panel) (declared : Option Chart) : Panel where
  top := acc.top
  members := joinMembers acc.top p.members acc.members
  chart := overlaidChart p.chart acc.chart declared
  encodings := p.encodings.union acc.encodings
  depth := max p.depth acc.depth

end Panel

end ChartFold
