import ChartFold.Panel.Extend

/-!
Gathering the panels of an operation's children. Those that compose with the chart the operation
wants are folded into one panel with it; the others are handed up as they are. Both are taken in the
order of their tops, so the order in which they arrive is of no consequence.
-/
namespace ChartFold.Panel

def byTop (panels : List Panel) : List Panel := panels.mergeSort fun a b => a.top ≤ b.top

def checkShapes (profile : Profile) (parent : Operation) (forest : Forest) (rules : Rules) :
    Explaining Unit :=
  parent.children.forM fun child => do
    let op ← (Traced.ofExcept (forest.get child)).mapError .forest
    let produced := (← .ofExcept (rules.profileOf op)).product
    unless profile.operand.takes produced do
      .note (.shapeMismatch parent.name op.name profile.operand produced)

def joining (rules : Rules) (wanted : Option Chart) (heads : List Panel) : List Panel :=
  heads.filter fun head => (head.objection? rules wanted).isNone

def orphans (rules : Rules) (wanted : Option Chart) (heads : List Panel) : List Panel :=
  heads.filter fun head => (head.objection? rules wanted).isSome

def orphanEvents (rules : Rules) (parent : Operation) (wanted : Option Chart) (head : Panel) :
    List Event :=
  match head.objection? rules wanted with
  | some reason => [.objected parent.name reason, .orphaned parent.name head.chart]
  | none => []

/-- Folds `head` into the parent and lays what has been gathered so far over it. -/
def foldHead (parent : Operation) (declared : Option Chart) (forest : Forest) (rules : Rules)
    (acc head : Panel) : Explaining Panel := do
  let extended ← (head.extend parent forest rules).mapError ExtendFailure.error
  return extended.overlay acc declared

/-- The panels handed up, and after them the one that holds the parent. -/
def gather (parent : Operation) (depth : Nat) (heads : List Panel) (forest : Forest)
    (rules : Rules) : Explaining (List Panel) := do
  let profile ← .ofExcept (rules.profileOf parent)
  checkShapes profile parent forest rules
  let own ← start parent depth rules
  let orphans := orphans rules profile.chart heads
  .noteAll (orphans.flatMap (orphanEvents rules parent profile.chart)).toArray
  let gathered ← (byTop (joining rules profile.chart heads)).foldlM
    (foldHead parent profile.chart forest rules) own
  return byTop orphans ++ [gathered]

end ChartFold.Panel
