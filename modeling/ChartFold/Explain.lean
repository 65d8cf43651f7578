import ChartFold.Forest.PostOrder
import ChartFold.Panel.Gather

/-!
Explaining a tree of operations by panels. The tree is walked from the leaves up; every operation
takes the panels that its children left, gathers the last of each list, and leaves the others before
what it has gathered.
-/
namespace ChartFold

/-- What the operations walked so far have left for their parents, by id. A place is empty before
its operation is walked and again once its list has been taken. -/
abbrev Desk := Array (Option (List Panel))

namespace Desk

/-- The list at a place; an empty place counts as one that holds the empty list. -/
def listAt (desk : Desk) (id : OpId) : List Panel := desk[id]?.join.getD []

def take (desk : Desk) : List OpId → List (List Panel) × Desk
  | [] => ([], desk)
  | id :: ids =>
    let (lists, rest) := take (desk.setIfInBounds id none) ids
    (desk.listAt id :: lists, rest)

end Desk

namespace Forest

variable (forest : Forest) (rules : Rules)

def explainVisit (desk : Desk) (visit : Visit) : Explaining Desk := do
  let op ← (Traced.ofExcept (forest.get visit.id)).mapError .forest
  if op.isLeaf then
    let own ← Panel.start op visit.depth rules
    return desk.setIfInBounds op.id (some [own])
  else
    let (lists, desk) := desk.take op.children
    let carried := lists.flatMap List.dropLast
    let heads := lists.filterMap List.getLast?
    let gathered ← Panel.gather op visit.depth heads forest rules
    return desk.setIfInBounds op.id (some (carried ++ gathered))

def explainVisits (visits : List Visit) : Explaining Desk :=
  visits.foldl (fun done visit => done >>= (forest.explainVisit rules · visit))
    (pure (Array.replicate forest.size none))

/-- The deepest panels first; those of one depth stay in their order. -/
def byDepth (panels : List Panel) : List Panel := panels.mergeSort fun a b => b.depth ≤ a.depth

def explain (root : OpId) : Explaining (List Panel) := do
  let visits ← (Traced.ofExcept (forest.postOrder root)).mapError .forest
  let desk ← forest.explainVisits rules visits
  let panels := byDepth (desk.listAt root)
  let op ← (Traced.ofExcept (forest.get root)).mapError .forest
  .note (.explained op.name visits.length panels.length)
  return panels

def explainAll (roots : List OpId) : List (Explaining (List Panel)) :=
  roots.map (forest.explain rules)

end Forest

end ChartFold
