import ChartFold.Forest.Basic

/-!
Walking the tree below an operation, every operation after its children. The walk keeps its own
stack, so trees of any depth can be walked.
-/
namespace ChartFold

structure Visit where
  id : OpId
  depth : Nat
deriving DecidableEq, Inhabited

/-- What is still to be done: all below an operation and then itself, or only itself. -/
inductive Errand where
  | enter (visit : Visit)
  | leave (visit : Visit)
deriving DecidableEq, Inhabited

namespace Forest

/-- One round takes one errand from the stack. `entered` tells which operations have been entered;
an operation that is met a second time lies on no tree. -/
def walk (f : Forest) :
    Nat → List Errand → Array Bool → List Visit → Except ForestError (List Visit)
  | 0, _, _, order => .ok order.reverse
  | _ + 1, [], _, order => .ok order.reverse
  | n + 1, .leave visit :: rest, entered, order => f.walk n rest entered (visit :: order)
  | n + 1, .enter visit :: rest, entered, order =>
    if entered[visit.id]? = some false then
      let below := (f.children visit.id).map fun child => .enter ⟨child, visit.depth + 1⟩
      f.walk n (below ++ .leave visit :: rest) (entered.setIfInBounds visit.id true) order
    else .error (.cycle visit.id visit.id)

/-- The operations below `root` and `root` itself, children first and in their order. Every
operation is entered once and left once, so the rounds suffice. -/
def postOrder (f : Forest) (root : OpId) : Except ForestError (List Visit) := do
  let _ ← f.get root
  f.walk (2 * f.size + 1) [.enter ⟨root, 0⟩] (Array.replicate f.size false) []

end Forest

end ChartFold
