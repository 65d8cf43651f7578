import ChartFold.Forest.Error
import Std.Data.ExtTreeMap
import Std.Data.ExtTreeSet

/-!
Forests of operations. Operations are only ever added, each under a name of its own and with a
parent link that is set at most once: either when the operation is added, or later, when it is
attached. A call that fails says why and what forest it leaves.
-/
namespace ChartFold

structure Operation extends Flow where
  id : OpId
  name : String
  kind : OpKind
  parent : Option OpId := none
  /-- In the order in which they were linked. -/
  children : List OpId := []
deriving DecidableEq, Inhabited

def Operation.isLeaf (op : Operation) : Bool := op.children.isEmpty

structure Forest where
  operations : Array Operation := #[]
  names : Std.ExtTreeMap String OpId := ∅
  /-- The names that are taken; the same that `names` finds, as every call keeps it. -/
  used : Std.ExtTreeSet String := ∅
deriving DecidableEq

namespace Forest

def empty : Forest := {}

instance : Inhabited Forest := ⟨empty⟩

def size (f : Forest) : Nat := f.operations.size

def get? (f : Forest) (id : OpId) : Option Operation := f.operations[id]?

def get (f : Forest) (id : OpId) : Except ForestError Operation :=
  match f.get? id with
  | some op => .ok op
  | none => .error (.unknown id)

def find? (f : Forest) (name : String) : Option OpId := f.names[name]?

def parent? (f : Forest) (id : OpId) : Option OpId := (f.get? id).bind (·.parent)

def children (f : Forest) (id : OpId) : List OpId := ((f.get? id).map (·.children)).getD []

def toList (f : Forest) : List Operation := f.operations.toList

def roots (f : Forest) : List OpId := (f.toList.filter (·.parent.isNone)).map (·.id)

/-- The operation and all that lie above it, upwards. A link upwards never meets an operation
twice, so a forest of `n` operations has no longer lineage than `n`. -/
def lineage (f : Forest) (id : OpId) : List OpId := go f.size id
where
  go : Nat → OpId → List OpId
    | 0, _ => []
    | n + 1, id => id :: match f.parent? id with
      | some parent => go n parent
      | none => []

/-! Names

A name that is in use gets a number. The counter of the numbers has 32 bits with a sign, and its
sums are checked: the call that overflows it stops before anything is written. (Unchecked it would
go on with -2147483648. Forests of fewer than 2147483647 operations never get there.) -/

def numbered (name : String) (k : Int32) : String := s!"{name}_{k}"

theorem toInt_add_one {k : Int32} (h : k < Int32.maxValue) : (k + 1).toInt = k.toInt + 1 := by
  have hlt : k.toInt < Int32.maxValue.toInt := Int32.lt_iff_toInt_lt.mp h
  have hle : -2147483648 ≤ k.toInt := k.minValue_le_toInt
  have hmax : Int32.maxValue.toInt = 2147483647 := rfl
  have hone : (1 : Int32).toInt = 1 := rfl
  rw [Int32.toInt_add, hone, Int.bmod_eq_of_le (by omega) (by omega)]

/-- The first of `numbered name k`, `numbered name (k + 1)`, … that is free. A number is counted
before its name is tried, so the greatest one cannot be given. -/
def firstFree? (taken : String → Bool) (name : String) (k : Int32) : Option String :=
  if k < Int32.maxValue then
    if taken (numbered name k) then firstFree? taken name (k + 1) else some (numbered name k)
  else none
termination_by (Int32.maxValue.toInt - k.toInt).toNat
decreasing_by
  have hlt : k.toInt < Int32.maxValue.toInt := Int32.lt_iff_toInt_lt.mp ‹_›
  have hnext := toInt_add_one ‹_›
  omega

/-- The name itself, or with the least number that makes it new. -/
def freshName? (f : Forest) (name : String) : Option String :=
  if f.used.contains name then firstFree? f.used.contains name 1 else some name

/-! Growing -/

/-- A call that does not come to its end, with the forest that it leaves. -/
structure GrowFailure where
  halt : Halt
  forest : Forest

instance : Coe GrowFailure ForestError := ⟨fun failure => failure.halt.error⟩

instance : MonadLift (Except GrowFailure) (Except ForestError) := ⟨Except.mapError (↑·)⟩

def push (f : Forest) (name : String) (parent : Option OpId) (kind : OpKind) (flow : Flow) :
    Forest where
  operations := f.operations.push { flow with id := f.size, name, kind, parent }
  names := f.names.insert name f.size
  used := f.used.insert name

def appendChild (f : Forest) (parent child : OpId) : Forest :=
  { f with operations := f.operations.modify parent fun op =>
      { op with children := op.children ++ [child] } }

def setParent (f : Forest) (child parent : OpId) : Forest :=
  { f with operations := f.operations.modify child fun op => { op with parent := some parent } }

@[simp] theorem size_push (f : Forest) (name : String) (parent : Option OpId) (kind : OpKind)
    (flow : Flow) : (f.push name parent kind flow).size = f.size + 1 := by
  simp [push, size]

@[simp] theorem size_appendChild (f : Forest) (parent child : OpId) :
    (f.appendChild parent child).size = f.size := by
  simp [appendChild, size]

@[simp] theorem size_setParent (f : Forest) (child parent : OpId) :
    (f.setParent child parent).size = f.size := by
  simp [setParent, size]

def insert (f : Forest) (name : String) (parent : Option OpId) (kind : OpKind) (flow : Flow) :
    Forest :=
  let id := f.size
  match parent with
  | none => f.push name none kind flow
  | some p => (f.push name (some p) kind flow).appendChild p id

@[simp] theorem size_insert (f : Forest) (name : String) (parent : Option OpId) (kind : OpKind)
    (flow : Flow) : (f.insert name parent kind flow).size = f.size + 1 := by
  cases parent <;> simp [insert]

def check (f : Forest) (id : OpId) : Except GrowFailure Unit :=
  if id < f.size then .ok () else .error ⟨.refused (.unknown id), f⟩

def add (f : Forest) (name : String) (parent : Option OpId) (kind : OpKind) (flow : Flow) :
    Except GrowFailure (Forest × OpId) := do
  if let some p := parent then f.check p
  let id := f.size
  match f.freshName? name with
  | none => throw ⟨.overflow name, f⟩
  | some fresh => return (f.insert fresh parent kind flow, id)

/-- Links a root as the last child of `parent`, which must not lie below it. -/
def attach (f : Forest) (child parent : OpId) : Except GrowFailure Forest := do
  f.check child
  f.check parent
  if let some existing := f.parent? child then throw ⟨.refused (.hasParent child existing), f⟩
  if child ∈ f.lineage parent then throw ⟨.refused (.cycle child parent), f⟩
  return (f.setParent child parent).appendChild parent child

end Forest

end ChartFold
