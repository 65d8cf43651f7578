import ChartFold.Forest.Basic

/-!
Forests written down as a flat list of operations. An operation names its parent, which must stand
earlier in the list, so names have to be distinct here.
-/
namespace ChartFold

/-- Data given alone or as a list. The two forms are kept apart. -/
inductive Listing where
  | one (d : Datum)
  | many (ds : List Datum)
deriving DecidableEq, Inhabited

def Listing.toList : Listing → List Datum
  | one d => [d]
  | many ds => ds

structure OperationRecord where
  name : String
  parent : Option String := none
  kind : OpKind
  inputs : List Datum := []
  outputs : Listing := .many []
deriving DecidableEq, Inhabited

def OperationRecord.flow (r : OperationRecord) : Flow := ⟨r.inputs, r.outputs.toList⟩

structure ForestRecord where
  root : String
  operations : List OperationRecord
deriving DecidableEq, Inhabited

namespace ForestRecord

def addRecord (f : Forest) (r : OperationRecord) : Except ForestError Forest := do
  if (f.find? r.name).isSome then throw (.nameTaken r.name)
  let parent ← match r.parent with
    | none => pure none
    | some p => match f.find? p with
      | some id => pure (some id)
      | none => throw (.undeclaredParent r.name p)
  return (← f.add r.name parent r.kind r.flow).1

def build (record : ForestRecord) : Except ForestError (Forest × OpId) := do
  let f ← record.operations.foldlM addRecord Forest.empty
  match f.find? record.root with
  | some root => return (f, root)
  | none => throw (.noRoot record.root)

end ForestRecord

end ChartFold
