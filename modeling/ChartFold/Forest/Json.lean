import ChartFold.Forest.Record
import ChartFold.Json.Decode

/-!
Records of forests as JSON. All fields are written, the parent of a root as null; parent, inputs and
outputs may be missing when a record is read.
-/
namespace ChartFold

def Listing.toJson : Listing → Json
  | one d => .ofString d
  | many ds => Json.array Json.ofString ds

def Listing.ofJson? : Json → Option Listing
  | .str text => text.map one
  | j => (j.list? Json.string?).map many

namespace OperationRecord

def fieldNames : List String := ["name", "parent", "function", "input_data", "output_data"]

def toJson (r : OperationRecord) : Json :=
  .object [("name", .ofString r.name), ("parent", Json.nullable Json.ofString r.parent),
    ("function", .ofString r.kind), ("input_data", Json.array Json.ofString r.inputs),
    ("output_data", r.outputs.toJson)]

def ofJson? (j : Json) : Option OperationRecord := do
  match ← j.fields? fieldNames with
  | [name, parent, kind, inputs, outputs] =>
    return {
      name := ← Json.required Json.string? name
      parent := ← Json.optional Json.string? parent
      kind := ← Json.required Json.string? kind
      inputs := ← Json.withDefault [] (Json.list? Json.string?) inputs
      outputs := ← Json.withDefault (.many []) Listing.ofJson? outputs }
  | _ => none

end OperationRecord

namespace ForestRecord

inductive LoadError where
  | malformed
  | forest (error : ForestError)
deriving DecidableEq, Inhabited

def LoadError.message : LoadError → String
  | malformed => "Malformed graph record"
  | forest error => error.message

def fieldNames : List String := ["root", "nodes"]

def toJson (r : ForestRecord) : Json :=
  .object [("root", .ofString r.root), ("nodes", Json.array OperationRecord.toJson r.operations)]

def ofJson? (j : Json) : Option ForestRecord := do
  match ← j.fields? fieldNames with
  | [root, operations] =>
    return {
      root := ← Json.required Json.string? root
      operations := ← Json.required (Json.list? OperationRecord.ofJson?) operations }
  | _ => none

def ofText (text : String) : Except LoadError ForestRecord :=
  match (Json.parse? text).bind ofJson? with
  | some record => .ok record
  | none => .error .malformed

def load (text : String) : Except LoadError (Forest × OpId) := do
  let record ← ofText text
  record.build.mapError .forest

end ForestRecord

/-- Ids are at most 4294967295, the greatest number of 32 bits. -/
def OpId.ofJson? : Json → Option OpId := Json.natBelow? 4294967296

end ChartFold
