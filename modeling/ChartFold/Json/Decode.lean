import ChartFold.Json.Reader

/-!
Values from documents. A structure is an object, or an array of its fields in order from which the
last ones may be missing. In an object, keys that mean nothing to the structure are passed over, and
a key that does may come only once. A choice is a string, or an object whose one key leads to null.
-/
namespace ChartFold.Json

def string? : Json → Option String
  | .str text => text
  | _ => none

def bool? : Json → Option Bool
  | .bool b => some b
  | _ => none

def list? {α : Type} (item? : Json → Option α) : Json → Option (List α)
  | .arr items => items.mapM item?
  | _ => none

def natBelow? (bound : Nat) : Json → Option Nat
  | .num lexeme =>
    if lexeme.toList.all Char.isDigit then lexeme.toNat?.filter (· < bound) else none
  | _ => none

def entries? : Json → Option (List (String × Json))
  | .obj fields => fields.mapM fun (key, value) => key.map fun key => (key, value)
  | _ => none

/-- The one value of a key, if it has one; refused when there are several. -/
def single? (entries : List (String × Json)) (name : String) : Option (Option Json) :=
  match entries.filter (·.1 == name) with
  | [] => some none
  | [(_, value)] => some (some value)
  | _ => none

def fields? (names : List String) : Json → Option (List (Option Json))
  | .arr items =>
    if items.length ≤ names.length then
      some (items.map some ++ List.replicate (names.length - items.length) none)
    else none
  | j => do names.mapM (single? (← j.entries?))

def required {α : Type} (value? : Json → Option α) (field : Option Json) : Option α :=
  field.bind value?

/-- A field that may be missing or null. -/
def optional {α : Type} (value? : Json → Option α) : Option Json → Option (Option α)
  | none | some .null => some none
  | some j => (value? j).map some

/-- A field that may be missing, but not null. -/
def withDefault {α : Type} (d : α) (value? : Json → Option α) : Option Json → Option α
  | none => some d
  | some j => value? j

def choice? {α : Type} (named? : String → Option α) : Json → Option α
  | .str (some name) => named? name
  | .obj [(some name, .null)] => named? name
  | _ => none

end ChartFold.Json
