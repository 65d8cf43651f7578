/-!
JSON documents. Numbers are kept as they are written. A text may hold half a surrogate pair; such a
text is no string, but it may stand wherever nobody looks at it.
-/
namespace ChartFold

/-- The content of a JSON string; `none` where half a surrogate pair stands alone in it. -/
abbrev Json.Text := Option String

inductive Json where
  | null
  | bool (b : Bool)
  | num (lexeme : String)
  | str (text : Json.Text)
  | arr (items : List Json)
  | obj (fields : List (Json.Text × Json))
deriving Inhabited

namespace Json

def ofString (s : String) : Json := .str (some s)

def ofNat (n : Nat) : Json := .num (toString n)

def object (fields : List (String × Json)) : Json :=
  .obj (fields.map fun (key, value) => (some key, value))

def array {α : Type} (write : α → Json) (l : List α) : Json := .arr (l.map write)

def nullable {α : Type} (write : α → Json) : Option α → Json
  | some a => write a
  | none => .null

/-- A field that is left out when it has no value. -/
def whenSome {α : Type} (key : String) (write : α → Json) : Option α → List (String × Json)
  | some a => [(key, write a)]
  | none => []

end Json

end ChartFold
