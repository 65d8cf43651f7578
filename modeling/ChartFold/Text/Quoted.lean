import ChartFold.Text.Faceless

/-!
Text as it stands in messages and in the log: between quotes, with the quote, the backslash and
every character without a face written as an escape.
-/
namespace ChartFold.Text

/-- The number of a code point in the least number of lower case hexadecimal digits. -/
def numeric (c : Char) : String :=
  "\\u\x7b" ++ String.ofList (Nat.toDigits 16 c.toNat) ++ "\x7d"

def escape (c : Char) : String :=
  if c == '"' then "\\\""
  else if c == '\\' then "\\\\"
  else if c == '\n' then "\\n"
  else if c == '\r' then "\\r"
  else if c == '\t' then "\\t"
  else if c == '\x00' then "\\0"
  else if isFaceless c then numeric c
  else c.toString

def quoted (s : String) : String :=
  s.toList.foldl (fun text c => text ++ escape c) "\"" ++ "\""

def optional {α : Type} (spell : α → String) : Option α → String
  | none => "None"
  | some a => s!"Some({spell a})"

def listed {α : Type} (spell : α → String) (l : List α) : String :=
  "[" ++ ", ".intercalate (l.map spell) ++ "]"

end ChartFold.Text
