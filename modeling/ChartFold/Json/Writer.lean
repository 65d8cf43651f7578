import ChartFold.Json.Basic

/-!
Documents as text, in one line and without blanks. In strings only the quote, the backslash and the
control characters below the space are escaped, by a letter if there is one for them.
-/
namespace ChartFold.Json

def escapeControl (c : Char) : List Char :=
  ['\\', 'u', '0', '0', Nat.digitChar (c.toNat / 16), Nat.digitChar (c.toNat % 16)]

/-- What stands for a character behind a backslash. -/
def shorthand? : Char → Option Char
  | '"' => some '"'
  | '\\' => some '\\'
  | '\x08' => some 'b'
  | '\x0c' => some 'f'
  | '\n' => some 'n'
  | '\r' => some 'r'
  | '\t' => some 't'
  | _ => none

def writeChar (c : Char) : List Char :=
  match shorthand? c with
  | some letter => ['\\', letter]
  | none => if c < ' ' then escapeControl c else [c]

def writeText : Text → String
  | some s => "\"" ++ String.ofList (s.toList.flatMap writeChar) ++ "\""
  | none => "\"\\ud800\""

mutual

def render : Json → String
  | .null => "null"
  | .bool true => "true"
  | .bool false => "false"
  | .num lexeme => lexeme
  | .str text => writeText text
  | .arr items => "[" ++ renderItems items ++ "]"
  | .obj fields => "\x7b" ++ renderFields fields ++ "\x7d"

def renderItems : List Json → String
  | [] => ""
  | [item] => item.render
  | item :: rest => item.render ++ "," ++ renderItems rest

def renderFields : List (Text × Json) → String
  | [] => ""
  | [(key, value)] => writeText key ++ ":" ++ value.render
  | (key, value) :: rest => writeText key ++ ":" ++ value.render ++ "," ++ renderFields rest

end

end ChartFold.Json
