import ChartFold.Json.Basic

/-!
The tokens of a JSON document. The characters are taken one at a time; at the first one that cannot
go on, a bad token ends the list and what follows is not looked at.
-/
namespace ChartFold.Json

inductive Token where
  | leftBrace | rightBrace | leftBracket | rightBracket | comma | colon
  | null
  | bool (b : Bool)
  | num (lexeme : String)
  | str (text : Text)
  | bad
deriving DecidableEq, Inhabited

/-! Numbers -/

def isDigits : List Char → Bool
  | [] => false
  | cs => cs.all Char.isDigit

def isExponent : List Char → Bool
  | [] => true
  | e :: '+' :: cs | e :: '-' :: cs => (e == 'e' || e == 'E') && isDigits cs
  | e :: cs => (e == 'e' || e == 'E') && isDigits cs

def isFraction : List Char → Bool
  | '.' :: c :: cs => c.isDigit && isExponent (cs.dropWhile Char.isDigit)
  | cs => isExponent cs

def isUnsigned : List Char → Bool
  | '0' :: cs => isFraction cs
  | c :: cs => c.isDigit && isFraction (cs.dropWhile Char.isDigit)
  | [] => false

/-- Digits without idle zeros in front, and if wanted a sign, a fraction and an exponent. -/
def isNumber : List Char → Bool
  | '-' :: cs => isUnsigned cs
  | cs => isUnsigned cs

def isNumeric (c : Char) : Bool :=
  c.isDigit || c == '-' || c == '+' || c == '.' || c == 'e' || c == 'E'

/-! Strings -/

/-- A string under way, its characters in reverse. `high` is the first half of a surrogate pair
that awaits the second. -/
structure Draft where
  chars : List Char := []
  high : Option Nat := none
  whole : Bool := true
deriving DecidableEq, Inhabited

namespace Draft

def settle (d : Draft) : Draft := { d with high := none, whole := d.whole && d.high.isNone }

def push (d : Draft) (c : Char) : Draft :=
  let d := d.settle
  { d with chars := c :: d.chars }

def isHigh (unit : Nat) : Bool := 0xd800 ≤ unit && unit < 0xdc00

def isLow (unit : Nat) : Bool := 0xdc00 ≤ unit && unit < 0xe000

def pushUnit (d : Draft) (unit : Nat) : Draft :=
  match d.high with
  | some high =>
    if isLow unit then
      { d with
        chars := Char.ofNat (0x10000 + (high - 0xd800) * 0x400 + (unit - 0xdc00)) :: d.chars
        high := none }
    else if isHigh unit then { d with high := some unit, whole := false }
    else d.push (Char.ofNat unit)
  | none =>
    if isHigh unit then { d with high := some unit }
    else if isLow unit then { d with whole := false }
    else d.push (Char.ofNat unit)

def text (d : Draft) : Text :=
  let d := d.settle
  if d.whole then some (String.ofList d.chars.reverse) else none

end Draft

def hexDigit? (c : Char) : Option Nat :=
  let lower := c.toLower
  if c.isDigit then some (c.toNat - '0'.toNat)
  else if 'a' ≤ lower && lower ≤ 'f' then some (lower.toNat - 'a'.toNat + 10)
  else none

def escaped? : Char → Option Char
  | '"' => some '"'
  | '\\' => some '\\'
  | '/' => some '/'
  | 'b' => some '\x08'
  | 'f' => some '\x0c'
  | 'n' => some '\n'
  | 'r' => some '\r'
  | 't' => some '\t'
  | _ => none

/-! Scanning -/

inductive Mode where
  | between
  /-- Inside a word, of which `rest` is still to come. -/
  | word (rest : List Char) (token : Token)
  /-- Inside a number, what has been seen of it in reverse. -/
  | number (seen : List Char)
  | string (draft : Draft)
  | escape (draft : Draft)
  /-- Inside a numeric escape that lacks `missing` digits. -/
  | unit (draft : Draft) (missing value : Nat)
  | stuck
deriving DecidableEq, Inhabited

structure Scanner where
  tokens : List Token := []
  mode : Mode := .between
deriving DecidableEq, Inhabited

namespace Scanner

def emit (s : Scanner) (t : Token) : Scanner := { tokens := t :: s.tokens, mode := .between }

def fail (s : Scanner) : Scanner := { tokens := .bad :: s.tokens, mode := .stuck }

def endNumber (s : Scanner) (seen : List Char) : Scanner :=
  let lexeme := seen.reverse
  if isNumber lexeme then s.emit (.num (String.ofList lexeme)) else s.fail

def start (s : Scanner) (c : Char) : Scanner :=
  match c with
  | ' ' | '\t' | '\n' | '\r' => s
  | '\x7b' => s.emit .leftBrace
  | '\x7d' => s.emit .rightBrace
  | '[' => s.emit .leftBracket
  | ']' => s.emit .rightBracket
  | ',' => s.emit .comma
  | ':' => s.emit .colon
  | '"' => { s with mode := .string {} }
  | 'n' => { s with mode := .word ['u', 'l', 'l'] .null }
  | 't' => { s with mode := .word ['r', 'u', 'e'] (.bool true) }
  | 'f' => { s with mode := .word ['a', 'l', 's', 'e'] (.bool false) }
  | c => if isNumeric c then { s with mode := .number [c] } else s.fail

def step (s : Scanner) (c : Char) : Scanner :=
  match s.mode with
  | .between => s.start c
  | .word [] _ => s.fail
  | .word [x] token => if c = x then s.emit token else s.fail
  | .word (x :: rest) token => if c = x then { s with mode := .word rest token } else s.fail
  | .number seen =>
    if isNumeric c then { s with mode := .number (c :: seen) }
    else
      let s := s.endNumber seen
      if s.mode = .stuck then s else s.start c
  | .string draft =>
    if c = '"' then s.emit (.str draft.text)
    else if c = '\\' then { s with mode := .escape draft }
    else if c < ' ' then s.fail
    else { s with mode := .string (draft.push c) }
  | .escape draft =>
    if c = 'u' then { s with mode := .unit draft 4 0 }
    else match escaped? c with
      | some c => { s with mode := .string (draft.push c) }
      | none => s.fail
  | .unit draft missing value =>
    match hexDigit? c with
    | none => s.fail
    | some digit =>
      let value := 16 * value + digit
      if missing ≤ 1 then { s with mode := .string (draft.pushUnit value) }
      else { s with mode := .unit draft (missing - 1) value }
  | .stuck => s

def finish (s : Scanner) : Scanner :=
  match s.mode with
  | .between | .stuck => s
  | .number seen => s.endNumber seen
  | _ => s.fail

end Scanner

def tokens (text : List Char) : List Token :=
  (text.foldl Scanner.step {}).finish.tokens.reverse

end ChartFold.Json
