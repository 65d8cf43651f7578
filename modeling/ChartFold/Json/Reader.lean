import ChartFold.Json.Token

/-!
Documents from tokens. The reader keeps the arrays and objects that are still open on a stack of its
own, so documents may be nested to any depth.
-/
namespace ChartFold.Json

/-- An array or object that is still open, what it holds so far in reverse. -/
inductive Frame where
  | items (before : List Json)
  | fields (before : List (Text × Json))
  /-- An object that awaits the value of a key. -/
  | field (before : List (Text × Json)) (key : Text)
deriving Inhabited

inductive Expect where
  | value | itemOrEnd | key | keyOrEnd | colon | separator
deriving DecidableEq, Inhabited

inductive Progress where
  | more (frames : List Frame) (expect : Expect)
  | done (value : Json)
  | failed
deriving Inhabited

def deliver (value : Json) : List Frame → Progress
  | [] => .done value
  | .items before :: frames => .more (.items (value :: before) :: frames) .separator
  | .field before key :: frames => .more (.fields ((key, value) :: before) :: frames) .separator
  | .fields _ :: _ => .failed

def beginValue (frames : List Frame) : Token → Progress
  | .leftBracket => .more (.items [] :: frames) .itemOrEnd
  | .leftBrace => .more (.fields [] :: frames) .keyOrEnd
  | .null => deliver .null frames
  | .bool b => deliver (.bool b) frames
  | .num lexeme => deliver (.num lexeme) frames
  | .str text => deliver (.str text) frames
  | _ => .failed

def beginField : List Frame → Token → Progress
  | .fields before :: frames, .str key => .more (.field before key :: frames) .colon
  | _, _ => .failed

def endArray : List Frame → Progress
  | .items before :: frames => deliver (.arr before.reverse) frames
  | _ => .failed

def endObject : List Frame → Progress
  | .fields before :: frames => deliver (.obj before.reverse) frames
  | _ => .failed

def afterComma : List Frame → Progress
  | .items before :: frames => .more (.items before :: frames) .value
  | .fields before :: frames => .more (.fields before :: frames) .key
  | _ => .failed

def advance (frames : List Frame) : Expect → Token → Progress
  | .value, token => beginValue frames token
  | .itemOrEnd, .rightBracket => endArray frames
  | .itemOrEnd, token => beginValue frames token
  | .key, token => beginField frames token
  | .keyOrEnd, .rightBrace => endObject frames
  | .keyOrEnd, token => beginField frames token
  | .colon, .colon => .more frames .value
  | .separator, .comma => afterComma frames
  | .separator, .rightBracket => endArray frames
  | .separator, .rightBrace => endObject frames
  | _, _ => .failed

def read : List Frame → Expect → List Token → Option (Json × List Token)
  | _, _, [] => none
  | frames, expect, token :: rest =>
    match advance frames expect token with
    | .more frames expect => read frames expect rest
    | .done value => some (value, rest)
    | .failed => none

def readFirst? (text : String) : Option (Json × List Token) := read [] .value (tokens text.toList)

def parse? (text : String) : Option Json :=
  match readFirst? text with
  | some (value, []) => some value
  | _ => none

end ChartFold.Json
