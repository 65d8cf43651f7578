import ChartFold.Encoding.Json
import ChartFold.Rules.Basic

/-!
Profiles, composition rules and their tables as JSON. Fields without a value are written as null. A
grammar is an object with one entry for each operation; a table of compositions is a list.
-/
namespace ChartFold

def Shape.name : Shape → String
  | scalar => "scalar"
  | vector => "vector"
  | any => "any"

def Shape.named? : String → Option Shape
  | "scalar" => some scalar
  | "vector" => some vector
  | "any" => some any
  | _ => none

def Tie.name : Tie → String
  | inputsToChildOutput => "inputs-to-child-output"
  | outputsToParentOutput => "output-to-parent-output"

def Tie.named? : String → Option Tie
  | "inputs-to-child-output" => some inputsToChildOutput
  | "output-to-parent-output" => some outputsToParentOutput
  | _ => none

@[simp] theorem Shape.named?_name (s : Shape) : Shape.named? s.name = some s := by cases s <;> rfl

@[simp] theorem Tie.named?_name (t : Tie) : Tie.named? t.name = some t := by cases t <;> rfl

def Shape.toJson (s : Shape) : Json := .ofString s.name

def Shape.ofJson? : Json → Option Shape := Json.choice? Shape.named?

def Tie.toJson (t : Tie) : Json := .ofString t.name

def Tie.ofJson? : Json → Option Tie := Json.choice? Tie.named?

def Chart.toJson (c : Chart) : Json := .ofString c.name

def Chart.ofJson? (j : Json) : Option Chart := j.string?.map Chart.ofName

namespace Fallback

def fieldNames : List String := ["input_mark", "output_mark", "channel"]

def toJson (f : Fallback) : Json :=
  .object [("input_mark", Json.nullable Mark.toJson f.inputMark), ("output_mark", f.mark.toJson),
    ("channel", f.channel.toJson)]

def ofJson? (j : Json) : Option Fallback := do
  match ← j.fields? fieldNames with
  | [inputMark, mark, channel] =>
    return {
      inputMark := ← Json.optional Mark.ofJson? inputMark
      mark := ← Json.required Mark.ofJson? mark
      channel := ← Json.required Channel.ofJson? channel }
  | _ => none

end Fallback

namespace Profile

def fieldNames : List String :=
  ["input_type", "output_type", "chart", "default_output", "mark_priority"]

def toJson (p : Profile) : Json :=
  .object [("input_type", p.operand.toJson), ("output_type", p.product.toJson),
    ("chart", Json.nullable Chart.toJson p.chart),
    ("default_output", Json.nullable Encoding.toJson p.defaultLook),
    ("mark_priority", Json.array Fallback.toJson p.fallbacks)]

def ofJson? (j : Json) : Option Profile := do
  match ← j.fields? fieldNames with
  | [operand, product, chart, defaultLook, fallbacks] =>
    return {
      operand := ← Json.required Shape.ofJson? operand
      product := ← Json.required Shape.ofJson? product
      chart := ← Json.optional Chart.ofJson? chart
      defaultLook := ← Json.optional Encoding.ofJson? defaultLook
      fallbacks := ← Json.withDefault [] (Json.list? Fallback.ofJson?) fallbacks }
  | _ => none

end Profile

namespace Grammar

def toJson (g : Grammar) : Json := .object (g.toList.map fun (kind, p) => (kind, p.toJson))

def ofJson? (j : Json) : Option Grammar := do
  let profiles ← (← j.entries?).mapM fun (kind, value) =>
    (Profile.ofJson? value).map fun p => (kind, p)
  return ofList profiles

end Grammar

namespace Composition

def fieldNames : List String := ["child", "parent", "allowed", "result", "offset"]

def toJson (r : Composition) : Json :=
  .object [("child", r.child.toJson), ("parent", r.parent.toJson), ("allowed", .bool r.allowed),
    ("result", Json.nullable Chart.toJson r.result), ("offset", Json.nullable Tie.toJson r.tie)]

def ofJson? (j : Json) : Option Composition := do
  match ← j.fields? fieldNames with
  | [child, parent, allowed, result, tie] =>
    return {
      child := ← Json.required Chart.ofJson? child
      parent := ← Json.required Chart.ofJson? parent
      allowed := ← Json.required Json.bool? allowed
      result := ← Json.optional Chart.ofJson? result
      tie := ← Json.optional Tie.ofJson? tie }
  | _ => none

end Composition

namespace Compositions

def toJson (t : Compositions) : Json := Json.array Composition.toJson t.toList

inductive TextError where
  | malformed
  | duplicate (pair : RepeatedPair)
deriving DecidableEq, Inhabited

def TextError.detail? : TextError → Option String
  | malformed => none
  | duplicate pair => some pair.message

/-- A pair that is spoken about twice is noticed as soon as the list has ended, before anything that
may stand after it. -/
def ofText (text : String) : Except TextError Compositions :=
  match Json.readFirst? text with
  | none => .error .malformed
  | some (j, rest) =>
    match j.list? Composition.ofJson? with
    | none => .error .malformed
    | some rules =>
      match ofList rules with
      | .error pair => .error (.duplicate pair)
      | .ok t => if rest.isEmpty then .ok t else .error .malformed

end Compositions

end ChartFold
