import ChartFold.Encoding.Spelling
import ChartFold.Json.Decode

/-!
Encodings and patches as JSON. Fields without a value are left out when they are written.
-/
namespace ChartFold

def Mark.named? : String → Option Mark
  | "point" => some point
  | "line" => some line
  | "area" => some area
  | "square" => some square
  | "bar" => some bar
  | "space-filling" => some spaceFilling
  | _ => none

def Channel.named? : String → Option Channel
  | "position" => some position
  | "scalar-location" => some scalarLocation
  | "length" => some length
  | "area" => some area
  | "color" => some color
  | _ => none

def Axis.named? : String → Option Axis
  | "x" => some x
  | "y" => some y
  | _ => none

@[simp] theorem Mark.named?_name (m : Mark) : Mark.named? m.name = some m := by cases m <;> rfl

@[simp] theorem Channel.named?_name (c : Channel) : Channel.named? c.name = some c := by
  cases c <;> rfl

@[simp] theorem Axis.named?_name (a : Axis) : Axis.named? a.name = some a := by cases a <;> rfl

def Mark.toJson (m : Mark) : Json := .ofString m.name

def Mark.ofJson? : Json → Option Mark := Json.choice? Mark.named?

def Channel.toJson (c : Channel) : Json := .ofString c.name

def Channel.ofJson? : Json → Option Channel := Json.choice? Channel.named?

def Axis.toJson (a : Axis) : Json := .ofString a.name

def Axis.ofJson? : Json → Option Axis := Json.choice? Axis.named?

def Patch.toJson (p : Patch) : Json :=
  .object (Json.whenSome "mark" Mark.toJson p.mark ++
    Json.whenSome "channel" Channel.toJson p.channel ++ Json.whenSome "axis" Axis.toJson p.axis ++
    Json.whenSome "skip" Json.bool p.skip ++ Json.whenSome "tied_offset_of" Json.ofString p.anchor)

namespace Encoding

def fieldNames : List String := ["mark", "channel", "axis", "skip", "tied_offset_of"]

def toJson (e : Encoding) : Json := e.toPatch.toJson

def ofJson? (j : Json) : Option Encoding := do
  match ← j.fields? fieldNames with
  | [mark, channel, axis, skip, anchor] =>
    return {
      mark := ← Json.required Mark.ofJson? mark
      channel := ← Json.required Channel.ofJson? channel
      axis := ← Json.optional Axis.ofJson? axis
      skip := ← Json.optional Json.bool? skip
      anchor := ← Json.optional Json.string? anchor }
  | _ => none

end Encoding

end ChartFold
