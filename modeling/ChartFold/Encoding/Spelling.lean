import ChartFold.Encoding.Basic
import ChartFold.Text.Quoted

/-!
The names of marks, channels and axes, and patches spelled out in full for the log.
-/
namespace ChartFold

def Mark.name : Mark → String
  | point => "point"
  | line => "line"
  | area => "area"
  | square => "square"
  | bar => "bar"
  | spaceFilling => "space-filling"

def Mark.spelled : Mark → String
  | point => "Point"
  | line => "Line"
  | area => "Area"
  | square => "Square"
  | bar => "Bar"
  | spaceFilling => "SpaceFilling"

def Channel.name : Channel → String
  | position => "position"
  | scalarLocation => "scalar-location"
  | length => "length"
  | area => "area"
  | color => "color"

def Channel.spelled : Channel → String
  | position => "Position"
  | scalarLocation => "ScalarLocation"
  | length => "Length"
  | area => "Area"
  | color => "Color"

def Axis.name : Axis → String
  | x => "x"
  | y => "y"

def Axis.spelled : Axis → String
  | x => "X"
  | y => "Y"

def spellBool (b : Bool) : String := if b then "true" else "false"

def Datum.spelled (d : Datum) : String := s!"DataId({Text.quoted d})"

def Patch.spelled (p : Patch) : String :=
  "EncodingPatch \x7b mark: " ++ Text.optional Mark.spelled p.mark ++
    ", channel: " ++ Text.optional Channel.spelled p.channel ++
    ", axis: " ++ Text.optional Axis.spelled p.axis ++
    ", skip: " ++ Text.optional spellBool p.skip ++
    ", tied_offset_of: " ++ Text.optional Datum.spelled p.anchor ++ " \x7d"

end ChartFold
