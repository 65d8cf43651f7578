import ChartFold.Chart.Basic
import ChartFold.Encodings

/-!
What a chart draws. Every template fixes the encodings of the inputs and outputs of the operation it
is bound for, whatever the operation is. A distribution moreover takes only inputs that are drawn
as lines or squares already, and keeps their marks.
-/
namespace ChartFold.Chart

/-- The marks that every input must carry one of before the chart can be bound, if it asks. -/
def requiredMarks : Chart → Option (List Mark)
  | distribution => some [.line, .square]
  | _ => none

/-- The inputs that keep the chart from being bound over `m`. -/
def ineligible (c : Chart) (flow : Flow) (m : Encodings) : List Datum :=
  match c.requiredMarks with
  | none => []
  | some marks => flow.inputs.filter fun d => !(m.get? d).any fun e => marks.contains e.mark

def drawEach (ds : List Datum) (e : Encoding) : List (Datum × Patch) :=
  ds.map fun d => (d, e.toPatch)

/-- The first datum on the horizontal axis, the second on the vertical one, the rest not at all. -/
def drawPoints (ds : List Datum) : List (Datum × Patch) :=
  (ds.zip [Axis.x, Axis.y]).map fun (d, a) =>
    (d, Encoding.toPatch { mark := .point, channel := .position, axis := some a })

def drawing : Chart → Flow → List (Datum × Patch)
  | scatterWithDiagonal, flow =>
    drawPoints flow.inputs ++ drawEach flow.outputs { mark := .line, channel := .length }
  | stackedBar, flow => drawEach flow.inputs { mark := .area, channel := .scalarLocation }
  | barComparison, flow => drawEach flow.inputs { mark := .bar, channel := .length }
  | barDifference, flow =>
    drawEach flow.inputs { mark := .bar, channel := .length } ++
      drawEach flow.outputs { mark := .line, channel := .length }
  | spacefilling, flow =>
    drawEach flow.inputs { mark := .square, channel := .area } ++
      drawEach flow.outputs { mark := .bar, channel := .length }
  | distribution, flow =>
    flow.inputs.map (fun d => (d, Patch.onAxis .x)) ++
      drawEach flow.outputs { mark := .line, channel := .scalarLocation, axis := some .x }
  | custom _, _ => []

end ChartFold.Chart
