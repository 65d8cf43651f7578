import ChartFold.Explain

/-!
A plain outline of the panels of a forest, one block for each panel: its chart and depth, the names
of its members in the order of their ids, and what it encodes.
-/
namespace ChartFold

namespace Outline

def rule : String := "--------------------------------------------------"

/-- The name of an operation; ids of another forest may have none here. -/
def nameOf (forest : Forest) (id : OpId) : String :=
  match forest.get? id with
  | some op => op.name
  | none => s!"<invalid {id.text}>"

def encodingText (e : Encoding) : String :=
  let axis := match e.axis with
    | some a => s!" axis={a.spelled}"
    | none => ""
  let skip := if e.skip == some true then " [skip]" else ""
  let anchor := match e.anchor with
    | some d => s!" (offset from {d})"
    | none => ""
  s!"{e.mark.name}/{e.channel.name}" ++ axis ++ skip ++ anchor

def entryLines : List (Datum × Encoding) → List String
  | [] => []
  | [(d, e)] => [s!"    `-- {d}: {encodingText e}"]
  | (d, e) :: rest => s!"    |-- {d}: {encodingText e}" :: entryLines rest

def encodingLines (m : Encodings) : List String :=
  if m.isEmpty then ["`-- encodings: (none)"] else "`-- encodings:" :: entryLines m.toList

def panelLines (forest : Forest) (position : Nat) (p : Panel) : List String :=
  let chart := match p.chart with
    | some c => c.name
    | none => "unbound"
  let ids := p.members.toList.mergeSort (fun a b => a ≤ b)
  let names := ", ".intercalate (ids.map (nameOf forest))
  s!"[{position}] {chart} (depth {p.depth})" :: s!"|-- nodes: {names}" :: encodingLines p.encodings

def lines (forest : Forest) (panels : List Panel) : List String :=
  s!"RESOLUTION ({panels.length} containers):" :: rule ::
    (panels.zipIdx.flatMap fun (p, i) => panelLines forest i p)

end Outline

def outline (forest : Forest) (panels : List Panel) : String :=
  String.join ((Outline.lines forest panels).map (· ++ "\n"))

end ChartFold
