import ChartFold.Chart.Basic
import ChartFold.Encodings

/-!
The visual habits of operations. A profile says which chart an operation likes to be drawn in, how
its outputs look by default and, for an operation with neither, which looks to try in turn.
-/
namespace ChartFold

inductive Shape where
  | scalar | vector | any
deriving DecidableEq, Inhabited

def Shape.takes (operand produced : Shape) : Bool :=
  operand == .any || produced == .any || operand == produced

/-- A look for the outputs, for inputs that are drawn with `inputMark`; without one, for any. -/
structure Fallback where
  inputMark : Option Mark := none
  mark : Mark
  channel : Channel
deriving DecidableEq, Inhabited

namespace Fallback

/-- Inputs that are not encoded yet never stand in the way. -/
def suits (f : Fallback) (inputs : List Datum) (m : Encodings) : Bool :=
  f.inputMark.all fun mark => inputs.all fun d => (m.get? d).all (·.mark == mark)

def encoding (f : Fallback) : Encoding := { mark := f.mark, channel := f.channel }

end Fallback

structure Profile where
  operand : Shape
  product : Shape
  chart : Option Chart := none
  defaultLook : Option Encoding := none
  fallbacks : List Fallback := []
deriving DecidableEq, Inhabited

namespace Profile

/-- Neither a chart nor a default output decides how the outputs look. -/
def ungoverned (p : Profile) : Bool := p.chart.isNone && p.defaultLook.isNone

def fallbackEncoding (p : Profile) (inputs : List Datum) (m : Encodings) : Option Encoding :=
  if p.ungoverned then (p.fallbacks.find? (·.suits inputs m)).map Fallback.encoding else none

/-- The encoding that each output of an operation gets on top of `m`, before any chart is drawn. -/
def outputEncoding (p : Profile) (inputs : List Datum) (m : Encodings) : Option Encoding :=
  p.defaultLook.or (p.fallbackEncoding inputs m)

end Profile

structure Grammar where
  entries : Std.ExtTreeMap OpKind Profile := ∅
deriving DecidableEq

namespace Grammar

instance : Inhabited Grammar := ⟨{}⟩

def get? (g : Grammar) (kind : OpKind) : Option Profile := g.entries[kind]?

def size (g : Grammar) : Nat := g.entries.size

def isEmpty (g : Grammar) : Bool := g.entries.isEmpty

def insert (g : Grammar) (kind : OpKind) (p : Profile) : Grammar := ⟨g.entries.insert kind p⟩

def toList (g : Grammar) : List (OpKind × Profile) := g.entries.toList

/-- Of two profiles for one operation the later stands. -/
def ofList (entries : List (OpKind × Profile)) : Grammar :=
  entries.foldl (fun g entry => g.insert entry.1 entry.2) {}

@[ext] theorem ext_get? {g h : Grammar} (eq : ∀ kind, g.get? kind = h.get? kind) : g = h := by
  cases g; cases h
  congr 1
  exact Std.ExtTreeMap.ext_getElem? eq

theorem get?_insert (g : Grammar) (kind k : OpKind) (p : Profile) :
    (g.insert kind p).get? k = if kind = k then some p else g.get? k := by
  simp [get?, insert, Std.ExtTreeMap.getElem?_insert]

end Grammar

end ChartFold
