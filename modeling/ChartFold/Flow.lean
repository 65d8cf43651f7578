/-!
The data an operation consumes and produces, by name. The order of the inputs is the order of the
operands, so it matters to a difference or a ratio.
-/
namespace ChartFold

/-- The name of a value that flows between operations. -/
abbrev Datum := String

/-- What an operation does, such as `vector_sum`. -/
abbrev OpKind := String

structure Flow where
  inputs : List Datum := []
  outputs : List Datum := []
deriving DecidableEq, Inhabited

/-- The output that charts mean when they speak of the result of an operation. -/
def Flow.primary? (f : Flow) : Option Datum := f.outputs.head?

end ChartFold
