import ChartFold.Rules.Basic

/-!
The standard rules. Sums, differences, ratios and averages have charts of their own; squares, roots
and absolute values only a look; literals and broadcasts nothing at all.
-/
namespace ChartFold.Rules

def standardProfiles : List (OpKind × Profile) := [
  ("scalar", { operand := .any, product := .scalar }),
  ("vector", { operand := .any, product := .vector }),
  ("scalar_sum",
    { operand := .scalar, product := .scalar, chart := some .stackedBar,
      fallbacks := [{ inputMark := some .area, mark := .spaceFilling, channel := .area },
        { inputMark := some .line, mark := .line, channel := .length }] }),
  ("vector_sum",
    { operand := .vector, product := .scalar, chart := some .spacefilling,
      fallbacks := [{ inputMark := some .area, mark := .spaceFilling, channel := .area },
        { inputMark := some .line, mark := .line, channel := .length }] }),
  ("vector_square",
    { operand := .vector, product := .vector,
      defaultLook := some { mark := .square, channel := .area },
      fallbacks := [{ inputMark := some .point, mark := .square, channel := .area }] }),
  ("scalar_square",
    { operand := .scalar, product := .scalar,
      defaultLook := some { mark := .square, channel := .area },
      fallbacks := [{ inputMark := some .line, mark := .square, channel := .area }] }),
  ("vector_square_root",
    { operand := .vector, product := .vector,
      defaultLook := some { mark := .square, channel := .area, skip := some true } }),
  ("scalar_square_root",
    { operand := .scalar, product := .scalar,
      fallbacks := [{ mark := .square, channel := .area }] }),
  ("vector_absolute",
    { operand := .vector, product := .vector,
      defaultLook := some { mark := .line, channel := .length },
      fallbacks := [{ inputMark := some .point, mark := .line, channel := .length }] }),
  ("scalar_absolute",
    { operand := .scalar, product := .scalar,
      fallbacks := [{ inputMark := some .line, mark := .line, channel := .length }] }),
  ("vector_difference",
    { operand := .vector, product := .vector, chart := some .scatterWithDiagonal }),
  ("scalar_difference",
    { operand := .scalar, product := .scalar, chart := some .barDifference,
      fallbacks := [{ inputMark := some .spaceFilling, mark := .spaceFilling, channel := .area },
        { mark := .line, channel := .length }] }),
  ("ratio", { operand := .scalar, product := .scalar, chart := some .barComparison }),
  ("mean",
    { operand := .vector, product := .scalar, chart := some .distribution,
      defaultLook := some { mark := .line, channel := .scalarLocation } }),
  ("median",
    { operand := .vector, product := .scalar, chart := some .distribution,
      defaultLook := some { mark := .line, channel := .scalarLocation } }),
  ("broadcast", { operand := .scalar, product := .vector })]

def standardCompositions : List Composition := [
  { child := .stackedBar, parent := .stackedBar, allowed := true },
  { child := .stackedBar, parent := .barComparison, allowed := true,
    tie := some .inputsToChildOutput },
  { child := .spacefilling, parent := .barComparison, allowed := true,
    tie := some .inputsToChildOutput },
  { child := .spacefilling, parent := .barDifference, allowed := true,
    tie := some .inputsToChildOutput },
  { child := .scatterWithDiagonal, parent := .spacefilling, allowed := false }]

def standard : Rules where
  grammar := Grammar.ofList standardProfiles
  compositions := (Compositions.ofList standardCompositions).toOption.getD {}

theorem standardCompositions_distinct :
    Compositions.ofList standardCompositions = .ok standard.compositions := by
  rfl

end ChartFold.Rules
