import ChartFold.Event
import ChartFold.Rules.Json

/-!
Rules from two texts, or from the two files of a directory. Both files are read before either text
is looked at, and the grammar comes first each time.
-/
namespace ChartFold

inductive FileFault where
  | missing | notText
deriving DecidableEq, Inhabited

namespace Rules

inductive LoadError where
  | malformedGrammar
  | malformedCompositions (why : Compositions.TextError)
  | unreadable (file : String) (fault : FileFault)
deriving DecidableEq, Inhabited

def LoadError.message : LoadError → String
  | malformedGrammar => "Malformed grammar table"
  | malformedCompositions why =>
    match why.detail? with
    | none => "Malformed composition table"
    | some detail => s!"Malformed composition table: {detail}"
  | unreadable file _ => s!"Failed to read rule table {Text.quoted file}"

def grammarFile : String := "grammar.json"

def compositionsFile : String := "compositions.json"

def ofTexts (grammar compositions : String) : Except LoadError Rules :=
  match (Json.parse? grammar).bind Grammar.ofJson? with
  | none => .error .malformedGrammar
  | some grammar =>
    match Compositions.ofText compositions with
    | .error why => .error (.malformedCompositions why)
    | .ok compositions => .ok { grammar, compositions }

/-- The text of a file, given its bytes if there is such a file. -/
def textOf (file : String) (bytes : Option ByteArray) : Except LoadError String :=
  match bytes with
  | none => .error (.unreadable file .missing)
  | some bytes =>
    match String.fromUTF8? bytes with
    | none => .error (.unreadable file .notText)
    | some text => .ok text

def ofFiles (grammar compositions : Option ByteArray) : Traced Event LoadError Rules := do
  let grammar ← .ofExcept (textOf grammarFile grammar)
  let compositions ← .ofExcept (textOf compositionsFile compositions)
  let rules ← .ofExcept (ofTexts grammar compositions)
  .note (.rulesLoaded rules.grammar.size rules.compositions.size)
  return rules

end Rules

end ChartFold
