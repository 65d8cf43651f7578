import ChartFold.Flow

/-!
The look of one datum inside one chart, and partial changes to it. A patch overrides exactly the
fields it sets; a patch that sets both mark and channel can also stand on its own.
-/
namespace ChartFold

inductive Mark where
  | point | line | area | square | bar | spaceFilling
deriving DecidableEq, Inhabited

/-- What a mark says its value with: `position` places a point on an axis, `scalarLocation` places
one scalar along a shared axis. -/
inductive Channel where
  | position | scalarLocation | length | area | color
deriving DecidableEq, Inhabited

inductive Axis where
  | x | y
deriving DecidableEq, Inhabited

structure Encoding where
  mark : Mark
  channel : Channel
  axis : Option Axis := none
  skip : Option Bool := none
  /-- The datum whose mark this one is placed relative to. -/
  anchor : Option Datum := none
deriving DecidableEq, Inhabited

structure Patch where
  mark : Option Mark := none
  channel : Option Channel := none
  axis : Option Axis := none
  skip : Option Bool := none
  anchor : Option Datum := none
deriving DecidableEq, Inhabited

namespace Patch

def onAxis (a : Axis) : Patch := { axis := some a }

def anchoredTo (d : Datum) : Patch := { anchor := some d }

def toEncoding? (p : Patch) : Option Encoding :=
  match p.mark, p.channel with
  | some mark, some channel =>
    some { mark, channel, axis := p.axis, skip := p.skip, anchor := p.anchor }
  | _, _ => none

end Patch

namespace Encoding

def onAxis (e : Encoding) (a : Axis) : Encoding := { e with axis := some a }

def apply (e : Encoding) (p : Patch) : Encoding where
  mark := p.mark.getD e.mark
  channel := p.channel.getD e.channel
  axis := p.axis.or e.axis
  skip := p.skip.or e.skip
  anchor := p.anchor.or e.anchor

def toPatch (e : Encoding) : Patch :=
  { mark := some e.mark, channel := some e.channel, axis := e.axis, skip := e.skip
    anchor := e.anchor }

@[simp] theorem toEncoding?_toPatch (e : Encoding) : e.toPatch.toEncoding? = some e := rfl

@[simp] theorem apply_empty (e : Encoding) : e.apply {} = e := rfl

end Encoding

/-- A patch laid over what a datum has so far, if it has anything. -/
def Patch.onto (p : Patch) : Option Encoding → Option Encoding
  | some e => some (e.apply p)
  | none => p.toEncoding?

end ChartFold
