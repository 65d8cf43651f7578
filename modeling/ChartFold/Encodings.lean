import ChartFold.Encoding.Basic
import Std.Data.ExtTreeMap

/-!
The encodings of one chart, one for each datum it shows, in the order of the data's names. Every
write is field by field and the later write wins. A patch that is too partial to stand on its own
is dropped where its datum is not encoded yet.
-/
namespace ChartFold

structure Encodings where
  entries : Std.ExtTreeMap Datum Encoding := ∅
deriving DecidableEq

namespace Encodings

def empty : Encodings := {}

instance : Inhabited Encodings := ⟨empty⟩

def get? (m : Encodings) (d : Datum) : Option Encoding := m.entries[d]?

def contains (m : Encodings) (d : Datum) : Bool := m.entries.contains d

def size (m : Encodings) : Nat := m.entries.size

def isEmpty (m : Encodings) : Bool := m.entries.isEmpty

def keys (m : Encodings) : List Datum := m.entries.keys

def toList (m : Encodings) : List (Datum × Encoding) := m.entries.toList

def write (m : Encodings) (d : Datum) (p : Patch) : Encodings := ⟨m.entries.alter d p.onto⟩

/-- Whether a write leaves a trace: the datum is encoded, or the patch encodes it. -/
def accepts (m : Encodings) (d : Datum) (p : Patch) : Bool := m.contains d || p.toEncoding?.isSome

def merge (m : Encodings) (d : Datum) (e : Encoding) : Encodings := m.write d e.toPatch

def mergeAll (m : Encodings) (entries : List (Datum × Encoding)) : Encodings :=
  entries.foldl (fun acc entry => acc.merge entry.1 entry.2) m

def union (m n : Encodings) : Encodings := m.mergeAll n.toList

def ofList (entries : List (Datum × Encoding)) : Encodings := empty.mergeAll entries

def mergeAt (m : Encodings) (ds : List Datum) (e : Encoding) : Encodings :=
  ds.foldl (fun acc d => acc.merge d e) m

def writeAll (m : Encodings) (patches : List (Datum × Patch)) : Encodings :=
  patches.foldl (fun acc patch => acc.write patch.1 patch.2) m

def dropped (m : Encodings) : List (Datum × Patch) → List (Datum × Patch)
  | [] => []
  | (d, p) :: rest =>
    if m.accepts d p then (m.write d p).dropped rest else (d, p) :: m.dropped rest

@[ext] theorem ext_get? {m n : Encodings} (h : ∀ d, m.get? d = n.get? d) : m = n := by
  cases m; cases n
  congr 1
  exact Std.ExtTreeMap.ext_getElem? h

@[simp] theorem get?_empty (d : Datum) : empty.get? d = none := by
  simp [empty, get?]

theorem get?_write (m : Encodings) (d k : Datum) (p : Patch) :
    (m.write d p).get? k = if d = k then p.onto (m.get? k) else m.get? k := by
  by_cases h : d = k
  · subst h; simp [get?, write]
  · simp [get?, write, Std.ExtTreeMap.getElem?_alter, h]

theorem contains_eq_isSome (m : Encodings) (d : Datum) : m.contains d = (m.get? d).isSome := by
  simp [contains, get?]

theorem accepts_eq_isSome (m : Encodings) (d : Datum) (p : Patch) :
    m.accepts d p = ((m.write d p).get? d).isSome := by
  rw [get?_write, if_pos rfl, accepts, contains_eq_isSome]
  cases m.get? d <;> simp [Patch.onto]

theorem write_of_not_accepts {m : Encodings} {d : Datum} {p : Patch} (h : m.accepts d p = false) :
    m.write d p = m := by
  ext k : 1
  rw [accepts_eq_isSome, get?_write, if_pos rfl] at h
  rw [get?_write]
  split
  · subst_vars
    cases hm : m.get? k <;> simp_all [Patch.onto]
  · rfl

end Encodings

end ChartFold
