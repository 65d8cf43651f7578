import ChartFold.Json.Reader
import ChartFold.Json.Writer
import Mathlib.Data.List.TakeWhile

/-! What is written as a text is read back from it. The scanner finds the tokens of the document
there, whatever may follow them, and the reader builds the document from its tokens, whatever it is
part of. -/
namespace ChartFold.Json

inductive Writable : Json → Prop
  | null : Writable .null
  | bool (b : Bool) : Writable (.bool b)
  | num {lexeme : String} (h : isNumber lexeme.toList) : Writable (.num lexeme)
  | str (text : Text) : Writable (.str text)
  | arr {items : List Json} (h : ∀ item ∈ items, Writable item) : Writable (.arr items)
  | obj {fields : List (Text × Json)} (h : ∀ field ∈ fields, Writable field.2) :
    Writable (.obj fields)

mutual

def tokensOf : Json → List Token
  | .null => [.null]
  | .bool b => [.bool b]
  | .num lexeme => [.num lexeme]
  | .str text => [.str text]
  | .arr items => .leftBracket :: itemTokens items ++ [.rightBracket]
  | .obj fields => .leftBrace :: fieldTokens fields ++ [.rightBrace]

def itemTokens : List Json → List Token
  | [] => []
  | [item] => item.tokensOf
  | item :: rest => item.tokensOf ++ .comma :: itemTokens rest

def fieldTokens : List (Text × Json) → List Token
  | [] => []
  | [(key, value)] => .str key :: .colon :: value.tokensOf
  | (key, value) :: rest => .str key :: .colon :: value.tokensOf ++ .comma :: fieldTokens rest

end

/-! Scanning -/

def scan (before : List Token) (text : List Char) : List Token :=
  (text.foldl Scanner.step ⟨before, .between⟩).finish.tokens

section Numbers

theorem isNumeric_of_isDigit {c : Char} (h : c.isDigit) : isNumeric c := by
  simp [isNumeric, h]

theorem isNumeric_of_isDigits {cs : List Char} (h : isDigits cs) : ∀ c ∈ cs, isNumeric c := by
  cases cs with
  | nil => simp
  | cons c cs => exact fun c hc => isNumeric_of_isDigit (List.all_eq_true.mp h c hc)

theorem isNumeric_of_dropWhile {cs : List Char}
    (h : ∀ c ∈ cs.dropWhile Char.isDigit, isNumeric c) : ∀ c ∈ cs, isNumeric c := by
  intro c hc
  rw [← List.takeWhile_append_dropWhile (p := Char.isDigit) (l := cs)] at hc
  obtain hc | hc := List.mem_append.mp hc
  · exact isNumeric_of_isDigit (List.mem_takeWhile_imp hc)
  · exact h c hc

theorem isNumeric_of_isExponent {cs : List Char} (h : isExponent cs) : ∀ c ∈ cs, isNumeric c := by
  unfold isExponent at h
  split at h
  · simp
  all_goals
    rw [Bool.and_eq_true, Bool.or_eq_true, beq_iff_eq, beq_iff_eq] at h
    obtain ⟨he, hdigits⟩ := h
    have hcs := isNumeric_of_isDigits hdigits
    obtain rfl | rfl := he <;> simpa [isNumeric] using hcs

theorem isNumeric_of_isFraction {cs : List Char} (h : isFraction cs) : ∀ c ∈ cs, isNumeric c := by
  unfold isFraction at h
  split at h
  · rw [Bool.and_eq_true] at h
    have hcs := isNumeric_of_dropWhile (isNumeric_of_isExponent h.2)
    simpa [isNumeric, h.1] using hcs
  · exact isNumeric_of_isExponent h

theorem isNumeric_of_isUnsigned {cs : List Char} (h : isUnsigned cs) :
    ∀ c ∈ cs, isNumeric c := by
  unfold isUnsigned at h
  split at h
  · simpa [isNumeric] using isNumeric_of_isFraction h
  · rw [Bool.and_eq_true] at h
    have hcs := isNumeric_of_dropWhile (isNumeric_of_isFraction h.2)
    simpa [isNumeric, h.1] using hcs
  · simp at h

theorem isNumeric_of_isNumber {cs : List Char} (h : isNumber cs) : ∀ c ∈ cs, isNumeric c := by
  unfold isNumber at h
  split at h
  · simpa [isNumeric] using isNumeric_of_isUnsigned h
  · exact isNumeric_of_isUnsigned h

def Ends (rest : List Char) : Prop := ∀ c ∈ rest.head?, isNumeric c = false

theorem start_of_isNumeric {c : Char} (before : List Token) (h : isNumeric c) :
    Scanner.start ⟨before, .between⟩ c = ⟨before, .number [c]⟩ := by
  unfold Scanner.start
  split
  case h_15 => rw [if_pos h]
  all_goals exact absurd h (by decide)

theorem foldl_isNumeric {cs : List Char} (before : List Token) (seen : List Char)
    (h : ∀ c ∈ cs, isNumeric c) :
    cs.foldl Scanner.step ⟨before, .number seen⟩ = ⟨before, .number (cs.reverse ++ seen)⟩ := by
  induction cs generalizing seen with
  | nil => rfl
  | cons c cs ih =>
    obtain ⟨hc, h⟩ := List.forall_mem_cons.mp h
    have hstep : Scanner.step ⟨before, .number seen⟩ c = ⟨before, .number (c :: seen)⟩ := if_pos hc
    rw [List.foldl_cons, hstep, ih _ h, List.reverse_cons, List.append_assoc]
    rfl

theorem endNumber_of_isNumber {seen : List Char} (before : List Token)
    (h : isNumber seen.reverse) : Scanner.endNumber ⟨before, .number seen⟩ seen =
      ⟨.num (String.ofList seen.reverse) :: before, .between⟩ := if_pos h

theorem scan_number {lexeme : String} {rest : List Char} (before : List Token)
    (h : isNumber lexeme.toList) (hrest : Ends rest) :
    scan before (lexeme.toList ++ rest) = scan (.num lexeme :: before) rest := by
  have hnumeric := isNumeric_of_isNumber h
  have hseen : lexeme.toList.foldl Scanner.step ⟨before, .between⟩ =
      ⟨before, .number lexeme.toList.reverse⟩ := by
    cases hchars : lexeme.toList with
    | nil => rw [hchars] at h; cases h
    | cons c cs =>
      rw [hchars] at hnumeric
      obtain ⟨hc, hcs⟩ := List.forall_mem_cons.mp hnumeric
      have hstart : Scanner.step ⟨before, .between⟩ c = ⟨before, .number [c]⟩ :=
        start_of_isNumeric before hc
      rw [List.foldl_cons, hstart, foldl_isNumeric before [c] hcs, List.reverse_cons]
  have hend : Scanner.endNumber ⟨before, .number lexeme.toList.reverse⟩ lexeme.toList.reverse =
      ⟨.num lexeme :: before, .between⟩ := by
    rw [endNumber_of_isNumber before (by rwa [List.reverse_reverse]), List.reverse_reverse,
      String.ofList_toList]
  rw [scan, scan, List.foldl_append, hseen]
  -- the scanner only notices that the number is over where something else comes
  cases rest with
  | nil => exact congrArg Scanner.tokens hend
  | cons c rest =>
    have hc : isNumeric c = false := hrest c rfl
    have hstep : Scanner.step ⟨before, .number lexeme.toList.reverse⟩ c =
        Scanner.step ⟨.num lexeme :: before, .between⟩ c := by
      simp [Scanner.step, hc, hend]
    rw [List.foldl_cons, hstep, List.foldl_cons]

end Numbers

section Strings
variable {before : List Token} {rest : List Char}

theorem hexDigit?_digitChar : ∀ n < 16, hexDigit? (Nat.digitChar n) = some n := by decide

theorem push_char (chars : List Char) (c : Char) :
    Draft.push { chars } c = { chars := c :: chars } := rfl

theorem pushUnit_of_lt {unit : Nat} (h : unit < 0xd800) (chars : List Char) :
    Draft.pushUnit { chars } unit = { chars := Char.ofNat unit :: chars } := by
  have hhigh : Draft.isHigh unit = false := by simp [Draft.isHigh, Nat.not_le.mpr h]
  have hlow : Draft.isLow unit = false := by
    simp [Draft.isLow, Nat.not_le.mpr (Nat.lt_trans h (by decide : 0xd800 < 0xdc00))]
  simp [Draft.pushUnit, hhigh, hlow, push_char]

theorem foldl_escapeControl {c : Char} (h : c < ' ') (chars : List Char) :
    (escapeControl c).foldl Scanner.step ⟨before, .string { chars }⟩ =
      ⟨before, .string { chars := c :: chars }⟩ := by
  have hlt : c.toNat < 32 := h
  have hhigh := hexDigit?_digitChar (c.toNat / 16) (by omega)
  have hlow := hexDigit?_digitChar (c.toNat % 16) (by omega)
  have hzero : hexDigit? '0' = some 0 := by decide
  have hvalue : 16 * (c.toNat / 16) + c.toNat % 16 = c.toNat := by omega
  have hunit : Draft.pushUnit { chars } c.toNat = { chars := c :: chars } := by
    rw [pushUnit_of_lt (by omega), Char.ofNat_toNat]
  simp [escapeControl, Scanner.step, hhigh, hlow, hzero, hvalue, hunit]

theorem escaped?_of_shorthand? {c letter : Char} (h : shorthand? c = some letter) :
    letter ≠ 'u' ∧ escaped? letter = some c := by
  unfold shorthand? at h
  split at h
  all_goals cases h
  all_goals decide

theorem foldl_writeChar (c : Char) (chars : List Char) :
    (writeChar c).foldl Scanner.step ⟨before, .string { chars }⟩ =
      ⟨before, .string { chars := c :: chars }⟩ := by
  unfold writeChar
  split
  · obtain ⟨hu, hletter⟩ := escaped?_of_shorthand? ‹_›
    simp [Scanner.step, push_char, hu, hletter]
  · next hnone =>
    have hquote : c ≠ '"' := by rintro rfl; cases hnone
    have hbackslash : c ≠ '\\' := by rintro rfl; cases hnone
    split
    · exact foldl_escapeControl ‹_› chars
    · simp [Scanner.step, push_char, *]

theorem foldl_writeChars (cs chars : List Char) :
    (cs.flatMap writeChar).foldl Scanner.step ⟨before, .string { chars }⟩ =
      ⟨before, .string { chars := cs.reverse ++ chars }⟩ := by
  induction cs generalizing chars with
  | nil => rfl
  | cons c cs ih =>
    rw [List.flatMap_cons, List.foldl_append, foldl_writeChar, ih, List.reverse_cons,
      List.append_assoc]
    rfl

theorem scan_writeText (text : Text) :
    scan before ((writeText text).toList ++ rest) = scan (.str text :: before) rest := by
  cases text with
  | none => rw [scan, List.foldl_append]; rfl
  | some s =>
    have htext : Draft.text { chars := s.toList.reverse } = some s := by
      simp [Draft.text, Draft.settle]
    have hchars : (writeText (some s)).toList = '"' :: s.toList.flatMap writeChar ++ ['"'] := by
      simp [writeText]
    have hopen : Scanner.step ⟨before, .between⟩ '"' = ⟨before, .string {}⟩ := rfl
    have hclose : Scanner.step ⟨before, .string { chars := s.toList.reverse }⟩ '"' =
        ⟨.str (some s) :: before, .between⟩ := by
      rw [← htext]; rfl
    have hfold : (writeText (some s)).toList.foldl Scanner.step ⟨before, .between⟩ =
        ⟨.str (some s) :: before, .between⟩ := by
      rw [hchars, List.cons_append, List.foldl_cons, hopen, List.foldl_append, foldl_writeChars,
        List.append_nil, List.foldl_cons, hclose, List.foldl_nil]
    rw [scan, List.foldl_append, hfold, scan]

end Strings

section Documents

/-- What stands alone in a text, or before a character that goes on no number, is found as the given
tokens. -/
def Scans (text : String) (found : List Token) : Prop :=
  ∀ before rest, Ends rest →
    scan before (text.toList ++ rest) = scan (found.reverse ++ before) rest

structure Marks (text : String) (c : Char) (token : Token) : Prop where
  toList : text.toList = [c]
  apart : isNumeric c = false
  start : ∀ before, Scanner.start ⟨before, .between⟩ c = ⟨token :: before, .between⟩

theorem marks_comma : Marks "," ',' .comma := ⟨rfl, rfl, fun _ => rfl⟩

theorem marks_colon : Marks ":" ':' .colon := ⟨rfl, rfl, fun _ => rfl⟩

theorem marks_leftBracket : Marks "[" '[' .leftBracket := ⟨rfl, rfl, fun _ => rfl⟩

theorem marks_rightBracket : Marks "]" ']' .rightBracket := ⟨rfl, rfl, fun _ => rfl⟩

theorem marks_leftBrace : Marks "\x7b" '\x7b' .leftBrace := ⟨rfl, rfl, fun _ => rfl⟩

theorem marks_rightBrace : Marks "\x7d" '\x7d' .rightBrace := ⟨rfl, rfl, fun _ => rfl⟩

theorem scans_empty : Scans "" [] := fun _ _ _ => rfl

theorem scans_writeText (text : Text) : Scans (writeText text) [.str text] :=
  fun _ _ _ => scan_writeText text

variable {text more mark : String} {found others : List Token} {c : Char} {token : Token}

theorem Scans.join (h : Scans text found) (hmark : Marks mark c token) (hmore : Scans more others) :
    Scans (text ++ mark ++ more) (found ++ token :: others) := by
  intro before rest hrest
  have hends : Ends (c :: (more.toList ++ rest)) := by
    rintro _ ⟨⟩
    exact hmark.apart
  have hstep : scan (found.reverse ++ before) (c :: (more.toList ++ rest)) =
      scan (token :: (found.reverse ++ before)) (more.toList ++ rest) := by
    have hstart := hmark.start (found.reverse ++ before)
    rw [scan, List.foldl_cons, show Scanner.step ⟨_, .between⟩ c = _ from hstart, scan]
  calc scan before ((text ++ mark ++ more).toList ++ rest)
      = scan before (text.toList ++ c :: (more.toList ++ rest)) := by simp [hmark.toList]
    _ = scan (token :: (found.reverse ++ before)) (more.toList ++ rest) := by
      rw [h before _ hends, hstep]
    _ = scan ((found ++ token :: others).reverse ++ before) rest := by
      rw [hmore _ rest hrest]
      simp

theorem scans_items {items : List Json} (h : ∀ item ∈ items, Scans item.render item.tokensOf) :
    Scans (renderItems items) (itemTokens items) := by
  induction items with
  | nil => exact scans_empty
  | cons item items ih =>
    obtain ⟨hitem, hitems⟩ := List.forall_mem_cons.mp h
    cases items with
    | nil => exact hitem
    | cons next items => exact hitem.join marks_comma (ih hitems)

theorem scans_fields {fields : List (Text × Json)}
    (h : ∀ field ∈ fields, Scans field.2.render field.2.tokensOf) :
    Scans (renderFields fields) (fieldTokens fields) := by
  induction fields with
  | nil => exact scans_empty
  | cons field fields ih =>
    obtain ⟨key, value⟩ := field
    obtain ⟨hvalue, hfields⟩ := List.forall_mem_cons.mp h
    have hfield := (scans_writeText key).join marks_colon hvalue
    cases fields with
    | nil => exact hfield
    | cons next fields => exact hfield.join marks_comma (ih hfields)

theorem Writable.scans {j : Json} (h : j.Writable) : Scans j.render j.tokensOf := by
  induction h with
  | null => exact fun _ _ _ => rfl
  | bool b => cases b <;> exact fun _ _ _ => rfl
  | num h => exact fun before _ hrest => scan_number before h hrest
  | str text => exact scans_writeText text
  -- a bracket is joined like a comma that has nothing on its other side
  | arr _ ih =>
    have hitems := scans_empty.join marks_leftBracket (scans_items ih)
    simpa [render, tokensOf] using hitems.join marks_rightBracket scans_empty
  | obj _ ih =>
    have hfields := scans_empty.join marks_leftBrace (scans_fields ih)
    simpa [render, tokensOf] using hfields.join marks_rightBrace scans_empty

theorem Writable.tokens_render {j : Json} (h : j.Writable) :
    tokens j.render.toList = j.tokensOf := by
  have hscan := h.scans [] [] fun _ hc => nomatch hc
  rw [List.append_nil, List.append_nil] at hscan
  rw [show tokens j.render.toList = (scan [] j.render.toList).reverse from rfl, hscan]
  exact List.reverse_reverse _

end Documents

/-! Reading -/

section Reading
variable {frames : List Frame} {rest : List Token}

def resume (rest : List Token) : Progress → Option (Json × List Token)
  | .more frames expect => read frames expect rest
  | .done value => some (value, rest)
  | .failed => none

theorem read_cons (frames : List Frame) (expect : Expect) (token : Token) (rest : List Token) :
    read frames expect (token :: rest) = resume rest (advance frames expect token) := by
  rw [read]
  cases advance frames expect token <;> rfl

/-- The tokens of the document are read as a value, whatever it is part of. -/
def Reads (j : Json) : Prop :=
  ∀ frames rest, read frames .value (j.tokensOf ++ rest) = resume rest (deliver j frames)

theorem reads_items {item : Json} {items : List Json} (before : List Json)
    (h : ∀ j ∈ item :: items, Reads j) :
    read (.items before :: frames) .value (itemTokens (item :: items) ++ .rightBracket :: rest) =
      resume rest (deliver (.arr (before.reverse ++ item :: items)) frames) := by
  induction items generalizing item before with
  | nil =>
    rw [itemTokens, h item List.mem_cons_self, deliver, resume, read_cons, advance, endArray,
      List.reverse_cons]
  | cons next items ih =>
    obtain ⟨hitem, hitems⟩ := List.forall_mem_cons.mp h
    rw [itemTokens, List.append_assoc, hitem, deliver, resume, List.cons_append, read_cons, advance,
      afterComma, resume, ih _ hitems, List.reverse_cons, List.append_assoc, List.singleton_append]
    exact List.cons_ne_nil _ _

theorem read_itemOrEnd (item : Json) (items : List Json) :
    read frames .itemOrEnd (itemTokens (item :: items) ++ rest) =
      read frames .value (itemTokens (item :: items) ++ rest) := by
  cases items <;> cases item <;> simp [itemTokens, tokensOf, read_cons, advance]

theorem read_field {value : Json} (before : List (Text × Json)) (key : Text) (h : Reads value) :
    read (.fields before :: frames) .key (.str key :: .colon :: value.tokensOf ++ rest) =
      read (.fields ((key, value) :: before) :: frames) .separator rest := by
  rw [List.cons_append, List.cons_append, read_cons, advance, beginField, resume, read_cons,
    advance, resume, h, deliver, resume]

theorem reads_fields {field : Text × Json} {fields : List (Text × Json)}
    (before : List (Text × Json)) (h : ∀ other ∈ field :: fields, Reads other.2) :
    read (.fields before :: frames) .key (fieldTokens (field :: fields) ++ .rightBrace :: rest) =
      resume rest (deliver (.obj (before.reverse ++ field :: fields)) frames) := by
  induction fields generalizing field before with
  | nil =>
    obtain ⟨key, value⟩ := field
    rw [fieldTokens, read_field before key (h _ List.mem_cons_self), read_cons, advance, endObject,
      List.reverse_cons]
  | cons next fields ih =>
    obtain ⟨key, value⟩ := field
    obtain ⟨hvalue, hfields⟩ := List.forall_mem_cons.mp h
    rw [fieldTokens, List.append_assoc, read_field before key hvalue, List.cons_append, read_cons,
      advance, afterComma, resume, ih _ hfields, List.reverse_cons, List.append_assoc,
      List.singleton_append]
    exact List.cons_ne_nil _ _

theorem read_keyOrEnd (field : Text × Json) (fields : List (Text × Json)) :
    read frames .keyOrEnd (fieldTokens (field :: fields) ++ rest) =
      read frames .key (fieldTokens (field :: fields) ++ rest) := by
  obtain ⟨key, value⟩ := field
  cases fields <;> simp [fieldTokens, read_cons, advance]

theorem Writable.reads {j : Json} (h : j.Writable) : Reads j := by
  induction h with
  | null => exact fun frames rest => read_cons frames .value .null rest
  | bool b => exact fun frames rest => read_cons frames .value (.bool b) rest
  | num _ => exact fun frames rest => read_cons frames .value (.num _) rest
  | str text => exact fun frames rest => read_cons frames .value (.str text) rest
  | @arr items _ ih =>
    intro frames rest
    cases items with
    | nil => rfl
    | cons item items =>
      rw [tokensOf, List.append_assoc, List.cons_append, read_cons, advance, beginValue, resume,
        List.singleton_append, read_itemOrEnd, reads_items [] ih]
      rfl
  | @obj fields _ ih =>
    intro frames rest
    cases fields with
    | nil => rfl
    | cons field fields =>
      rw [tokensOf, List.append_assoc, List.cons_append, read_cons, advance, beginValue, resume,
        List.singleton_append, read_keyOrEnd, reads_fields [] ih]
      rfl

theorem readFirst?_render {j : Json} (h : j.Writable) : readFirst? j.render = some (j, []) := by
  have hread := h.reads [] []
  rw [List.append_nil] at hread
  rw [readFirst?, h.tokens_render, hread]
  rfl

theorem parse?_render {j : Json} (h : j.Writable) : parse? j.render = some j := by
  rw [parse?, readFirst?_render h]

end Reading

end ChartFold.Json
