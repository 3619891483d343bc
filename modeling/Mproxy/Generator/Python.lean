import Mathlib.Algebra.Order.Floor.Ring
import Mathlib.Data.List.DropRight
import Mathlib.Data.Rat.Floor
import Mathlib.Tactic.Common
import Mproxy.Rules.Libc

set_option relaxedAutoImplicit false
set_option autoImplicit false

/-!
# The Python under the generator

What the generator uses of Python and its library, as CPython 3.12 computes it: `int` and `float` of
a string, `str.isdigit`, `str.upper`, dictionaries and `urllib.parse.parse_qs`. What depends on the
version of Unicode and on the settings of the interpreter is a parameter.

A `float` is kept as the number it stands for. The sign of a zero is left out: no comparison sees
it.

## Main definitions

* `Mproxy.Python.Runtime` — what is known of the characters, and a setting.
* `Mproxy.Python.Runtime.pyInt`, `Mproxy.Python.Runtime.pyFloat` — numbers from strings.
* `Mproxy.Python.dictGet`, `Mproxy.Python.dictSet` — dictionaries, in the order of their keys.
* `Mproxy.Python.parseQs` — `parse_qs`.

## Main results

* `Mproxy.Python.Runtime.pyInt_digits` — `int` of a string of ASCII digits.
* `Mproxy.Python.dictGet_dictSet` — what is found in a dictionary.
-/

namespace Mproxy.Python

/-! ## Strings -/

/-- A `str`. -/
abbrev Text := List Char

/-- The string of a literal. -/
def text (s : String) : Text := s.toList

/-- What is known of the characters: for one character `str.isdigit`, the value of a decimal digit,
`str.isspace` and `str.upper`. And the setting `int_max_str_digits`, which is absent if there is no
limit. Of the ASCII characters only the digits are digits. -/
structure Runtime where
  isDigit : Char → Bool
  decimal : Char → Option (Fin 10)
  isSpace : Char → Bool
  upper : Char → Text
  maxStrDigits : Option ℕ
  isDigit_ascii : ∀ c : Char, c.toNat < 128 → isDigit c = c.isDigit
  upper_ascii : ∀ c : Char, c.toNat < 128 → upper c = [c.toUpper]

/-- The character is one that `Py_ISSPACE` names. -/
def isAsciiSpace (c : Char) : Bool := c.toNat == 32 || decide (9 ≤ c.toNat) && decide (c.toNat ≤ 13)

/-- The string without the characters at both ends that `Py_ISSPACE` names. -/
def strip (s : Text) : Text := (s.dropWhile isAsciiSpace).rdropWhile isAsciiSpace

/-- The digits behind `'_'`, which has to stand between digits. The first argument says whether the
character before is a digit. -/
def withoutUnderscores : Bool → Text → Option Text
  | _, [] => some []
  | before, c :: s =>
    if c = '_' then
      if before && (s.head?.any Char.isDigit) then withoutUnderscores false s else none
    else (withoutUnderscores c.isDigit s).map (c :: ·)

/-- The value of a string of digits. -/
def digitsVal (s : Text) : ℕ := s.foldl (fun n c => 10 * n + (c.toNat - 48)) 0

/-- A sign, and what stands behind it. -/
def splitSign : Text → Bool × Text
  | '-' :: s => (true, s)
  | '+' :: s => (false, s)
  | s => (false, s)

namespace Runtime

variable (py : Runtime)

/-- `s.isdigit()` -/
def strIsDigit (s : Text) : Bool := !s.isEmpty && s.all py.isDigit

/-- `s.upper()` -/
def strUpper (s : Text) : Text := s.flatMap py.upper

/-- `_PyUnicode_TransformDecimalAndSpaceToASCII`, for one character. -/
def toAscii (c : Char) : Char :=
  if c.toNat < 127 then c
  else if py.isSpace c then ' '
  else
    match py.decimal c with
    | some d => Char.ofNat (48 + d)
    | none => '?'

/-- `int(s)`, with `none` for a `ValueError`. -/
def pyInt (s : Text) : Option ℤ :=
  let (negative, s) := splitSign (strip (s.map py.toAscii))
  match withoutUnderscores false s with
  | none => none
  | some digits =>
    if digits ≠ [] ∧ digits.all Char.isDigit ∧ ∀ m ∈ py.maxStrDigits, digits.length ≤ m then
      some (if negative then -(digitsVal digits : ℤ) else digitsVal digits)
    else none

end Runtime

/-! ## Floating point -/

/-- A `float`. -/
inductive PyFloat
  | nan
  | infinity (negative : Bool)
  | finite (q : ℚ)
  deriving DecidableEq, Repr

namespace PyFloat

/-- `x < y` -/
def lt : PyFloat → PyFloat → Bool
  | .nan, _ => false
  | _, .nan => false
  | .infinity negative, .infinity negative' => negative && !negative'
  | .infinity negative, .finite _ => negative
  | .finite _, .infinity negative => !negative
  | .finite x, .finite y => decide (x < y)

/-- `-x` -/
def neg : PyFloat → PyFloat
  | .nan => .nan
  | .infinity negative => .infinity !negative
  | .finite q => .finite (-q)

end PyFloat

/-- The `float` that is nearest to a number that is not negative. -/
def roundDouble (q : ℚ) : PyFloat :=
  let r : ℚ :=
    if q < 2 ^ (-1022 : ℤ) then roundHalfEven (q / 2 ^ (-1074 : ℤ)) * 2 ^ (-1074 : ℤ)
    else roundBinary 53 q
  if 2 ^ 1024 ≤ r then .infinity false else .finite r

/-- The exponent of a numeral: nothing, or `'e'` with an integer. -/
def exponent : Text → Option ℤ
  | [] => some 0
  | c :: s =>
    let (negative, s) := splitSign s
    if (c = 'e' ∨ c = 'E') ∧ s ≠ [] ∧ s.all Char.isDigit then
      some (if negative then -(digitsVal s : ℤ) else digitsVal s)
    else none

/-- A numeral without sign. -/
def unsignedFloat (s : Text) : Option PyFloat :=
  let whole := s.takeWhile Char.isDigit
  let (fraction, s) : Text × Text :=
    match s.dropWhile Char.isDigit with
    | '.' :: s => (s.takeWhile Char.isDigit, s.dropWhile Char.isDigit)
    | s => ([], s)
  if whole ++ fraction = [] then none
  else
    (exponent s).map fun (e : ℤ) =>
      roundDouble ((digitsVal (whole ++ fraction) : ℚ) * 10 ^ (e - fraction.length))

/-- `float(s)`, with `none` for a `ValueError`. -/
def Runtime.pyFloat (py : Runtime) (s : Text) : Option PyFloat :=
  match withoutUnderscores false (strip (s.map py.toAscii)) with
  | none => none
  | some s =>
    let (negative, s) := splitSign s
    let lower := s.map Char.toLower
    let x : Option PyFloat :=
      if lower = text "inf" ∨ lower = text "infinity" then some (.infinity false)
      else if lower = text "nan" then some .nan
      else unsignedFloat s
    if negative then x.map PyFloat.neg else x

/-! ## Dictionaries -/

section Dict

variable {α : Type}

/-- `d.get(k)`; the dictionary is a list of its items, in the order in which their keys came in. -/
def dictGet (d : List (Text × α)) (k : Text) : Option α := (d.find? fun e => e.1 == k).map (·.2)

/-- `d[k] = v` -/
def dictSet (d : List (Text × α)) (k : Text) (v : α) : List (Text × α) :=
  if d.any fun e => e.1 == k then d.map fun e => if e.1 == k then (k, v) else e else d ++ [(k, v)]

end Dict

/-! ## Query strings -/

/-- A character of more than one byte, of which some were decoded: its bits so far, the number of
bytes that are left, and the range of the next one. -/
structure Pending where
  bits : ℕ
  left : ℕ
  lo : ℕ
  hi : ℕ
  deriving DecidableEq, Repr

/-- `'\ufffd'` -/
def replacement : Char := Char.ofNat 65533

/-- UTF-8, with `errors='replace'`: the first byte of a character. -/
def utf8First (b : ℕ) : Text × Option Pending :=
  if b < 128 then ([Char.ofNat b], none)
  else if 194 ≤ b ∧ b ≤ 223 then ([], some ⟨b - 192, 1, 128, 191⟩)
  else if b = 224 then ([], some ⟨0, 2, 160, 191⟩)
  else if b = 237 then ([], some ⟨13, 2, 128, 159⟩)
  else if 225 ≤ b ∧ b ≤ 239 then ([], some ⟨b - 224, 2, 128, 191⟩)
  else if b = 240 then ([], some ⟨0, 3, 144, 191⟩)
  else if 241 ≤ b ∧ b ≤ 243 then ([], some ⟨b - 240, 3, 128, 191⟩)
  else if b = 244 then ([], some ⟨4, 3, 128, 143⟩)
  else ([replacement], none)

/-- UTF-8, with `errors='replace'`: one byte. A byte that cannot go on with a character is the first
one of the next. -/
def utf8Byte : Option Pending → ℕ → Text × Option Pending
  | none, b => utf8First b
  | some p, b =>
    if p.lo ≤ b ∧ b ≤ p.hi then
      let bits := 64 * p.bits + (b - 128)
      if p.left = 1 then ([Char.ofNat bits], none) else ([], some ⟨bits, p.left - 1, 128, 191⟩)
    else
      let (out, pending) := utf8First b
      (replacement :: out, pending)

/-- UTF-8, with `errors='replace'`: the end of the bytes. -/
def utf8End : Option Pending → Text
  | none => []
  | some _ => [replacement]

/-- The value of a hexadecimal digit. -/
def hexVal (c : Char) : Option ℕ :=
  if c.isDigit then some (c.toNat - 48)
  else if 97 ≤ c.toNat ∧ c.toNat ≤ 102 then some (c.toNat - 87)
  else if 65 ≤ c.toNat ∧ c.toNat ≤ 70 then some (c.toNat - 55)
  else none

/-- `unquote`: every run of ASCII characters is taken as bytes, with `%xx` for one of them, and
these are decoded. The first argument is what was decoded of a character. -/
def unquote : Option Pending → Text → Text
  | pending, [] => utf8End pending
  | pending, '%' :: a :: b :: s =>
    match hexVal a, hexVal b with
    | some x, some y =>
      let (out, pending) := utf8Byte pending (16 * x + y)
      out ++ unquote pending s
    | _, _ =>
      let (out, pending) := utf8Byte pending 37
      out ++ unquote pending (a :: b :: s)
  | pending, c :: s =>
    if c.toNat < 128 then
      let (out, pending) := utf8Byte pending c.toNat
      out ++ unquote pending s
    else utf8End pending ++ c :: unquote none s

/-- `unquote(s.replace('+', ' '))` -/
def unquotePlus (s : Text) : Text := unquote none (s.map fun c => if c = '+' then ' ' else c)

/-- `parse_qsl`: the pieces between `'&'` with a name and a value that is not empty. -/
def parseQsl (qs : Text) : List (Text × Text) :=
  (qs.splitOn '&').filterMap fun nameValue =>
    match nameValue.dropWhile (· ≠ '=') with
    | _ :: c :: value =>
      some (unquotePlus (nameValue.takeWhile (· ≠ '=')), unquotePlus (c :: value))
    | _ => none

/-- A list of values that is not empty. -/
structure Values where
  first : Text
  rest : List Text
  deriving DecidableEq, Repr

/-- `parse_qs`: for every name its values. -/
def parseQs (qs : Text) : List (Text × Values) :=
  (parseQsl qs).foldl (fun d e =>
    match dictGet d e.1 with
    | some values => dictSet d e.1 { values with rest := values.rest ++ [e.2] }
    | none => dictSet d e.1 ⟨e.2, []⟩) []

/-! ## Facts about strings -/

section Strings

variable {s : Text} {c : Char}

/-- A string of ASCII digits. -/
def AsciiDigits (s : Text) : Prop := s ≠ [] ∧ ∀ c ∈ s, c.isDigit = true

instance (s : Text) : Decidable (AsciiDigits s) :=
  @instDecidableAnd _ _ inferInstance (List.decidableBAll _ _)

/-- The digits are the characters from `0` to `9`. -/
lemma isDigit_iff : c.isDigit = true ↔ 48 ≤ c.toNat ∧ c.toNat ≤ 57 := by
  simp only [Char.isDigit, ge_iff_le, Bool.and_eq_true, decide_eq_true_eq,
    UInt32.le_iff_toNat_le]
  exact Iff.rfl

/-- The bounds of a digit keep it apart from every character of interest. -/
lemma ne_of_isDigit {d : Char} (hc : c.isDigit = true) (hd : d.isDigit = false) : c ≠ d := by
  rintro rfl
  rw [hc] at hd
  cases hd

/-- There are no blanks at the ends of a text of digits. -/
lemma strip_digits (hs : AsciiDigits s) : strip s = s := by
  have hspace : ∀ c ∈ s, isAsciiSpace c = false := by
    intro c hc
    obtain ⟨h₁, h₂⟩ := isDigit_iff.mp (hs.2 c hc)
    simp only [isAsciiSpace, Bool.or_eq_false_iff, beq_eq_false_iff_ne, Bool.and_eq_false_iff,
      decide_eq_false_iff_not]
    omega
  have hdrop : s.dropWhile isAsciiSpace = s := by
    rw [List.dropWhile_eq_self_iff]
    intro hlen
    simp [hspace _ (List.getElem_mem hlen)]
  rw [strip, hdrop, List.rdropWhile_eq_self_iff]
  intro hne
  simp [hspace _ (List.getLast_mem hne)]

/-- A text of digits has no sign. -/
lemma splitSign_digits (hs : AsciiDigits s) : splitSign s = (false, s) := by
  unfold splitSign
  split
  · exact absurd (hs.2 _ List.mem_cons_self) (by decide)
  · exact absurd (hs.2 _ List.mem_cons_self) (by decide)
  · rfl

/-- Digits have no underscores between them. -/
lemma withoutUnderscores_digits (hs : ∀ c ∈ s, c.isDigit = true) (before : Bool) :
    withoutUnderscores before s = some s := by
  induction s generalizing before with
  | nil => rfl
  | cons c s ih =>
    have hc : c ≠ '_' := ne_of_isDigit (hs c List.mem_cons_self) (by decide)
    rw [withoutUnderscores, if_neg hc, ih fun d hd => hs d (List.mem_cons_of_mem c hd)]
    rfl

namespace Runtime

variable (py : Runtime)

/-- ASCII digits stay what they are. -/
lemma map_toAscii_digits (hs : AsciiDigits s) : s.map py.toAscii = s := by
  have hid : ∀ c ∈ s, py.toAscii c = id c := by
    intro c hc
    obtain ⟨-, h⟩ := isDigit_iff.mp (hs.2 c hc)
    exact if_pos (by omega)
  rw [List.map_congr_left hid, List.map_id]

/-- `int` of a string of ASCII digits is its value, if the string is not too long. -/
lemma pyInt_digits (hs : AsciiDigits s) :
    py.pyInt s = if ∀ m ∈ py.maxStrDigits, s.length ≤ m then some (digitsVal s : ℤ) else none := by
  have hall : s.all Char.isDigit = true := List.all_eq_true.mpr hs.2
  unfold pyInt
  rw [map_toAscii_digits py hs, strip_digits hs, splitSign_digits hs]
  simp only
  rw [withoutUnderscores_digits hs.2]
  simp [hs.1, hall]

/-- A text of ASCII digits is one of digits. -/
lemma strIsDigit_digits (hs : AsciiDigits s) : py.strIsDigit s = true := by
  have hall : s.all py.isDigit = true := by
    rw [List.all_eq_true]
    intro c hc
    obtain ⟨-, h⟩ := isDigit_iff.mp (hs.2 c hc)
    rw [py.isDigit_ascii c (by omega)]
    exact hs.2 c hc
  simp [strIsDigit, hs.1, hall]

/-- A string that starts with an ASCII character that is no digit is not made of digits. -/
lemma strIsDigit_ascii (hc : c.toNat < 128) (hdigit : c.isDigit = false) :
    py.strIsDigit (c :: s) = false := by
  simp [strIsDigit, py.isDigit_ascii c hc, hdigit]

end Runtime

end Strings

/-! ## Facts about dictionaries -/

section DictFacts

variable {α : Type} (d : List (Text × α)) (k : Text) (v : α)

/-- What was set is found. -/
lemma dictGet_dictSet : dictGet (dictSet d k v) k = some v := by
  unfold dictSet
  split_ifs with hany
  · induction d with
    | nil => simp at hany
    | cons e d ih =>
      unfold dictGet at ih ⊢
      by_cases he : (e.1 == k) = true
      · rw [List.map_cons, if_pos he, List.find?_cons]
        simp
      · have hrest : (d.any fun e => e.1 == k) = true := by simpa [he] using hany
        rw [List.map_cons, if_neg he, List.find?_cons]
        simp only [Bool.eq_false_iff.mpr he]
        exact ih hrest
  · have hnone : d.find? (fun e => e.1 == k) = none := by
      rw [List.find?_eq_none]
      intro e he hk
      exact hany (List.any_eq_true.mpr ⟨e, he, hk⟩)
    simp [dictGet, List.find?_append, hnone]

/-- Values that are made of other values. -/
lemma dictGet_map {β : Type} (f : α → β) :
    dictGet (d.map fun e => (e.1, f e.2)) k = (dictGet d k).map f := by
  simp only [dictGet, List.find?_map, Option.map_map]
  rfl

end DictFacts

end Mproxy.Python
