import Mathlib.Algebra.Order.Floor.Ring
import Mathlib.Data.Rat.Floor
import Mathlib.Tactic.Common

set_option relaxedAutoImplicit false
set_option autoImplicit false

/-!
# The C library under the rule parser

The functions on C strings (byte lists without a zero byte) and the conversions between number types
that the rule parser uses, as a 64-bit GNU system computes them: `atoi` is `strtol` cast to `int`,
with `strtol` clamping to the range of `long`; integers are narrowed by dropping their upper bits.

A `float` is only ever made from a decimal numeral without sign and cast to `char`. It is kept as
the rational number it stands for. The bounds on its exponent are left out, since they matter only
for values below `2⁻¹²⁶`, which the cast takes to `0`, and from `2¹²⁸` on, which are outside the
range of the cast like every value from `2³¹` on.

## Main definitions

* `Mproxy.atoi`, `Mproxy.atof` — numbers from numerals.
* `Mproxy.intToChar`, `Mproxy.intToCounter`, `Mproxy.floatToChar` — the narrowing conversions.
-/

namespace Mproxy

/-- The bytes of a string of ASCII characters. -/
def cstr (s : String) : List UInt8 := s.toList.map fun c => UInt8.ofNat c.toNat

/-- `'0' <= c && c <= '9'` -/
def isDigit (c : UInt8) : Bool := decide (48 ≤ c) && decide (c ≤ 57)

/-- `isspace` in the C locale. -/
def isSpace (c : UInt8) : Bool := c == 32 || decide (9 ≤ c) && decide (c ≤ 13)

/-- The value of a string of digits. -/
def digitsValue (s : List UInt8) : ℕ := s.foldl (fun n c => 10 * n + (c.toNat - 48)) 0

/-- `strtol(s, NULL, 10)` -/
def strtol (s : List UInt8) : ℤ :=
  let s := s.dropWhile isSpace
  let (negative, s) : Bool × List UInt8 :=
    match s with
    | 45 :: t => (true, t)
    | 43 :: t => (false, t)
    | t => (false, t)
  let n : ℕ := digitsValue (s.takeWhile isDigit)
  if negative then max (-9223372036854775808) (-(n : ℤ)) else min 9223372036854775807 n

/-- `atoi` -/
def atoi (s : List UInt8) : ℤ := Int.bmod (strtol s) 4294967296

/-- An `int` assigned to a `char`. -/
def intToChar (i : ℤ) : Int8 := Int8.ofInt i

/-- An `int` assigned to a `counter_t`, an unsigned `char`. -/
def intToCounter (i : ℤ) : UInt8 := UInt8.ofNat (i % 256).toNat

/-- The nearest integer; of two, the even one. -/
def roundHalfEven (q : ℚ) : ℤ :=
  let n := ⌊q⌋
  if q - n < 1 / 2 then n
  else if 1 / 2 < q - n then n + 1
  else if n % 2 = 0 then n else n + 1

/-- The nearest number with `prec` binary digits, for `q` not negative. -/
def roundBinary (prec : ℕ) (q : ℚ) : ℚ :=
  if q = 0 then 0
  else
    let e : ℤ := (Nat.log2 q.num.natAbs : ℤ) - Nat.log2 q.den - prec
    let e := if q < 2 ^ (e + prec) then e else e + 1
    roundHalfEven (q / 2 ^ e) * 2 ^ e

/-- `atof`, assigned to a `float`: the numeral is rounded to a `double` and then to a `float`. The
argument consists of digits and a dot. -/
def atof (s : List UInt8) : ℚ :=
  let whole := s.takeWhile isDigit
  let fraction := (s.dropWhile isDigit).drop 1
  let value : ℚ := digitsValue (whole ++ fraction) / 10 ^ fraction.length
  roundBinary 24 (roundBinary 53 value)

/-- `(char)f`, by way of `int`: a value outside the range of `int` gives the smallest `int`. -/
def floatToChar (f : ℚ) : Int8 := if ⌊f⌋ < 2147483648 then Int8.ofInt ⌊f⌋ else 0

end Mproxy
