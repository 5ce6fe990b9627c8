/-
**Go's `float64`, as the hash commands use it.**

`HINCRBYFLOAT` parses its increment with `strconv.ParseFloat`, adds in `float64` arithmetic
(also to a field holding a Go `int`, converted with `float64(i)`), and prints the sum with
`strconv.FormatFloat(f, 'f', -1, 64)`.  This module gives these operations their IEEE binary64
meaning: every result is the exact result rounded to the nearest binary64 value, ties to even,
with signed zeros, infinities and NaN.

A finite `Float64` is kept as a sign and its exact magnitude, a rational; the operations only
ever build magnitudes on the binary64 grid.

Main definitions:

* `EchoVault.Float64` — a Go `float64`;
* `EchoVault.roundBinary64`, `EchoVault.Float64.ofRat`, `EchoVault.Float64.ofQ` — rounding an
  exact value to `float64`;
* `EchoVault.Float64.add`, `EchoVault.Float64.ofInt` — `+` and `float64(i)`;
* `EchoVault.parseFloat` — `strconv.ParseFloat(s, 64)` on decimal and special syntax;
* `EchoVault.formatFloat` — `strconv.FormatFloat(f, 'f', -1, 64)`.
-/

import EchoVault.Bytes
import Mathlib.Data.Int.Log
import Mathlib.Data.Rat.Floor

set_option relaxedAutoImplicit false
set_option autoImplicit false

namespace EchoVault

/-- A Go `float64`: a finite value with its sign (zero is signed) and magnitude, an infinity,
or NaN. -/
inductive Float64 where
  | num (neg : Bool) (mag : ℚ)
  | inf (neg : Bool)
  | nan
  deriving DecidableEq

/-- The integer nearest to `q`, ties to even. -/
def roundHalfEven (q : ℚ) : ℤ :=
  if q - ⌊q⌋ < 1 / 2 then ⌊q⌋
  else if 1 / 2 < q - ⌊q⌋ then ⌊q⌋ + 1
  else if ⌊q⌋ % 2 = 0 then ⌊q⌋ else ⌊q⌋ + 1

/-- The positive `a` rounded to the binary64 grid: 53 significant bits, and no bit below
`2 ^ -1074`, ties to even.  The result may reach `2 ^ 1024`, past the largest finite value. -/
def roundBinary64 (a : ℚ) : ℚ :=
  roundHalfEven (a / 2 ^ max (Int.log 2 a - 52) (-1074)) * 2 ^ max (Int.log 2 a - 52) (-1074)

namespace Float64

/-- The `float64` nearest to the magnitude `a ≥ 0` with sign `neg`: an infinity past the
largest finite value. -/
def ofRat (neg : Bool) (a : ℚ) : Float64 :=
  if a = 0 then num neg 0
  else if 2 ^ 1024 ≤ roundBinary64 a then inf neg
  else num neg (roundBinary64 a)

/-- The `float64` nearest to `q`; an exact zero is `+0`. -/
def ofQ (q : ℚ) : Float64 := ofRat (decide (q < 0)) |q|

/-- `float64(i)` for a Go `int`. -/
def ofInt (i : ℤ) : Float64 := ofQ i

/-- `x + y` in `float64` arithmetic. -/
def add : Float64 → Float64 → Float64
  | nan, _ => nan
  | _, nan => nan
  | inf n, inf n' => if n = n' then inf n else nan
  | inf n, num _ _ => inf n
  | num _ _, inf n => inf n
  | num n a, num n' b =>
      if a = 0 ∧ b = 0 then num (n && n') 0
      else ofQ ((if n then -a else a) + (if n' then -b else b))

instance : Add Float64 := ⟨add⟩

end Float64

/-! ### `strconv.ParseFloat` -/

/-- The value of a non-empty run of decimal digits. -/
def digitsValue (ds : Bytes) : ℕ := ds.foldl (fun n c => 10 * n + (c - 48).toNat) 0

/-- A decimal digit byte. -/
def isDigit (c : UInt8) : Bool := 48 ≤ c && c ≤ 57

/-- The exponent part `[+-]digits` after an `e` or `E`. -/
def parseExponent : Bytes → Option ℤ
  | 43 :: ds => if ds ≠ [] ∧ ds.all isDigit then some (digitsValue ds) else none
  | 45 :: ds => if ds ≠ [] ∧ ds.all isDigit then some (-(digitsValue ds : ℤ)) else none
  | ds => if ds ≠ [] ∧ ds.all isDigit then some (digitsValue ds) else none

/-- The exact value of a decimal numeral `digits[.digits][(e|E)[+-]digits]` with at least one
mantissa digit. -/
def parseDecimal (s : Bytes) : Option ℚ :=
  let mant := s.takeWhile fun c => c ≠ charByte 'e' && c ≠ charByte 'E'
  let ip := mant.takeWhile isDigit
  let rest := mant.drop ip.length
  let fp := match rest with
    | 46 :: f => if f.all isDigit then some f else none
    | [] => some []
    | _ => none
  let exp := match s.drop mant.length with
    | [] => some 0
    | _ :: e => parseExponent e
  match fp, exp with
  | some f, some e =>
      if ip = [] ∧ f = [] then none
      else some ((digitsValue (ip ++ f) : ℚ) * 10 ^ (e - f.length))
  | _, _ => none

/-- ASCII lower case, as `strconv`'s special-value matching folds case. -/
def asciiLower (c : UInt8) : UInt8 := if 65 ≤ c ∧ c ≤ 90 then c + 32 else c

/-- A byte lowers to the lower-case letter `n` exactly when it is that letter or its upper case. -/
theorem toNat_asciiLower_eq {c : UInt8} {n : ℕ} (h₁ : 97 ≤ n) (h₂ : n ≤ 122) :
    (asciiLower c).toNat = n ↔ c.toNat = n ∨ c.toNat = n - 32 := by
  unfold asciiLower
  simp only [UInt8.le_def, UInt8.toNat, UInt8.add_def, UInt8.toBitVec_ofNat]
  split_ifs <;> bv_omega

/-- `strconv.ParseFloat(s, 64)`: `none` for the syntax errors and for a finite numeral out of the
`float64` range.  Hexadecimal mantissas and digit separators `_` are not modelled. -/
def parseFloat (s : Bytes) : Option Float64 :=
  let (neg, body) := match s with
    | 43 :: r => (false, r)
    | 45 :: r => (true, r)
    | r => (false, r)
  let lower := body.map asciiLower
  if lower = ascii "inf" ∨ lower = ascii "infinity" then some (.inf neg)
  else if s.map asciiLower = ascii "nan" then some .nan
  else match parseDecimal body with
    | none => none
    | some q => match Float64.ofRat neg q with
      | .inf _ => none
      | x => some x

/-! ### `strconv.FormatFloat(f, 'f', -1, 64)` -/

/-- The decimal rendering, in `%f` form, of `d * 10 ^ -p`: integer part, and the fractional
digits without trailing zeros. -/
def fixedDecimal (d : ℕ) (p : ℤ) : Bytes :=
  if p ≤ 0 then decimal (d * 10 ^ p.natAbs)
  else
    let frac := (decimal (d % 10 ^ p.natAbs + 10 ^ p.natAbs)).drop 1
    let frac := (frac.reverse.dropWhile (· = charByte '0')).reverse
    decimal (d / 10 ^ p.natAbs) ++ (if frac = [] then [] else ascii "." ++ frac)

/-- The shortest decimal form of the positive binary64 magnitude `a`: the fewest significant
digits `n` whose nearest `n`-digit decimal rounds back to `a`, as `(digits, fractional
places)`. -/
def shortestDigits (a : ℚ) : ℕ × ℤ :=
  let k := Int.log 10 a
  let cand := fun n : ℕ => ((roundHalfEven (a * 10 ^ ((n : ℤ) - 1 - k))).toNat, (n : ℤ) - 1 - k)
  match (List.range 17).find? (fun n =>
      roundBinary64 ((cand (n + 1)).1 / 10 ^ (cand (n + 1)).2) = a) with
  | some n => cand (n + 1)
  | none => cand 17

/-- `strconv.FormatFloat(f, 'f', -1, 64)`. -/
def formatFloat : Float64 → Bytes
  | .nan => ascii "NaN"
  | .inf neg => if neg then ascii "-Inf" else ascii "+Inf"
  | .num neg a =>
      (if neg then ascii "-" else []) ++
        if a = 0 then ascii "0" else fixedDecimal (shortestDigits a).1 (shortestDigits a).2

end EchoVault
