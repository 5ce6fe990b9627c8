/-
**String conversions: `strconv.Atoi`, `internal.AdaptType` and `internal.ParseMemory`.**

`HINCRBY` reads its increment with `strconv.Atoi`.  `HSET` stores every value through
`internal.AdaptType`, and `SINTERCARD`, `SPOP` and `SRANDMEMBER` read their counts with it:
`AdaptType` parses the token with `big.ParseFloat(s, 10, 256, big.RoundingMode(big.Exact))`,
and returns a Go `int` when the parsed value is an integer (through `Int64`, which saturates
at the bounds of `int64`), a `float64` otherwise, and the token itself when it does not parse.
`big.RoundingMode(big.Exact)` is the rounding mode `0`, `ToNearestEven`: `big.Exact` is an
accuracy, not a rounding mode.

The value `big.Float` parses is the exact value of the numeral rounded once to 256 bits; its
scanner rounds in up to three steps (the mantissa, the power of five, their product), which the
model does not follow.

`ParseMemory` reads a memory size such as `512mb`: all but the last two bytes through
`strconv.ParseInt(memString, 10, 64)`, which reads what `strconv.Atoi` reads on a 64-bit `int`,
and the last two as a unit from `kb` to `pb`, in any case.  It multiplies in `int64`, which
wraps, and converts the product to `uint64`; it checks neither the sign of the count nor the
product, and it slices before it checks the length.

Main definitions:

* `EchoVault.atoi` — `strconv.Atoi`;
* `EchoVault.parseBigFloat` — the syntax and exact value of `big.Float.Parse(s, 10)`;
* `EchoVault.adaptType` — `internal.AdaptType`;
* `EchoVault.absInt` — `internal.AbsInt`;
* `EchoVault.parseMemory` — `internal.ParseMemory`.

Main results:

* `EchoVault.adaptType_digits` — a decimal numeral of at most 256 bits comes back as an `int`
  saturated at the bounds of `int64`;
* `EchoVault.adaptType_saturates_and_reads_inf` — `9223372036854775808` comes back as
  `9223372036854775807`, and `Inf` as an infinite `float64`;
* `EchoVault.memUnitFactor_eq_some_iff` — the units are `kb`, `mb`, `gb`, `tb` and `pb` in any case,
  for `1024 ^ 1` to `1024 ^ 5`;
* `EchoVault.parseMemory_returns_mod` — on a string of at least two bytes `ParseMemory` does not
  panic, and the size it returns is the count times the unit modulo `2 ^ 64`;
* `EchoVault.parseMemory_wraps_negative_and_overflow` — `-1kb` comes back as `2 ^ 64 - 1024`,
  `16384pb` as `0`, and `k` panics.
-/

import EchoVault.Keyspace.Server

set_option relaxedAutoImplicit false
set_option autoImplicit false

namespace EchoVault

/-! ### `strconv.Atoi` -/

/-- An optional sign `+` or `-` and what follows it. -/
def splitSign : Bytes → Bool × Bytes
  | 43 :: r => (false, r)
  | 45 :: r => (true, r)
  | r => (false, r)

/-- `strconv.Atoi(s)`: an optional sign and at least one decimal digit, whose value fits a Go
`int`; `none` for the syntax and range errors. -/
def atoi (s : Bytes) : Option ℤ :=
  let (neg, ds) := splitSign s
  let v : ℤ := if neg then -(digitsValue ds : ℤ) else digitsValue ds
  if ds ≠ [] ∧ ds.all isDigit ∧ InInt64 v then some v else none

/-- `internal.AbsInt` on a Go `int`: `-n` wraps for the least `int`. -/
def absInt (n : ℤ) : ℤ := if n < 0 then wrapInt64 (-n) else n

/-! ### `big.Float.Parse` and `internal.AdaptType` -/

/-- What `big.Float.Parse(s, 10)` reads: a finite value, exactly, or an infinity. -/
inductive BigValue where
  | finite (q : ℚ)
  | inf (neg : Bool)
  deriving DecidableEq

/-- The mantissa of a base-10 `big.Float` numeral, `digits "." [digits] | digits | "." digits`:
its integer and fractional digits and the bytes after it. -/
def scanMantissa (s : Bytes) : Bytes × Bytes × Bytes :=
  let ip := s.takeWhile isDigit
  match s.drop ip.length with
  | 46 :: r => (ip, r.takeWhile isDigit, r.drop (r.takeWhile isDigit).length)
  | r => (ip, [], r)

/-- The exponent `("e" | "E" | "p" | "P") [sign] digits` of a `big.Float` numeral: the base (10
or 2) and the power, which `strconv.ParseInt` reads as an `int64`. -/
def scanExponent : Bytes → Option (ℕ × ℤ)
  | [] => some (10, 0)
  | c :: r =>
    let base := if c = charByte 'e' ∨ c = charByte 'E' then some 10
      else if c = charByte 'p' ∨ c = charByte 'P' then some 2 else none
    match base, atoiExponent r with
    | some b, some e => some (b, e)
    | _, _ => none
where
  /-- The power: an optional sign and decimal digits in the range of `int64`. -/
  atoiExponent (r : Bytes) : Option ℤ :=
    let (neg, ds) := splitSign r
    let v : ℤ := if neg then -(digitsValue ds : ℤ) else digitsValue ds
    if ds ≠ [] ∧ ds.all isDigit ∧ InInt64 v then some v else none

/-- `big.Float.Parse(s, 10)`, before rounding: `Inf` or `inf` with an optional sign, or a sign,
a mantissa and an exponent covering the whole of `s`. -/
def parseBigFloat (s : Bytes) : Option BigValue :=
  let (neg, body) := splitSign s
  if body = ascii "Inf" ∨ body = ascii "inf" then some (.inf neg)
  else
    let (ip, fp, rest) := scanMantissa body
    if ip = [] ∧ fp = [] then none
    else match scanExponent rest with
      | none => none
      | some (b, e) =>
        let m : ℚ := digitsValue (ip ++ fp) * (10 : ℚ) ^ (-(fp.length : ℤ)) * (b : ℚ) ^ e
        some (.finite (if neg then -m else m))

/-- The nearest value to `q` with 256 significant bits, ties to even; past the exponent range of
`big.Float` (binary exponents of `int32`) an infinity, below it a zero. -/
def roundBig (q : ℚ) : BigValue :=
  if q = 0 then .finite 0
  else
    let a := |q|
    let r := roundHalfEven (a / 2 ^ (Int.log 2 a - 255)) * (2 : ℚ) ^ (Int.log 2 a - 255)
    if Int.log 2 r + 1 > 2 ^ 31 - 1 then .inf (decide (q < 0))
    else if Int.log 2 r + 1 < -2 ^ 31 then .finite 0
    else .finite (if q < 0 then -r else r)

/-- `big.Float.Int64` on an integer: saturated at the bounds of `int64`. -/
def saturateInt64 (i : ℤ) : ℤ := max (-2 ^ 63) (min i (2 ^ 63 - 1))

/-- `internal.AdaptType(s)`. -/
def adaptType (s : Bytes) : Scalar :=
  match parseBigFloat s with
  | none => .str s
  | some (.inf neg) => .float (.inf neg)
  | some (.finite q) =>
    match roundBig q with
    | .inf neg => .float (.inf neg)
    | .finite r => if r.den = 1 then .int (saturateInt64 r.num) else .float (Float64.ofQ r)

/-! ### `AdaptType` on a decimal numeral -/

theorem roundHalfEven_intCast (z : ℤ) : roundHalfEven z = z := by
  simp [roundHalfEven]

/-- An integer of at most 256 bits is read exactly. -/
theorem roundBig_natCast {n : ℕ} (hn : n < 2 ^ 256) : roundBig n = .finite n := by
  rcases Nat.eq_zero_or_pos n with rfl | hpos
  · simp [roundBig]
  have hk : Nat.log 2 n < 256 := Nat.log_lt_of_lt_pow (by omega) hn
  have hlog : Int.log 2 (n : ℚ) = Nat.log 2 n := Int.log_natCast 2 n
  obtain ⟨j, hj⟩ : ∃ j : ℕ, (Nat.log 2 n : ℤ) - 255 = -(j : ℤ) := ⟨255 - Nat.log 2 n, by omega⟩
  have hr : (roundHalfEven ((n : ℚ) / 2 ^ ((Nat.log 2 n : ℤ) - 255)) : ℚ) *
      (2 : ℚ) ^ ((Nat.log 2 n : ℤ) - 255) = n := by
    rw [hj, zpow_neg, zpow_natCast, div_inv_eq_mul,
      show (n : ℚ) * 2 ^ j = ((n * 2 ^ j : ℕ) : ℤ) by push_cast; ring, roundHalfEven_intCast]
    push_cast
    field_simp
  have habs : |(n : ℚ)| = n := abs_of_nonneg (Nat.cast_nonneg n)
  simp only [roundBig, Nat.cast_eq_zero, hpos.ne', if_false, habs, hlog, hr]
  rw [if_neg (by omega), if_neg (by omega), if_neg (not_lt.2 (Nat.cast_nonneg _))]

theorem splitSign_digits {ds : Bytes} (h : ds.all isDigit) : splitSign ds = (false, ds) := by
  unfold splitSign
  split
  · simp [isDigit] at h
  · simp [isDigit] at h
  · rfl

theorem scanMantissa_digits {ds : Bytes} (h : ds.all isDigit) : scanMantissa ds = (ds, [], []) := by
  have ht : ds.takeWhile isDigit = ds := List.takeWhile_eq_self_iff.2 (by simpa using h)
  simp [scanMantissa, ht]

/-- A decimal numeral is read as its value. -/
theorem parseBigFloat_digits {ds : Bytes} (hne : ds ≠ []) (h : ds.all isDigit) :
    parseBigFloat ds = some (.finite (digitsValue ds)) := by
  have hinf : ¬ (ds = ascii "Inf" ∨ ds = ascii "inf") := by
    rintro (rfl | rfl) <;> exact absurd h (by decide)
  simp [parseBigFloat, splitSign_digits h, scanMantissa_digits h, hinf, hne, scanExponent]

/-- **`AdaptType` saturates an integer numeral**: a decimal numeral of at most 256 bits comes
back as an `int`, its value saturated at the bounds of `int64`. -/
theorem adaptType_digits {ds : Bytes} (hne : ds ≠ []) (h : ds.all isDigit)
    (hlt : digitsValue ds < 2 ^ 256) : adaptType ds = .int (saturateInt64 (digitsValue ds)) := by
  simp [adaptType, parseBigFloat_digits hne h, roundBig_natCast hlt]

/-- **`2 ^ 63` comes back as the largest `int`, and `Inf` as an infinite `float64`.** -/
theorem adaptType_saturates_and_reads_inf :
    adaptType (ascii "9223372036854775808") = .int (2 ^ 63 - 1) ∧
      adaptType (ascii "Inf") = .float (.inf false) := by
  refine ⟨?_, by decide⟩
  rw [adaptType_digits (by decide) (by decide) (by decide)]
  decide

/-! ### `internal.ParseMemory` -/

/-- Go's `uint64(i)` on an `int64`: the representative of `i` modulo `2 ^ 64` in `[0, 2 ^ 64)`. -/
def toUint64 (i : ℤ) : ℕ := (i % 2 ^ 64).toNat

/-- The `switch memUnit` of `ParseMemory`, `memUnit` being `strings.ToLower` of the last two
bytes: the factor of each supported unit, as the source writes it. -/
def memUnitFactor (memUnit : Bytes) : Option ℤ :=
  if lowerEq memUnit "kb" then some 1024
  else if lowerEq memUnit "mb" then some (1024 * 1024)
  else if lowerEq memUnit "gb" then some (1024 * 1024 * 1024)
  else if lowerEq memUnit "tb" then some (1024 * 1024 * 1024 * 1024)
  else if lowerEq memUnit "pb" then some (1024 * 1024 * 1024 * 1024 * 1024)
  else none

/-- The errors `ParseMemory` returns. -/
inductive MemoryError where
  /-- The `*strconv.NumError` of `strconv.ParseInt` on the count `memString`. -/
  | numError (memString : Bytes)
  /-- `memory unit %s not supported, use (kb, mb, gb, tb, pb) `, printed with `strings.ToLower`
  of the last two bytes `suffix`. -/
  | unsupportedUnit (suffix : Bytes)
  deriving DecidableEq, Repr

/-- `internal.ParseMemory(memory)`.  The outer error is the panic of `memory[0 : len(memory)-2]`
on a string shorter than two bytes, the inner one the error it returns; `bytesInt *= …` is a
product of `int64`s, and wraps. -/
def parseMemory (memory : Bytes) : Except Bytes (Except MemoryError ℕ) :=
  if memory.length < 2 then
    .error (ascii "runtime error: slice bounds out of range [:" ++
      fmtInt ((memory.length : ℤ) - 2) ++ ascii "]")
  else
    let memString := memory.take (memory.length - 2)
    match atoi memString with
    | none => .ok (.error (.numError memString))
    | some bytesInt =>
      let suffix := memory.drop (memory.length - 2)
      match memUnitFactor suffix with
      | none => .ok (.error (.unsupportedUnit suffix))
      | some factor => .ok (.ok (toUint64 (wrapInt64 (bytesInt * factor))))

/-- Wrapping in `int64` first does not change the `uint64` conversion. -/
theorem toUint64_wrapInt64 (i : ℤ) : toUint64 (wrapInt64 i) = toUint64 i := by
  unfold toUint64 wrapInt64
  omega

theorem toUint64_eq_iff {i : ℤ} {b : ℕ} : toUint64 i = b ↔ (b : ℤ) = i % 2 ^ 64 := by
  unfold toUint64
  omega

/-- On two bytes, `strings.ToLower` gives a unit exactly when lowering their ASCII letters does:
the runes `unicode.ToLower` maps onto ASCII letters from outside ASCII take more bytes. -/
theorem lowerEq_unit_iff {b₁ b₂ : UInt8} {unit : String} (h : unit ∈ ["kb", "mb", "gb", "tb", "pb"]) :
    lowerEq [b₁, b₂] unit = true ↔ [asciiLower b₁, asciiLower b₂] = ascii unit := by
  simp only [List.mem_cons, List.mem_singleton, List.not_mem_nil, or_false] at h
  rcases h with rfl | rfl | rfl | rfl | rfl <;>
  · simp (disch := omega) [lowerEq, variantMatch, lowerVariants, List.isPrefixOf, charByte, ascii,
      UInt8.eq_iff_toNat_eq, toNat_asciiLower_eq]
    omega

/-- The units of `ParseMemory` and their factors: `kb`, `mb`, `gb`, `tb` and `pb` in any case,
for `1024 ^ 1` to `1024 ^ 5`. -/
theorem memUnitFactor_eq_some_iff {u : Bytes} (hu : u.length = 2) {c : ℤ} :
    memUnitFactor u = some c ↔ ∃ unit k, (unit, k) ∈ [("kb", 1), ("mb", 2), ("gb", 3), ("tb", 4), ("pb", 5)] ∧
      u.map asciiLower = ascii unit ∧ c = 1024 ^ k := by
  obtain ⟨b₁, b₂, rfl⟩ : ∃ b₁ b₂, u = [b₁, b₂] := match u, hu with | [b₁, b₂], _ => ⟨b₁, b₂, rfl⟩
  simp only [memUnitFactor, List.map_cons, List.map_nil, lowerEq_unit_iff (by simp : "kb" ∈ _),
    lowerEq_unit_iff (by simp : "mb" ∈ _), lowerEq_unit_iff (by simp : "gb" ∈ _),
    lowerEq_unit_iff (by simp : "tb" ∈ _), lowerEq_unit_iff (by simp : "pb" ∈ _)]
  generalize [asciiLower b₁, asciiLower b₂] = v
  simp only [List.mem_cons, Prod.mk.injEq, List.mem_singleton, List.not_mem_nil, or_false, or_and_right,
    and_assoc, exists_or, exists_and_left, exists_eq_left]
  split_ifs <;> subst_vars <;>
    simp only [*, false_and, or_false, false_or, reduceCtorEq, false_iff, not_exists] <;>
    simp [ascii, charByte, UInt8.eq_iff_toNat_eq, eq_comm]

/-- **What `ParseMemory` returns.**  On a string of at least two bytes it does not panic, and it
returns a size exactly when `strconv.ParseInt` reads a count `n` from all but the last two bytes
and these are `kb`, `mb`, `gb`, `tb` or `pb` in any case, the unit `1024 ^ k` for `k` from `1` to
`5`.  The size is `n * 1024 ^ k` modulo `2 ^ 64`: it is the product itself exactly when that lies
in `[0, 2 ^ 64)`. -/
theorem parseMemory_returns_mod (memory : Bytes) (hlen : 2 ≤ memory.length) :
    ∃ r, parseMemory memory = .ok r ∧ ∀ bytes : ℕ, (r = .ok bytes ↔
      ∃ n unit k, atoi (memory.take (memory.length - 2)) = some n ∧
        (unit, k) ∈ [("kb", 1), ("mb", 2), ("gb", 3), ("tb", 4), ("pb", 5)] ∧
        (memory.drop (memory.length - 2)).map asciiLower = ascii unit ∧
        (bytes : ℤ) = n * 1024 ^ k % 2 ^ 64 ∧
        ((bytes : ℤ) = n * 1024 ^ k ↔ 0 ≤ n * 1024 ^ k ∧ n * 1024 ^ k < 2 ^ 64)) := by
  have hu : (memory.drop (memory.length - 2)).length = 2 := by simp; omega
  simp only [parseMemory, if_neg (show ¬ memory.length < 2 by omega)]
  cases hn : atoi (memory.take (memory.length - 2)) with
  | none => simp
  | some n =>
    cases hf : memUnitFactor (memory.drop (memory.length - 2)) with
    | none =>
      refine ⟨_, rfl, fun bytes => ⟨Except.noConfusion, ?_⟩⟩
      rintro ⟨_, unit, k, -, hk, hunit, -⟩
      simp [(memUnitFactor_eq_some_iff hu).2 ⟨unit, k, hk, hunit, rfl⟩] at hf
    | some c =>
      obtain ⟨unit, k, hk, hunit, rfl⟩ := (memUnitFactor_eq_some_iff hu).1 hf
      refine ⟨_, rfl, fun bytes => ?_⟩
      simp only [Except.ok.injEq, toUint64_wrapInt64, toUint64_eq_iff, Option.some.injEq]
      constructor
      · intro h
        exact ⟨n, unit, k, rfl, hk, hunit, h, by omega⟩
      · rintro ⟨n', unit', k', rfl, hk', hunit', h, -⟩
        have hc := (memUnitFactor_eq_some_iff hu).2 ⟨unit', k', hk', hunit', rfl⟩
        rw [hf, Option.some.injEq] at hc
        rwa [hc]

/-- `512mb` is `536870912` bytes: the count `512` and the unit `mb`, `1024 ^ 2`. -/
theorem parseMemory_512mb :
    2 ≤ (ascii "512mb").length ∧ parseMemory (ascii "512mb") = .ok (.ok 536870912) := by
  obtain ⟨r, hr, h⟩ := parseMemory_returns_mod (ascii "512mb") (by decide)
  refine ⟨by decide, ?_⟩
  rw [hr, (h 536870912).2 ⟨512, "mb", 2, by decide, by simp, by decide, by norm_num, by norm_num⟩]

/-- **A negative count and an overflowing product are wrapped, and a short string panics**:
`-1kb` comes back as `2 ^ 64 - 1024`, `16384pb` as `0`, and `k` panics on slicing. -/
theorem parseMemory_wraps_negative_and_overflow :
    parseMemory (ascii "-1kb") = .ok (.ok 18446744073709550592) ∧
      parseMemory (ascii "16384pb") = .ok (.ok 0) ∧
      parseMemory (ascii "k") = .error (ascii "runtime error: slice bounds out of range [:-1]") :=
  ⟨rfl, rfl, rfl⟩

end EchoVault
