/-
**Byte strings as the Go code handles them.**

Go's `string` and `[]byte` are sequences of bytes: the command tokens a client sends, the keys
of the keyspace, the fields of a hash, the members of a set and every reply are such sequences,
and nothing in the code assumes they are valid UTF-8.  This module fixes their model, `Bytes`,
and the few formatting and comparison functions of the Go library the code relies on.

Main definitions:

* `EchoVault.Bytes` — a Go byte string;
* `EchoVault.ascii` — the bytes of an ASCII literal of the source (`"*0\r\n"`, `"hsetnx"`);
* `EchoVault.decimal`, `EchoVault.fmtInt` — `fmt.Sprintf("%d", n)` on a natural number and on
  a Go `int`;
* `EchoVault.equalFold` — `strings.EqualFold(s, lit)` against an ASCII literal `lit`, with the
  two non-ASCII runes that Unicode simple folding maps onto ASCII letters (`ſ` and the Kelvin
  sign);
* `EchoVault.lowerEq` — `strings.ToLower(s) == lit` for a lower-case ASCII literal, with the
  two non-ASCII runes that `unicode.ToLower` maps onto ASCII letters (the Kelvin sign and `İ`);
* `EchoVault.wrapInt64` — the two's-complement wrap of Go's 64-bit `int` arithmetic.

Main results:

* `EchoVault.mem_decimal` — the decimal rendering of a number is made of the digits
  `'0'` … `'9'`; in particular it holds no CR and no LF byte (`EchoVault.cr_not_mem_decimal`,
  `EchoVault.lf_not_mem_decimal`);
* `EchoVault.equalFold_ascii_self` — every ASCII literal is `EqualFold` to itself.
-/

import Mathlib.Data.List.Infix
import Mathlib.Data.Nat.Digits

set_option relaxedAutoImplicit false
set_option autoImplicit false

namespace EchoVault

/-- A Go byte string (`string` or `[]byte`). -/
abbrev Bytes := List UInt8

/-- Two bytes are equal when their values are. -/
theorem UInt8.eq_iff_toNat_eq {x y : UInt8} : x = y ↔ x.toNat = y.toNat := ⟨congrArg _, UInt8.toNat.inj⟩

@[simp] theorem toNat_toUInt8 (n : ℕ) : (Nat.toUInt8 n).toNat = n % 256 := by
  simp [Nat.toUInt8, UInt8.ofNat, UInt8.toNat]

/-- The byte of a character of an ASCII literal. -/
def charByte (c : Char) : UInt8 := c.toNat.toUInt8

/-- The bytes of an ASCII string literal of the source. -/
def ascii (s : String) : Bytes := s.toList.map charByte

@[simp] theorem ascii_append (s t : String) : ascii (s ++ t) = ascii s ++ ascii t := by
  simp [ascii]

/-- The carriage return byte `'\r'`. -/
def cr : UInt8 := 13

/-- The line feed byte `'\n'`. -/
def lf : UInt8 := 10

/-- The line terminator `"\r\n"` of the RESP protocol and of the append-only log. -/
def crlf : Bytes := [cr, lf]

/-! ### Decimal rendering -/

/-- `fmt.Sprintf("%d", n)` on a natural number. -/
def decimal (n : ℕ) : Bytes := (Nat.toDigits 10 n).map charByte

/-- `fmt.Sprintf("%d", i)` on a Go `int`. -/
def fmtInt (i : ℤ) : Bytes :=
  if i < 0 then ascii "-" ++ decimal i.natAbs else decimal i.natAbs

/-- The characters `Nat.toDigitsCore` adds in base ten are decimal digits. -/
theorem mem_toDigitsCore {fuel n : ℕ} {ds : List Char} {c : Char}
    (h : c ∈ Nat.toDigitsCore 10 fuel n ds) : c ∈ ds ∨ ∃ d < 10, c = Nat.digitChar d := by
  induction fuel generalizing n ds with
  | zero => exact .inl h
  | succ fuel ih =>
      simp only [Nat.toDigitsCore] at h
      have hd : c = Nat.digitChar (n % 10) → ∃ d < 10, c = Nat.digitChar d :=
        fun e => ⟨n % 10, Nat.mod_lt _ (by norm_num), e⟩
      split at h
      · rcases List.mem_cons.1 h with e | h
        · exact .inr (hd e)
        · exact .inl h
      · rcases ih h with h | h
        · rcases List.mem_cons.1 h with e | h
          · exact .inr (hd e)
          · exact .inl h
        · exact .inr h

/-- The byte of the decimal digit `d`. -/
theorem charByte_digitChar {d : ℕ} (hd : d < 10) : charByte (Nat.digitChar d) = 48 + d.toUInt8 := by
  interval_cases d <;> rfl

/-- **The decimal rendering is made of digits.** -/
theorem mem_decimal {n : ℕ} {b : UInt8} (h : b ∈ decimal n) : ∃ d < 10, b = 48 + d.toUInt8 := by
  obtain ⟨c, hc, rfl⟩ := List.mem_map.1 h
  rcases mem_toDigitsCore hc with h | ⟨d, hd, rfl⟩
  · simp at h
  · exact ⟨d, hd, charByte_digitChar hd⟩

theorem cr_not_mem_decimal (n : ℕ) : cr ∉ decimal n := by
  intro h
  obtain ⟨d, hd, e⟩ := mem_decimal h
  interval_cases d <;> exact absurd e (by decide)

theorem lf_not_mem_decimal (n : ℕ) : lf ∉ decimal n := by
  intro h
  obtain ⟨d, hd, e⟩ := mem_decimal h
  interval_cases d <;> exact absurd e (by decide)

theorem decimal_ne_nil (n : ℕ) : decimal n ≠ [] := by
  simp only [decimal, Nat.toDigits, Nat.toDigitsCore, ne_eq, List.map_eq_nil_iff]
  split
  · simp
  · intro h
    have := Nat.toDigitsCore_lens_eq 10 n (n / 10) (Nat.digitChar (n % 10)) []
    rw [h] at this
    simp at this

/-! ### Case-insensitive comparison with an ASCII literal -/

/-- `s` decodes, rune by rune, to runes among `variants c` for the successive characters `c` of
a literal.  An invalid UTF-8 sequence decodes to `U+FFFD`, which is no variant of an ASCII
character, and matches nothing here either. -/
def variantMatch (variants : Char → List Bytes) : Bytes → List Char → Bool
  | s, [] => s.isEmpty
  | s, c :: cs => (variants c).any fun v => v.isPrefixOf s && variantMatch variants (s.drop v.length) cs

/-- The UTF-8 encodings of the runes that Unicode simple folding puts in the case-folding
orbit of the ASCII character `c`: its lower and upper case, and `ſ` (U+017F) for `s`, the
Kelvin sign (U+212A) for `k`. -/
def foldVariants (c : Char) : List Bytes :=
  [[charByte c.toLower], [charByte c.toUpper]] ++
    (if c.toLower = 's' then [[0xC5, 0xBF]] else []) ++
    (if c.toLower = 'k' then [[0xE2, 0x84, 0xAA]] else [])

/-- The UTF-8 encodings of the runes that `unicode.ToLower` maps to the lower-case ASCII
character `c`: `c` and its upper case, the Kelvin sign (U+212A) for `k`, and `İ` (U+0130)
for `i`. -/
def lowerVariants (c : Char) : List Bytes :=
  [[charByte c], [charByte c.toUpper]] ++
    (if c = 'k' then [[0xE2, 0x84, 0xAA]] else []) ++
    (if c = 'i' then [[0xC4, 0xB0]] else [])

/-- The `strings.EqualFold(s, lit)` call of the source, `lit` an ASCII literal. -/
def equalFold (s : Bytes) (lit : String) : Bool := variantMatch foldVariants s lit.toList

/-- `strings.ToLower(s) == lit` for a lower-case ASCII literal `lit`. -/
def lowerEq (s : Bytes) (lit : String) : Bool := variantMatch lowerVariants s lit.toList

theorem variantMatch_self (variants : Char → List Bytes) (cs : List Char)
    (h : ∀ c ∈ cs, [charByte c] ∈ variants c) :
    variantMatch variants (cs.map charByte) cs = true := by
  induction cs with
  | nil => rfl
  | cons c cs ih =>
      simp only [variantMatch, List.map_cons, List.any_eq_true, Bool.and_eq_true]
      refine ⟨[charByte c], h c (by simp), by simp [List.isPrefixOf], ?_⟩
      simpa using ih fun c' hc' => h c' (by simp [hc'])

/-- Every lower-case ASCII literal is `EqualFold` to its own bytes. -/
theorem equalFold_ascii_self (s : String) (h : ∀ c ∈ s.toList, c.toLower = c) :
    equalFold (ascii s) s = true :=
  variantMatch_self foldVariants s.toList fun c hc => by simp [foldVariants, h c hc]

/-! ### Go's 64-bit `int` -/

/-- The value of a Go `int` computed as the mathematical integer `i`: the representative of
`i` modulo `2 ^ 64` in `[-2 ^ 63, 2 ^ 63)`. -/
def wrapInt64 (i : ℤ) : ℤ := (i + 2 ^ 63) % 2 ^ 64 - 2 ^ 63

/-- The range of a Go `int`. -/
def InInt64 (i : ℤ) : Prop := -2 ^ 63 ≤ i ∧ i < 2 ^ 63

instance (i : ℤ) : Decidable (InInt64 i) := inferInstanceAs (Decidable (_ ∧ _))

end EchoVault
