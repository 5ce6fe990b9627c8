/-
**The RESP framing grammar.**

Clients and the server speak the Redis serialization protocol: a value is a simple string
`+…\r\n`, an error `-…\r\n`, an integer `:n\r\n`, a bulk string `$n\r\n…\r\n` carrying exactly
`n` bytes, the null bulk string `$-1\r\n`, an array `*n\r\n` followed by exactly `n` values, or
the null array `*-1\r\n`.  Every reply of a command handler is meant to be exactly one such
value, and `EncodeCommand` writes a command as an array of bulk strings, which is also the
record format of the append-only log.

The grammar is given twice: by the encoder `Resp.encode`, and by the parser `parseValue`,
which reads one value off the front of a byte string and returns what is left.  A byte string
is one complete RESP value when the parser reads a value from it and nothing is left
(`Resp.Complete`).

Main definitions:

* `EchoVault.Resp` — RESP values; `EchoVault.Resp.encode` — their wire form;
* `EchoVault.splitLine`, `EchoVault.parseValue` — the framing parser;
* `EchoVault.Resp.Complete` — a byte string is exactly one complete RESP value;
* `EchoVault.encodeCommand` — `EncodeCommand` of `internal/utils.go`.

Main results:

* `EchoVault.Resp.encode_ends_crlf` — every encoded value ends in CRLF;
* `EchoVault.Resp.not_complete_of_not_crlf` — a byte string that does not end in CRLF is not
  one complete RESP value;
* `EchoVault.Resp.parseValue_encode` — the parser reads back every value the encoder writes,
  and leaves what follows;
* `EchoVault.Resp.complete_encode` — an encoded value is one complete RESP value;
* `EchoVault.encodeCommand_eq` — `EncodeCommand` is the encoding of an array of bulk strings;
* `EchoVault.encodeCommand_complete` — `EncodeCommand` writes one complete RESP value.
-/

import EchoVault.Bytes

set_option relaxedAutoImplicit false
set_option autoImplicit false

namespace EchoVault

/-- A RESP value. -/
inductive Resp where
  | simple (s : Bytes)
  | error (s : Bytes)
  | integer (i : ℤ)
  | bulk (s : Bytes)
  | nullBulk
  | array (xs : List Resp)
  | nullArray

namespace Resp

mutual

/-- The wire form of a RESP value. -/
def encode : Resp → Bytes
  | simple s => ascii "+" ++ s ++ crlf
  | error s => ascii "-" ++ s ++ crlf
  | integer i => ascii ":" ++ fmtInt i ++ crlf
  | bulk s => ascii "$" ++ decimal s.length ++ crlf ++ s ++ crlf
  | nullBulk => ascii "$-1" ++ crlf
  | array xs => ascii "*" ++ decimal xs.length ++ crlf ++ encodeList xs
  | nullArray => ascii "*-1" ++ crlf

/-- The elements of an array, one after the other. -/
def encodeList : List Resp → Bytes
  | [] => []
  | x :: xs => encode x ++ encodeList xs

end

@[simp] theorem encodeList_nil : encodeList [] = [] := by simp [encodeList]

@[simp] theorem encodeList_cons (x : Resp) (xs : List Resp) :
    encodeList (x :: xs) = encode x ++ encodeList xs := by simp [encodeList]

theorem encodeList_eq (xs : List Resp) : encodeList xs = (xs.map encode).flatten := by
  induction xs with
  | nil => simp
  | cons x xs ih => simp [ih]

end Resp

/-! ### The parser -/

/-- The line at the front of `b`, up to its first CRLF, and what follows the CRLF.  A line of
the framing grammar holds no CR and no LF byte. -/
def splitLine : Bytes → Option (Bytes × Bytes)
  | [] => none
  | b :: rest =>
      if b = cr then
        match rest with
        | c :: rest' => if c = lf then some ([], rest') else none
        | [] => none
      else if b = lf then none
      else (splitLine rest).map fun p => (b :: p.1, p.2)

/-- The value of a non-empty string of decimal digits. -/
def parseDigits (b : Bytes) : Option ℕ :=
  if b ≠ [] ∧ ∀ c ∈ b, 48 ≤ c ∧ c ≤ 57 then
    some (b.foldl (fun n c => 10 * n + (c - 48).toNat) 0)
  else none

/-- The value of an integer line: an optional minus sign and decimal digits. -/
def parseInteger : Bytes → Option ℤ
  | 45 :: ds => (parseDigits ds).map fun n => -(n : ℤ)
  | ds => (parseDigits ds).map fun n => (n : ℤ)

/-- Reads `n` values one after the other, each with `p`. -/
def parseMany (p : Bytes → Option (Resp × Bytes)) : ℕ → Bytes → Option (List Resp × Bytes)
  | 0, b => some ([], b)
  | n + 1, b => (p b).bind fun (x, r) => (parseMany p n r).map fun (xs, r') => (x :: xs, r')

/-- Reads one RESP value off the front of a byte string; `fuel` bounds the nesting. -/
def parseValue : ℕ → Bytes → Option (Resp × Bytes)
  | 0, _ => none
  | _ + 1, [] => none
  | fuel + 1, t :: rest =>
      (splitLine rest).bind fun (line, rest') =>
        if t = charByte '+' then some (.simple line, rest')
        else if t = charByte '-' then some (.error line, rest')
        else if t = charByte ':' then (parseInteger line).map fun i => (.integer i, rest')
        else if t = charByte '$' then
          if line = ascii "-1" then some (.nullBulk, rest')
          else (parseDigits line).bind fun n =>
            if (rest'.drop n).take 2 = crlf ∧ n ≤ rest'.length then
              some (.bulk (rest'.take n), rest'.drop (n + 2))
            else none
        else if t = charByte '*' then
          if line = ascii "-1" then some (.nullArray, rest')
          else (parseDigits line).bind fun n =>
            (parseMany (parseValue fuel) n rest').map fun (xs, r) => (.array xs, r)
        else none

namespace Resp

/-- `b` is exactly one complete RESP value: the parser reads a value from it, with any amount
of fuel, and no byte is left over. -/
def Complete (b : Bytes) : Prop := ∃ fuel v, parseValue fuel b = some (v, [])

mutual

/-- **Every encoded value ends in CRLF.** -/
theorem encode_ends_crlf : ∀ v : Resp, crlf <:+ encode v
  | simple s => ⟨ascii "+" ++ s, by simp [encode]⟩
  | error s => ⟨ascii "-" ++ s, by simp [encode]⟩
  | integer i => ⟨ascii ":" ++ fmtInt i, by simp [encode]⟩
  | bulk s => ⟨ascii "$" ++ decimal s.length ++ crlf ++ s, by simp [encode]⟩
  | nullBulk => List.suffix_append _ _
  | array xs => by
      rcases encodeList_ends_crlf xs with h | h
      · simp only [encode, h, List.append_nil]
        exact List.suffix_append _ _
      · exact h.trans (List.suffix_append _ _)
  | nullArray => List.suffix_append _ _

/-- The elements of an array are empty or end in CRLF. -/
theorem encodeList_ends_crlf : ∀ xs : List Resp, encodeList xs = [] ∨ crlf <:+ encodeList xs
  | [] => .inl (by simp)
  | x :: xs => by
      rcases encodeList_ends_crlf xs with h | h
      · exact .inr (by simpa [h] using encode_ends_crlf x)
      · exact .inr (by simpa using h.trans (List.suffix_append _ _))

end

end Resp

/-- The line at the front of `b` ends in the CRLF that `splitLine` consumes. -/
theorem splitLine_eq {b line rest : Bytes} (h : splitLine b = some (line, rest)) :
    b = line ++ crlf ++ rest := by
  induction b generalizing line rest with
  | nil => simp [splitLine] at h
  | cons x b ih =>
      simp only [splitLine] at h
      split at h
      · rename_i hx
        split at h
        · split at h
          · cases h; subst hx; simp_all [crlf]
          · cases h
        · cases h
      · split at h
        · cases h
        · obtain ⟨⟨l, r⟩, hlr, e⟩ := Option.map_eq_some'.1 h
          cases e
          simp [ih hlr]

/-- What `parseMany` reads ends in CRLF, unless it read nothing, when every value `p` reads
does. -/
theorem parseMany_ends_crlf {p : Bytes → Option (Resp × Bytes)}
    (hp : ∀ b v r, p b = some (v, r) → ∃ q, b = q ++ r ∧ crlf <:+ q) :
    ∀ (n : ℕ) (b : Bytes) (xs : List Resp) (r : Bytes),
      parseMany p n b = some (xs, r) → (∃ q, b = q ++ r ∧ crlf <:+ q) ∨ (xs = [] ∧ b = r)
  | 0, b, xs, r, h => by
      simp only [parseMany, Option.some.injEq, Prod.mk.injEq] at h
      exact .inr ⟨h.1.symm, h.2⟩
  | n + 1, b, xs, r, h => by
      simp only [parseMany, Option.bind_eq_some] at h
      obtain ⟨⟨x, r₁⟩, h₁, h⟩ := h
      dsimp only at h
      obtain ⟨⟨ys, r₂⟩, h₂, e⟩ := Option.map_eq_some'.1 h
      cases e
      obtain ⟨q, hq, hs⟩ := hp b x r₁ h₁
      rcases parseMany_ends_crlf hp n r₁ ys r₂ h₂ with ⟨q', hq', hs'⟩ | ⟨-, e⟩
      · exact .inl ⟨q ++ q', by simp [hq, hq'], hs'.trans (List.suffix_append q q')⟩
      · exact .inl ⟨q, by simp [hq, e], hs⟩

/-- What the parser reads ends in CRLF. -/
theorem parseValue_ends_crlf : ∀ (fuel : ℕ) (b : Bytes) (v : Resp) (r : Bytes),
    parseValue fuel b = some (v, r) → ∃ p, b = p ++ r ∧ crlf <:+ p
  | 0, _, _, _, h => nomatch h
  | _ + 1, [], _, _, h => nomatch h
  | fuel + 1, t :: rest, v, r, h => by
      simp only [parseValue, Option.bind_eq_some] at h
      obtain ⟨⟨line, rest'⟩, hl, h⟩ := h
      dsimp only at h
      have hb := splitLine_eq hl
      have head : ∃ p, t :: rest = p ++ rest' ∧ crlf <:+ p :=
        ⟨t :: line ++ crlf, by simp [hb], List.suffix_append _ _⟩
      by_cases h1 : t = charByte '+'
      · rw [if_pos h1] at h; cases h; exact head
      rw [if_neg h1] at h
      by_cases h2 : t = charByte '-'
      · rw [if_pos h2] at h; cases h; exact head
      rw [if_neg h2] at h
      by_cases h3 : t = charByte ':'
      · rw [if_pos h3] at h
        obtain ⟨i, -, e⟩ := Option.map_eq_some'.1 h
        cases e; exact head
      rw [if_neg h3] at h
      split at h
      · split at h
        · cases h; exact head
        obtain ⟨n, -, h⟩ := Option.bind_eq_some.1 h
        split at h
        · rename_i hn
          cases h
          refine ⟨t :: line ++ crlf ++ rest'.take (n + 2), ?_, ?_⟩
          · simp [hb]
          · rw [List.take_add, hn.1]
            exact ⟨t :: line ++ crlf ++ rest'.take n, by simp⟩
        · cases h
      split at h
      · split at h
        · cases h; exact head
        obtain ⟨n, -, h⟩ := Option.bind_eq_some.1 h
        obtain ⟨⟨xs, r'⟩, hxs, e⟩ := Option.map_eq_some'.1 h
        cases e
        obtain ⟨p, hp, hs⟩ := head
        rcases parseMany_ends_crlf (parseValue_ends_crlf fuel) n rest' xs r' hxs with
          ⟨q, hq, hq'⟩ | e
        · exact ⟨p ++ q, by simp [hp, hq], hq'.trans (List.suffix_append p q)⟩
        · exact ⟨p, by simp [hp, e.2], hs⟩
      · cases h

namespace Resp

/-- **A byte string that does not end in CRLF is not one complete RESP value.** -/
theorem not_complete_of_not_crlf {b : Bytes} (h : ¬ crlf <:+ b) : ¬ Complete b := by
  rintro ⟨fuel, v, hv⟩
  obtain ⟨p, hp, hs⟩ := parseValue_ends_crlf fuel b v [] hv
  exact h (by simpa [hp] using hs)

end Resp

/-! ### The parser reads back what the encoder writes -/

namespace Resp

mutual

/-- No simple string or error in the value holds a CR or an LF byte, which would end its line
early.  The encoder writes such a value so that the parser reads it back. -/
def lineFree : Resp → Bool
  | simple s | error s => decide (cr ∉ s) && decide (lf ∉ s)
  | array xs => lineFreeList xs
  | _ => true

/-- Every element is `lineFree`. -/
def lineFreeList : List Resp → Bool
  | [] => true
  | x :: xs => lineFree x && lineFreeList xs

end

end Resp

/-- A decimal digit's byte, less `'0'`, is the digit. -/
theorem digitByte_sub {d : ℕ} (hd : d < 10) : (charByte (Nat.digitChar d) - 48).toNat = d := by
  have key : ∀ d < 10, ((48 : UInt8) + d.toUInt8 - 48).toNat = d := by decide
  rw [charByte_digitChar hd]
  exact key d hd

/-- The loop of `parseDigits` reads back the digits `Nat.toDigitsCore` writes. -/
theorem foldl_toDigitsCore : ∀ (fuel n : ℕ) (ds : List Char), n < fuel →
    ((Nat.toDigitsCore 10 fuel n ds).map charByte).foldl (fun n c => 10 * n + (c - 48).toNat) 0 =
      (ds.map charByte).foldl (fun n c => 10 * n + (c - 48).toNat) n
  | 0, n, _, h => absurd h (Nat.not_lt_zero n)
  | fuel + 1, n, ds, h => by
      unfold Nat.toDigitsCore
      have hd := digitByte_sub (Nat.mod_lt n (by decide : 10 > 0))
      dsimp only
      split
      · simp only [List.map_cons, List.foldl_cons, hd]
        congr 1
        omega
      · rw [foldl_toDigitsCore fuel (n / 10) _ (by omega)]
        simp only [List.map_cons, List.foldl_cons, hd]
        congr 1
        omega

theorem parseDigits_decimal (n : ℕ) : parseDigits (decimal n) = some n := by
  have digit : ∀ d < 10, (48 : UInt8) ≤ 48 + d.toUInt8 ∧ 48 + d.toUInt8 ≤ 57 := by decide
  have hdig : ∀ c ∈ decimal n, 48 ≤ c ∧ c ≤ 57 := fun c hc => by
    obtain ⟨d, hd, rfl⟩ := mem_decimal hc
    exact digit d hd
  rw [parseDigits, if_pos ⟨decimal_ne_nil n, hdig⟩, decimal, Nat.toDigits,
    foldl_toDigitsCore _ _ _ (Nat.lt_succ_self n)]
  rfl

theorem parseInteger_fmtInt (i : ℤ) : parseInteger (fmtInt i) = some i := by
  unfold fmtInt
  split
  · show parseInteger (45 :: decimal i.natAbs) = some i
    simp [parseInteger, parseDigits_decimal, Int.ofNat_natAbs_of_nonpos (by omega : i ≤ 0)]
  · obtain ⟨b, bs, hb⟩ : ∃ b bs, decimal i.natAbs = b :: bs :=
      List.exists_cons_of_ne_nil (decimal_ne_nil _)
    have h45 : b ≠ 45 := by
      obtain ⟨d, hd, rfl⟩ := mem_decimal (hb ▸ List.mem_cons_self b bs)
      have : ∀ d < 10, (48 : UInt8) + d.toUInt8 ≠ 45 := by decide
      exact this d hd
    rw [hb]
    unfold parseInteger
    split
    · rename_i heq
      exact absurd (List.cons.inj heq).1 h45
    · rw [← hb, parseDigits_decimal]
      simp [Int.natAbs_of_nonneg (by omega : 0 ≤ i)]

/-- `splitLine` cuts a line without CR and LF at its CRLF. -/
theorem splitLine_line {line : Bytes} (rest : Bytes) (hcr : cr ∉ line) (hlf : lf ∉ line) :
    splitLine (line ++ (crlf ++ rest)) = some (line, rest) := by
  induction line with
  | nil => rfl
  | cons x line ih =>
      simp only [List.mem_cons, not_or] at hcr hlf
      simp [splitLine, Ne.symm hcr.1, Ne.symm hlf.1, ih hcr.2 hlf.2]

theorem cr_not_mem_fmtInt (i : ℤ) : cr ∉ fmtInt i := by
  unfold fmtInt
  split
  · simp [cr_not_mem_decimal]
    decide
  · exact cr_not_mem_decimal _

theorem lf_not_mem_fmtInt (i : ℤ) : lf ∉ fmtInt i := by
  unfold fmtInt
  split
  · simp [lf_not_mem_decimal]
    decide
  · exact lf_not_mem_decimal _

/-- A length line is never the `-1` of a null value. -/
theorem decimal_ne_minusOne (n : ℕ) : decimal n ≠ ascii "-1" := fun h => by
  obtain ⟨d, hd, e⟩ := mem_decimal (h ▸ List.mem_cons_self 45 [49] : (45 : UInt8) ∈ decimal n)
  have : ∀ d < 10, (45 : UInt8) ≠ 48 + d.toUInt8 := by decide
  exact this d hd e

/-- The bytes that tag the RESP types, and the lines of the null values. -/
theorem tagBytes : charByte '+' = 43 ∧ charByte '-' = 45 ∧ charByte ':' = 58 ∧ charByte '$' = 36 ∧
    charByte '*' = 42 ∧ ascii "+" = [43] ∧ ascii "-" = [45] ∧ ascii ":" = [58] ∧ ascii "$" = [36] ∧
    ascii "*" = [42] ∧ ascii "$-1" = [36, 45, 49] ∧ ascii "*-1" = [42, 45, 49] := by
  decide

namespace Resp

mutual

/-- **The parser reads back what the encoder writes**, and leaves what follows: for every value
without a CR or LF in its simple strings and errors, with more fuel than the encoding has
bytes. -/
theorem parseValue_encode : ∀ (v : Resp) (fuel : ℕ) (rest : Bytes), v.lineFree = true →
    (encode v).length < fuel → parseValue fuel (encode v ++ rest) = some (v, rest)
  | _, 0, _, _, h => absurd h (Nat.not_lt_zero _)
  | simple s, fuel + 1, rest, hv, _ => by
      simp only [lineFree, Bool.and_eq_true, decide_eq_true_eq] at hv
      have e : encode (simple s) ++ rest = 43 :: (s ++ (crlf ++ rest)) := by simp [encode, tagBytes]
      rw [e, parseValue, splitLine_line _ hv.1 hv.2]
      rfl
  | error s, fuel + 1, rest, hv, _ => by
      simp only [lineFree, Bool.and_eq_true, decide_eq_true_eq] at hv
      have e : encode (error s) ++ rest = 45 :: (s ++ (crlf ++ rest)) := by simp [encode, tagBytes]
      rw [e, parseValue, splitLine_line _ hv.1 hv.2]
      rfl
  | integer i, fuel + 1, rest, _, _ => by
      have e : encode (integer i) ++ rest = 58 :: (fmtInt i ++ (crlf ++ rest)) := by
        simp [encode, tagBytes]
      rw [e, parseValue, splitLine_line _ (cr_not_mem_fmtInt i) (lf_not_mem_fmtInt i)]
      simp [tagBytes, parseInteger_fmtInt]
  | bulk s, fuel + 1, rest, _, _ => by
      have e : encode (bulk s) ++ rest = 36 :: (decimal s.length ++ (crlf ++ (s ++ (crlf ++ rest)))) := by
        simp [encode, tagBytes]
      rw [e, parseValue, splitLine_line _ (cr_not_mem_decimal _) (lf_not_mem_decimal _)]
      simp [tagBytes, decimal_ne_minusOne, parseDigits_decimal, crlf]
  | nullBulk, fuel + 1, rest, _, _ => rfl
  | array xs, fuel + 1, rest, hv, h => by
      simp only [encode, List.length_append, tagBytes, crlf, List.length_cons, List.length_nil] at h
      have e : encode (array xs) ++ rest = 42 :: (decimal xs.length ++ (crlf ++ (encodeList xs ++ rest))) := by
        simp [encode, tagBytes]
      rw [e, parseValue, splitLine_line _ (cr_not_mem_decimal _) (lf_not_mem_decimal _)]
      simp [tagBytes, decimal_ne_minusOne, parseDigits_decimal, parseMany_encodeList xs fuel rest hv (by omega)]
  | nullArray, fuel + 1, rest, _, _ => rfl

/-- The elements of an array, read back one after the other. -/
theorem parseMany_encodeList : ∀ (xs : List Resp) (fuel : ℕ) (rest : Bytes), lineFreeList xs = true →
    (encodeList xs).length < fuel →
      parseMany (parseValue fuel) xs.length (encodeList xs ++ rest) = some (xs, rest)
  | [], _, _, _, _ => rfl
  | x :: xs, fuel, rest, hv, h => by
      simp only [lineFreeList, Bool.and_eq_true] at hv
      simp only [encodeList_cons, List.length_append] at h
      simp [parseMany, parseValue_encode x fuel _ hv.1 (by omega),
        parseMany_encodeList xs fuel rest hv.2 (by omega)]

end

/-- **An encoded value is one complete RESP value.** -/
theorem complete_encode {v : Resp} (hv : v.lineFree = true) : Complete (encode v) :=
  ⟨(encode v).length + 1, v, by simpa using parseValue_encode v _ [] hv (Nat.lt_succ_self _)⟩

theorem lineFreeList_map_bulk (xs : List Bytes) : lineFreeList (xs.map bulk) = true := by
  induction xs with
  | nil => rfl
  | cons _ _ ih => simpa [lineFreeList, lineFree] using ih

end Resp


/-! ### `EncodeCommand` -/

/-- `EncodeCommand` (`internal/utils.go`): `"*%d\r\n"` with the number of tokens, then
`"$%d\r\n%s\r\n"` for each token. -/
def encodeCommand (cmd : List Bytes) : Bytes :=
  ascii "*" ++ decimal cmd.length ++ crlf ++
    (cmd.map fun token => ascii "$" ++ decimal token.length ++ crlf ++ token ++ crlf).flatten

/-- `EncodeCommand` writes the command as an array of bulk strings. -/
theorem encodeCommand_eq (cmd : List Bytes) :
    encodeCommand cmd = (Resp.array (cmd.map .bulk)).encode := by
  simp [encodeCommand, Resp.encode, Resp.encodeList_eq, Function.comp_def]

/-- The parser reads a command back from what `EncodeCommand` writes, and nothing more. -/
theorem parseValue_encodeCommand (cmd : List Bytes) (fuel : ℕ) (rest : Bytes)
    (h : (encodeCommand cmd).length < fuel) :
    parseValue fuel (encodeCommand cmd ++ rest) = some (.array (cmd.map .bulk), rest) := by
  rw [encodeCommand_eq] at h ⊢
  exact Resp.parseValue_encode _ fuel rest (Resp.lineFreeList_map_bulk cmd) h

/-- **`EncodeCommand` writes one complete RESP value**, on every command, the empty one included. -/
theorem encodeCommand_complete (cmd : List Bytes) : Resp.Complete (encodeCommand cmd) :=
  encodeCommand_eq cmd ▸ Resp.complete_encode (Resp.lineFreeList_map_bulk cmd)

end EchoVault
