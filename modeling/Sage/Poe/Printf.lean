import Sage.Types.Message

/-! # The text conversions of POE (`snprintf`, `sprintf`, `strftime`)

POE renders every number it writes, to the audit log and to the FIX wire, with a `printf`
conversion. Text is a `List Char`; every character POE writes is ASCII, so a character is
one byte.

* **`decimal`** — `%llu` / `%lu` / `%zu`: the decimal digits, no padding; **`digitsVal`**
  reads them back (`digitsVal_decimal`).
* **`zeroPad3`** — `%03zu` / `%03u`.
* **`DoubleText`**, **`DoubleText.render`** — what `%.8f` prints for a `double`: the three
  shapes its rendering can take.
* **`fixed8`**, **`FixedPoint.toDoubleText`** — `%.8f` of `to_double()`: the `double` of
  `Sage.Core.Binary64` times `10^8`, rounded to nearest, a tie to even.
* **`toDoubleText_of_lt`** — below `2^26 · 10^8` the rendering is the exact decimal of
  `raw / 10^8`; above, the two roundings can move the last digit.
* **`Tm`**, **`strftimeUtc`** — `strftime(buf, 32, "%Y-%m-%dT%H:%M:%SZ", gmtime(&now))`. -/

namespace Sage

/-! ## Decimal integers -/

/-- The digit character of `d < 10`. -/
def digitChar (d : Nat) : Char := Char.ofNat (48 + d)

/-- The decimal digits of `n`, given more `fuel` than `n` has digits. -/
def decimalAux : Nat → Nat → List Char
  | 0, _ => []
  | fuel + 1, n => (if n < 10 then [] else decimalAux fuel (n / 10)) ++ [digitChar (n % 10)]

/-- `%llu`: the decimal rendering of `n`, most significant digit first, no leading zero. -/
def decimal (n : Nat) : List Char := decimalAux (n + 1) n

theorem decimalAux_eq_decimal (n : Nat) : ∀ fuel, n < fuel → decimalAux fuel n = decimal n := by
  induction n using Nat.strong_induction_on with
  | _ n ih =>
    intro fuel h
    obtain ⟨k, rfl⟩ : ∃ k, fuel = k + 1 := ⟨fuel - 1, by omega⟩
    simp only [decimal, decimalAux]
    split
    · rfl
    · rw [ih (n / 10) (by omega) k (by omega), ih (n / 10) (by omega) n (by omega)]

theorem decimal_eq (n : Nat) :
    decimal n = (if n < 10 then [] else decimal (n / 10)) ++ [digitChar (n % 10)] := by
  conv_lhs => simp only [decimal, decimalAux]
  split
  · rfl
  · rw [decimalAux_eq_decimal (n / 10) n (by omega)]

/-- `c` is one of `0`–`9`. -/
def isDigit (c : Char) : Bool := 48 ≤ c.toNat && c.toNat ≤ 57

theorem digitChar_toNat {d : Nat} (h : d < 10) : (digitChar d).toNat = 48 + d := by
  interval_cases d <;> rfl

theorem isDigit_digitChar {d : Nat} (h : d < 10) : isDigit (digitChar d) = true := by
  simp only [isDigit, digitChar_toNat h, Bool.and_eq_true, decide_eq_true_eq]; omega

/-- Every character of a decimal rendering is a digit. -/
theorem isDigit_of_mem_decimal (n : Nat) : ∀ c ∈ decimal n, isDigit c = true := by
  induction n using Nat.strong_induction_on with
  | _ n ih =>
    rw [decimal_eq]
    intro c hc
    simp only [List.mem_append, List.mem_singleton] at hc
    rcases hc with hc | rfl
    · split at hc
      · simp at hc
      · exact ih (n / 10) (by omega) c hc
    · exact isDigit_digitChar (Nat.mod_lt _ (by omega))

/-- The value of a digit string, `none` when a character is not a digit. -/
def digitsVal (l : List Char) : Option Nat :=
  l.foldl (fun acc c => acc.bind fun v =>
    if isDigit c then some (10 * v + (c.toNat - 48)) else none) (some 0)

theorem digitsVal_append_singleton (l : List Char) (c : Char) :
    digitsVal (l ++ [c]) = (digitsVal l).bind fun v =>
      if isDigit c then some (10 * v + (c.toNat - 48)) else none := by
  simp [digitsVal, List.foldl_append]

/-- **`%llu` reads back.** -/
theorem digitsVal_decimal (n : Nat) : digitsVal (decimal n) = some n := by
  induction n using Nat.strong_induction_on with
  | _ n ih =>
    have hd := Nat.mod_lt n (show 10 > 0 by omega)
    rw [decimal_eq, digitsVal_append_singleton, isDigit_digitChar hd, digitChar_toNat hd]
    split
    · simp only [digitsVal, List.foldl_nil, Option.some_bind, if_true, Option.some.injEq]
      omega
    · rw [ih (n / 10) (by omega)]
      simp only [Option.some_bind, if_true, Option.some.injEq]
      omega

/-- A number below `10^(k+1)` has at most `k + 1` digits. -/
theorem length_decimal_le (n k : Nat) (h : n < 10 ^ (k + 1)) : (decimal n).length ≤ k + 1 := by
  induction k generalizing n with
  | zero => rw [decimal_eq, if_pos (by simpa using h)]; simp
  | succ k ih =>
    rw [decimal_eq]
    split
    · simp
    · have := ih (n / 10) (by rw [Nat.pow_succ] at h; omega)
      simp only [List.length_append, List.length_singleton]
      omega

/-- `%03u`: at least three digits, zero-padded on the left. -/
def zeroPad3 (n : Nat) : List Char :=
  List.replicate (3 - (decimal n).length) '0' ++ decimal n

/-! ## `%.8f` -/

/-- What `printf("%.8f", d)` prints for a `double` `d`: a finite value rounded to eight
decimals (sign, integer part, eight fraction digits), or an infinity or a NaN, each with its
sign. -/
inductive DoubleText
  | finite (neg : Bool) (intPart frac : Nat) (frac_lt : frac < 10 ^ 8)
  | inf (neg : Bool)
  | nan (neg : Bool)

/-- The characters `%.8f` writes. -/
def DoubleText.render : DoubleText → List Char
  | .finite neg i f _ =>
    (if neg then ['-'] else []) ++ decimal i ++ ['.'] ++
      (List.replicate (8 - (decimal f).length) '0' ++ decimal f)
  | .inf neg => (if neg then ['-'] else []) ++ "inf".toList
  | .nan neg => (if neg then ['-'] else []) ++ "nan".toList

/-- The rounding of `%.8f` for a `double` magnitude `d`: `d · 10^8` to the nearest integer, a
tie to even (glibc rounds the exact binary value in the current, round-to-nearest, mode). -/
def fixed8 (d : Dyadic) : Nat :=
  divRoundEven (d.sig * 10 ^ 8 * 2 ^ d.exp.toNat) (2 ^ (-d.exp).toNat)

/-- `%.8f` of a finite `double` given by its sign and magnitude. -/
def DoubleText.ofDouble (d : Bool × Dyadic) : DoubleText :=
  .finite d.1 (fixed8 d.2 / 10 ^ 8) (fixed8 d.2 % 10 ^ 8) (Nat.mod_lt _ (by norm_num))

/-- `%.8f` of `FixedPoint::to_double()`. -/
def FixedPoint.toDoubleText (x : FixedPoint) : DoubleText := .ofDouble x.toDouble

/-- `d · 10^8` as the quotient of naturals that `fixed8` rounds. -/
theorem Dyadic.val_mul_eq (d : Dyadic) :
    d.val * 10 ^ 8 =
      ((d.sig * 10 ^ 8 * 2 ^ d.exp.toNat : Nat) : ℚ) / ((2 ^ (-d.exp).toNat : Nat) : ℚ) := by
  rw [Dyadic.val, two_zpow_eq]
  push_cast
  ring

/-- The eight decimals are `d · 10^8` within half a unit. -/
theorem fixed8_err (d : Dyadic) : |(fixed8 d : ℚ) - d.val * 10 ^ 8| ≤ 1 / 2 := by
  rw [Dyadic.val_mul_eq]
  exact divRoundEven_spec _ (by positivity)

/-- A value within less than half a unit of `d · 10^8` is what `%.8f` prints. -/
theorem fixed8_eq {d : Dyadic} {v : Nat} (h : |d.val * 10 ^ 8 - v| < 1 / 2) : fixed8 d = v :=
  divRoundEven_eq (by positivity) (by rwa [← Dyadic.val_mul_eq])

/-- `PRICE_SCALE` as the `double` divisor. -/
theorem priceScale_toNat_cast : ((priceScale.val.toNat : Nat) : ℚ) = 10 ^ 8 := by
  rw [priceScale_val]; rfl

/-- **`%.8f` of a `FixedPoint` has at most 11 integer digits**: for every `int64_t`, both
roundings included, the printed digits read as one integer stay below `10^19`. -/
theorem fixed8_toDouble_lt (x : FixedPoint) : fixed8 x.toDouble.2 < 10 ^ 19 := by
  set v := x.value.val.natAbs
  have hw := roundQuotient_le v (b := 1) one_pos
  have hd := quotToDouble_le v (c := priceScale.val.toNat) (by rw [priceScale_val]; decide)
  have hN := (abs_le.mp (fixed8_err x.toDouble.2)).2
  have h₃ : (2 : ℚ) ^ 63 * (1 + 2 ^ (-53 : Int)) ^ 2 + 1 / 2 < 10 ^ 19 := by norm_num
  have hε : (0 : ℚ) ≤ 2 ^ (-53 : Int) := by positivity
  have hv : (v : ℚ) ≤ 2 ^ 63 := by
    have := x.value.le_val; have := x.value.val_lt
    exact_mod_cast (show v ≤ 2 ^ 63 by omega)
  rw [Nat.cast_one, div_one] at hw
  rw [priceScale_toNat_cast] at hd
  generalize (2 : ℚ) ^ (-53 : Int) = ε at *
  have h₁ : x.toDouble.2.val * 10 ^ 8 ≤ v * (1 + ε) ^ 2 :=
    calc x.toDouble.2.val * 10 ^ 8 ≤ (roundQuotient v 1).val / 10 ^ 8 * (1 + ε) * 10 ^ 8 :=
          mul_le_mul_of_nonneg_right hd (by norm_num)
      _ = (roundQuotient v 1).val * (1 + ε) := by ring
      _ ≤ v * (1 + ε) * (1 + ε) := mul_le_mul_of_nonneg_right hw (by linarith)
      _ = v * (1 + ε) ^ 2 := by ring
  have h₂ : (v : ℚ) * (1 + ε) ^ 2 ≤ 2 ^ 63 * (1 + ε) ^ 2 :=
    mul_le_mul_of_nonneg_right hv (by positivity)
  exact_mod_cast (show (fixed8 x.toDouble.2 : ℚ) < 10 ^ 19 by linarith)

/-- `%lu` of a `uint64_t`: at most 20 digits. -/
theorem length_decimal_toNat_le (x : BitVec 64) : (decimal x.toNat).length ≤ 20 :=
  length_decimal_le _ 19 (by have := x.isLt; omega)

/-- `%.8f` of an `int64_t` fixed-point value: sign, at most 11 integer digits, a point and 8
decimals. -/
theorem length_render_toDoubleText_le (x : FixedPoint) : x.toDoubleText.render.length ≤ 21 := by
  have h₁ := length_decimal_le _ 10 (show fixed8 x.toDouble.2 / 10 ^ 8 < 10 ^ 11 by
    have := fixed8_toDouble_lt x; omega)
  have h₂ := length_decimal_le (fixed8 x.toDouble.2 % 10 ^ 8) 7 (Nat.mod_lt _ (by norm_num))
  simp only [FixedPoint.toDoubleText, DoubleText.ofDouble, DoubleText.render, List.length_append,
    List.length_replicate, List.length_singleton]
  split <;> simp only [List.length_singleton, List.length_nil] <;> omega

/-- **Below `2^26 · 10^8` `%.8f` prints the exact decimal.** For a raw value of magnitude
below `2^26 · 10^8` (prices up to `67108864.0`): the `int64_t` converts exactly, the quotient by
`PRICE_SCALE` is within `2^-28` of `raw / 10^8`, and `%.8f` prints `raw / 10^8` to the last
digit. Above that bound the second rounding can move the last digit. -/
theorem toDoubleText_of_lt (x : FixedPoint) (h : x.raw.val.natAbs < 2 ^ 26 * 10 ^ 8) :
    x.toDoubleText = .finite (x.raw.val < 0) (x.raw.val.natAbs / 10 ^ 8)
      (x.raw.val.natAbs % 10 ^ 8) (Nat.mod_lt _ (by norm_num)) := by
  have hN : fixed8 x.toDouble.2 = x.raw.val.natAbs := by
    set v := x.raw.val.natAbs
    apply fixed8_eq
    have hw : (roundQuotient v 1).val = v := roundQuotient_int (by omega)
    set a := (roundQuotient v 1).sig * 2 ^ (roundQuotient v 1).exp.toNat
    set b := priceScale.val.toNat * 2 ^ (-(roundQuotient v 1).exp).toNat
    have hab : (a : ℚ) / b = v / 10 ^ 8 := by
      rw [Dyadic.quot_eq, hw, priceScale_toNat_cast]
    have hb : 0 < b := Nat.mul_pos (by rw [priceScale_val]; decide) (by positivity)
    have hd : x.toDouble.2 = roundQuotient a b := rfl
    rcases Nat.eq_zero_or_pos a with ha | ha
    · have hv0 : (v : ℚ) = 0 := by
        rw [ha, Nat.cast_zero, zero_div, eq_comm, div_eq_zero_iff] at hab
        exact hab.resolve_right (by norm_num)
      rw [hd, ha, roundQuotient_zero, hv0]; norm_num
    have he : binade a b < 26 := by
      have hlo := (binade_spec ha hb).1
      have hb' : (0 : ℚ) < b := by exact_mod_cast hb
      have hlt : (a : ℚ) / b < 2 ^ (26 : Int) := by
        rw [hab, div_lt_iff₀ (by norm_num)]
        exact_mod_cast h
      rw [div_lt_iff₀ hb', mul_comm] at hlt
      exact (zpow_lt_zpow_iff_right₀ (one_lt_two : (1 : ℚ) < 2)).mp
        (lt_of_mul_lt_mul_left (hlo.trans_lt hlt) hb'.le)
    have hd' : |x.toDouble.2.val - v / 10 ^ 8| ≤ 2 ^ (-28 : Int) := by
      rw [hd, ← hab]
      exact (roundQuotient_err a hb).trans (zpow_le_zpow_right₀ one_le_two (by omega))
    rw [show x.toDouble.2.val * 10 ^ 8 - v = 10 ^ 8 * (x.toDouble.2.val - v / 10 ^ 8) by ring,
      abs_mul, abs_of_pos (by norm_num)]
    calc (10 : ℚ) ^ 8 * |x.toDouble.2.val - v / 10 ^ 8| ≤ 10 ^ 8 * 2 ^ (-28 : Int) :=
          mul_le_mul_of_nonneg_left hd' (by norm_num)
      _ < 1 / 2 := by norm_num
  simp only [FixedPoint.toDoubleText, DoubleText.ofDouble, hN]
  rfl

/-- Just above the bound the last digit moves: `67108864.04938268` prints as `…269`. -/
example : (FixedPoint.toDoubleText ⟨6710886404938268⟩).render = "67108864.04938269".toList := by
  decide

/-- Above `2^53` the conversion of the `int64_t` rounds too. -/
example : (FixedPoint.toDoubleText ⟨123456789012345678⟩).render =
    "1234567890.12345672".toList := by
  decide

/-! ## UTC timestamps -/

/-- The fields of the `struct tm` that `gmtime` returns and the format reads, with their
ranges. `gmtime` fails for years past `INT_MAX + 1900`. -/
structure Tm where
  year : Nat
  month : Nat
  day : Nat
  hour : Nat
  minute : Nat
  second : Nat
  year_lt : year < 2147485548
  month_lt : month < 13
  day_lt : day < 32
  hour_lt : hour < 24
  minute_lt : minute < 60
  second_lt : second < 61

/-- `%m`, `%d`, `%H`, `%M`, `%S`: two digits, zero-padded. -/
def pad2 (n : Nat) : List Char := if n < 10 then '0' :: decimal n else decimal n

/-- `get_timestamp_utc`: `strftime(buf, 32, "%Y-%m-%dT%H:%M:%SZ", gmtime(&now))`. -/
def strftimeUtc (t : Tm) : List Char :=
  decimal t.year ++ ['-'] ++ pad2 t.month ++ ['-'] ++ pad2 t.day ++ ['T'] ++ pad2 t.hour ++
    [':'] ++ pad2 t.minute ++ [':'] ++ pad2 t.second ++ ['Z']

end Sage
