import Mathlib

/-! # `double` arithmetic, as far as the sources use it

POE prints every price and quantity with `%.8f` of `FixedPoint::to_double()`, that is of
`static_cast<double>(value) / PRICE_SCALE`: the `int64_t` is rounded to a `double`, and the
quotient is rounded again. This module models a non-negative `double` as `sig · 2^exp` with a
53-bit significand and IEEE round-to-nearest, ties-to-even; the exponent range is left out,
since no `int64_t` and no quotient of one by `10^8` comes near an overflow or a subnormal.

* **`divRoundEven`** — an integer quotient rounded to nearest, a tie to even, within half a
  unit (`divRoundEven_spec`).
* **`binade`** — the `e` with `2^e ≤ a / b < 2^(e + 1)`, computed from bit lengths
  (`binade_spec`).
* **`Dyadic`**, **`roundQuotient`** — a `double` magnitude and the rounding of `a / b` to one;
  the error is at most `2^(e - 53)` (`roundQuotient_err`), so the relative error is at most
  `2^-53` (`roundQuotient_le`), and integers below `2^53` convert exactly
  (`roundQuotient_int`).
* **`quotToDouble`** — `static_cast<double>(v) / c`: both roundings. -/

namespace Sage

/-! ## (1) Rounding an integer quotient -/

/-- `a / b` rounded to the nearest integer, a tie to the even one. -/
def divRoundEven (a b : Nat) : Nat :=
  if 2 * (a % b) < b then a / b
  else if b < 2 * (a % b) then a / b + 1
  else if a / b % 2 = 0 then a / b else a / b + 1

/-- **The rounding error is at most half a unit.** Over the integers, `2 |M b - a| ≤ b`. -/
theorem divRoundEven_spec (a : Nat) {b : Nat} (hb : 0 < b) :
    |(divRoundEven a b : ℚ) - a / b| ≤ 1 / 2 := by
  have key : -(b : Int) ≤ 2 * ((divRoundEven a b : Int) * b - a) ∧
      2 * ((divRoundEven a b : Int) * b - a) ≤ b := by
    unfold divRoundEven
    have hdm := Nat.div_add_mod a b
    have hr := Nat.mod_lt a hb
    generalize a / b = q at *
    generalize a % b = r at *
    subst hdm
    split_ifs <;> push_cast <;> constructor <;> zify at * <;> linarith
  have hb' : (0 : ℚ) < b := by exact_mod_cast hb
  have q₁ : -(b : ℚ) ≤ 2 * ((divRoundEven a b : ℚ) * b - a) := by exact_mod_cast key.1
  have q₂ : 2 * ((divRoundEven a b : ℚ) * b - a) ≤ b := by exact_mod_cast key.2
  rw [← mul_div_cancel_right₀ (divRoundEven a b : ℚ) hb'.ne', ← sub_div, abs_div,
    abs_of_pos hb', div_le_iff₀ hb', abs_le]
  constructor <;> linarith

/-- A natural within less than half a unit of `a / b` is the rounded quotient. -/
theorem divRoundEven_eq {a b v : Nat} (hb : 0 < b) (h : |(a : ℚ) / b - v| < 1 / 2) :
    divRoundEven a b = v := by
  have h₁ := abs_sub_lt_iff.mp h
  have h₂ := abs_le.mp (divRoundEven_spec a hb)
  have h₃ : divRoundEven a b < v + 1 := by
    have : (divRoundEven a b : ℚ) < v + 1 := by linarith
    exact_mod_cast this
  have h₄ : v < divRoundEven a b + 1 := by
    have : (v : ℚ) < divRoundEven a b + 1 := by linarith
    exact_mod_cast this
  omega

/-- Over `1` there is nothing to round. -/
theorem divRoundEven_one (x : Nat) : divRoundEven x 1 = x := by
  simp [divRoundEven, Nat.mod_one]

/-! ## (2) Bit lengths and binades -/

/-- `⌊log₂ n⌋` by halving, with more `fuel` than `n` has bits. -/
def log2Aux : Nat → Nat → Nat
  | 0, _ => 0
  | fuel + 1, n => if n < 2 then 0 else log2Aux fuel (n / 2) + 1

/-- `⌊log₂ n⌋`, `0` for `n ≤ 1`. -/
def ilog2 (n : Nat) : Nat := log2Aux n n

/-- With enough fuel the halving loop is `Nat.log2`. -/
theorem log2Aux_eq (n : Nat) : ∀ fuel, n ≤ fuel → log2Aux fuel n = Nat.log2 n := by
  induction n using Nat.strong_induction_on with
  | _ n ih =>
    intro fuel h
    cases fuel with
    | zero => rw [show n = 0 by omega, log2Aux, Nat.log2]; rfl
    | succ k =>
      rw [log2Aux, Nat.log2]
      split
      · rw [if_neg (by omega)]
      · rw [if_pos (by omega), ih (n / 2) (by omega) k (by omega)]

theorem ilog2_eq (n : Nat) : ilog2 n = Nat.log2 n := log2Aux_eq n n le_rfl

/-- `2^e` as a quotient of natural powers. -/
theorem two_zpow_eq (e : Int) : (2 : ℚ) ^ e = 2 ^ e.toNat / 2 ^ (-e).toNat := by
  conv_lhs => rw [← Int.toNat_sub_toNat_neg e]
  rw [zpow_sub₀ two_ne_zero, zpow_natCast, zpow_natCast]

/-- Scaling `a / b` by `2^s`, the power put in the numerator or the denominator by its sign. -/
theorem div_eq_shift (a : Nat) {b : Nat} (hb : 0 < b) (s : Int) :
    (a : ℚ) / b =
      ((a * 2 ^ s.toNat : Nat) : ℚ) / ((b * 2 ^ (-s).toNat : Nat) : ℚ) * 2 ^ (-s) := by
  rw [two_zpow_eq, neg_neg]
  have hb' : (b : ℚ) ≠ 0 := by positivity
  push_cast
  field_simp
  ring

/-- The binade of `a / b` (`a, b ≥ 1`): the `e` with `2^e ≤ a / b < 2^(e + 1)`, from the bit
lengths of `a` and `b` and one comparison. -/
def binade (a b : Nat) : Int :=
  let e : Int := (ilog2 a : Int) - ilog2 b
  if a * 2 ^ (-e).toNat < b * 2 ^ e.toNat then e - 1 else e

/-- The comparison `binade` makes, read in `ℚ`. -/
theorem mul_two_pow_lt_iff (a b : Nat) (e : Int) :
    a * 2 ^ (-e).toNat < b * 2 ^ e.toNat ↔ (a : ℚ) < b * 2 ^ e := by
  rw [two_zpow_eq, mul_div_assoc', lt_div_iff₀ (by positivity)]
  exact_mod_cast Iff.rfl

/-- **`binade` finds the binade.** `ilog2 a - ilog2 b` is the binade or the one above it, and
the comparison decides which. -/
theorem binade_spec {a b : Nat} (ha : 0 < a) (hb : 0 < b) :
    (b : ℚ) * 2 ^ binade a b ≤ a ∧ (a : ℚ) < b * 2 ^ (binade a b + 1) := by
  have la₁ : ((2 ^ Nat.log2 a : Nat) : ℚ) ≤ a := by exact_mod_cast Nat.log2_self_le ha.ne'
  have la₂ : (a : ℚ) < ((2 ^ (Nat.log2 a + 1) : Nat) : ℚ) := by
    exact_mod_cast Nat.lt_log2_self
  have lb₁ : ((2 ^ Nat.log2 b : Nat) : ℚ) ≤ b := by exact_mod_cast Nat.log2_self_le hb.ne'
  have lb₂ : (b : ℚ) < ((2 ^ (Nat.log2 b + 1) : Nat) : ℚ) := by
    exact_mod_cast Nat.lt_log2_self
  push_cast [pow_succ] at la₁ la₂ lb₁ lb₂
  have he : (2 : ℚ) ^ ((Nat.log2 a : Int) - Nat.log2 b) = 2 ^ Nat.log2 a / 2 ^ Nat.log2 b := by
    rw [zpow_sub₀ two_ne_zero, zpow_natCast, zpow_natCast]
  have hX : (0 : ℚ) < 2 ^ Nat.log2 a := by positivity
  have hY : (0 : ℚ) < 2 ^ Nat.log2 b := by positivity
  unfold binade
  simp only [ilog2_eq]
  split_ifs with h
  · rw [mul_two_pow_lt_iff, he] at h
    rw [sub_add_cancel, he, zpow_sub_one₀ two_ne_zero, he]
    refine ⟨?_, h⟩
    calc (b : ℚ) * (2 ^ Nat.log2 a / 2 ^ Nat.log2 b * 2⁻¹)
        = b * 2 ^ Nat.log2 a / (2 ^ Nat.log2 b * 2) := by ring
      _ ≤ 2 ^ Nat.log2 a := by
        rw [div_le_iff₀ (by positivity), mul_comm (b : ℚ)]
        exact mul_le_mul_of_nonneg_left lb₂.le hX.le
      _ ≤ a := la₁
  · rw [mul_two_pow_lt_iff, he, not_lt] at h
    rw [he]
    refine ⟨h, ?_⟩
    rw [zpow_add_one₀ two_ne_zero, he]
    calc (a : ℚ) < 2 ^ Nat.log2 a * 2 := la₂
      _ ≤ b * (2 ^ Nat.log2 a / 2 ^ Nat.log2 b * 2) := by
        rw [show (b : ℚ) * (2 ^ Nat.log2 a / 2 ^ Nat.log2 b * 2) =
          b * 2 ^ Nat.log2 a * 2 / 2 ^ Nat.log2 b by ring, le_div_iff₀ hY]
        have := mul_le_mul_of_nonneg_left lb₁ (by positivity : (0 : ℚ) ≤ 2 ^ Nat.log2 a * 2)
        linarith

/-! ## (3) Rounding to a `double` -/

/-- The magnitude of a `double`: the value `sig · 2^exp`. -/
structure Dyadic where
  /-- The significand, below `2^53` but for the one rounded up to the next binade. -/
  sig : Nat
  exp : Int
  deriving DecidableEq, Repr

/-- The value of a `Dyadic`. -/
def Dyadic.val (d : Dyadic) : ℚ := d.sig * 2 ^ d.exp

/-- Round-to-nearest, ties-to-even of `a / b` to a 53-bit significand. -/
def roundQuotient (a b : Nat) : Dyadic :=
  let s := 52 - binade a b
  ⟨divRoundEven (a * 2 ^ s.toNat) (b * 2 ^ (-s).toNat), -s⟩

/-- **Half a unit in the last place.** With `e` the binade of `a / b`, the significand is
`a / b · 2^(52 - e)` rounded, so the value is within `2^(e - 53)` of `a / b`. -/
theorem roundQuotient_err (a : Nat) {b : Nat} (hb : 0 < b) :
    |(roundQuotient a b).val - a / b| ≤ 2 ^ (binade a b - 53) := by
  set s := 52 - binade a b with hs
  have hM := divRoundEven_spec (a * 2 ^ s.toNat) (b := b * 2 ^ (-s).toNat) (by positivity)
  rw [div_eq_shift a hb s, show binade a b - 53 = -s - 1 by omega, zpow_sub_one₀ two_ne_zero]
  simp only [roundQuotient, Dyadic.val, ← hs]
  rw [← sub_mul, abs_mul, abs_of_pos (show (0 : ℚ) < 2 ^ (-s) by positivity)]
  calc _ ≤ 1 / 2 * (2 : ℚ) ^ (-s) := mul_le_mul_of_nonneg_right hM (by positivity)
    _ = 2 ^ (-s) * 2⁻¹ := by ring

/-- Zero converts to zero. -/
theorem roundQuotient_zero (b : Nat) : (roundQuotient 0 b).val = 0 := by
  simp [roundQuotient, Dyadic.val, divRoundEven]

/-- **Relative error `2^-53`**, since `2^e ≤ a / b`. -/
theorem roundQuotient_le (a : Nat) {b : Nat} (hb : 0 < b) :
    (roundQuotient a b).val ≤ a / b * (1 + 2 ^ (-53 : Int)) := by
  rcases Nat.eq_zero_or_pos a with rfl | ha
  · rw [roundQuotient_zero]; simp
  have herr := (abs_le.mp (roundQuotient_err a hb)).2
  have hlo := (binade_spec ha hb).1
  have hb' : (0 : ℚ) < b := by exact_mod_cast hb
  have h2e : (2 : ℚ) ^ binade a b ≤ a / b := by rw [le_div_iff₀ hb']; linarith
  have h53 : (2 : ℚ) ^ (binade a b - 53) ≤ a / b * 2 ^ (-53 : Int) := by
    rw [sub_eq_add_neg, zpow_add₀ two_ne_zero]
    exact mul_le_mul_of_nonneg_right h2e (by positivity)
  linarith

/-- **Integers below `2^53` convert exactly.** -/
theorem roundQuotient_int {v : Nat} (hv : v < 2 ^ 53) : (roundQuotient v 1).val = v := by
  rcases Nat.eq_zero_or_pos v with rfl | hv₀
  · rw [roundQuotient_zero]; simp
  have he : binade v 1 < 53 := by
    have h := (binade_spec hv₀ one_pos).1
    rw [Nat.cast_one, one_mul] at h
    have h53 : (v : ℚ) < 2 ^ (53 : Int) := by exact_mod_cast hv
    exact (zpow_lt_zpow_iff_right₀ one_lt_two).mp (h.trans_lt h53)
  have hs : (-(52 - binade v 1)).toNat = 0 := by omega
  simp only [roundQuotient, Dyadic.val, hs, pow_zero, mul_one, divRoundEven_one]
  rw [two_zpow_eq, neg_neg, hs]
  push_cast
  field_simp

/-- `w / c` for a `double` `w`, as the quotient of two naturals that `quotToDouble` rounds. -/
theorem Dyadic.quot_eq (d : Dyadic) (c : Nat) :
    ((d.sig * 2 ^ d.exp.toNat : Nat) : ℚ) / ((c * 2 ^ (-d.exp).toNat : Nat) : ℚ) =
      d.val / c := by
  rw [Dyadic.val, two_zpow_eq]
  push_cast
  ring

/-- `static_cast<double>(v) / static_cast<double>(c)` for naturals `v` and `c`: `v` rounded to
a `double`, then the quotient rounded. -/
def quotToDouble (v c : Nat) : Dyadic :=
  let w := roundQuotient v 1
  roundQuotient (w.sig * 2 ^ w.exp.toNat) (c * 2 ^ (-w.exp).toNat)

/-- The second rounding: `quotToDouble v c` is the quotient of the converted `v` by `c`, up to
the relative error `2^-53`. -/
theorem quotToDouble_le (v : Nat) {c : Nat} (hc : 0 < c) :
    (quotToDouble v c).val ≤ (roundQuotient v 1).val / c * (1 + 2 ^ (-53 : Int)) := by
  have h := roundQuotient_le ((roundQuotient v 1).sig * 2 ^ (roundQuotient v 1).exp.toNat)
    (b := c * 2 ^ (-(roundQuotient v 1).exp).toNat) (by positivity)
  rwa [Dyadic.quot_eq] at h

end Sage
