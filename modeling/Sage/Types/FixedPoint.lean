import Sage.Core.Int64
import Sage.Core.Binary64

/-! # `FixedPoint`: prices and quantities (`types/fixed_point.hpp`)

A `FixedPoint` is an `int64_t` scaled by `PRICE_SCALE = 10^8`. Addition, subtraction and
negation wrap in `int64_t`; multiplication and division have two compile paths, the
`__int128` one (`mulWide`, `divWide`, what gcc and clang on x86-64 compile) and the split
fallback (`mulSplit`, `divSplit`). `abs`, `min` and `max` are the branchless bit tricks of the
source. `to_double()` rounds twice, the `int64_t` to a `double` and then the quotient by
`PRICE_SCALE` (`toDouble`, over the `double` model of `Sage.Core.Binary64`).

* **`mulSplit_eq_mulWide`** — the two paths of `operator*` agree wherever the truncated
  product is an `int64_t`, and the fallback never overflows there.
* **`min_max_of_overflow`** — past the `int64_t` range of `a - b`, the branchless `min` and
  `max` swap their results.
* **`min_max_abs_spec`** — what `min`, `max` and `abs` do compute. -/

namespace Sage

/-- `PRICE_SCALE` (`core/constants.hpp`): eight decimal places. -/
def priceScale : Int64 := 100000000

@[simp] theorem priceScale_val : priceScale.val = 100000000 := rfl

/-- A `FixedPoint`: the raw `int64_t` is the decimal value times `PRICE_SCALE`. -/
structure FixedPoint where
  /-- The raw scaled value. -/
  value : Int64
  deriving DecidableEq, Repr

namespace FixedPoint

@[ext] theorem ext {a b : FixedPoint} (h : a.value = b.value) : a = b := by
  cases a; cases b; cases h; rfl

/-- `raw()`: the scaled `int64_t`. -/
def raw (f : FixedPoint) : Int64 := f.value

@[simp] theorem raw_mk (v : Int64) : (FixedPoint.mk v).raw = v := rfl

/-- `zero()`. -/
def zero : FixedPoint := ⟨0⟩

/-- `one()`: the raw value `PRICE_SCALE`. -/
def one : FixedPoint := ⟨priceScale⟩

/-- `from_int(i)`: `i * PRICE_SCALE`, wrapping. -/
def fromInt (i : Int64) : FixedPoint := ⟨i * priceScale⟩

/-- `from_parts(integer, decimal)`: `integer * PRICE_SCALE + decimal`, wrapping. -/
def fromParts (integer decimal : Int64) : FixedPoint := ⟨integer * priceScale + decimal⟩

/-- `to_int()`: the integer part, truncated toward zero. -/
def toInt (f : FixedPoint) : Int64 := f.value / priceScale

/-- `to_double()`: `static_cast<double>(value) / PRICE_SCALE`, as the sign and the magnitude of
the `double` (round-to-nearest division is symmetric, so the magnitude is that of `|value|`). -/
def toDouble (f : FixedPoint) : Bool × Dyadic :=
  (decide (f.value.val < 0), quotToDouble f.value.val.natAbs priceScale.val.toNat)

instance : Add FixedPoint := ⟨fun a b => ⟨a.value + b.value⟩⟩
instance : Sub FixedPoint := ⟨fun a b => ⟨a.value - b.value⟩⟩
instance : Neg FixedPoint := ⟨fun a => ⟨-a.value⟩⟩

/-- `operator*` on the `__int128` path: the full product, divided by `PRICE_SCALE` with
truncation, then narrowed (wrapping) to `int64_t`. -/
def mulWide (a b : FixedPoint) : FixedPoint :=
  ⟨Int64.ofInt ((a.value.val * b.value.val).tdiv priceScale.val)⟩

/-- `operator*` on the fallback path: each operand split at `PRICE_SCALE` with C++ `/` and
`%`, the four partial products summed in `int64_t`. -/
def mulSplit (a b : FixedPoint) : FixedPoint :=
  let aHi := a.value / priceScale
  let aLo := a.value % priceScale
  let bHi := b.value / priceScale
  let bLo := b.value % priceScale
  ⟨aHi * bHi * priceScale + aHi * bLo + aLo * bHi + aLo * bLo / priceScale⟩

/-- `operator/` on the `__int128` path: the dividend scaled by `PRICE_SCALE` in 128 bits,
divided with truncation, narrowed to `int64_t`. -/
def divWide (a b : FixedPoint) : FixedPoint :=
  ⟨Int64.ofInt ((a.value.val * priceScale.val).tdiv b.value.val)⟩

/-- `operator/` on the fallback path: `(value / other.value) * PRICE_SCALE`. -/
def divSplit (a b : FixedPoint) : FixedPoint := ⟨a.value / b.value * priceScale⟩

instance : Mul FixedPoint := ⟨mulWide⟩
instance : Div FixedPoint := ⟨divWide⟩

/-- The defaulted `operator<=>` compares the raw values. -/
instance : LT FixedPoint := ⟨fun a b => a.value < b.value⟩
instance : LE FixedPoint := ⟨fun a b => a.value ≤ b.value⟩
instance (a b : FixedPoint) : Decidable (a < b) := inferInstanceAs (Decidable (a.value < b.value))
instance (a b : FixedPoint) : Decidable (a ≤ b) :=
  inferInstanceAs (Decidable (a.value ≤ b.value))

/-- `abs()`: `mask = value >> 63; (value + mask) ^ mask`. -/
def abs (f : FixedPoint) : FixedPoint :=
  let mask := f.value.sar 63
  ⟨(f.value + mask).xor mask⟩

/-- The free function `min(a, b)`: `b + ((a - b) & ((a - b) >> 63))`. -/
def min (a b : FixedPoint) : FixedPoint :=
  let diff := a.value - b.value
  ⟨b.value + diff.land (diff.sar 63)⟩

/-- The free function `max(a, b)`: `a - ((a - b) & ((a - b) >> 63))`. -/
def max (a b : FixedPoint) : FixedPoint :=
  let diff := a.value - b.value
  ⟨a.value - diff.land (diff.sar 63)⟩

/-- `min_value()`: `INT64_MIN` as a raw value. -/
def minValue : FixedPoint := ⟨Int64.minValue⟩

/-- `max_value()`: `INT64_MAX` as a raw value. -/
def maxValue : FixedPoint := ⟨Int64.maxValue⟩

/-! ## (1) The two compile paths of `operator*` -/

/-- `value / PRICE_SCALE` and `value % PRICE_SCALE` split `value` into two parts, each with
the sign of `value` or zero, the low one below `PRICE_SCALE` in size. -/
theorem split_scale (A : Int) :
    A = A.tdiv 100000000 * 100000000 + A.tmod 100000000 ∧ |A.tmod 100000000| < 100000000 ∧
      (0 ≤ A → 0 ≤ A.tdiv 100000000 ∧ 0 ≤ A.tmod 100000000) ∧
      (A ≤ 0 → A.tdiv 100000000 ≤ 0 ∧ A.tmod 100000000 ≤ 0) := by
  rw [Int.tmod_def, tdiv_eq_ite A (by norm_num), abs_lt]
  split <;> omega

/-- The exact values of the `int64_t` operations of the fallback `operator*`, in the order
C++ evaluates them: the four parts, then the partial products and running sums of
`a_hi * b_hi * PRICE_SCALE + a_hi * b_lo + a_lo * b_hi + (a_lo * b_lo) / PRICE_SCALE`. -/
def mulSplitSteps (a b : FixedPoint) : List Int :=
  let S := priceScale.val
  let aHi := a.value.val.tdiv S
  let aLo := a.value.val.tmod S
  let bHi := b.value.val.tdiv S
  let bLo := b.value.val.tmod S
  [aHi, aLo, bHi, bLo, aHi * bHi, aHi * bHi * S, aHi * bLo, aHi * bHi * S + aHi * bLo,
    aLo * bHi, aHi * bHi * S + aHi * bLo + aLo * bHi, aLo * bLo, (aLo * bLo).tdiv S,
    aHi * bHi * S + aHi * bLo + aLo * bHi + (aLo * bLo).tdiv S]

/-- When no step overflows, the fallback computes its exact sum. -/
theorem mulSplit_val (a b : FixedPoint) (h : ∀ v ∈ mulSplitSteps a b, -2 ^ 63 ≤ v ∧ v < 2 ^ 63) :
    (mulSplit a b).value.val =
      a.value.val.tdiv 100000000 * b.value.val.tdiv 100000000 * 100000000 +
        a.value.val.tdiv 100000000 * b.value.val.tmod 100000000 +
        a.value.val.tmod 100000000 * b.value.val.tdiv 100000000 +
        (a.value.val.tmod 100000000 * b.value.val.tmod 100000000).tdiv 100000000 := by
  simp only [mulSplitSteps, priceScale_val, List.mem_cons, List.mem_singleton, forall_eq_or_imp,
    forall_eq, List.not_mem_nil, false_imp_iff, implies_true, and_true] at h
  obtain ⟨⟨h1, h2⟩, ⟨h3, h4⟩, ⟨h5, h6⟩, ⟨h7, h8⟩, ⟨h9, h10⟩, ⟨h11, h12⟩, ⟨h13, h14⟩, ⟨h15, h16⟩,
    ⟨h17, h18⟩, ⟨h19, h20⟩, ⟨h21, h22⟩, ⟨h23, h24⟩, ⟨h25, h26⟩⟩ := h
  simp (disch := omega) only [mulSplit, Int64.val_add, Int64.val_mul, Int64.val_div,
    Int64.val_mod, priceScale_val, Int64.bmod_of_range]

/-- The fallback's sum is the truncated product, and each of its steps is an `int64_t`,
when the truncated product is one. -/
theorem mulSplitSteps_range (a b : FixedPoint)
    (h₁ : -2 ^ 63 ≤ (a.value.val * b.value.val).tdiv 100000000)
    (h₂ : (a.value.val * b.value.val).tdiv 100000000 < 2 ^ 63) :
    a.value.val.tdiv 100000000 * b.value.val.tdiv 100000000 * 100000000 +
        a.value.val.tdiv 100000000 * b.value.val.tmod 100000000 +
        a.value.val.tmod 100000000 * b.value.val.tdiv 100000000 +
        (a.value.val.tmod 100000000 * b.value.val.tmod 100000000).tdiv 100000000 =
      (a.value.val * b.value.val).tdiv 100000000 ∧
      ∀ v ∈ mulSplitSteps a b, -2 ^ 63 ≤ v ∧ v < 2 ^ 63 := by
  have := a.value.le_val; have := a.value.val_lt; have := b.value.le_val; have := b.value.val_lt
  obtain ⟨hA, hal, hAp, hAn⟩ := split_scale a.value.val
  obtain ⟨hB, hbl, hBp, hBn⟩ := split_scale b.value.val
  have hlo : |a.value.val.tmod 100000000 * b.value.val.tmod 100000000| < 100000000 * 100000000 := by
    rw [abs_mul]; exact mul_lt_mul'' hal hbl (abs_nonneg _) (abs_nonneg _)
  rw [abs_lt] at hlo hal hbl
  simp only [mulSplitSteps, priceScale_val, List.mem_cons, List.mem_singleton, forall_eq_or_imp,
    forall_eq, List.not_mem_nil, false_imp_iff, implies_true, and_true]
  generalize a.value.val = A at *
  generalize b.value.val = B at *
  generalize A.tdiv 100000000 = ah at *
  generalize A.tmod 100000000 = al at *
  generalize B.tdiv 100000000 = bh at *
  generalize B.tmod 100000000 = bl at *
  subst hA hB
  have hprod : (ah * 100000000 + al) * (bh * 100000000 + bl) =
      100000000 * (ah * bh * 100000000 + ah * bl + al * bh) + al * bl := by ring
  rw [hprod] at h₁ h₂ ⊢
  simp only [tdiv_eq_ite _ (show (0 : Int) ≤ 100000000 by norm_num)] at h₁ h₂ ⊢
  -- the key fact: the four partial products all carry the sign of the product
  have hsign : (0 ≤ ah * bh ∧ 0 ≤ ah * bl ∧ 0 ≤ al * bh ∧ 0 ≤ al * bl) ∨
      (ah * bh ≤ 0 ∧ ah * bl ≤ 0 ∧ al * bh ≤ 0 ∧ al * bl ≤ 0) := by
    rcases le_total 0 (ah * 100000000 + al) with ha | ha <;>
      rcases le_total 0 (bh * 100000000 + bl) with hb | hb
    · obtain ⟨⟨ha₁, ha₂⟩, hb₁, hb₂⟩ := And.intro (hAp ha) (hBp hb)
      exact .inl ⟨mul_nonneg ha₁ hb₁, mul_nonneg ha₁ hb₂, mul_nonneg ha₂ hb₁, mul_nonneg ha₂ hb₂⟩
    · obtain ⟨⟨ha₁, ha₂⟩, hb₁, hb₂⟩ := And.intro (hAp ha) (hBn hb)
      exact .inr ⟨mul_nonpos_of_nonneg_of_nonpos ha₁ hb₁, mul_nonpos_of_nonneg_of_nonpos ha₁ hb₂,
        mul_nonpos_of_nonneg_of_nonpos ha₂ hb₁, mul_nonpos_of_nonneg_of_nonpos ha₂ hb₂⟩
    · obtain ⟨⟨ha₁, ha₂⟩, hb₁, hb₂⟩ := And.intro (hAn ha) (hBp hb)
      exact .inr ⟨mul_nonpos_of_nonpos_of_nonneg ha₁ hb₁, mul_nonpos_of_nonpos_of_nonneg ha₁ hb₂,
        mul_nonpos_of_nonpos_of_nonneg ha₂ hb₁, mul_nonpos_of_nonpos_of_nonneg ha₂ hb₂⟩
    · obtain ⟨⟨ha₁, ha₂⟩, hb₁, hb₂⟩ := And.intro (hAn ha) (hBn hb)
      exact .inl ⟨mul_nonneg_of_nonpos_of_nonpos ha₁ hb₁, mul_nonneg_of_nonpos_of_nonpos ha₁ hb₂,
        mul_nonneg_of_nonpos_of_nonpos ha₂ hb₁, mul_nonneg_of_nonpos_of_nonpos ha₂ hb₂⟩
  clear hAp hAn hBp hBn hprod
  rcases hsign with ⟨_, _, _, _⟩ | ⟨_, _, _, _⟩ <;>
  · refine ⟨by omega, ?_⟩
    repeat' constructor
    all_goals omega

/-- **The fallback `operator*` is exact on the representable range.** For every pair whose
truncated product `q = trunc(a.value * b.value / 10^8)` is an `int64_t`, the `__int128` path
returns `q`, and the split fallback returns it too, with every one of its `int64_t` operations
in range: its four partial products all carry the sign of the product, so truncating the
last one alone truncates the whole. -/
theorem mulSplit_eq_mulWide (a b : FixedPoint)
    (h₁ : -2 ^ 63 ≤ (a.value.val * b.value.val).tdiv priceScale.val)
    (h₂ : (a.value.val * b.value.val).tdiv priceScale.val < 2 ^ 63) :
    (mulWide a b).value.val = (a.value.val * b.value.val).tdiv priceScale.val ∧
      mulSplit a b = mulWide a b ∧ ∀ v ∈ mulSplitSteps a b, -2 ^ 63 ≤ v ∧ v < 2 ^ 63 := by
  rw [priceScale_val] at h₁ h₂ ⊢
  obtain ⟨hsum, hsteps⟩ := mulSplitSteps_range a b h₁ h₂
  have hwide : (mulWide a b).value.val = (a.value.val * b.value.val).tdiv 100000000 :=
    Int64.val_ofInt_of_range h₁ h₂
  exact ⟨hwide, ext (Int64.ext (by rw [mulSplit_val a b hsteps, hsum, hwide])), hsteps⟩

/-- The two paths agree on a pair of mixed signs, `1.5 · (-0.5)`. -/
theorem mulSplit_mixed_sign :
    mulSplit ⟨150000000⟩ ⟨-50000000⟩ = mulWide ⟨150000000⟩ ⟨-50000000⟩ :=
  (mulSplit_eq_mulWide _ _ (by decide) (by decide)).2.1


/-! ## (2) The branchless `min`, `max` and `abs` -/

/-- The branchless `min` keeps `a` exactly when the wrapped difference `a - b` is negative. -/
theorem min_eq (a b : FixedPoint) : min a b = if (a.value - b.value).val < 0 then a else b := by
  unfold min
  split <;> ext
  · rw [Int64.val_add, Int64.val_land_sar_63, if_pos ‹_›, Int64.val_sub, Int.add_bmod_bmod,
      add_sub_cancel, Int64.bmod_of_range a.value.le_val a.value.val_lt]
  · rw [Int64.val_add, Int64.val_land_sar_63, if_neg ‹_›, add_zero,
      Int64.bmod_of_range b.value.le_val b.value.val_lt]

/-- The branchless `max` keeps `b` exactly when the wrapped difference `a - b` is negative. -/
theorem max_eq (a b : FixedPoint) : max a b = if (a.value - b.value).val < 0 then b else a := by
  unfold max
  split <;> ext
  · rw [Int64.val_sub, Int64.val_land_sar_63, if_pos ‹_›, Int64.val_sub, Int.sub_bmod_bmod,
      sub_sub_cancel, Int64.bmod_of_range b.value.le_val b.value.val_lt]
  · rw [Int64.val_sub, Int64.val_land_sar_63, if_neg ‹_›, sub_zero,
      Int64.bmod_of_range a.value.le_val a.value.val_lt]

/-- `min` and `max` follow whatever the sign of the wrapped difference stands for. -/
theorem min_max_of_iff {a b : FixedPoint} {p : Prop} [Decidable p]
    (h : (a.value - b.value).val < 0 ↔ p) :
    min a b = (if p then a else b) ∧ max a b = (if p then b else a) := by
  rw [min_eq, max_eq]
  by_cases hp : p
  · rw [if_pos (h.2 hp), if_pos (h.2 hp), if_pos hp, if_pos hp]; exact ⟨rfl, rfl⟩
  · rw [if_neg (mt h.1 hp), if_neg (mt h.1 hp), if_neg hp, if_neg hp]; exact ⟨rfl, rfl⟩

/-- When `a - b` is an `int64_t`, its sign is the comparison. -/
theorem sub_neg_iff_of_range {a b : FixedPoint} (h₁ : -2 ^ 63 ≤ a.value.val - b.value.val)
    (h₂ : a.value.val - b.value.val < 2 ^ 63) : (a.value - b.value).val < 0 ↔ a < b := by
  rw [Int64.val_sub_of_range h₁ h₂]
  exact sub_neg

/-- When `a - b` overflows, its wrapped sign is the opposite comparison. -/
theorem sub_neg_iff_of_overflow {a b : FixedPoint}
    (h : a.value.val - b.value.val < -2 ^ 63 ∨ 2 ^ 63 ≤ a.value.val - b.value.val) :
    (a.value - b.value).val < 0 ↔ b < a := by
  have := a.value.le_val; have := a.value.val_lt; have := b.value.le_val; have := b.value.val_lt
  show _ ↔ b.value.val < a.value.val
  rw [Int64.val_sub, Int.bmod_def]
  split <;> omega

/-- **Past the `int64_t` range of `a - b`, `min` and `max` swap**: the bit tricks read the
sign of the wrapped difference, which is then the opposite of the comparison, so `min`
returns the larger value and `max` the smaller. -/
theorem min_max_of_overflow (a b : FixedPoint)
    (h : a.value.val - b.value.val < -2 ^ 63 ∨ 2 ^ 63 ≤ a.value.val - b.value.val) :
    min a b = (if a < b then b else a) ∧ max a b = (if a < b then a else b) := by
  have hne : a < b ↔ ¬ b < a := by
    show a.value.val < b.value.val ↔ ¬ b.value.val < a.value.val
    omega
  obtain ⟨hmin, hmax⟩ := min_max_of_iff (sub_neg_iff_of_overflow h)
  rw [hmin, hmax]
  by_cases hab : a < b
  · rw [if_neg (hne.1 hab), if_neg (hne.1 hab), if_pos hab, if_pos hab]; exact ⟨rfl, rfl⟩
  · rw [if_pos (not_not.1 (mt hne.2 hab)), if_pos (not_not.1 (mt hne.2 hab)), if_neg hab,
      if_neg hab]
    exact ⟨rfl, rfl⟩

/-- `min(max_value(), -one())` is `max_value()`, and `max` of them is `-one()`. -/
theorem min_maxValue_neg_one : min maxValue (-one) = maxValue ∧ max maxValue (-one) = -one := by
  have h := min_max_of_overflow maxValue (-one) (.inr (by decide))
  rwa [if_neg (by decide), if_neg (by decide)] at h

/-- `abs()` is the absolute value away from `min_value()`. -/
theorem abs_val (x : FixedPoint) (h : x ≠ minValue) : (abs x).value.val = |x.value.val| := by
  have hx : x.value.val ≠ -2 ^ 63 := fun e => h (ext (Int64.ext e))
  have := x.value.le_val; have := x.value.val_lt
  unfold abs
  rw [Int64.val_xor_sar_63, Int64.val_add, Int64.val_sar_63]
  split
  · rw [Int64.bmod_of_range (by omega) (by omega), abs_of_neg ‹_›]; ring
  · rw [add_zero, Int64.bmod_of_range (by omega) (by omega), abs_of_nonneg (by omega)]

/-- **The branchless `min`, `max` and `abs`.** `min` and `max` always return the two operands,
one each; they return the smaller and the larger whenever `a - b` is an `int64_t`; and `abs`
is the absolute value everywhere but `min_value()`. -/
theorem min_max_abs_spec (a b x : FixedPoint) :
    ((min a b = a ∧ max a b = b) ∨ (min a b = b ∧ max a b = a)) ∧
      (-2 ^ 63 ≤ a.value.val - b.value.val → a.value.val - b.value.val < 2 ^ 63 →
        min a b = (if a < b then a else b) ∧ max a b = (if a < b then b else a)) ∧
      (x ≠ minValue → (abs x).value.val = |x.value.val|) := by
  refine ⟨?_, fun h₁ h₂ => min_max_of_iff (sub_neg_iff_of_range h₁ h₂), abs_val x⟩
  rw [min_eq, max_eq]
  split
  · exact .inl ⟨rfl, rfl⟩
  · exact .inr ⟨rfl, rfl⟩

/-- `min(one(), zero())` is `zero()`, and `abs(-one())` is `one()`. -/
theorem min_max_abs_spec_one :
    min one zero = zero ∧ (abs (-one)).value.val = 100000000 :=
  ⟨((min_max_abs_spec one zero (-one)).2.1 (by decide) (by decide)).1.trans (if_neg (by decide)),
    (min_max_abs_spec one zero (-one)).2.2 (by decide)⟩

end FixedPoint

end Sage
