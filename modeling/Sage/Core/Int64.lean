import Mathlib

/-! # Machine integers of the C++ sources

SAGE computes prices, positions and statistics in `int64_t`, and indexes its queues with
`size_t`. This file fixes the model of both.

* **`Int64`** — an `int64_t`: an integer in `[-2^63, 2^63)`, a structure whose fields carry
  the range, so that no out-of-range value can be built. Every operator goes through
  `Int64.ofInt`, the two's-complement wrap `Int.bmod · (2^64)`: `+`, `-`, `*` and unary `-`
  wrap (signed overflow is undefined in C++; the spec fixes wrapping, §4.1), `/` and `%`
  truncate toward zero, and `Int64.abs` is `std::abs`, so `abs INT64_MIN = INT64_MIN`. The
  shift `sar` and the bitwise `land` and `xor` act on the two's-complement representation;
  with the sign mask `x >> 63` they select or complement (`val_land_sar_63`,
  `val_xor_sar_63`).
* **`Int8`** — an `int8_t` (the signal direction, the order side), promoted exactly by
  `Int8.toInt64`.
* `size_t` and `uint64_t` values are `BitVec 64`, whose arithmetic already wraps modulo
  `2^64`. -/

namespace Sage

/-- Truncating division by a non-negative divisor is floor division of the magnitude, with
the sign put back. -/
theorem tdiv_eq_ite (x : Int) {d : Int} (hd : 0 ≤ d) :
    x.tdiv d = if 0 ≤ x then x / d else -((-x) / d) := by
  split
  · exact Int.tdiv_eq_ediv ‹_› hd
  · rw [← Int.tdiv_eq_ediv (by omega) hd, Int.neg_tdiv, neg_neg]

/-- A C++ `int64_t`: an integer in `[-2^63, 2^63)`. -/
structure Int64 where
  /-- The value as a mathematical integer. -/
  val : Int
  le_val : -2 ^ 63 ≤ val
  val_lt : val < 2 ^ 63
  deriving DecidableEq, Repr

namespace Int64

@[ext] theorem ext {a b : Int64} (h : a.val = b.val) : a = b := by
  cases a; cases b; cases h; rfl

/-- **Two's-complement wrap** of an integer into `int64_t`: the value congruent to `x` modulo
`2^64`. It is the result of every overflowing `int64_t` operation of the model. -/
def ofInt (x : Int) : Int64 :=
  ⟨x.bmod (2 ^ 64), by have := Int.le_bmod (x := x) (m := 2 ^ 64) (by norm_num); omega,
    by have := Int.bmod_lt (x := x) (m := 2 ^ 64) (by norm_num); omega⟩

@[simp] theorem val_ofInt (x : Int) : (ofInt x).val = x.bmod (2 ^ 64) := rfl

/-- The wrap is the identity on the `int64_t` range. -/
theorem bmod_of_range {x : Int} (h₁ : -2 ^ 63 ≤ x) (h₂ : x < 2 ^ 63) :
    x.bmod (2 ^ 64) = x := by
  rw [Int.bmod_def]; split <;> omega

theorem val_ofInt_of_range {x : Int} (h₁ : -2 ^ 63 ≤ x) (h₂ : x < 2 ^ 63) :
    (ofInt x).val = x := bmod_of_range h₁ h₂

@[simp] theorem ofInt_val (a : Int64) : ofInt a.val = a :=
  ext (val_ofInt_of_range a.le_val a.val_lt)

instance : OfNat Int64 n := ⟨ofInt n⟩

@[simp] theorem val_zero : (0 : Int64).val = 0 := rfl
instance : Add Int64 := ⟨fun a b => ofInt (a.val + b.val)⟩
instance : Sub Int64 := ⟨fun a b => ofInt (a.val - b.val)⟩
instance : Mul Int64 := ⟨fun a b => ofInt (a.val * b.val)⟩
instance : Neg Int64 := ⟨fun a => ofInt (-a.val)⟩
/-- `int64_t` division truncates toward zero (`INT64_MIN / -1` wraps). A zero divisor is a
contract violation in C++ (spec §4.1); Lean's `Int.tdiv` returns `0` there. -/
instance : Div Int64 := ⟨fun a b => ofInt (a.val.tdiv b.val)⟩
/-- `int64_t` remainder, with the sign of the dividend. -/
instance : Mod Int64 := ⟨fun a b => ofInt (a.val.tmod b.val)⟩
instance : LT Int64 := ⟨fun a b => a.val < b.val⟩
instance : LE Int64 := ⟨fun a b => a.val ≤ b.val⟩
instance (a b : Int64) : Decidable (a < b) := inferInstanceAs (Decidable (a.val < b.val))
instance (a b : Int64) : Decidable (a ≤ b) := inferInstanceAs (Decidable (a.val ≤ b.val))

@[simp] theorem val_add (a b : Int64) : (a + b).val = (a.val + b.val).bmod (2 ^ 64) := rfl
@[simp] theorem val_sub (a b : Int64) : (a - b).val = (a.val - b.val).bmod (2 ^ 64) := rfl
@[simp] theorem val_mul (a b : Int64) : (a * b).val = (a.val * b.val).bmod (2 ^ 64) := rfl
@[simp] theorem val_neg (a : Int64) : (-a).val = (-a.val).bmod (2 ^ 64) := rfl
@[simp] theorem val_div (a b : Int64) : (a / b).val = (a.val.tdiv b.val).bmod (2 ^ 64) := rfl
@[simp] theorem val_mod (a b : Int64) : (a % b).val = (a.val.tmod b.val).bmod (2 ^ 64) := rfl
@[simp] theorem lt_def (a b : Int64) : a < b ↔ a.val < b.val := Iff.rfl
@[simp] theorem le_def (a b : Int64) : a ≤ b ↔ a.val ≤ b.val := Iff.rfl

theorem val_add_of_range {a b : Int64} (h₁ : -2 ^ 63 ≤ a.val + b.val)
    (h₂ : a.val + b.val < 2 ^ 63) : (a + b).val = a.val + b.val := bmod_of_range h₁ h₂

theorem val_sub_of_range {a b : Int64} (h₁ : -2 ^ 63 ≤ a.val - b.val)
    (h₂ : a.val - b.val < 2 ^ 63) : (a - b).val = a.val - b.val := bmod_of_range h₁ h₂

theorem val_mul_of_range {a b : Int64} (h₁ : -2 ^ 63 ≤ a.val * b.val)
    (h₂ : a.val * b.val < 2 ^ 63) : (a * b).val = a.val * b.val := bmod_of_range h₁ h₂

theorem zero_add (a : Int64) : 0 + a = a :=
  ext (by rw [val_add, val_zero, Int.zero_add, bmod_of_range a.le_val a.val_lt])

theorem add_zero (a : Int64) : a + 0 = a :=
  ext (by rw [val_add, val_zero, Int.add_zero, bmod_of_range a.le_val a.val_lt])

/-- Negation is exact for every `int64_t` except `INT64_MIN`. -/
theorem val_neg_of_pos {a : Int64} (h : 0 < a.val) : (-a).val = -a.val :=
  bmod_of_range (by have := a.val_lt; omega) (by omega)

/-- `std::abs` on `int64_t`: `|x|`, wrapped, so that `abs INT64_MIN = INT64_MIN`. -/
def abs (x : Int64) : Int64 := ofInt |x.val|

@[simp] theorem val_abs (x : Int64) : x.abs.val = |x.val|.bmod (2 ^ 64) := rfl

/-- `std::numeric_limits<int64_t>::min()`. -/
def minValue : Int64 := ⟨-2 ^ 63, le_rfl, by norm_num⟩

/-- `std::numeric_limits<int64_t>::max()`. -/
def maxValue : Int64 := ⟨2 ^ 63 - 1, by norm_num, by norm_num⟩

/-- Above `INT64_MIN`, `std::abs` is the absolute value. -/
theorem val_abs_of_lt {x : Int64} (h : -2 ^ 63 < x.val) : x.abs.val = |x.val| := by
  have := x.val_lt
  exact val_ofInt_of_range (by rw [abs_eq_max_neg]; omega) (by rw [abs_eq_max_neg]; omega)

/-- Every `int64_t` but `INT64_MIN` lies above it. -/
theorem val_gt_of_ne_min {x : Int64} (h : x ≠ minValue) : -2 ^ 63 < x.val :=
  lt_of_le_of_ne x.le_val fun e => h (ext e.symm)

/-- Away from `INT64_MIN`, `std::abs` is the absolute value. -/
theorem val_abs_of_ne_min {x : Int64} (h : x ≠ minValue) : x.abs.val = |x.val| :=
  val_abs_of_lt (val_gt_of_ne_min h)

/-- `std::abs INT64_MIN` stays negative. -/
theorem abs_minValue : minValue.abs = minValue := by decide

/-- Arithmetic shift right `x >> k` of an `int64_t` (floor division by `2^k`). -/
def sar (x : Int64) (k : Nat) : Int64 := ofInt (x.val >>> k)

/-- Bitwise `x & y` of two `int64_t`, on the two's-complement representation. -/
def land (x y : Int64) : Int64 := ofInt (Int.land x.val y.val)

/-- Bitwise `x ^ y` of two `int64_t`, on the two's-complement representation. -/
def xor (x y : Int64) : Int64 := ofInt (Int.xor x.val y.val)

/-- The sign mask `x >> 63`: `-1` for a negative `x`, `0` otherwise. -/
theorem val_sar_63 (x : Int64) : (x.sar 63).val = if x.val < 0 then -1 else 0 := by
  have := x.le_val; have := x.val_lt
  rw [sar, val_ofInt, Int.shiftRight_eq_div_pow]
  split <;> rw [bmod_of_range] <;> omega

theorem land_zero_right (x : Int) : Int.land x 0 = 0 := by
  cases x <;> simp [Int.land, Nat.ldiff, Nat.bitwise_zero_left]

theorem land_neg_one_right (x : Int) : Int.land x (-1) = x := by
  show Int.land x (Int.negSucc 0) = x
  cases x <;> simp [Int.land, Nat.ldiff, Nat.bitwise_zero_right]

theorem xor_zero_right (x : Int) : Int.xor x 0 = x := by cases x <;> simp [Int.xor]

/-- `x ^ -1` is `~x`. -/
theorem xor_neg_one_right (x : Int) : Int.xor x (-1) = -x - 1 := by
  show Int.xor x (Int.negSucc 0) = _
  cases x <;> simp [Int.xor, Int.negSucc_eq]; omega

/-- `x & (y >> 63)`: `x` when `y` is negative, `0` otherwise. -/
theorem val_land_sar_63 (x y : Int64) :
    (x.land (y.sar 63)).val = if y.val < 0 then x.val else 0 := by
  rw [land, val_ofInt, val_sar_63]
  split
  · rw [land_neg_one_right, bmod_of_range x.le_val x.val_lt]
  · rw [land_zero_right]; rfl

/-- `x ^ (y >> 63)`: `~x` when `y` is negative, `x` otherwise. -/
theorem val_xor_sar_63 (x y : Int64) :
    (x.xor (y.sar 63)).val = if y.val < 0 then -x.val - 1 else x.val := by
  have := x.le_val; have := x.val_lt
  rw [xor, val_ofInt, val_sar_63]
  split
  · rw [xor_neg_one_right, bmod_of_range] <;> omega
  · rw [xor_zero_right, bmod_of_range] <;> omega

end Int64

/-- A C++ `int8_t`: an integer in `[-2^7, 2^7)`. -/
structure Int8 where
  /-- The value as a mathematical integer. -/
  val : Int
  le_val : -2 ^ 7 ≤ val
  val_lt : val < 2 ^ 7
  deriving DecidableEq, Repr

namespace Int8

/-- The two's-complement wrap into `int8_t` (the value of an `int` assigned to an `int8_t`). -/
def ofInt (x : Int) : Int8 :=
  ⟨x.bmod (2 ^ 8), by have := Int.le_bmod (x := x) (m := 2 ^ 8) (by norm_num); omega,
    by have := Int.bmod_lt (x := x) (m := 2 ^ 8) (by norm_num); omega⟩

instance : OfNat Int8 n := ⟨ofInt n⟩
instance : Neg Int8 := ⟨fun a => ofInt (-a.val)⟩
instance : LT Int8 := ⟨fun a b => a.val < b.val⟩
instance (a b : Int8) : Decidable (a < b) := inferInstanceAs (Decidable (a.val < b.val))

@[simp] theorem lt_def (a b : Int8) : a < b ↔ a.val < b.val := Iff.rfl

/-- Integer promotion of an `int8_t` operand to `int64_t`: exact. -/
def toInt64 (d : Int8) : Int64 :=
  ⟨d.val, by have := d.le_val; omega, by have := d.val_lt; omega⟩

@[simp] theorem val_toInt64 (d : Int8) : d.toInt64.val = d.val := rfl

end Int8

end Sage
