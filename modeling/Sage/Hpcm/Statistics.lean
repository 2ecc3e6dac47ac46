import Sage.Ade.IntegerSqrt

/-! # The volatility estimator (`hpcm/statistics.hpp`)

`hpcm::VolatilityEstimator` is Welford's running variance in `int64_t`: `update(value)` counts
the value, moves `mean_` by `delta / count_`, truncated toward zero, and adds
`delta * delta2` to `m2_`; `variance()` is `m2_ / (count_ - 1)` and `stddev()` runs the
Newton–Raphson loop of `IntegerSqrt` on it. `updateInt` is the same update over the integers,
with nothing wrapped.

* **`VolatilityEstimator.Inv.update`**, **`VolatilityEstimator.Inv.updateAll`** — step and run
  lemma of the estimator's invariant on values in `[lo, hi]`.
* **`VolatilityEstimator.updateAll_no_wrap`** — on every run from the constructor whose `k`
  values lie in `[lo, hi]` with `k * (hi - lo + 1)^2 < 2^63`, no operation wraps (the fields
  are those of `updateInt`), `mean_` stays in `[lo, hi]`, `m2_` never decreases and stays
  within `[0, (k - 1) * (hi - lo)^2]`, and `stddev()` is the integer square root of
  `variance()`.
* **`VolatilityEstimator.updateAll_replicate`** — the truncated step stalls: from any state, a
  run of one value `v` with `|v - mean_| <= count_` leaves `mean_` where it is and adds
  `(v - mean_)^2` to `m2_` for each copy, so the variance of a constant tail does not decay. -/

namespace Sage

/-- `hpcm::VolatilityEstimator`: `mean_`, `m2_` and `count_`, all `int64_t`. -/
structure VolatilityEstimator where
  mean : Int64
  m2 : Int64
  count : Int64

namespace VolatilityEstimator

/-! ## (1) The model -/

/-- The constructor: `mean_(0), m2_(0), count_(0)`. -/
def init : VolatilityEstimator := ⟨0, 0, 0⟩

/-- `update(value)`: `count_++; delta = value - mean_; mean_ += delta / count_;
delta2 = value - mean_; m2_ += delta * delta2;`. -/
def update (e : VolatilityEstimator) (value : Int64) : VolatilityEstimator :=
  let count := e.count + 1
  let delta := value - e.mean
  let mean := e.mean + delta / count
  let delta2 := value - mean
  ⟨mean, e.m2 + delta * delta2, count⟩

/-- `variance()`: `count_ > 1 ? m2_ / (count_ - 1) : 0`. -/
def variance (e : VolatilityEstimator) : Int64 :=
  if e.count > 1 then e.m2 / (e.count - 1) else 0

/-- `stddev()`: `0` when `variance()` is `0`, else the loop from `x = var`,
`y = (x + 1) / 2`. Unlike `isqrt`, the test is `var == 0`, so a negative variance enters the
loop. -/
def stddev (e : VolatilityEstimator) : Int64 :=
  let var := e.variance
  if var = 0 then 0 else newtonLoop var (2 ^ 64) var ((var + 1) / 2)

/-- `update` on each value in turn. -/
def updateAll (e : VolatilityEstimator) (values : List Int64) : VolatilityEstimator :=
  values.foldl update e

@[simp] theorem updateAll_nil (e : VolatilityEstimator) : e.updateAll [] = e := rfl

@[simp] theorem updateAll_cons (e : VolatilityEstimator) (v : Int64) (vs : List Int64) :
    e.updateAll (v :: vs) = (e.update v).updateAll vs := rfl

theorem updateAll_append (e : VolatilityEstimator) (xs ys : List Int64) :
    e.updateAll (xs ++ ys) = (e.updateAll xs).updateAll ys := List.foldl_append _ _ _ _

/-- The fields `(mean_, m2_, count_)` as integers. -/
def vals (e : VolatilityEstimator) : Int × Int × Int := (e.mean.val, e.m2.val, e.count.val)

/-- `update` over the integers, from `(mean_, m2_, count_)`: the same steps, with no wrap. -/
def updateInt (s : Int × Int × Int) (value : Int) : Int × Int × Int :=
  let delta := value - s.1
  let mean := s.1 + delta.tdiv (s.2.2 + 1)
  (mean, s.2.1 + delta * (value - mean), s.2.2 + 1)

/-! ## (2) One update -/

/-- Truncating division by a positive count moves toward zero, and not past the dividend. -/
theorem tdiv_between {d c : Int} (hc : 1 ≤ c) :
    (0 ≤ d → 0 ≤ d.tdiv c ∧ d.tdiv c ≤ d) ∧ (d ≤ 0 → d ≤ d.tdiv c ∧ d.tdiv c ≤ 0) := by
  have h₁ := Int.ediv_nonneg (show 0 ≤ |d| from abs_nonneg d) (show 0 ≤ c by omega)
  have h₂ := Int.ediv_le_self c (abs_nonneg d)
  rw [tdiv_eq_ite d (by omega)]
  rcases le_total 0 d with hd | hd
  · rw [abs_of_nonneg hd] at h₁ h₂
    rw [if_pos hd]
    omega
  · rw [abs_of_nonpos hd] at h₁ h₂
    split
    · rw [show d = 0 by omega, Int.zero_ediv]
      omega
    · omega

/-- **`update` is `updateInt` while nothing wraps.** With `count_ >= 0`, when `count_ + 1`,
`delta`, the new mean, `delta2`, their product and the new `m2_` are all `int64_t` values,
`update` computes the integer update. -/
theorem vals_update {e : VolatilityEstimator} {v : Int64} (hc₀ : 0 ≤ e.count.val)
    (hc : e.count.val + 1 < 2 ^ 63)
    (hd : -2 ^ 63 ≤ v.val - e.mean.val ∧ v.val - e.mean.val < 2 ^ 63)
    (hmean : let s := updateInt e.vals v.val; -2 ^ 63 ≤ s.1 ∧ s.1 < 2 ^ 63)
    (hd₂ : let s := updateInt e.vals v.val; -2 ^ 63 ≤ v.val - s.1 ∧ v.val - s.1 < 2 ^ 63)
    (hp : let s := updateInt e.vals v.val;
      -2 ^ 63 ≤ (v.val - e.mean.val) * (v.val - s.1) ∧
        (v.val - e.mean.val) * (v.val - s.1) < 2 ^ 63)
    (hm : let s := updateInt e.vals v.val; -2 ^ 63 ≤ s.2.1 ∧ s.2.1 < 2 ^ 63) :
    (e.update v).vals = updateInt e.vals v.val := by
  simp only [updateInt, vals] at hmean hd₂ hp hm ⊢
  have h₁ : (1 : Int64).val = 1 := rfl
  have hcv : (e.count + 1).val = e.count.val + 1 :=
    Int64.val_add_of_range (by rw [h₁]; omega) (by rw [h₁]; omega)
  have hdv : (v - e.mean).val = v.val - e.mean.val := Int64.val_sub_of_range hd.1 hd.2
  have hq := tdiv_between (d := v.val - e.mean.val) (c := e.count.val + 1) (by omega)
  have hqv :
      ((v - e.mean) / (e.count + 1)).val = (v.val - e.mean.val).tdiv (e.count.val + 1) := by
    rw [Int64.val_div, hdv, hcv]
    exact Int64.bmod_of_range (by omega) (by omega)
  have hmv : (e.mean + (v - e.mean) / (e.count + 1)).val =
      e.mean.val + (v.val - e.mean.val).tdiv (e.count.val + 1) := by
    rw [Int64.val_add_of_range] <;> rw [hqv]
    exacts [hmean.1, hmean.2]
  have hd₂v : (v - (e.mean + (v - e.mean) / (e.count + 1))).val =
      v.val - (e.mean.val + (v.val - e.mean.val).tdiv (e.count.val + 1)) := by
    rw [Int64.val_sub_of_range] <;> rw [hmv]
    exacts [hd₂.1, hd₂.2]
  have hpv : ((v - e.mean) * (v - (e.mean + (v - e.mean) / (e.count + 1)))).val =
      (v.val - e.mean.val) *
        (v.val - (e.mean.val + (v.val - e.mean.val).tdiv (e.count.val + 1))) := by
    rw [Int64.val_mul_of_range] <;> rw [hdv, hd₂v]
    exacts [hp.1, hp.2]
  simp only [update, Prod.mk.injEq]
  refine ⟨hmv, ?_, hcv⟩
  rw [Int64.val_add_of_range] <;> rw [hpv]
  exacts [hm.1, hm.2]

/-- The integer arithmetic of one update: the new mean lies between the old one and the value,
and `delta * delta2` lies in `[0, delta^2]`. -/
theorem updateInt_step (μ v c : Int) (hc : 0 ≤ c) :
    let q := (v - μ).tdiv (c + 1)
    ((μ ≤ μ + q ∧ μ + q ≤ v) ∨ (v ≤ μ + q ∧ μ + q ≤ μ)) ∧
      (0 ≤ (v - μ) * (v - (μ + q)) ∧ (v - μ) * (v - (μ + q)) ≤ (v - μ) ^ 2) := by
  intro q
  obtain ⟨hpos, hneg⟩ := tdiv_between (d := v - μ) (c := c + 1) (by omega)
  refine ⟨?_, ?_⟩
  · rcases le_total 0 (v - μ) with hd | hd
    · have := hpos hd; omega
    · have := hneg hd; omega
  · rw [sq]
    rcases le_total 0 (v - μ) with hd | hd
    · obtain ⟨h₁, h₂⟩ := hpos hd
      exact ⟨mul_nonneg hd (by omega), mul_le_mul_of_nonneg_left (by omega) hd⟩
    · obtain ⟨h₁, h₂⟩ := hneg hd
      exact ⟨mul_nonneg_of_nonpos_of_nonpos hd (by omega),
        mul_le_mul_of_nonpos_left (by omega) hd⟩

/-! ## (3) The invariant over a run -/

section Run

variable {lo hi : Int}

/-- What holds after the values `xs`, all in `[lo, hi]`: the fields are those of the integer
update, `count_` is the number of values, `mean_` lies in `[lo, hi]` once a value was seen,
and `m2_` lies in `[0, (|xs| - 1) * (hi - lo)^2]`. -/
structure Inv (lo hi : Int) (xs : List Int64) (e : VolatilityEstimator) : Prop where
  vals_eq : e.vals = (xs.map Int64.val).foldl updateInt (0, 0, 0)
  count_eq : e.count.val = xs.length
  mean_mem : xs ≠ [] → lo ≤ e.mean.val ∧ e.mean.val ≤ hi
  m2_nonneg : 0 ≤ e.m2.val
  m2_le : e.m2.val ≤ ((xs.length - 1 : Nat) : Int) * (hi - lo) ^ 2

theorem inv_init : Inv lo hi [] init :=
  ⟨rfl, rfl, fun h => absurd rfl h, le_rfl, by simp [init]⟩

/-- **Step lemma.** An update by a value in `[lo, hi]` keeps the invariant and does not lower
`m2_`, while `(|xs| + 1) * (hi - lo + 1)^2 < 2^63`. -/
theorem Inv.update {xs : List Int64} {e : VolatilityEstimator} (h : Inv lo hi xs e)
    {v : Int64} (hv : lo ≤ v.val ∧ v.val ≤ hi)
    (hn : ((xs.length + 1 : Nat) : Int) * (hi - lo + 1) ^ 2 < 2 ^ 63) :
    Inv lo hi (xs ++ [v]) (e.update v) ∧ e.m2.val ≤ (e.update v).m2.val := by
  obtain ⟨hvals, hcount, hmean, hm₀, hm⟩ := h
  have hw : ((xs.length + 1 : Nat) : Int) * (hi - lo) ^ 2 < 2 ^ 63 :=
    lt_of_le_of_lt (mul_le_mul_of_nonneg_left (pow_le_pow_left₀ (by omega) (by omega) 2)
      (Int.natCast_nonneg _)) hn
  have hnw : (xs.length : Int) * (hi - lo) ^ 2 + (hi - lo) ^ 2 < 2 ^ 63 := by
    push_cast at hw; linarith
  have hw₀ := sq_nonneg (hi - lo)
  have hw₁ := mul_nonneg (Int.natCast_nonneg xs.length) hw₀
  have hw₂ : hi - lo < 2 ^ 63 := lt_of_le_of_lt (Int.le_self_sq _) (by omega)
  have hc₁ : ((xs.length + 1 : Nat) : Int) < 2 ^ 63 :=
    lt_of_le_of_lt (le_mul_of_one_le_right (by omega) (one_le_pow₀ (by omega))) hn
  obtain ⟨hq, hp⟩ := updateInt_step e.mean.val v.val e.count.val (by omega)
  -- before the first value the fields are `0`; after it the mean is in `[lo, hi]`
  have hcase : -2 ^ 63 ≤ v.val - e.mean.val ∧ v.val - e.mean.val < 2 ^ 63 ∧
      e.m2.val + (v.val - e.mean.val) *
        (v.val - (e.mean.val + (v.val - e.mean.val).tdiv (e.count.val + 1))) ≤
        (xs.length : Int) * (hi - lo) ^ 2 ∧
      lo ≤ e.mean.val + (v.val - e.mean.val).tdiv (e.count.val + 1) ∧
      e.mean.val + (v.val - e.mean.val).tdiv (e.count.val + 1) ≤ hi := by
    rcases eq_or_ne xs [] with rfl | hne
    · simp only [List.map_nil, List.foldl_nil, vals, Prod.mk.injEq] at hvals
      obtain ⟨h₁, h₂, h₃⟩ := hvals
      simp only [h₁, h₂, h₃, List.length_nil, Nat.cast_zero, Int.zero_mul, Int.zero_add,
        Int.sub_zero, Int.tdiv_one, Int.sub_self, Int.mul_zero]
      exact ⟨v.le_val, v.val_lt, le_rfl, hv⟩
    · obtain ⟨hμ₁, hμ₂⟩ := hmean hne
      have hd : (v.val - e.mean.val) ^ 2 ≤ (hi - lo) ^ 2 :=
        sq_le_sq' (by omega) (by omega)
      have hlen : ((xs.length - 1 : Nat) : Int) = xs.length - 1 := by
        have := List.length_pos.2 hne; omega
      rw [hlen] at hm
      refine ⟨by omega, by omega, by linarith, by omega, by omega⟩
  obtain ⟨hd₁, hd₂, hm₁, hmean₁, hmean₂⟩ := hcase
  have hμ := e.mean.le_val; have hμ' := e.mean.val_lt
  have hv₁ := v.le_val; have hv₂ := v.val_lt
  have key := vals_update (e := e) (v := v) (by omega) (by omega) ⟨hd₁, hd₂⟩
    (by simp only [updateInt, vals]; omega) (by simp only [updateInt, vals]; omega)
    (by simp only [updateInt, vals]; omega) (by simp only [updateInt, vals]; omega)
  have hvals' := key
  simp only [vals, updateInt, Prod.mk.injEq] at key
  obtain ⟨k₁, k₂, k₃⟩ := key
  refine ⟨⟨?_, ?_, fun _ => ?_, ?_, ?_⟩, ?_⟩
  · rw [hvals', hvals, List.map_append, List.foldl_append]
    rfl
  · rw [k₃, hcount, List.length_append, List.length_singleton, Nat.cast_add, Nat.cast_one]
  · rw [k₁]; exact ⟨hmean₁, hmean₂⟩
  · rw [k₂]; omega
  · rw [k₂, List.length_append, List.length_singleton, Nat.add_sub_cancel]
    exact hm₁
  · rw [k₂]; omega

/-- **Run lemma.** Updates by values in `[lo, hi]` keep the invariant and do not lower `m2_`,
while `(|xs| + |ys|) * (hi - lo + 1)^2 < 2^63`. -/
theorem Inv.updateAll {xs : List Int64} {e : VolatilityEstimator} (h : Inv lo hi xs e) :
    ∀ ys : List Int64, (∀ y ∈ ys, lo ≤ y.val ∧ y.val ≤ hi) →
      ((xs.length + ys.length : Nat) : Int) * (hi - lo + 1) ^ 2 < 2 ^ 63 →
      Inv lo hi (xs ++ ys) (e.updateAll ys) ∧ e.m2.val ≤ (e.updateAll ys).m2.val
  | [], _, _ => by rw [List.append_nil]; exact ⟨h, le_rfl⟩
  | y :: ys, hb, hn => by
    have hle : ((xs.length + 1 : Nat) : Int) ≤ ((xs.length + (y :: ys).length : Nat) : Int) := by
      simp only [List.length_cons]; omega
    obtain ⟨h', hm⟩ := h.update (hb y (List.mem_cons_self _ _))
      (lt_of_le_of_lt (mul_le_mul_of_nonneg_right hle (sq_nonneg _)) hn)
    obtain ⟨h'', hm'⟩ := h'.updateAll ys (fun z hz => hb z (List.mem_cons_of_mem _ hz))
      (by rwa [List.length_append, List.length_singleton, Nat.add_assoc, Nat.add_comm 1])
    rw [List.append_assoc, List.singleton_append] at h''
    exact ⟨h'', hm.trans hm'⟩

end Run

/-! ## (4) `variance()` and `stddev()` -/

/-- **`stddev()` is the integer square root** of a variance in `[0, 2^63 - 2]`. -/
theorem stddev_root {e : VolatilityEstimator} (h₀ : 0 ≤ e.variance.val)
    (h₁ : e.variance.val ≤ 2 ^ 63 - 2) :
    0 ≤ e.stddev.val ∧ e.stddev.val ^ 2 ≤ e.variance.val ∧
      e.variance.val < (e.stddev.val + 1) ^ 2 := by
  dsimp only [stddev]
  split
  · next h => rw [h]; norm_num
  · next h =>
    have hv : 1 ≤ e.variance.val := by
      have : e.variance.val ≠ 0 := fun h' => h (Int64.ext h')
      omega
    exact newtonLoop_isqrt hv h₁

/-- Under the invariant, `variance()` lies in `[0, 2^63 - 2]`: `m2_ / (count_ - 1)` divides a
non-negative `m2_` below `2^63 - 1` by a positive count. -/
theorem Inv.variance_mem {lo hi : Int} {xs : List Int64} {e : VolatilityEstimator}
    (h : Inv lo hi xs e) (hn : (xs.length : Int) * (hi - lo + 1) ^ 2 < 2 ^ 63) :
    0 ≤ e.variance.val ∧ e.variance.val ≤ 2 ^ 63 - 2 := by
  unfold variance
  split
  · next hc =>
    have h₁ : (1 : Int64).val = 1 := rfl
    rw [gt_iff_lt, Int64.lt_def, h₁, h.count_eq] at hc
    have hlen : ((xs.length - 1 : Nat) : Int) = xs.length - 1 := by omega
    have hm := h.m2_le
    rw [hlen] at hm
    have hw := (h.mean_mem (List.ne_nil_of_length_pos (by omega))).1.trans
      (h.mean_mem (List.ne_nil_of_length_pos (by omega))).2
    -- `(n - 1) * (hi - lo)^2 + 2 ≤ n * (hi - lo + 1)^2` for `n ≥ 2`
    have hexp : (xs.length : Int) * (hi - lo + 1) ^ 2 = (xs.length - 1) * (hi - lo) ^ 2 +
        ((hi - lo) ^ 2 + 2 * (xs.length * (hi - lo)) + xs.length) := by ring
    have := sq_nonneg (hi - lo)
    have := mul_nonneg (Int.natCast_nonneg xs.length) (show 0 ≤ hi - lo by omega)
    have hc₁ : (e.count - 1).val = xs.length - 1 := by
      rw [Int64.val_sub_of_range] <;> rw [h₁, h.count_eq]
      · omega
      · have := e.count.val_lt; rw [h.count_eq] at this; omega
    have hq₁ := Int.ediv_nonneg h.m2_nonneg (show (0 : Int) ≤ xs.length - 1 by omega)
    have hq₂ := Int.ediv_le_self (xs.length - 1 : Int) h.m2_nonneg
    rw [Int64.val_div, hc₁, Int.tdiv_eq_ediv h.m2_nonneg (by omega),
      Int64.bmod_of_range (by omega) (by omega)]
    omega
  · exact ⟨le_rfl, by norm_num⟩

/-! ## (5) Runs from the constructor -/

/-- From the constructor, a run of values in `[lo, hi]` no longer than `k` with
`k * (hi - lo + 1)^2 < 2^63` ends in the invariant. -/
theorem inv_updateAll {lo hi : Int} {k : Nat} (hk : (k : Int) * (hi - lo + 1) ^ 2 < 2 ^ 63)
    {xs : List Int64} (hl : xs.length ≤ k) (hb : ∀ x ∈ xs, lo ≤ x.val ∧ x.val ≤ hi) :
    Inv lo hi xs (init.updateAll xs) := by
  have hl' : (([] : List Int64).length + xs.length : Nat) ≤ (k : Int) := by
    simp only [List.length_nil, Nat.zero_add]; exact_mod_cast hl
  have h := (inv_init : Inv lo hi [] init).updateAll xs hb
    (lt_of_le_of_lt (mul_le_mul_of_nonneg_right hl' (sq_nonneg _)) hk)
  rw [List.nil_append] at h
  exact h.1

/-- **Bounded runs do not wrap.** For every list of `k` values in `[lo, hi]` with
`k * (hi - lo + 1)^2 < 2^63`, the estimator after them holds exactly the fields of the integer
update `updateInt`, `count_ = k`, `mean_` lies in `[lo, hi]` once a value was seen, no update
lowers `m2_`, `m2_` lies in `[0, (k - 1) * (hi - lo)^2]`, and `stddev()` is the integer square
root of `variance()`. -/
theorem updateAll_no_wrap (xs : List Int64) (lo hi : Int)
    (hb : ∀ x ∈ xs, lo ≤ x.val ∧ x.val ≤ hi)
    (hn : (xs.length : Int) * (hi - lo + 1) ^ 2 < 2 ^ 63) :
    (init.updateAll xs).vals = (xs.map Int64.val).foldl updateInt (0, 0, 0) ∧
      (init.updateAll xs).count.val = xs.length ∧
      (xs ≠ [] → lo ≤ (init.updateAll xs).mean.val ∧ (init.updateAll xs).mean.val ≤ hi) ∧
      (∀ i < xs.length,
        (init.updateAll (xs.take i)).m2.val ≤ (init.updateAll (xs.take (i + 1))).m2.val) ∧
      0 ≤ (init.updateAll xs).m2.val ∧
      (init.updateAll xs).m2.val ≤ ((xs.length - 1 : Nat) : Int) * (hi - lo) ^ 2 ∧
      0 ≤ (init.updateAll xs).stddev.val ∧
      (init.updateAll xs).stddev.val ^ 2 ≤ (init.updateAll xs).variance.val ∧
      (init.updateAll xs).variance.val < ((init.updateAll xs).stddev.val + 1) ^ 2 := by
  have h := inv_updateAll hn le_rfl hb
  obtain ⟨hv₀, hv₁⟩ := h.variance_mem hn
  refine ⟨h.vals_eq, h.count_eq, h.mean_mem, fun i hi' => ?_, h.m2_nonneg, h.m2_le,
    stddev_root hv₀ hv₁⟩
  have hti : (xs.take i).length = i := List.length_take_of_le (by omega)
  have hi : Inv lo hi (xs.take i) (init.updateAll (xs.take i)) :=
    inv_updateAll hn (by omega) fun y hy => hb y (List.mem_of_mem_take hy)
  rw [List.take_succ, List.getElem?_eq_getElem hi', Option.toList_some, updateAll_append,
    updateAll_cons, updateAll_nil]
  exact (hi.update (hb _ (List.getElem_mem _)) (lt_of_le_of_lt
    (mul_le_mul_of_nonneg_right (by rw [hti]; omega) (sq_nonneg _)) hn)).2

/-- Four values in `[0, 10]`. -/
theorem updateAll_no_wrap_four :
    (∀ x ∈ [(0 : Int64), 10, 10, 10], 0 ≤ x.val ∧ x.val ≤ 10) ∧
      ([(0 : Int64), 10, 10, 10].length : Int) * (10 - 0 + 1) ^ 2 < 2 ^ 63 ∧
      (init.updateAll [0, 10, 10, 10]).stddev.val ^ 2 ≤
        (init.updateAll [0, 10, 10, 10]).variance.val :=
  ⟨by decide, by norm_num,
    (updateAll_no_wrap [0, 10, 10, 10] 0 10 (by decide) (by norm_num)).2.2.2.2.2.2.2.1⟩

example : (init.updateAll [0, 10, 10, 10]).vals = (7, 82, 4) ∧
    (init.updateAll [0, 10, 10, 10]).stddev = 5 := by decide

/-! ## (6) The truncated mean stalls -/

/-- One update by a value within `count_` of the mean leaves the mean where it is: the
truncated `delta / count_` is `0`, so `delta2 = delta` and `m2_` grows by `delta^2`. -/
theorem update_of_abs_le {e : VolatilityEstimator} {v : Int64}
    (hd : |v.val - e.mean.val| ≤ e.count.val) (hc : e.count.val + 1 < 2 ^ 63)
    (hm₀ : 0 ≤ e.m2.val) (hm : e.m2.val + (v.val - e.mean.val) ^ 2 < 2 ^ 63) :
    (e.update v).mean = e.mean ∧ (e.update v).count.val = e.count.val + 1 ∧
      (e.update v).m2.val = e.m2.val + (v.val - e.mean.val) ^ 2 := by
  obtain ⟨hd₁, hd₂⟩ := abs_le.1 hd
  have hq : (v.val - e.mean.val).tdiv (e.count.val + 1) = 0 := by
    rw [tdiv_eq_ite _ (by omega)]
    split
    · exact Int.ediv_eq_zero_of_lt (by omega) (by omega)
    · rw [Int.ediv_eq_zero_of_lt (by omega) (by omega), Int.neg_zero]
  have hsq := mul_self_nonneg (v.val - e.mean.val)
  rw [sq] at hm ⊢
  have hμ := e.mean.le_val; have hμ' := e.mean.val_lt
  have key := vals_update (e := e) (v := v) (by omega) hc ⟨by omega, by omega⟩
    (by simp only [updateInt, vals, hq]; omega) (by simp only [updateInt, vals, hq]; omega)
    (by simp only [updateInt, vals, hq, Int.add_zero]; omega)
    (by simp only [updateInt, vals, hq, Int.add_zero]; omega)
  simp only [vals, updateInt, hq, Int.add_zero, Prod.mk.injEq] at key
  exact ⟨Int64.ext key.1, key.2.2, key.2.1⟩

/-- **The truncated mean stalls.** From any state with `m2_ >= 0`, `k` updates by a value `v`
with `|v - mean_| <= count_` leave `mean_` where it is and add `(v - mean_)^2` to `m2_` each,
as long as `count_ + k` and the new `m2_` fit: the gap stays below the growing count, so
`delta / count_` stays `0`. The mean never reaches a constant tail, and the variance of that
tail tends to `(v - mean_)^2`, not to `0`. -/
theorem updateAll_replicate (e : VolatilityEstimator) (v : Int64) (k : Nat)
    (hd : |v.val - e.mean.val| ≤ e.count.val) (hc : e.count.val + k < 2 ^ 63)
    (hm₀ : 0 ≤ e.m2.val) (hm : e.m2.val + k * (v.val - e.mean.val) ^ 2 < 2 ^ 63) :
    (e.updateAll (List.replicate k v)).mean = e.mean ∧
      (e.updateAll (List.replicate k v)).count.val = e.count.val + k ∧
      (e.updateAll (List.replicate k v)).m2.val = e.m2.val + k * (v.val - e.mean.val) ^ 2 := by
  induction k generalizing e with
  | zero => simp
  | succ k ih =>
    have hsq := sq_nonneg (v.val - e.mean.val)
    have hk := mul_nonneg (Int.natCast_nonneg k) hsq
    push_cast at hc hm
    obtain ⟨h₁, h₂, h₃⟩ := update_of_abs_le hd (by omega) hm₀ (by linarith)
    rw [List.replicate_succ, updateAll_cons]
    obtain ⟨r₁, r₂, r₃⟩ := ih (e.update v) (by rw [h₁, h₂]; omega) (by rw [h₂]; omega)
      (by rw [h₃]; omega) (by rw [h₁, h₃]; linarith)
    rw [h₁] at r₁ r₃
    exact ⟨r₁, by rw [r₂, h₂]; push_cast; ring, by rw [r₃, h₃]; push_cast; ring⟩

/-- After `[0, 10, 10, 10]` the mean is `7` with `count_ = 4`; a thousand further `10`s leave it
at `7`. -/
theorem updateAll_replicate_ten :
    |(10 : Int64).val - (init.updateAll [0, 10, 10, 10]).mean.val| ≤
        (init.updateAll [0, 10, 10, 10]).count.val ∧
      (init.updateAll [0, 10, 10, 10]).count.val + (1000 : Nat) < 2 ^ 63 ∧
      0 ≤ (init.updateAll [0, 10, 10, 10]).m2.val ∧
      (init.updateAll [0, 10, 10, 10]).m2.val +
        (1000 : Nat) * ((10 : Int64).val - (init.updateAll [0, 10, 10, 10]).mean.val) ^ 2 <
        2 ^ 63 ∧
      ((init.updateAll [0, 10, 10, 10]).updateAll (List.replicate 1000 10)).mean =
        (init.updateAll [0, 10, 10, 10]).mean :=
  ⟨by decide, by decide, by decide, by decide,
    (updateAll_replicate _ 10 1000 (by decide) (by decide) (by decide) (by decide)).1⟩

end VolatilityEstimator

end Sage
