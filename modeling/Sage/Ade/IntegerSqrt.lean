import Sage.Ade.Statistics

/-! # What the Newton–Raphson square root computes

`RollingStats::stddev_approx`, `EWMAStats::stddev_approx`, `VolRegimeDetector::isqrt` and
`VolatilityEstimator::stddev` spell out one loop: `x = n; y = (x + 1) / 2;` then, while
`y < x`, `x = y; y = (x + n / x) / 2;`, all in `int64_t` (`newtonSqrt`, `newtonLoop`). Each
round divides `n` by the new `x`.

* **`newtonDivisors`** — the divisors of the loop's rounds, in order.
* **`round_spec`** — the arithmetic of one round: from a positive divisor, the next candidate
  is a positive upper bound of the root, and a candidate no smaller than the divisor means
  the divisor is the root.
* **`LoopInv`**, **`newtonLoop_spec`** — what holds at the loop head, and what the loop
  returns from there.
* **`newtonLoop_isqrt`**, **`newtonSqrt_isqrt`** — on `[0, 2^63 - 2]` the loop from its first
  head, and so `newtonSqrt`, returns `floor(sqrt(n))`.
* **`newtonSqrt_root`** — below `INT64_MAX` the loop stops on `floor(sqrt(n))` with every
  divisor positive and no sum overflowing; at `INT64_MAX` the first `x + 1` overflows. -/

namespace Sage

/-- The values the rounds of `newtonLoop` divide `n` by: each round takes `x = y` and
computes `n / x`. -/
def newtonDivisors (n : Int64) : Nat → Int64 → Int64 → List Int64
  | 0, _, _ => []
  | fuel + 1, x, y => if y < x then y :: newtonDivisors n fuel y ((y + n / y) / 2) else []

/-! ## (1) One round, over the integers -/

/-- **The arithmetic of one round.** For `n ≥ 1` and a divisor `y ≥ 1`, the next candidate
`s = (y + n / y) / 2` is positive and `n < (s + 1)^2`; and when `s` is not below `y`, `y` is
the root: `y^2 ≤ n`. -/
theorem round_spec {n y : Int} (hn : 1 ≤ n) (hy : 1 ≤ y) :
    1 ≤ (y + n / y) / 2 ∧ n < ((y + n / y) / 2 + 1) ^ 2 ∧
      (y ≤ (y + n / y) / 2 → y ^ 2 ≤ n) := by
  have hq : 0 ≤ n / y := Int.ediv_nonneg (by omega) (by omega)
  have hlo := Int.mul_ediv_self_le (x := n) (k := y) (by omega)
  have hhi := Int.lt_mul_ediv_self_add (x := n) (k := y) (by omega)
  generalize n / y = q at *
  -- `4n < 4y(q + 1) ≤ (y + q + 1)^2 ≤ 4(s + 1)^2` for `s = (y + q) / 2`
  have hamgm : (y + q + 1) ^ 2 = 4 * (y * (q + 1)) + (y - q - 1) ^ 2 := by ring
  have hs : (y + q + 1) ^ 2 ≤ (2 * ((y + q) / 2 + 1)) ^ 2 :=
    pow_le_pow_left₀ (by omega) (by omega) 2
  have hroot : n < ((y + q) / 2 + 1) ^ 2 := by
    have := sq_nonneg (y - q - 1)
    linarith
  refine ⟨?_, hroot, fun hle => ?_⟩
  · by_contra h
    rw [show (y + q) / 2 = 0 by omega] at hroot
    omega
  · by_contra h
    have hqy : q < y := lt_of_mul_lt_mul_left (by rw [← sq]; omega) (by omega : (0 : Int) ≤ y)
    omega

/-- A divisor no larger than the start `(n + 1) / 2` keeps the round's sum an `int64_t` below
`INT64_MAX`. -/
theorem round_sum_lt {n y : Int} (hn : n ≤ 2 ^ 63 - 2) (hy : 1 ≤ y) (hy₀ : 2 * y ≤ n + 1) :
    y + n / y < 2 ^ 63 := by
  have hlo := Int.mul_ediv_self_le (x := n) (k := y) (by omega)
  have hq : 0 ≤ n / y := Int.ediv_nonneg (by omega) (by omega)
  rcases eq_or_lt_of_le hy with rfl | hy2
  · rw [Int.ediv_one]; omega
  · have : 2 * (n / y) ≤ y * (n / y) := by nlinarith
    omega

/-! ## (2) The rounds in `int64_t` -/

variable {n : Int64}

/-- A round on `int64_t` computes the integer round when its sum stays in range. -/
theorem val_round (hn : 1 ≤ n.val) {y : Int64} (hy : 1 ≤ y.val)
    (hsum : y.val + n.val / y.val < 2 ^ 63) :
    ((y + n / y) / 2).val = (y.val + n.val / y.val) / 2 ∧ (n / y).val = n.val / y.val := by
  have hq : 0 ≤ n.val / y.val := Int.ediv_nonneg (by omega) (by omega)
  have hdiv : (n / y).val = n.val / y.val := by
    rw [Int64.val_div, Int.tdiv_eq_ediv (by omega) (by omega)]
    exact Int64.bmod_of_range (by omega) (by omega)
  have hadd : (y + n / y).val = y.val + n.val / y.val := by
    rw [Int64.val_add_of_range (by omega) (by omega), hdiv]
  refine ⟨?_, hdiv⟩
  rw [Int64.val_div, hadd, show (2 : Int64).val = 2 from rfl,
    Int.tdiv_eq_ediv (by omega) (by omega)]
  exact Int64.bmod_of_range (by omega) (by omega)

/-- **The loop head `(x, y)`**: both are positive upper bounds of the root, a taken round's
divisor is at most the start `(n + 1) / 2`, and an exit returns the root. -/
structure LoopInv (n x y : Int) : Prop where
  one_le_x : 1 ≤ x
  lt_sq_x : n < (x + 1) ^ 2
  one_le_y : 1 ≤ y
  lt_sq_y : n < (y + 1) ^ 2
  start_of_lt : y < x → 2 * y ≤ n + 1
  sq_le_of_exit : x ≤ y → x ^ 2 ≤ n

/-- The head of the loop as `newtonSqrt` enters it, `x = n`, `y = (n + 1) / 2`. -/
theorem loopInv_start (hn : 1 ≤ n.val) (hn₂ : n.val ≤ 2 ^ 63 - 2) :
    ((n + 1) / 2).val = (n.val + 1) / 2 ∧ LoopInv n.val n.val ((n.val + 1) / 2) := by
  have h₁ : (1 : Int64).val = 1 := rfl
  have h₂ : (2 : Int64).val = 2 := rfl
  have hy : ((n + 1) / 2).val = (n.val + 1) / 2 := by
    rw [Int64.val_div, Int64.val_add_of_range (by omega) (by omega), h₁, h₂,
      Int.tdiv_eq_ediv (by omega) (by omega)]
    exact Int64.bmod_of_range (by omega) (by omega)
  have hy₀ : n.val ≤ 2 * ((n.val + 1) / 2) := by omega
  have := sq_nonneg n.val
  have := sq_nonneg ((n.val + 1) / 2)
  refine ⟨hy, ⟨hn, by linarith, by omega, by linarith, fun _ => by omega, fun h => ?_⟩⟩
  rw [show n.val = 1 by omega]
  norm_num

/-- **Step lemma.** A taken round keeps the loop head's invariant, its divisor is positive,
and its sum stays an `int64_t`. -/
theorem LoopInv.round (hn : 1 ≤ n.val) (hn₂ : n.val ≤ 2 ^ 63 - 2) {x y : Int64}
    (h : LoopInv n.val x.val y.val) (hyx : y.val < x.val) :
    LoopInv n.val y.val ((y + n / y) / 2).val ∧ y.val + (n / y).val < 2 ^ 63 := by
  have hsum := round_sum_lt hn₂ h.one_le_y (h.start_of_lt hyx)
  obtain ⟨hr, hdiv⟩ := val_round hn h.one_le_y hsum
  obtain ⟨hs₁, hs₂, hs₃⟩ := round_spec hn h.one_le_y
  rw [hr, hdiv]
  exact ⟨⟨h.one_le_y, h.lt_sq_y, hs₁, hs₂, fun _ => by have := h.start_of_lt hyx; omega,
    hs₃⟩, hsum⟩

/-- **Run lemma.** From a loop head with the invariant and fuel no less than `x`, the loop
returns the root, `r^2 ≤ n < (r + 1)^2` with `r ≥ 1`, and every round divides by a positive
`x` whose sum `x + n / x` stays an `int64_t`. -/
theorem newtonLoop_spec (hn : 1 ≤ n.val) (hn₂ : n.val ≤ 2 ^ 63 - 2) :
    ∀ (fuel : Nat) (x y : Int64), LoopInv n.val x.val y.val → x.val ≤ fuel →
      1 ≤ (newtonLoop n fuel x y).val ∧ (newtonLoop n fuel x y).val ^ 2 ≤ n.val ∧
        n.val < ((newtonLoop n fuel x y).val + 1) ^ 2 ∧
        ∀ d ∈ newtonDivisors n fuel x y, 0 < d.val ∧ d.val + (n / d).val < 2 ^ 63
  | 0, x, _, h, hf => absurd hf (by have := h.one_le_x; omega)
  | fuel + 1, x, y, h, hf => by
    rw [newtonLoop, newtonDivisors]
    split
    · next hyx =>
      rw [Int64.lt_def] at hyx
      obtain ⟨h', hsum⟩ := h.round hn hn₂ hyx
      obtain ⟨r₁, r₂, r₃, hd⟩ := newtonLoop_spec hn hn₂ fuel y _ h' (by omega)
      refine ⟨r₁, r₂, r₃, fun d hd' => ?_⟩
      rcases List.mem_cons.1 hd' with rfl | hd'
      · exact ⟨by have := h.one_le_y; omega, hsum⟩
      · exact hd d hd'
    · next hyx =>
      rw [Int64.lt_def, not_lt] at hyx
      exact ⟨h.one_le_x, h.sq_le_of_exit hyx, h.lt_sq_x, fun _ hd => by cases hd⟩

/-- **The loop from its first head** `x = n`, `y = (n + 1) / 2` returns `floor(sqrt(n))` for
every `n` in `[1, 2^63 - 2]`. -/
theorem newtonLoop_isqrt (hn : 1 ≤ n.val) (hn₂ : n.val ≤ 2 ^ 63 - 2) :
    0 ≤ (newtonLoop n (2 ^ 64) n ((n + 1) / 2)).val ∧
      (newtonLoop n (2 ^ 64) n ((n + 1) / 2)).val ^ 2 ≤ n.val ∧
      n.val < ((newtonLoop n (2 ^ 64) n ((n + 1) / 2)).val + 1) ^ 2 := by
  obtain ⟨hy, hinv⟩ := loopInv_start hn hn₂
  obtain ⟨r₁, r₂, r₃, -⟩ := newtonLoop_spec hn hn₂ (2 ^ 64) n ((n + 1) / 2) (by rwa [hy])
    (by have := n.val_lt; omega)
  exact ⟨by omega, r₂, r₃⟩

/-! ## (3) The square root -/

/-- **`newtonSqrt n` is `floor(sqrt(n))` on `[0, 2^63 - 2]`**, `0` included. -/
theorem newtonSqrt_isqrt (h₀ : 0 ≤ n.val) (h₁ : n.val ≤ 2 ^ 63 - 2) :
    0 ≤ (newtonSqrt n).val ∧ (newtonSqrt n).val ^ 2 ≤ n.val ∧
      n.val < ((newtonSqrt n).val + 1) ^ 2 := by
  rcases h₀.lt_or_eq with hpos | h0
  · rw [newtonSqrt_eq_newtonLoop_add n hpos 0, Nat.add_zero]
    exact newtonLoop_isqrt hpos h₁
  · have hn : n ≤ 0 := by rw [Int64.le_def, Int64.val_zero]; omega
    rw [newtonSqrt, if_pos hn, Int64.val_zero, ← h0]
    norm_num

/-- **The Newton–Raphson loop returns `floor(sqrt(n))`, except at `INT64_MAX`.** For every
`int64_t` `n` with `0 < n < INT64_MAX`, the loop stops (further rounds change nothing), every
round divides by a positive `x` with `x + n / x` an `int64_t`, and the result `r` satisfies
`r ≥ 0` and `r^2 ≤ n < (r + 1)^2`. At `n = INT64_MAX` the first step `x + 1` overflows to
`INT64_MIN`, so `y` starts at `-2^62`, the loop takes that round, and it returns `-2^62`. -/
theorem newtonSqrt_root (n : Int64) :
    (0 < n.val → n.val < 2 ^ 63 - 1 →
      (∀ k, newtonLoop n (2 ^ 64 + k) n ((n + 1) / 2) = newtonSqrt n) ∧
      (∀ d ∈ newtonDivisors n (2 ^ 64) n ((n + 1) / 2),
        0 < d.val ∧ d.val + (n / d).val < 2 ^ 63) ∧
      0 ≤ (newtonSqrt n).val ∧ (newtonSqrt n).val ^ 2 ≤ n.val ∧
        n.val < ((newtonSqrt n).val + 1) ^ 2) ∧
    (newtonSqrt Int64.maxValue).val = -2 ^ 62 := by
  refine ⟨fun hn hn₂ => ?_, by decide⟩
  obtain ⟨-, hinv⟩ := loopInv_start (n := n) (by omega) (by omega)
  obtain ⟨r₁, r₂, r₃, hd⟩ :=
    newtonLoop_spec (n := n) (by omega) (by omega) (2 ^ 64) n ((n + 1) / 2)
    (by rwa [loopInv_start (n := n) (by omega) (by omega) |>.1]) (by have := n.val_lt; omega)
  have hroot : newtonSqrt n = newtonLoop n (2 ^ 64) n ((n + 1) / 2) :=
    newtonSqrt_eq_newtonLoop_add n hn 0
  refine ⟨fun k => (newtonSqrt_eq_newtonLoop_add n hn k).symm, hd, ?_⟩
  rw [hroot]
  exact ⟨by omega, r₂, r₃⟩

/-- At `n = 10` the loop divides by `5` and `3`, and returns `3`. -/
example : newtonDivisors 10 (2 ^ 64) 10 ((10 + 1) / 2) = [5, 3] ∧
    (newtonSqrt 10).val = 3 := by
  decide

end Sage
