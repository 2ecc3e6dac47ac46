import Sage.Ade.IntegerSqrt
import Sage.Ade.Winsorized

/-! # What `variance()` and `stddev_approx()` compute while the sums fit

`RollingStats<N>` and `WinsorizedStats<Window>` compute `variance()` in one pass from their two
running sums, `sum_sq_ / n - mean() * mean()`, every step in `int64_t`, and `stddev_approx()`
as the Newton–Raphson root of it. ADE reads both on every tick: the price variance drives the
regime detector and the root divides the z-score. Nothing in the code keeps the one-pass form
from going negative; this module shows that it never does while the two sums are those of the
window, because Cauchy–Schwarz, `S^2 ≤ n Q`, survives both truncating divisions.

* **`tdiv_sq_le_ediv`** — for the sum `S` and the sum of squares `Q` of `n` integers,
  `trunc(S / n)^2 ≤ floor(Q / n)`.
* **`val_sumSq_div_sub`** — the `int64_t` expression `sum_sq / n - (sum / n) * (sum / n)` of two
  sums that are those of a list is exact, and lies in `[0, 2^63 - 2]`, where the root is exact.
* **`RollingStats.updateAll_variance_exact`** — after every update sequence whose last `N`
  values satisfy `N x^2 < 2^63`, `variance()` is `floor(Q / n) - trunc(S / n)^2` over the
  window, never negative, and `stddev_approx()` is its integer square root.
* **`WinsorizedStats.updateAll_variance_clamped`** — the same over the clamped window.
-/

namespace Sage

/-! ## (1) Sums of squares -/

/-- **Cauchy–Schwarz over a list**: `(Σ x)^2 ≤ n Σ x^2`. -/
theorem sq_sum_le_length_mul_sum_sq (l : List Int) :
    l.sum ^ 2 ≤ l.length * (l.map (· ^ 2)).sum := by
  have h := sq_sum_le_card_mul_sum_sq (s := Finset.univ) (f := l.get)
  rw [Finset.card_univ, Fintype.card_fin, ← List.sum_ofFn, ← List.sum_ofFn, List.ofFn_get] at h
  conv_rhs => rw [← List.ofFn_get l, List.map_ofFn, List.length_ofFn]
  exact h

/-- An integer is at most its square, so a sum is at most the sum of squares, either way. -/
theorem abs_sum_le_sum_sq (l : List Int) :
    l.sum ≤ (l.map (· ^ 2)).sum ∧ -l.sum ≤ (l.map (· ^ 2)).sum := by
  constructor
  · simpa using List.sum_le_sum (l := l) (f := id) (g := (· ^ 2)) fun x _ => Int.le_self_sq x
  · rw [List.sum_neg]
    exact List.sum_le_sum fun x _ => by simpa using Int.le_self_sq (-x)

/-- **At most `N` values with `N x^2 < 2^63`**: the sum of squares and the sum are `int64_t`s. -/
theorem sums_range {N : Nat} {l : List Int} (hl : l.length ≤ N)
    (h : ∀ x ∈ l, (N : Int) * x ^ 2 < 2 ^ 63) :
    (l.map (· ^ 2)).sum < 2 ^ 63 ∧ -2 ^ 63 < l.sum ∧ l.sum < 2 ^ 63 := by
  rcases Nat.eq_zero_or_pos l.length with h0 | hpos
  · simp [List.eq_nil_of_length_eq_zero h0]
  have hN : (0 : Int) < N := by omega
  have hle : ∀ y ∈ l.map fun x => (N : Int) * x ^ 2, y ≤ 2 ^ 63 - 1 := by
    intro y hy
    obtain ⟨x, hx, rfl⟩ := List.mem_map.1 hy
    have := h x hx; omega
  have hNQ := List.sum_le_card_nsmul _ _ hle
  rw [List.sum_map_mul_left, List.length_map, nsmul_eq_mul] at hNQ
  have hQ : (l.map (· ^ 2)).sum < 2 ^ 63 := by
    by_contra hc
    have h₁ := mul_le_mul_of_nonneg_left (not_lt.1 hc) hN.le
    have h₂ := mul_le_mul_of_nonneg_right (show (l.length : Int) ≤ N by exact_mod_cast hl)
      (show (0 : Int) ≤ 2 ^ 63 - 1 by norm_num)
    omega
  have := abs_sum_le_sum_sq l
  omega

/-- **The truncated mean, squared, is at most the floored mean square.** From `S^2 ≤ n Q`:
`n trunc(S / n)` lies between `0` and `S`, so its square is at most `S^2 ≤ n Q`. -/
theorem tdiv_sq_le_ediv {S Q n : Int} (hn : 0 < n) (h : S ^ 2 ≤ n * Q) :
    S.tdiv n ^ 2 ≤ Q / n := by
  have hm : (n * S.tdiv n) ^ 2 ≤ S ^ 2 := by
    rw [tdiv_eq_ite S hn.le]
    split
    · exact pow_le_pow_left₀ (mul_nonneg hn.le (Int.ediv_nonneg ‹_› hn.le))
        (Int.mul_ediv_self_le hn.ne') 2
    · rw [mul_neg, neg_sq, ← neg_sq S]
      exact pow_le_pow_left₀ (mul_nonneg hn.le (Int.ediv_nonneg (by omega) hn.le))
        (Int.mul_ediv_self_le hn.ne') 2
  refine Int.le_ediv_of_mul_le hn (le_of_mul_le_mul_left ?_ hn)
  calc n * (S.tdiv n ^ 2 * n) = (n * S.tdiv n) ^ 2 := by ring
    _ ≤ S ^ 2 := hm
    _ ≤ n * Q := h

/-! ## (2) The one-pass variance in `int64_t` -/

/-- **`sum_sq / n - (sum / n) * (sum / n)` is exact and in `[0, 2^63 - 2]`** for two
`int64_t` sums that are the sum and the sum of squares of a list of `n ≥ 2` values. -/
theorem val_sumSq_div_sub {sum sumSq : Int64} {l : List Int} (hl : 2 ≤ l.length)
    (hl' : l.length < 2 ^ 63) (hS : sum.val = l.sum) (hQ : sumSq.val = (l.map (· ^ 2)).sum) :
    let n := Int64.ofInt l.length
    (sumSq / n - sum / n * (sum / n)).val =
        sumSq.val / l.length - sum.val.tdiv l.length ^ 2 ∧
      0 ≤ (sumSq / n - sum / n * (sum / n)).val ∧
      (sumSq / n - sum / n * (sum / n)).val ≤ 2 ^ 63 - 2 := by
  intro n
  have hk : (2 : Int) ≤ l.length := by exact_mod_cast hl
  have hn : n.val = l.length := Int64.val_ofInt_of_range (by omega) (by exact_mod_cast hl')
  have hQ₀ : 0 ≤ sumSq.val := hQ ▸ List.sum_nonneg fun y hy => by
    obtain ⟨x, -, rfl⟩ := List.mem_map.1 hy; exact sq_nonneg x
  have hQlt := sumSq.val_lt
  -- `floor(Q / n)` is below `2^62`, since `n ≥ 2`
  have hq₀ := Int.ediv_nonneg hQ₀ (by omega : (0 : Int) ≤ l.length)
  have hq₁ : 2 * (sumSq.val / l.length) ≤ sumSq.val :=
    (mul_le_mul_of_nonneg_right hk hq₀).trans (Int.mul_ediv_self_le (by omega))
  have hq : (sumSq / n).val = sumSq.val / l.length := by
    rw [Int64.val_div, hn, Int.tdiv_eq_ediv hQ₀ (by omega), Int64.bmod_of_range (by omega)
      (by omega)]
  have hr := tdiv_range (x := sum.val) (c := l.length) (by omega) sum.le_val sum.val_lt
  have hm : (sum / n).val = sum.val.tdiv l.length := by
    rw [Int64.val_div, hn, Int64.bmod_of_range hr.1 hr.2]
  have hle : sum.val.tdiv l.length ^ 2 ≤ sumSq.val / l.length :=
    tdiv_sq_le_ediv (by omega) (by rw [hS, hQ]; exact sq_sum_le_length_mul_sum_sq l)
  have hsq := sq_nonneg (sum.val.tdiv l.length)
  have hmm : (sum / n * (sum / n)).val = sum.val.tdiv l.length ^ 2 := by
    rw [Int64.val_mul_of_range (by rw [hm, ← sq]; omega) (by rw [hm, ← sq]; omega), hm, sq]
  rw [Int64.val_sub_of_range (by rw [hq, hmm]; omega) (by rw [hq, hmm]; omega), hq, hmm]
  omega

/-- **Both running sums of a window that fits are exact**: for at most `N` values whose
images `y` satisfy `N y^2 < 2^63`, the wrapped sum and the wrapped sum of squares are the sums. -/
theorem wrappedSums_exact {N : Nat} (g : Int64 → Int) {win : List Int64} (hl : win.length ≤ N)
    (h : ∀ v ∈ win, (N : Int) * g v ^ 2 < 2 ^ 63) :
    (RollingStats.wrappedSum g win).val = (win.map g).sum ∧
      (RollingStats.wrappedSum (fun v => g v * g v) win).val =
        ((win.map g).map (· ^ 2)).sum := by
  obtain ⟨hQ, hS₁, hS₂⟩ := sums_range (N := N) (l := win.map g) (by rwa [List.length_map])
    (by rwa [List.forall_mem_map])
  have hsq : (win.map fun v => g v * g v) = (win.map g).map (· ^ 2) := by
    simp only [List.map_map, Function.comp_def, sq]
  refine ⟨Int64.bmod_of_range hS₁.le hS₂, ?_⟩
  rw [RollingStats.wrappedSum, Int64.val_ofInt, hsq]
  exact Int64.bmod_of_range (by have := (abs_sum_le_sum_sq (win.map g)).2; omega) hQ

/-! ## (3) `RollingStats<N>` -/

namespace RollingStats

variable {N : Nat} [NeZero N]

omit [NeZero N] in
/-- `variance()` of a state whose count and sums are those of a list `l`. -/
theorem variance_of_sums {s : RollingStats N} {l : List Int} (hN : N < 2 ^ 63)
    (hc : s.count.val = l.length) (hS : s.sum.val = l.sum)
    (hQ : s.sumSq.val = (l.map (· ^ 2)).sum) :
    (2 ≤ l.length →
        s.variance.val = s.sumSq.val / l.length - s.sum.val.tdiv l.length ^ 2) ∧
      0 ≤ s.variance.val ∧ s.variance.val ≤ 2 ^ 63 - 2 := by
  unfold variance
  split
  · rw [Int64.val_zero]; omega
  · have hm : s.mean = s.sum / Int64.ofInt s.count.val := if_pos (by omega)
    have hlt : l.length < 2 ^ 63 := by have := s.count.isLt; omega
    obtain ⟨h₁, h₂, h₃⟩ := val_sumSq_div_sub (by omega) hlt hS hQ
    rw [hm, hc]
    exact ⟨fun _ => h₁, h₂, h₃⟩

/-- **`variance()` is the window's one-pass variance, never negative, and `stddev_approx()`
its integer root.** For every power-of-two `N` below `2^63` and every update sequence from
the constructor whose last `N` values satisfy `N x^2 < 2^63` (so that neither sum wraps), with
`n = min(k, N)` values in the window, `S` their sum and `Q` their sum of squares:
`variance()` is `floor(Q / n) - trunc(S / n)^2` once `n ≥ 2`, it is never negative, and
`stddev_approx()` is `floor(sqrt(variance()))`. -/
theorem updateAll_variance_exact (hN : N.isPowerOfTwo) (hW : N < 2 ^ 63) (xs : List Int64)
    (hsmall : ∀ x ∈ lastN N xs, (N : Int) * x.val ^ 2 < 2 ^ 63) :
    let s := (empty : RollingStats N).updateAll xs
    let n : Int := (min xs.length N : Nat)
    (2 ≤ n → s.variance.val = ((lastN N xs).map fun x => x.val ^ 2).sum / n -
        ((lastN N xs).map Int64.val).sum.tdiv n ^ 2) ∧
      0 ≤ s.variance.val ∧ 0 ≤ s.stddevApprox.val ∧
      s.stddevApprox.val ^ 2 ≤ s.variance.val ∧
      s.variance.val < (s.stddevApprox.val + 1) ^ 2 := by
  intro s n
  have h : s.Tracks xs := by simpa using tracks_empty.updateAll hN xs
  have hlen : (lastN N xs).length = min xs.length N := by
    simp only [lastN, List.length_drop]; omega
  obtain ⟨hS, hQ⟩ := wrappedSums_exact Int64.val (by omega) hsmall
  rw [← h.window_eq, ← h.sum_eq, h.window_eq] at hS
  rw [← h.window_eq, ← h.sumSq_eq, h.window_eq] at hQ
  obtain ⟨hv, hv₀, hv₁⟩ :=
    variance_of_sums hW (by rw [h.count_eq, List.length_map, hlen]) hS hQ
  refine ⟨fun h2 => ?_, hv₀, newtonSqrt_isqrt hv₀ hv₁⟩
  rw [hv (by rw [List.length_map, hlen]; omega), hQ, hS, List.length_map, hlen, List.map_map]
  rfl

/-- A window of four after `1 … 5`: `2, 3, 4, 5`, variance `54 / 4 - 3^2 = 4`, root `2`. -/
theorem updateAll_variance_exact_five :
    ((empty : RollingStats 4).updateAll [1, 2, 3, 4, 5]).stddevApprox.val ^ 2 ≤
      ((empty : RollingStats 4).updateAll [1, 2, 3, 4, 5]).variance.val :=
  (updateAll_variance_exact (⟨2, rfl⟩ : (4 : Nat).isPowerOfTwo) (by norm_num) [1, 2, 3, 4, 5]
    (by decide)).2.2.2.1

end RollingStats

/-! ## (4) `WinsorizedStats<Window>` -/

namespace WinsorizedStats

open RollingStats (wrappedSum lastN)

variable {Window : Nat} [NeZero Window]

/-- A clamped value is one of the two bounds or the value itself. -/
theorem clamped_eq_or (lowClip highClip val : Int64) :
    clamped lowClip highClip val = lowClip ∨ clamped lowClip highClip val = highClip ∨
      clamped lowClip highClip val = val := by
  unfold clamped
  split_ifs <;> simp

omit [NeZero Window] in
/-- `variance()` of a state whose count and sums are those of a list `l`. -/
theorem variance_of_sums {w : WinsorizedStats Window} {l : List Int} (hW : Window < 2 ^ 63)
    (hc : w.count.val = l.length) (hS : w.sum.val = l.sum)
    (hQ : w.sumSq.val = (l.map (· ^ 2)).sum) :
    (2 ≤ l.length →
        w.variance.val = w.sumSq.val / l.length - w.sum.val.tdiv l.length ^ 2) ∧
      0 ≤ w.variance.val ∧ w.variance.val ≤ 2 ^ 63 - 2 := by
  unfold variance
  split
  · rw [Int64.val_zero]; omega
  · have hm : w.mean = w.sum / Int64.ofInt w.count.val := if_neg (by omega)
    have hlt : l.length < 2 ^ 63 := by have := w.count.isLt; omega
    obtain ⟨h₁, h₂, h₃⟩ := val_sumSq_div_sub (by omega) hlt hS hQ
    rw [hm, hc]
    exact ⟨fun _ => h₁, h₂, h₃⟩

/-- **`variance()` is the one-pass variance of the clamped window, never negative, and
`stddev_approx()` its integer root.** For every power-of-two `Window` below `2^58`, every
percentage and every update sequence from the constructor whose last `Window` values satisfy
`Window x^2 < 2^63`: with `c` the window's values clamped to the clip bounds, `n` their
number, `S` their sum and `Q` their sum of squares, `variance()` is
`floor(Q / n) - trunc(S / n)^2` once `n ≥ 2`, it is never negative, and `stddev_approx()` is
`floor(sqrt(variance()))`. -/
theorem updateAll_variance_clamped (hN : Window.isPowerOfTwo) (hW : Window < 2 ^ 58)
    (winsorPct : Int) (buffer : Fin Window → Int64) (xs : List Int64)
    (hsmall : ∀ x ∈ lastN Window xs, (Window : Int) * x.val ^ 2 < 2 ^ 63) :
    let w := (create winsorPct buffer).updateAll xs
    let b := clipBounds (clampPct winsorPct).val (lastN Window xs)
    let c := (lastN Window xs).map fun v => (clamped b.1 b.2 v).val
    (2 ≤ c.length →
        w.variance.val = (c.map (· ^ 2)).sum / c.length - c.sum.tdiv c.length ^ 2) ∧
      0 ≤ w.variance.val ∧ 0 ≤ w.stddevApprox.val ∧
      w.stddevApprox.val ^ 2 ≤ w.variance.val ∧
      w.variance.val < (w.stddevApprox.val + 1) ^ 2 := by
  intro w b c
  have h : w.Tracks xs := tracks_updateAll hN hW winsorPct buffer xs
  have hpw : w.winsorPct = clampPct winsorPct := winsorPct_updateAll hN hW _ xs
  have hsums := h.sums_eq
  simp only [winsorizedSums, hpw, Prod.mk.injEq] at hsums
  have hlen : c.length = w.count.val := by
    simp only [c, List.length_map, lastN, List.length_drop, h.count_eq]; omega
  -- a clamped value is a bound or a value of the window, and both bounds are values of it
  have hc : ∀ v ∈ lastN Window xs, (Window : Int) * (clamped b.1 b.2 v).val ^ 2 < 2 ^ 63 := by
    intro v hv
    obtain ⟨hlo, hhi⟩ := clipBounds_mem (Nat.lt_succ_iff.1 (clampPct winsorPct).isLt)
      (List.ne_nil_of_mem hv)
    rcases clamped_eq_or b.1 b.2 v with he | he | he <;> rw [he]
    exacts [hsmall _ hlo, hsmall _ hhi, hsmall _ hv]
  obtain ⟨hS, hQ⟩ := wrappedSums_exact _ (by simp only [lastN, List.length_drop]; omega) hc
  rw [← hsums.1] at hS
  rw [← hsums.2.1] at hQ
  obtain ⟨hv, hv₀, hv₁⟩ := variance_of_sums (by omega) hlen.symm hS hQ
  refine ⟨fun h2 => ?_, hv₀, newtonSqrt_isqrt hv₀ hv₁⟩
  rw [hv h2, hQ, hS]

/-- Five values through a window of four at `25%`: `100, 2, 3, 4` clamps to `4, 3, 3, 4`,
variance `50 / 4 - 3^2 = 3`, root `1`. -/
theorem updateAll_variance_clamped_four :
    let w := (create 25 0 : WinsorizedStats 4).updateAll [1, 100, 2, 3, 4]
    w.stddevApprox.val ^ 2 ≤ w.variance.val :=
  (updateAll_variance_clamped (⟨2, rfl⟩ : (4 : Nat).isPowerOfTwo) (by decide) 25 0
    [1, 100, 2, 3, 4] (by decide)).2.2.2.1

end WinsorizedStats

end Sage
