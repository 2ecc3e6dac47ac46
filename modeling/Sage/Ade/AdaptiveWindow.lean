import Sage.Ade.StatisticsLaws

/-! # The adaptive window (`ade/adaptive_window.hpp`)

`AdaptiveWindow<MaxWindow>` keeps the last `MaxWindow` values of a stream in a ring with their
running sums, as `RollingStats<MaxWindow>` does, and adds a variance estimate: `current_var_` is
the variance over the ring and `baseline_var_` its slow EWMA. `effective_window()` moves from
`base_window` down towards `min_window` as the current variance rises above the baseline, and
`mean()` averages the last `effective_window()` values.

* **`AdaptiveWindow.update_eq`** — `update(value)` is a `RollingStats` update of the ring and
  the sums, then `update_variance()`; so **`tracks_updateAll`**: the ring holds the last
  values of the stream, as `RollingStats.Tracks` says.
* **`AdaptiveWindow.mean_eq`** — `mean()` is the wrapped sum of the last
  `min(effective_window(), count())` values in the ring, over `effective_window()`.
* **`AdaptiveWindow.updateAll_mean`** — over every update sequence, `count()` is
  `min(k, MaxWindow)`, `effective_window() <= count()` once `count()` is below `min_window` or
  has reached `base_window`, and `mean()` averages the last values of the stream.
* **`AdaptiveWindow.updateAll_flat`** — a flat history of `k` values with
  `min_window <= k < base_window` leaves `baseline_var_` at `0`, so `effective_window()` is
  `base_window`, above `count()`, and `mean()` divides the sum of the `k` values by
  `base_window`. -/

namespace Sage

/-- `AdaptiveWindow<MaxWindow>`: the three parameters, the ring `buffer_` with the number of
values in it and the `size_t` write counter `head_`, the running sums, and the two variance
estimates. `count_` never passes `MaxWindow`, so it is kept as a `Fin`. -/
structure AdaptiveWindow (MaxWindow : Nat) where
  baseWindow : BitVec 64
  minWindow : BitVec 64
  volScale : Int64
  count : Fin (MaxWindow + 1)
  head : BitVec 64
  buffer : Fin MaxWindow → Int64
  sum : Int64
  sumSq : Int64
  baselineVar : Int64
  currentVar : Int64

namespace AdaptiveWindow

open RollingStats (ringSlot window wrappedSum lastN Tracks)

variable {MaxWindow : Nat} [NeZero MaxWindow]

/-! ## (1) The model -/

/-- `AdaptiveWindow(base_window, min_window, vol_scale)`, whose defaults are `64`, `16` and
`PRICE_SCALE`. The constructor leaves `buffer_` uninitialised, so its contents are an
argument. -/
def create (baseWindow minWindow : BitVec 64) (volScale : Int64)
    (buffer : Fin MaxWindow → Int64) : AdaptiveWindow MaxWindow :=
  ⟨baseWindow, minWindow, volScale, 0, 0, buffer, 0, 0, 0, 0⟩

/-- `update_variance()`: from two values on, `current_var_` is `E[X²] - E[X]²` over the ring,
each mean truncated, and `baseline_var_` takes it while it is `0`, else moves a hundredth of
the way to it. -/
def updateVariance (w : AdaptiveWindow MaxWindow) : AdaptiveWindow MaxWindow :=
  if w.count.val < 2 then w
  else
    let meanVal := w.sum / Int64.ofInt w.count.val
    let meanSq := w.sumSq / Int64.ofInt w.count.val
    let currentVar := meanSq - meanVal * meanVal
    { w with
      currentVar := currentVar
      baselineVar :=
        if w.baselineVar = 0 then currentVar else (w.baselineVar * 99 + currentVar) / 100 }

/-- `update(value)`: a full ring first takes its oldest value, in slot `head_ & mask`, out of
both sums; the value is stored in that slot and added, `head_` moves on, a ring not yet full
counts one more value; then `update_variance()`. -/
def update (w : AdaptiveWindow MaxWindow) (value : Int64) : AdaptiveWindow MaxWindow :=
  let idx := maskIndex MaxWindow w.head.toNat
  let w := if MaxWindow ≤ w.count.val then
      { w with sum := w.sum - w.buffer idx, sumSq := w.sumSq - w.buffer idx * w.buffer idx }
    else w
  let w := { w with buffer := Function.update w.buffer idx value, sum := w.sum + value,
                    sumSq := w.sumSq + value * value, head := w.head + 1 }
  let w := if h : w.count.val < MaxWindow then { w with count := ⟨w.count.val + 1, by omega⟩ }
    else w
  w.updateVariance

/-- `effective_window()`: `count_` below `min_window`; `base_window` without a positive
baseline; otherwise `base_window * PRICE_SCALE / (PRICE_SCALE + vol_ratio * vol_scale /
PRICE_SCALE)` in `size_t`, clamped to `[min_window, base_window]`. -/
def effectiveWindow (w : AdaptiveWindow MaxWindow) : BitVec 64 :=
  if w.count.val < w.minWindow.toNat then BitVec.ofNat 64 w.count.val
  else if w.baselineVar ≤ 0 then w.baseWindow
  else
    let volRatio := w.currentVar * priceScale / w.baselineVar
    let denominator := priceScale + volRatio * w.volScale / priceScale
    -- `size_t * int64_t` is a `size_t` product; `std::max(denominator, int64_t(1))`
    let eff := w.baseWindow * BitVec.ofInt 64 priceScale.val /
      BitVec.ofInt 64 (if denominator < 1 then 1 else denominator).val
    -- `std::clamp(eff, min_window_, base_window_)`
    if eff < w.minWindow then w.minWindow else if w.baseWindow < eff then w.baseWindow else eff

/-- `mean()`: the sum of the values in slots `(head_ - count_ + i) & mask` for `i` from
`count_ - effective_window()` (or `0`) below `count_`, over `effective_window()`, truncated. -/
def mean (w : AdaptiveWindow MaxWindow) : Int64 :=
  let effWindow := w.effectiveWindow
  if effWindow = 0 then 0
  else
    let count := BitVec.ofNat 64 w.count.val
    let start := if effWindow < count then count - effWindow else 0
    let effSum := (List.range' start.toNat (w.count.val - start.toNat)).foldl
      (fun effSum i =>
        effSum + w.buffer (maskIndex MaxWindow (w.head - count + BitVec.ofNat 64 i).toNat)) 0
    effSum / Int64.ofInt effWindow.toNat

/-- `variance()`. -/
def variance (w : AdaptiveWindow MaxWindow) : Int64 := w.currentVar

/-- `volatility_ratio()`: `current_var_ * PRICE_SCALE / baseline_var_`, or `PRICE_SCALE`
without a positive baseline. -/
def volatilityRatio (w : AdaptiveWindow MaxWindow) : Int64 :=
  if w.baselineVar ≤ 0 then priceScale else w.currentVar * priceScale / w.baselineVar

/-- `is_ready()`. -/
def isReady (w : AdaptiveWindow MaxWindow) : Bool := w.minWindow.toNat ≤ w.count.val

/-- `reset()`: the counters, sums and estimates, not the parameters or `buffer_`. -/
def reset (w : AdaptiveWindow MaxWindow) : AdaptiveWindow MaxWindow :=
  { w with count := 0, head := 0, sum := 0, sumSq := 0, baselineVar := 0, currentVar := 0 }

/-- `update(x)` for each `x` of `xs` in turn. -/
def updateAll (w : AdaptiveWindow MaxWindow) (xs : List Int64) : AdaptiveWindow MaxWindow :=
  xs.foldl update w

@[simp] theorem updateAll_nil (w : AdaptiveWindow MaxWindow) : w.updateAll [] = w := rfl

@[simp] theorem updateAll_cons (w : AdaptiveWindow MaxWindow) (x : Int64) (xs : List Int64) :
    w.updateAll (x :: xs) = (w.update x).updateAll xs := rfl

theorem updateAll_append_singleton (w : AdaptiveWindow MaxWindow) (xs : List Int64)
    (x : Int64) : w.updateAll (xs ++ [x]) = (w.updateAll xs).update x := by
  rw [updateAll, updateAll, List.foldl_append, List.foldl_cons, List.foldl_nil]

omit [NeZero MaxWindow] in
theorem params_updateVariance (w : AdaptiveWindow MaxWindow) :
    w.updateVariance.baseWindow = w.baseWindow ∧ w.updateVariance.minWindow = w.minWindow := by
  unfold updateVariance; split <;> exact ⟨rfl, rfl⟩

/-- An update keeps the parameters. -/
theorem params_update (w : AdaptiveWindow MaxWindow) (x : Int64) :
    (w.update x).baseWindow = w.baseWindow ∧ (w.update x).minWindow = w.minWindow := by
  unfold update
  dsimp only
  split_ifs <;> exact params_updateVariance _

theorem params_updateAll (w : AdaptiveWindow MaxWindow) (xs : List Int64) :
    (w.updateAll xs).baseWindow = w.baseWindow ∧ (w.updateAll xs).minWindow = w.minWindow := by
  induction xs generalizing w with
  | nil => exact ⟨rfl, rfl⟩
  | cons x xs ih =>
    rw [updateAll_cons, (ih _).1, (ih _).2]
    exact params_update w x

/-! ## (2) The ring is a `RollingStats` -/

/-- The fields `AdaptiveWindow` keeps as `RollingStats<MaxWindow>` does: the ring, the write
slot `head_ & mask`, the count and the two sums. -/
def toRolling (w : AdaptiveWindow MaxWindow) : RollingStats MaxWindow :=
  ⟨w.buffer, maskIndex MaxWindow w.head.toNat, w.count, w.sum, w.sumSq⟩

theorem toRolling_updateVariance (w : AdaptiveWindow MaxWindow) :
    w.updateVariance.toRolling = w.toRolling := by
  unfold updateVariance; split <;> rfl

section Ring

variable (hN : MaxWindow.isPowerOfTwo) (hN64 : MaxWindow < 2 ^ 64)
include hN hN64

/-- `head_ + 1` wraps modulo `2^64`, which `MaxWindow` divides, so the write slot moves on by
one. -/
theorem maskIndex_succ (head : BitVec 64) :
    maskIndex MaxWindow (head + 1).toNat =
      maskIndex MaxWindow ((maskIndex MaxWindow head.toNat).val + 1) := by
  apply Fin.ext
  simp only [maskIndex_val hN, BitVec.toNat_add, Nat.mod_mod_of_dvd _ (dvd_two_pow_64 hN hN64)]
  simp

/-- **`update` is a `RollingStats` update, then `update_variance()`.** The state before
`update_variance()` is `w.toRolling.update value` on the ring and keeps both estimates. -/
theorem update_eq (w : AdaptiveWindow MaxWindow) (value : Int64) :
    ∃ r : AdaptiveWindow MaxWindow, r.toRolling = w.toRolling.update value ∧
      r.baselineVar = w.baselineVar ∧ r.currentVar = w.currentVar ∧
      w.update value = r.updateVariance := by
  refine ⟨_, ?_, ?_, ?_, rfl⟩
  · have hc := w.count.isLt
    by_cases hfull : w.count.val = MaxWindow
    · simp [toRolling, RollingStats.update, hfull, -BitVec.toNat_add]
      exact maskIndex_succ hN hN64 w.head
    · simp [toRolling, RollingStats.update, hfull, -BitVec.toNat_add,
        show ¬MaxWindow ≤ w.count.val by omega, show w.count.val < MaxWindow by omega]
      exact maskIndex_succ hN hN64 w.head
  all_goals split_ifs <;> rfl

theorem toRolling_update (w : AdaptiveWindow MaxWindow) (value : Int64) :
    (w.update value).toRolling = w.toRolling.update value := by
  obtain ⟨r, hr, -, -, he⟩ := update_eq hN hN64 w value
  rw [he, toRolling_updateVariance, hr]

theorem toRolling_updateAll (w : AdaptiveWindow MaxWindow) (xs : List Int64) :
    (w.updateAll xs).toRolling = w.toRolling.updateAll xs := by
  induction xs generalizing w with
  | nil => rfl
  | cons x xs ih => rw [updateAll_cons, ih, toRolling_update hN hN64, RollingStats.updateAll_cons]

/-- **The ring holds the last values.** After any update sequence from the constructor, whatever
`buffer_` held, `count_` is `min(k, MaxWindow)`, the ring holds the last `count_` values, and
`sum_`, `sum_sq_` are their wrapped sums. -/
theorem tracks_updateAll (baseWindow minWindow : BitVec 64) (volScale : Int64)
    (buffer : Fin MaxWindow → Int64) (xs : List Int64) :
    ((create baseWindow minWindow volScale buffer).updateAll xs).toRolling.Tracks xs := by
  have h0 : (create baseWindow minWindow volScale buffer).toRolling.Tracks [] :=
    ⟨by simp [create, toRolling], by simp [create, toRolling, maskIndex_val hN],
      by simp [create, toRolling, window, lastN], rfl, rfl⟩
  rw [toRolling_updateAll hN hN64]
  simpa using h0.updateAll hN xs

/-- Slot `(head_ - c + i) & mask` of the loop in `mean()` is the `i`-th of the last `c` slots
written, for `i < c ≤ MaxWindow`. -/
theorem maskIndex_sub_add (head : BitVec 64) {c i : Nat} (hc : c ≤ MaxWindow) (hi : i < c) :
    maskIndex MaxWindow (head - BitVec.ofNat 64 c + BitVec.ofNat 64 i).toNat =
      ringSlot MaxWindow ((maskIndex MaxWindow head.toNat).val + MaxWindow - c + i) := by
  obtain ⟨q, hq⟩ := dvd_two_pow_64 hN hN64
  have hdiv := Nat.mod_add_div head.toNat MaxWindow
  apply Fin.ext
  simp only [maskIndex_val hN, ringSlot, BitVec.toNat_add, BitVec.toNat_sub, BitVec.toNat_ofNat,
    Nat.mod_eq_of_lt (show c < 2 ^ 64 by omega), Nat.mod_eq_of_lt (show i < 2 ^ 64 by omega),
    Nat.mod_mod_of_dvd _ (dvd_two_pow_64 hN hN64)]
  -- drop the inner wrap, then the multiples of `MaxWindow` between the two sides
  conv_lhs => rw [Nat.add_mod, Nat.mod_mod_of_dvd _ (dvd_two_pow_64 hN hN64), ← Nat.add_mod]
  rw [show 2 ^ 64 - c + head.toNat + i = head.toNat % MaxWindow + MaxWindow - c + i +
      MaxWindow * (head.toNat / MaxWindow) + MaxWindow * (q - 1) by
        rw [Nat.mul_sub_one, ← hq]; omega,
    Nat.add_mul_mod_self_left, Nat.add_mul_mod_self_left]

end Ring

/-! ## (3) `mean()` and `effective_window()` -/

/-- The loop of `mean()` adds into an `int64_t`: the wrapped sum of what it reads. -/
theorem foldl_add_eq (f : Nat → Int64) (a : Int64) (l : List Nat) :
    l.foldl (fun acc i => acc + f i) a = Int64.ofInt (a.val + (l.map fun i => (f i).val).sum) := by
  induction l generalizing a with
  | nil => simp
  | cons i l ih =>
    rw [List.foldl_cons, ih]
    apply Int64.ext
    simp only [Int64.val_ofInt, Int64.val_add, Int.bmod_add_bmod_congr, List.map_cons,
      List.sum_cons, add_assoc]

/-- The ring's values from the `k`-th on. -/
theorem window_drop {N : Nat} [NeZero N] (s : RollingStats N) (k : Nat) :
    (window s).drop k = (List.range' k (s.count.val - k)).map
      fun j => s.buffer (ringSlot N (s.pos.val + N - s.count.val + j)) := by
  rw [window, ← List.map_drop]
  congr 1
  rcases le_total k s.count.val with hk | hk
  · rw [List.range_eq_range', ← Nat.sub_add_cancel hk, ← List.range'_append,
      Nat.sub_add_cancel hk, List.drop_left' (by simp)]
    simp
  · rw [List.drop_eq_nil_of_le (by simpa using hk), Nat.sub_eq_zero_of_le hk]
    rfl

/-- **What `mean()` computes.** Unless `effective_window()` is `0`, `mean()` is the wrapped sum
of the last `min(effective_window(), count())` values in the ring over `effective_window()`,
wrapped into an `int64_t`. -/
theorem mean_eq (hN : MaxWindow.isPowerOfTwo) (hN64 : MaxWindow < 2 ^ 64)
    (w : AdaptiveWindow MaxWindow) :
    w.mean = if w.effectiveWindow = 0 then 0 else
      wrappedSum Int64.val ((window w.toRolling).drop
        (w.count.val - min w.effectiveWindow.toNat w.count.val)) /
        Int64.ofInt w.effectiveWindow.toNat := by
  have hc : w.count.val < 2 ^ 64 := by have := w.count.isLt; omega
  have hstart : (if w.effectiveWindow < BitVec.ofNat 64 w.count.val then
      BitVec.ofNat 64 w.count.val - w.effectiveWindow else 0).toNat =
      w.count.val - min w.effectiveWindow.toNat w.count.val := by
    split
    · next h =>
      rw [BitVec.lt_def, BitVec.toNat_ofNat, Nat.mod_eq_of_lt hc] at h
      rw [BitVec.toNat_sub_of_le (BitVec.le_def.2 (by simp [Nat.mod_eq_of_lt hc]; omega)),
        BitVec.toNat_ofNat, Nat.mod_eq_of_lt hc]
      omega
    · next h =>
      rw [BitVec.lt_def, BitVec.toNat_ofNat, Nat.mod_eq_of_lt hc] at h
      show 0 = _
      omega
  unfold mean
  dsimp only
  split
  · rfl
  · rw [hstart, foldl_add_eq, window_drop, wrappedSum, List.map_map, Int64.val_zero, zero_add]
    simp only [toRolling]
    congr 3
    refine List.map_congr_left fun i hi => ?_
    have hi := List.mem_range'_1.1 hi
    rw [Function.comp_apply, maskIndex_sub_add hN hN64 _ (by omega) (by omega)]

/-- `std::clamp(e, lo, hi)` is at most the larger bound. -/
theorem clamp_toNat_le (e lo hi : BitVec 64) :
    (if e < lo then lo else if hi < e then hi else e).toNat ≤ max lo.toNat hi.toNat := by
  split_ifs with h₁ h₂
  · exact le_max_left _ _
  · exact le_max_right _ _
  · rw [BitVec.lt_def] at h₂; omega

omit [NeZero MaxWindow] in
/-- `effective_window()` is at most `count()` when `count()` is below `min_window`, which it then
returns, or has reached `base_window`, which bounds every other result. -/
theorem effectiveWindow_le_count (w : AdaptiveWindow MaxWindow) (hN64 : MaxWindow < 2 ^ 64)
    (h : w.count.val < w.minWindow.toNat ∨ w.baseWindow.toNat ≤ w.count.val) :
    w.effectiveWindow.toNat ≤ w.count.val := by
  have hc : w.count.val < 2 ^ 64 := by have := w.count.isLt; omega
  unfold effectiveWindow
  split
  · rw [BitVec.toNat_ofNat, Nat.mod_eq_of_lt hc]
  · split
    · omega
    · exact (clamp_toNat_le _ _ _).trans (by omega)

/-! ## (4) Over every update sequence -/

/-- Dropping all but the last `m` of the last `min(k, N)` values leaves the last `m`. -/
theorem lastN_drop {N : Nat} {xs : List Int64} {c m : Nat} (hc : c = min xs.length N)
    (hm : m ≤ c) : (lastN N xs).drop (c - m) = lastN m xs := by
  rw [lastN, lastN, List.drop_drop]
  congr 1
  omega

/-- **`mean()` of a ring holding the last values** is their wrapped sum over the last
`min(effective_window(), count())` of them, over `effective_window()`. -/
theorem mean_of_tracks (hN : MaxWindow.isPowerOfTwo) (hN64 : MaxWindow < 2 ^ 64)
    {w : AdaptiveWindow MaxWindow} {xs : List Int64} (h : w.toRolling.Tracks xs) :
    w.mean = if w.effectiveWindow = 0 then 0 else
      wrappedSum Int64.val (lastN (min w.effectiveWindow.toNat w.count.val) xs) /
        Int64.ofInt w.effectiveWindow.toNat := by
  rw [mean_eq hN hN64, h.window_eq,
    lastN_drop (show w.count.val = _ from h.count_eq) (min_le_right _ _)]

/-- **`mean()` over every update sequence.** For every power-of-two `MaxWindow` that is a
`size_t`, all parameters, whatever `buffer_` first held, and every sequence of `k` updates:
`count()` is `min(k, MaxWindow)`; `effective_window() <= count()` whenever `count()` is below
`min_window` or has reached `base_window`; and unless `effective_window()` is `0`, `mean()` is
the sum of the last `min(effective_window(), count())` values, wrapped into an `int64_t`, over
`effective_window()`. -/
theorem updateAll_mean (hN : MaxWindow.isPowerOfTwo) (hN64 : MaxWindow < 2 ^ 64)
    (baseWindow minWindow : BitVec 64) (volScale : Int64) (buffer : Fin MaxWindow → Int64)
    (xs : List Int64) :
    let w := (create baseWindow minWindow volScale buffer).updateAll xs
    w.count.val = min xs.length MaxWindow ∧
      (w.count.val < minWindow.toNat ∨ baseWindow.toNat ≤ w.count.val →
        w.effectiveWindow.toNat ≤ w.count.val) ∧
      w.mean = if w.effectiveWindow = 0 then 0 else
        wrappedSum Int64.val (lastN (min w.effectiveWindow.toNat w.count.val) xs) /
          Int64.ofInt w.effectiveWindow.toNat := by
  intro w
  have h := tracks_updateAll hN hN64 baseWindow minWindow volScale buffer xs
  obtain ⟨hb, hm⟩ := params_updateAll (create baseWindow minWindow volScale buffer) xs
  exact ⟨h.count_eq, fun hc => effectiveWindow_le_count w hN64 (by rw [hb, hm]; exact hc),
    mean_of_tracks hN hN64 h⟩

/-- Three values through the default window. -/
theorem updateAll_mean_three :
    (128 : Nat).isPowerOfTwo ∧ 128 < 2 ^ 64 ∧
      let w := (create 64 16 priceScale 0 : AdaptiveWindow 128).updateAll [4, 5, 6]
      w.count.val = min [(4 : Int64), 5, 6].length 128 ∧
        (w.count.val < (16 : BitVec 64).toNat ∨ (64 : BitVec 64).toNat ≤ w.count.val →
          w.effectiveWindow.toNat ≤ w.count.val) ∧
        w.mean = if w.effectiveWindow = 0 then 0 else
          wrappedSum Int64.val (lastN (min w.effectiveWindow.toNat w.count.val) [4, 5, 6]) /
            Int64.ofInt w.effectiveWindow.toNat :=
  ⟨⟨7, rfl⟩, by norm_num,
    updateAll_mean (⟨7, rfl⟩ : (128 : Nat).isPowerOfTwo) (by norm_num) _ _ _ _ _⟩

/-- The sums over `c` equal values. -/
theorem wrappedSum_replicate (g : Int64 → Int) (c : Nat) (v : Int64) :
    wrappedSum g (List.replicate c v) = Int64.ofInt (c * g v) := by
  simp [wrappedSum, List.map_replicate, List.sum_replicate]

/-- `c * v` is an `int64_t` when `c * v²` is. -/
theorem mul_range_of_sq {c : Nat} {v : Int} (hv : (c : Int) * v ^ 2 < 2 ^ 63) :
    -2 ^ 63 ≤ c * v ∧ c * v < 2 ^ 63 := by
  have hc : (0 : Int) ≤ c := Int.natCast_nonneg c
  have h₁ : (c : Int) * v ≤ c * v ^ 2 := mul_le_mul_of_nonneg_left (Int.le_self_sq v) hc
  have h₂ : -((c : Int) * v) ≤ c * v ^ 2 := by
    rw [← mul_neg]; exact mul_le_mul_of_nonneg_left (by simpa using Int.le_self_sq (-v)) hc
  omega

/-- **Step lemma for a flat history.** `update_variance()` over a ring of `c` equal values, with
both estimates `0`, leaves them `0`: `E[X²] - E[X]²` is exactly `0` when no sum overflows. -/
theorem updateVariance_flat (hN63 : MaxWindow < 2 ^ 63) {w : AdaptiveWindow MaxWindow}
    {v : Int64} (h : w.toRolling.Tracks (List.replicate w.count.val v))
    (hb : w.baselineVar = 0) (hcur : w.currentVar = 0)
    (hv : (w.count.val : Int) * v.val ^ 2 < 2 ^ 63) :
    w.updateVariance.baselineVar = 0 ∧ w.updateVariance.currentVar = 0 := by
  unfold updateVariance
  split
  · exact ⟨hb, hcur⟩
  · next h2 =>
    have hcN : w.count.val ≤ MaxWindow := Nat.lt_succ_iff.1 w.count.isLt
    have hwin : window w.toRolling = List.replicate w.count.val v := by
      rw [h.window_eq, lastN, List.length_replicate, Nat.sub_eq_zero_of_le hcN, List.drop_zero]
    have hsq : (w.count.val : Int) * (v.val * v.val) < 2 ^ 63 := by rw [← sq]; exact hv
    have hvv : 0 ≤ v.val * v.val := mul_self_nonneg _
    have hvv' : v.val * v.val < 2 ^ 63 :=
      lt_of_le_of_lt (le_mul_of_one_le_left hvv (by omega)) hsq
    have hcv : (Int64.ofInt w.count.val).val = w.count.val :=
      Int64.val_ofInt_of_range (by omega) (by omega)
    have hc0 : (w.count.val : Int) ≠ 0 := by omega
    obtain ⟨hs₁, hs₂⟩ := mul_range_of_sq hv
    have hmean : (w.sum / Int64.ofInt w.count.val).val = v.val := by
      rw [Int64.val_div, show w.sum = w.toRolling.sum from rfl, h.sum_eq, hwin,
        wrappedSum_replicate, Int64.val_ofInt, Int64.bmod_of_range hs₁ hs₂, hcv,
        Int.mul_tdiv_cancel_left _ hc0, Int64.bmod_of_range v.le_val v.val_lt]
    have hmeanSq : (w.sumSq / Int64.ofInt w.count.val).val = v.val * v.val := by
      rw [Int64.val_div, show w.sumSq = w.toRolling.sumSq from rfl, h.sumSq_eq, hwin,
        wrappedSum_replicate, Int64.val_ofInt,
        Int64.bmod_of_range (by have := mul_nonneg (Int.natCast_nonneg w.count.val) hvv; omega)
          hsq, hcv,
        Int.mul_tdiv_cancel_left _ hc0, Int64.bmod_of_range (by omega) hvv']
    have hvar : w.sumSq / Int64.ofInt w.count.val -
        w.sum / Int64.ofInt w.count.val * (w.sum / Int64.ofInt w.count.val) = 0 := by
      apply Int64.ext
      rw [Int64.val_sub, Int64.val_mul, hmean, hmeanSq, Int64.bmod_of_range (by omega) hvv',
        sub_self]
      rfl
    simp only [hvar, hb, if_true, and_self]

section Flat

variable (hN : MaxWindow.isPowerOfTwo) (hN63 : MaxWindow < 2 ^ 63)
  (baseWindow minWindow : BitVec 64) (volScale : Int64) (buffer : Fin MaxWindow → Int64)
include hN hN63

/-- **Run lemma for a flat history.** Up to `MaxWindow` equal values, with no sum
overflowing, leave `baseline_var_` and `current_var_` at `0`. -/
theorem updateAll_replicate_vars (v : Int64) (j : Nat) (hj : j ≤ MaxWindow)
    (hv : (j : Int) * v.val ^ 2 < 2 ^ 63) :
    ((create baseWindow minWindow volScale buffer).updateAll
        (List.replicate j v)).baselineVar = 0 ∧
      ((create baseWindow minWindow volScale buffer).updateAll
        (List.replicate j v)).currentVar = 0 := by
  have hN64 : MaxWindow < 2 ^ 64 := by omega
  induction j with
  | zero => exact ⟨rfl, rfl⟩
  | succ j ih =>
    have hmono : (j : Int) * v.val ^ 2 ≤ ((j + 1 : Nat) : Int) * v.val ^ 2 :=
      mul_le_mul_of_nonneg_right (by push_cast; omega) (sq_nonneg _)
    obtain ⟨hb, hc⟩ := ih (by omega) (lt_of_le_of_lt hmono hv)
    rw [List.replicate_succ', updateAll_append_singleton]
    obtain ⟨r, hr, hrb, hrc, he⟩ := update_eq hN hN64
      ((create baseWindow minWindow volScale buffer).updateAll (List.replicate j v)) v
    have htr : r.toRolling.Tracks (List.replicate (j + 1) v) := by
      rw [hr, List.replicate_succ']
      exact (tracks_updateAll hN hN64 baseWindow minWindow volScale buffer _).update hN v
    have hcount : r.count.val = j + 1 := by
      have := htr.count_eq
      simp only [List.length_replicate] at this
      exact this.trans (min_eq_left hj)
    rw [he]
    exact updateVariance_flat hN63 (hcount ▸ htr) (hrb.trans hb) (hrc.trans hc)
      (by rw [hcount]; exact hv)

/-- **A flat history leaves `effective_window()` above `count()`.** For every power-of-two
`MaxWindow` below `2^63`, every `min_window <= k < base_window <= MaxWindow`, any `vol_scale`
and any first contents of `buffer_`: after `k` updates with one value `v` (`k * v²` an
`int64_t`), `baseline_var_` is still `0`, so `effective_window()` is `base_window`, more than
`count() = k`, and `mean()` is `k * v / base_window`, not `v`. -/
theorem updateAll_flat (k : Nat) (v : Int64) (hmin : minWindow.toNat ≤ k)
    (hk : k < baseWindow.toNat) (hbase : baseWindow.toNat ≤ MaxWindow)
    (hv : (k : Int) * v.val ^ 2 < 2 ^ 63) :
    let w := (create baseWindow minWindow volScale buffer).updateAll (List.replicate k v)
    w.count.val = k ∧ w.effectiveWindow = baseWindow ∧ w.count.val < w.effectiveWindow.toNat ∧
      w.mean.val = ((k : Int) * v.val).tdiv baseWindow.toNat := by
  intro w
  have hN64 : MaxWindow < 2 ^ 64 := by omega
  have h := tracks_updateAll hN hN64 baseWindow minWindow volScale buffer (List.replicate k v)
  have hcount : w.count.val = k := by
    have := h.count_eq
    simp only [List.length_replicate] at this
    exact this.trans (min_eq_left (by omega))
  obtain ⟨hb, hm⟩ := params_updateAll (create baseWindow minWindow volScale buffer)
    (List.replicate k v)
  have hvars := updateAll_replicate_vars hN hN63 baseWindow minWindow volScale buffer v k
    (by omega) hv
  have heff : w.effectiveWindow = baseWindow := by
    unfold effectiveWindow
    rw [if_neg (by rw [hm, hcount]; exact not_lt.2 hmin),
      if_pos ((Int64.le_def _ _).2 (by rw [hvars.1]))]
    exact hb
  have hb0 : baseWindow ≠ 0 := fun h0 => by rw [h0] at hk; exact absurd hk (Nat.not_lt_zero _)
  obtain ⟨hs₁, hs₂⟩ := mul_range_of_sq hv
  have hbv : (Int64.ofInt baseWindow.toNat).val = baseWindow.toNat :=
    Int64.val_ofInt_of_range (by omega) (by omega)
  refine ⟨hcount, heff, by rw [heff, hcount]; exact hk, ?_⟩
  rw [mean_of_tracks hN hN64 h, heff, if_neg hb0, hcount, min_eq_right hk.le,
    show lastN k (List.replicate k v) = List.replicate k v by simp [lastN],
    wrappedSum_replicate, Int64.val_div, Int64.val_ofInt, Int64.bmod_of_range hs₁ hs₂, hbv]
  have hq := tdiv_range (show (0 : Int) < baseWindow.toNat by omega) hs₁ hs₂
  exact Int64.bmod_of_range hq.1 hq.2

end Flat

/-- Sixteen `4`s through the default window: `effective_window()` is `64` and `mean()` is
`64 / 64 = 1`. -/
theorem updateAll_flat_fours :
    (128 : Nat).isPowerOfTwo ∧ 128 < 2 ^ 63 ∧ (16 : BitVec 64).toNat ≤ 16 ∧
      16 < (64 : BitVec 64).toNat ∧ (64 : BitVec 64).toNat ≤ 128 ∧
      ((16 : Nat) : Int) * (4 : Int64).val ^ 2 < 2 ^ 63 ∧
      let w := (create 64 16 priceScale 0 : AdaptiveWindow 128).updateAll (.replicate 16 4)
      w.count.val = 16 ∧ w.effectiveWindow = 64 ∧ w.count.val < w.effectiveWindow.toNat ∧
        w.mean.val = ((16 : Nat) * (4 : Int64).val).tdiv (64 : BitVec 64).toNat :=
  ⟨⟨7, rfl⟩, by norm_num, by decide, by decide, by decide, by decide,
    updateAll_flat (⟨7, rfl⟩ : (128 : Nat).isPowerOfTwo) (by norm_num) 64 16 priceScale 0 16 4
      (by decide) (by decide) (by decide) (by decide)⟩

end AdaptiveWindow

end Sage
