import Sage.Ade.Statistics

/-! # What the streaming statistics compute

The statistics of `ade/rolling_stats.hpp` and `ade/ewma_stats.hpp` keep their state in a few
`int64_t` fields updated in O(1). This file says what that state stands for and shows that each
update keeps it so, over runs of any length.

* **`RollingStats.window`** — the values `buffer_` holds, oldest first, read from the slots
  `(pos_ - count_ + j) mod N`; **`window_update`** — an update slides it.
* **`RollingStats.updateAll_window`** — for a power-of-two `N`, after any values from the
  constructor, the window is the last `min(k, N)` of them and `sum_`, `sum_sq_` their sums
  modulo `2^64`, so that `mean()` is the recomputed truncated mean while the sum fits.
* **`EWMAStats.stepsAfterFirst_range`** — the arithmetic of one EWMA update: in range, and
  its numerator of the variance just under `2^63` at the top of the input range.
* **`EWMAStats.updateAll_bounds`** — with inputs in `[0, floor(sqrt(INT64_MAX))]`, the EWMA
  mean stays between the smallest and largest input, the variance is not negative, and no
  update overflows. -/

namespace Sage

/-! ## (1) `RollingStats<N>` is a window -/

/-- With a power-of-two `N`, `i & (N - 1)` is `i mod N`. -/
theorem maskIndex_val {N : Nat} [NeZero N] (hN : N.isPowerOfTwo) (i : Nat) :
    (maskIndex N i).val = i % N := by
  obtain ⟨k, rfl⟩ := hN
  exact Nat.and_pow_two_sub_one_eq_mod i k

/-- A power of two below `2^64` divides it, so a ring of `N` slots indexed by a `size_t` counter
sees no seam where the counter wraps. -/
theorem dvd_two_pow_64 {N : Nat} (hN : N.isPowerOfTwo) (hN64 : N < 2 ^ 64) : N ∣ 2 ^ 64 := by
  obtain ⟨e, rfl⟩ := hN
  exact Nat.pow_dvd_pow 2 (by
    by_contra he
    exact absurd hN64 (not_lt.2 (Nat.pow_le_pow_right (by norm_num) (by omega))))

/-- Moving `m` places round a ring of `N` slots, `0 < m < N`, lands on another slot. -/
theorem add_mod_ne_self {p m N : Nat} (hp : p < N) (h0 : 0 < m) (hm : m < N) :
    (p + m) % N ≠ p := by
  rcases lt_or_le (p + m) N with h | h
  · rw [Nat.mod_eq_of_lt h]; omega
  · rw [Nat.mod_eq_sub_mod h, Nat.mod_eq_of_lt (by omega)]; omega

/-- Truncating division by a positive divisor keeps an `int64_t` in range. -/
theorem tdiv_range {x c : Int} (hc : 0 < c) (h₁ : -2 ^ 63 ≤ x) (h₂ : x < 2 ^ 63) :
    -2 ^ 63 ≤ x.tdiv c ∧ x.tdiv c < 2 ^ 63 := by
  rw [tdiv_eq_ite x hc.le]
  split
  · have := Int.ediv_nonneg ‹0 ≤ x› hc.le; have := Int.ediv_le_self c ‹0 ≤ x›; omega
  · have := Int.ediv_nonneg (show 0 ≤ -x by omega) hc.le
    have := Int.ediv_le_self c (show 0 ≤ -x by omega); omega

namespace RollingStats

variable {N : Nat} [NeZero N]

/-- The slot `i mod N`. -/
def ringSlot (N : Nat) [NeZero N] (i : Nat) : Fin N := ⟨i % N, Nat.mod_lt _ (NeZero.pos N)⟩

/-- The values `buffer_` holds, oldest first: the slots `(pos_ - count_ + j) mod N` for
`j < count_`. -/
def window (s : RollingStats N) : List Int64 :=
  (List.range s.count.val).map fun j => s.buffer (ringSlot N (s.pos.val + N - s.count.val + j))

@[simp] theorem length_window (s : RollingStats N) : s.window.length = s.count.val := by
  simp [window]

/-- Reducing the start modulo `N` first moves no slot. -/
theorem ringSlot_mod_add {a c : Nat} (j : Nat) (hc : c ≤ N) :
    ringSlot N (a % N + N - c + j) = ringSlot N (a + N - c + j) := by
  simp only [ringSlot, Fin.mk.injEq]
  rw [show a % N + N - c + j = a % N + (N - c + j) by omega, Nat.mod_add_mod,
    show a + (N - c + j) = a + N - c + j by omega]

/-- Moving `m` slots on from `p`, `0 < m < N`, lands elsewhere than `p`. -/
theorem ringSlot_add_ne {p : Fin N} {m : Nat} (h0 : 0 < m) (hm : m < N) :
    ringSlot N (p.val + m) ≠ p :=
  Fin.ne_of_val_ne (add_mod_ne_self p.isLt h0 hm)

/-- Moving `N` slots on from `p` comes back to `p`. -/
theorem ringSlot_add_self (p : Fin N) : ringSlot N (p.val + N) = p := by
  simp only [ringSlot, Nat.add_mod_right, Nat.mod_eq_of_lt p.isLt]

/-- An update of a full window evicts the value under `pos_`. -/
theorem update_of_full {s : RollingStats N} (h : s.count.val = N) (x : Int64) :
    s.update x = ⟨Function.update s.buffer s.pos x, maskIndex N (s.pos.val + 1), s.count,
      s.sum - s.buffer s.pos + x, s.sumSq - s.buffer s.pos * s.buffer s.pos + x * x⟩ := by
  simp [update, h]

/-- An update of a window not yet full counts one more value. -/
theorem update_of_lt {s : RollingStats N} (h : s.count.val < N) (x : Int64) :
    s.update x = ⟨Function.update s.buffer s.pos x, maskIndex N (s.pos.val + 1),
      ⟨s.count.val + 1, by omega⟩, s.sum + x, s.sumSq + x * x⟩ := by
  simp [update, h.ne]

/-- **An update slides the window**: a full window drops its oldest value, and every window
gains the new value at its end. -/
theorem window_update (hN : N.isPowerOfTwo) (s : RollingStats N) (x : Int64) :
    (s.update x).window = (if s.count.val = N then s.window.tail else s.window) ++ [x] := by
  have hc := s.count.isLt
  have hp := s.pos.isLt
  have hmask : (maskIndex N (s.pos.val + 1)).val = (s.pos.val + 1) % N := maskIndex_val hN _
  split
  · next h =>
    rw [update_of_full h]
    unfold window
    dsimp only
    rw [h, hmask]
    obtain ⟨n, rfl⟩ : ∃ n, N = n + 1 := ⟨N - 1, (Nat.succ_pred_eq_of_pos (NeZero.pos N)).symm⟩
    conv_lhs => rw [List.range_succ]
    conv_rhs => rw [List.range_succ_eq_map]
    rw [List.map_append, List.map_cons, List.map_cons, List.map_nil, List.tail_cons, List.map_map]
    congr 1
    · refine List.map_congr_left fun j hj => ?_
      have hj := List.mem_range.1 hj
      rw [ringSlot_mod_add j le_rfl, Function.comp_apply,
        show s.pos.val + 1 + (n + 1) - (n + 1) + j = s.pos.val + (j + 1) by omega,
        Function.update_noteq (ringSlot_add_ne (by omega) (by omega)),
        show s.pos.val + (n + 1) - (n + 1) + j.succ = s.pos.val + (j + 1) by omega]
    · rw [ringSlot_mod_add n le_rfl,
        show s.pos.val + 1 + (n + 1) - (n + 1) + n = s.pos.val + (n + 1) by omega,
        ringSlot_add_self, Function.update_same]
  · next h =>
    have h' : s.count.val < N := by omega
    rw [update_of_lt h']
    unfold window
    dsimp only
    rw [hmask]
    rw [List.range_succ, List.map_append, List.map_singleton]
    congr 1
    · refine List.map_congr_left fun j hj => ?_
      have hj := List.mem_range.1 hj
      rw [ringSlot_mod_add j h', show s.pos.val + 1 + N - (s.count.val + 1) + j =
        s.pos.val + (N - s.count.val + j) by omega,
        Function.update_noteq (ringSlot_add_ne (by omega) (by omega)),
        show s.pos.val + (N - s.count.val + j) = s.pos.val + N - s.count.val + j by omega]
    · rw [ringSlot_mod_add _ h', show s.pos.val + 1 + N - (s.count.val + 1) + s.count.val =
        s.pos.val + N by omega, ringSlot_add_self, Function.update_same]

/-- A full window starts with the value under `pos_`, the next to be evicted. -/
theorem window_of_full {s : RollingStats N} (h : s.count.val = N) :
    s.window = s.buffer s.pos :: s.window.tail := by
  obtain ⟨n, hn⟩ : ∃ n, s.count.val = n + 1 := ⟨N - 1, by have := NeZero.pos N; omega⟩
  have hp : ringSlot N (s.pos.val + N - s.count.val + 0) = s.pos := by
    rw [h, Nat.add_sub_cancel, Nat.add_zero]; exact Fin.ext (Nat.mod_eq_of_lt s.pos.isLt)
  simp only [window, hn, List.range_succ_eq_map, List.map_cons, List.tail_cons]
  rw [← hn, hp]

/-- The `int64_t` sum of `g` over a list, wrapped. -/
def wrappedSum (g : Int64 → Int) (l : List Int64) : Int64 := Int64.ofInt (l.map g).sum

@[simp] theorem wrappedSum_append_singleton (g : Int64 → Int) (l : List Int64) (x : Int64) :
    wrappedSum g (l ++ [x]) = Int64.ofInt ((l.map g).sum + g x) := by
  simp [wrappedSum]

/-- **An update keeps a running sum**: a field `a` kept as `sum_` is (`f = id`, `g = value`),
or as `sum_sq_` is (`f v = v * v`, `g v = value²`), stays the wrapped sum of `g` over the
window. -/
theorem wrappedSum_update (hN : N.isPowerOfTwo) {s : RollingStats N} {x : Int64} {g : Int64 → Int}
    {a : RollingStats N → Int64} {f : Int64 → Int64} (hf : ∀ v, (f v).val = (g v).bmod (2 ^ 64))
    (hfull : s.count.val = N → a (s.update x) = a s - f (s.buffer s.pos) + f x)
    (hlt : s.count.val < N → a (s.update x) = a s + f x)
    (h : a s = wrappedSum g s.window) : a (s.update x) = wrappedSum g (s.update x).window := by
  rw [window_update hN]
  split
  · next hc =>
    rw [hfull hc, h, wrappedSum_append_singleton, window_of_full hc]
    apply Int64.ext
    simp only [wrappedSum, Int64.val_add, Int64.val_sub, Int64.val_ofInt, hf, List.tail_cons,
      List.map_cons, List.sum_cons, Int.bmod_add_bmod_congr, Int.add_bmod_bmod,
      Int.bmod_sub_bmod_congr, Int.sub_bmod_bmod]
    ring_nf
  · next hc =>
    rw [hlt (by have := s.count.isLt; omega), h, wrappedSum_append_singleton]
    apply Int64.ext
    simp only [wrappedSum, Int64.val_add, Int64.val_ofInt, hf, Int.bmod_add_bmod_congr,
      Int.add_bmod_bmod]

/-- `update(x)` for each `x` of `xs` in turn. -/
def updateAll (s : RollingStats N) (xs : List Int64) : RollingStats N := xs.foldl update s

@[simp] theorem updateAll_cons (s : RollingStats N) (y : Int64) (ys : List Int64) :
    s.updateAll (y :: ys) = (s.update y).updateAll ys := rfl

/-- The last `min(k, N)` of `k` values, oldest first. -/
def lastN (N : Nat) (xs : List Int64) : List Int64 := xs.drop (xs.length - N)

/-- One more value: once `N` values are in, the oldest leaves. -/
theorem lastN_append (xs : List Int64) (x : Int64) :
    lastN N (xs ++ [x]) = (if N ≤ xs.length then (lastN N xs).tail else lastN N xs) ++ [x] := by
  have := NeZero.pos N
  simp only [lastN, List.length_append, List.length_singleton]
  split
  · rw [List.drop_append_of_le_length (by omega), ← List.drop_one, List.drop_drop,
      show xs.length + 1 - N = xs.length - N + 1 by omega]
  · rw [show xs.length + 1 - N = 0 by omega, show xs.length - N = 0 by omega]
    rfl

/-- What `RollingStats<N>` holds after the values `xs`: `min(k, N)` of them, `pos_` at
`k mod N`, the window the last `min(k, N)` values, and the two sums wrapped sums over it. -/
structure Tracks (s : RollingStats N) (xs : List Int64) : Prop where
  count_eq : s.count.val = min xs.length N
  pos_eq : s.pos.val = xs.length % N
  window_eq : s.window = lastN N xs
  sum_eq : s.sum = wrappedSum Int64.val s.window
  sumSq_eq : s.sumSq = wrappedSum (fun v => v.val * v.val) s.window

theorem tracks_empty : (empty : RollingStats N).Tracks [] :=
  ⟨by simp [empty], by simp [empty], by simp [window, empty, lastN], rfl, rfl⟩

/-- One update keeps the correspondence with one more value. -/
theorem Tracks.update (hN : N.isPowerOfTwo) {s : RollingStats N} {xs : List Int64}
    (h : s.Tracks xs) (x : Int64) : (s.update x).Tracks (xs ++ [x]) := by
  have hcount := h.count_eq
  have hfull : s.count.val = N ↔ N ≤ xs.length := by rw [hcount]; omega
  refine ⟨?_, ?_, ?_, ?_, ?_⟩
  · by_cases hc : s.count.val = N
    · rw [update_of_full hc]; simp only [List.length_append, List.length_singleton]; omega
    · rw [update_of_lt (by have := s.count.isLt; omega)]
      simp only [List.length_append, List.length_singleton]; omega
  · rw [show (s.update x).pos = maskIndex N (s.pos.val + 1) by
        unfold RollingStats.update; split <;> rfl,
      maskIndex_val hN, h.pos_eq, List.length_append, List.length_singleton, Nat.mod_add_mod]
  · rw [window_update hN, lastN_append, h.window_eq]
    simp only [hfull]
  · exact wrappedSum_update hN (a := sum) (f := id)
      (fun v => (Int64.bmod_of_range v.le_val v.val_lt).symm)
      (fun hc => by rw [update_of_full hc]; rfl) (fun hc => by rw [update_of_lt hc]; rfl) h.sum_eq
  · exact wrappedSum_update hN (a := sumSq) (f := fun v => v * v) (fun v => rfl)
      (fun hc => by rw [update_of_full hc]) (fun hc => by rw [update_of_lt hc]) h.sumSq_eq

theorem Tracks.updateAll (hN : N.isPowerOfTwo) {s : RollingStats N} {xs : List Int64}
    (h : s.Tracks xs) (ys : List Int64) : (s.updateAll ys).Tracks (xs ++ ys) := by
  induction ys generalizing s xs with
  | nil => simpa using h
  | cons y ys ih =>
    rw [updateAll_cons, show xs ++ y :: ys = xs ++ [y] ++ ys by simp]
    exact ih (h.update hN y)

/-- `mean()` of a window whose sum is an `int64_t` is the truncated mean, recomputed. -/
theorem Tracks.mean_val (hN : N < 2 ^ 63) {s : RollingStats N} {xs : List Int64}
    (h : s.Tracks xs) (h₁ : -2 ^ 63 ≤ ((lastN N xs).map Int64.val).sum)
    (h₂ : ((lastN N xs).map Int64.val).sum < 2 ^ 63) :
    s.mean.val = ((lastN N xs).map Int64.val).sum.tdiv ((min xs.length N : Nat) : Int) := by
  have hsum : s.sum.val = ((lastN N xs).map Int64.val).sum := by
    rw [h.sum_eq, h.window_eq, wrappedSum, Int64.val_ofInt, Int64.bmod_of_range h₁ h₂]
  unfold mean
  split
  · next hc =>
    have hcnt : (Int64.ofInt s.count.val).val = s.count.val :=
      Int64.val_ofInt_of_range (by omega) (by have := s.count.isLt; omega)
    rw [Int64.val_div, hsum, hcnt, h.count_eq,
      Int64.bmod_of_range (tdiv_range (by rw [← h.count_eq]; omega) h₁ h₂).1
        (tdiv_range (by rw [← h.count_eq]; omega) h₁ h₂).2]
  · next hc =>
    have hk : min xs.length N = 0 := by rw [← h.count_eq]; omega
    have hnil : lastN N xs = [] := List.eq_nil_of_length_eq_zero (by
      simp only [lastN, List.length_drop]; omega)
    rw [hk, hnil]
    rfl

/-- **`RollingStats<N>` is the window of the last `N` values.** For every power-of-two `N`
and every sequence `x_1 … x_k` of updates from the constructor: `count()` is `min(k, N)`,
`pos_` is `k mod N`, the slots `(pos_ - count() + j) mod N` hold the last `count()` values in
arrival order, and `sum()` and `sum_sq_` are their sum and sum of squares modulo `2^64`, kept
by evicting and adding in O(1); hence `mean()` is the truncated mean recomputed over the
window whenever that sum is an `int64_t` (for every `N` below `2^63`, beyond which
`std::array<int64_t, N>` cannot exist). -/
theorem updateAll_window (hN : N.isPowerOfTwo) (xs : List Int64) :
    let s := (empty : RollingStats N).updateAll xs
    s.count.val = min xs.length N ∧ s.pos.val = xs.length % N ∧ s.window = lastN N xs ∧
      s.sum = wrappedSum Int64.val (lastN N xs) ∧
      s.sumSq = wrappedSum (fun v => v.val * v.val) (lastN N xs) ∧
      (N < 2 ^ 63 → -2 ^ 63 ≤ ((lastN N xs).map Int64.val).sum →
        ((lastN N xs).map Int64.val).sum < 2 ^ 63 →
        s.mean.val = ((lastN N xs).map Int64.val).sum.tdiv ((min xs.length N : Nat) : Int)) := by
  have h := tracks_empty.updateAll hN xs
  rw [List.nil_append] at h
  exact ⟨h.count_eq, h.pos_eq, h.window_eq, h.window_eq ▸ h.sum_eq, h.window_eq ▸ h.sumSq_eq,
    fun hN' h₁ h₂ => h.mean_val hN' h₁ h₂⟩

/-- Six values through a window of four: the mean of `3, 4, 5, 6` is `4`. -/
theorem updateAll_window_four :
    ((empty : RollingStats 4).updateAll [1, 2, 3, 4, 5, 6]).mean.val = 4 :=
  ((updateAll_window ⟨2, rfl⟩ [1, 2, 3, 4, 5, 6]).2.2.2.2.2 (by decide) (by decide)
    (by decide)).trans (by decide)

end RollingStats

/-! ## (2) `EWMAStats` stays in the range of its inputs -/

namespace EWMAStats

/-- `floor(sqrt(INT64_MAX))`: the largest value `isqrt` can return, the bound of the inputs
below. -/
def maxInput : Int := 3037000499

/-- `floor(maxInput² / PRICE_SCALE)`: the largest `scaled_dev_sq` such inputs give. -/
def maxScaledDevSq : Int := 92233720309

/-- The exact values of the `int64_t` operations of an update after the first, from the
weights `a` and `b`, the scaled mean `E`, the variance `v` and the new value `x`, in the order
C++ evaluates them: the new mean `a * x + b * (E / ALPHA_SCALE)`, the deviation from the old
mean and its scaled square, and the new variance `(b * v + a * b * sds) / ALPHA_SCALE`. -/
def stepsAfterFirst (a b E v x : Int) : List Int :=
  let m := E.tdiv 10000
  let dev := x - m
  let sds := (dev * dev).tdiv 100000000
  [a * x, m, b * m, a * x + b * m, dev, dev * dev, sds, b * v, a * b, a * b * sds,
    b * v + a * b * sds, (b * v + a * b * sds).tdiv 10000]

/-- The exact values of the `int64_t` operations of `update(new_val)`: `new_val * ALPHA_SCALE`
for the first value, `stepsAfterFirst` after it. -/
def updateSteps (s : EWMAStats) (x : Int64) : List Int :=
  if !s.initialized then [x.val * 10000]
  else stepsAfterFirst s.alpha.val s.oneMinusAlpha.val s.ewmaMean.val s.ewmaVar.val x.val

/-- What an EWMA fed values in `[lo, hi]` keeps: its weights in `[0, ALPHA_SCALE]` summing to
`ALPHA_SCALE`, the scaled mean in `[lo, hi] · ALPHA_SCALE`, and the variance between `0` and
`one_minus_alpha_ · maxScaledDevSq`. -/
structure Bounded (s : EWMAStats) (lo hi : Int) : Prop where
  alpha_nonneg : 0 ≤ s.alpha.val
  alpha_le : s.alpha.val ≤ 10000
  oneMinusAlpha_eq : s.oneMinusAlpha.val = 10000 - s.alpha.val
  initialized : s.initialized = true
  mean_lo : 10000 * lo ≤ s.ewmaMean.val
  mean_hi : s.ewmaMean.val ≤ 10000 * hi
  var_nonneg : 0 ≤ s.ewmaVar.val
  var_le : s.ewmaVar.val ≤ s.oneMinusAlpha.val * maxScaledDevSq

theorem Bounded.mean_val {s : EWMAStats} {lo hi : Int} (h : s.Bounded lo hi) (hlo : 0 ≤ lo) :
    lo ≤ s.mean.val ∧ s.mean.val ≤ hi := by
  have := h.mean_lo; have := h.mean_hi; have := s.ewmaMean.le_val; have := s.ewmaMean.val_lt
  have hm : s.mean.val = s.ewmaMean.val.tdiv 10000 := by
    rw [mean, if_pos h.initialized, Int64.val_div, alphaScale_val]
    exact Int64.bmod_of_range (by rw [tdiv_eq_ite _ (by norm_num)]; split <;> omega)
      (by rw [tdiv_eq_ite _ (by norm_num)]; split <;> omega)
  rw [hm, Int.tdiv_eq_ediv (by omega) (by norm_num)]
  omega

/-- When no step overflows, an update after the first computes the exact new mean and
variance, and keeps the weights. -/
theorem update_vals {s : EWMAStats} (hinit : s.initialized = true) {x : Int64}
    (h : ∀ v ∈ s.updateSteps x, -2 ^ 63 ≤ v ∧ v < 2 ^ 63) :
    (s.update x).alpha = s.alpha ∧ (s.update x).oneMinusAlpha = s.oneMinusAlpha ∧
      (s.update x).initialized = true ∧
      (s.update x).ewmaMean.val =
        s.alpha.val * x.val + s.oneMinusAlpha.val * s.ewmaMean.val.tdiv 10000 ∧
      (s.update x).ewmaVar.val = (s.oneMinusAlpha.val * s.ewmaVar.val + s.alpha.val *
        s.oneMinusAlpha.val * ((x.val - s.ewmaMean.val.tdiv 10000) *
          (x.val - s.ewmaMean.val.tdiv 10000)).tdiv 100000000).tdiv 10000 := by
  simp only [updateSteps, stepsAfterFirst, hinit, Bool.not_true, Bool.false_eq_true, if_false,
    List.mem_cons, List.mem_singleton, forall_eq_or_imp, forall_eq, List.not_mem_nil,
    false_imp_iff, implies_true, and_true] at h
  obtain ⟨⟨h1, h2⟩, ⟨h3, h4⟩, ⟨h5, h6⟩, ⟨h7, h8⟩, ⟨h9, h10⟩, ⟨h11, h12⟩, ⟨h13, h14⟩, ⟨h15, h16⟩,
    ⟨h17, h18⟩, ⟨h19, h20⟩, ⟨h21, h22⟩, ⟨h23, h24⟩⟩ := h
  simp only [update, hinit, Bool.not_true, Bool.false_eq_true, if_false, true_and]
  constructor
  · simp (disch := omega) only [Int64.val_add, Int64.val_mul, Int64.val_div, alphaScale_val,
      Int64.bmod_of_range]
  · simp (disch := omega) only [Int64.val_add, Int64.val_mul, Int64.val_div, Int64.val_sub,
      alphaScale_val, priceScale_val, Int64.bmod_of_range]

/-- **The arithmetic of one update.** With weights `a + b = ALPHA_SCALE`, `0 ≤ a`, an old
scaled mean in `[lo, hi] · ALPHA_SCALE`, a variance in `[0, b · maxScaledDevSq]` and a new
value, all in `[0, maxInput]`: no step overflows, the new scaled mean is a weighted average of
two values in range, and the new variance stays in its interval, its numerator at most
`ALPHA_SCALE² · maxScaledDevSq`, just under `2^63`. -/
theorem stepsAfterFirst_range {a E v x lo hi : Int} (ha₀ : 0 ≤ a) (ha₁ : a ≤ 10000)
    (hlo : 0 ≤ lo) (hhi : hi ≤ 3037000499) (hx₁ : 0 ≤ x) (hx₂ : x ≤ 3037000499)
    (hE₁ : 10000 * lo ≤ E) (hE₂ : E ≤ 10000 * hi) (hv₀ : 0 ≤ v)
    (hv₁ : v ≤ (10000 - a) * 92233720309) :
    (∀ w ∈ stepsAfterFirst a (10000 - a) E v x, -2 ^ 63 ≤ w ∧ w < 2 ^ 63) ∧
      10000 * min lo x ≤ a * x + (10000 - a) * E.tdiv 10000 ∧
      a * x + (10000 - a) * E.tdiv 10000 ≤ 10000 * max hi x ∧
      0 ≤ ((10000 - a) * v + a * (10000 - a) *
        ((x - E.tdiv 10000) * (x - E.tdiv 10000)).tdiv 100000000).tdiv 10000 ∧
      ((10000 - a) * v + a * (10000 - a) *
        ((x - E.tdiv 10000) * (x - E.tdiv 10000)).tdiv 100000000).tdiv 10000 ≤
        (10000 - a) * 92233720309 := by
  have hm : lo ≤ E.tdiv 10000 ∧ E.tdiv 10000 ≤ hi := by
    rw [Int.tdiv_eq_ediv (by omega) (by norm_num)]; omega
  simp only [stepsAfterFirst, List.mem_cons, List.mem_singleton, forall_eq_or_imp, forall_eq,
    List.not_mem_nil, false_imp_iff, implies_true, and_true]
  generalize E.tdiv 10000 = m at *
  have hdd₀ : 0 ≤ (x - m) * (x - m) := mul_self_nonneg _
  have hdd₁ : (x - m) * (x - m) ≤ 3037000499 * 3037000499 := by
    rw [← abs_mul_abs_self]
    exact mul_self_le_mul_self (abs_nonneg _) (abs_le.2 ⟨by omega, by omega⟩)
  generalize (x - m) * (x - m) = dd at *
  rw [Int.tdiv_eq_ediv hdd₀ (by norm_num)]
  have hsds : 0 ≤ dd / 100000000 ∧ dd / 100000000 ≤ 92233720309 := by omega
  generalize dd / 100000000 = sds at *
  have hb₀ : 0 ≤ 10000 - a := by omega
  have := mul_le_mul ha₁ hx₂ hx₁ (by norm_num)
  have := mul_nonneg ha₀ hx₁
  have := mul_le_mul (show 10000 - a ≤ 10000 by omega) (show m ≤ 3037000499 by omega)
    (by omega) (by norm_num)
  have := mul_nonneg hb₀ (show 0 ≤ m by omega)
  have : 10000 * min lo x ≤ a * x + (10000 - a) * m := by
    linarith [mul_nonneg ha₀ (show 0 ≤ x - min lo x by omega),
      mul_nonneg hb₀ (show 0 ≤ m - min lo x by omega)]
  have : a * x + (10000 - a) * m ≤ 10000 * max hi x := by
    linarith [mul_nonneg ha₀ (show 0 ≤ max hi x - x by omega),
      mul_nonneg hb₀ (show 0 ≤ max hi x - m by omega)]
  have := mul_nonneg ha₀ hb₀
  have := mul_le_mul ha₁ (show 10000 - a ≤ 10000 by omega) hb₀ (by norm_num)
  have := mul_nonneg (mul_nonneg ha₀ hb₀) hsds.1
  have := mul_nonneg hb₀ hv₀
  have : (10000 - a) * v + a * (10000 - a) * sds ≤ 922337203090000 * (10000 - a) := by
    linarith [mul_le_mul_of_nonneg_left hv₁ hb₀, mul_le_mul_of_nonneg_left hsds.2
      (mul_nonneg ha₀ hb₀)]
  rw [Int.tdiv_eq_ediv (by omega) (by norm_num)]
  refine ⟨?_, by omega, by omega, by omega, by omega⟩
  repeat' constructor
  all_goals omega

/-- **One update of a bounded EWMA stays bounded, without overflow**, the range of the mean
widening to take in the new value. -/
theorem Bounded.update {s : EWMAStats} {lo hi : Int} (h : s.Bounded lo hi) (hlo : 0 ≤ lo)
    (hhi : hi ≤ maxInput) {x : Int64} (hx₁ : 0 ≤ x.val) (hx₂ : x.val ≤ maxInput) :
    (∀ v ∈ s.updateSteps x, -2 ^ 63 ≤ v ∧ v < 2 ^ 63) ∧
      (s.update x).Bounded (min lo x.val) (max hi x.val) := by
  obtain ⟨ha₀, ha₁, hb, hinit, hE₁, hE₂, hv₀, hv₁⟩ := h
  rw [maxScaledDevSq, hb] at hv₁
  obtain ⟨hsteps, hlo', hhi', hv₀', hv₁'⟩ :=
    stepsAfterFirst_range ha₀ ha₁ hlo hhi hx₁ hx₂ hE₁ hE₂ hv₀ hv₁
  have hsteps' : ∀ v ∈ s.updateSteps x, -2 ^ 63 ≤ v ∧ v < 2 ^ 63 := by
    simpa only [updateSteps, hinit, Bool.not_true, Bool.false_eq_true, if_false, hb] using hsteps
  obtain ⟨hα, hβ, hi, hE, hV⟩ := update_vals hinit hsteps'
  refine ⟨hsteps', hα ▸ ha₀, hα ▸ ha₁, by rw [hα, hβ, hb], hi, ?_, ?_, ?_, ?_⟩
  · rw [hE, hb]; exact hlo'
  · rw [hE, hb]; exact hhi'
  · rw [hV, hb]; exact hv₀'
  · rw [hV, hβ, hb, maxScaledDevSq]; exact hv₁'

/-- The first value sets the scaled mean to `new_val * ALPHA_SCALE`, without overflow for a
value in range. -/
theorem update_first {s : EWMAStats} (ha₀ : 0 ≤ s.alpha.val) (ha₁ : s.alpha.val ≤ 10000)
    (hb : s.oneMinusAlpha.val = 10000 - s.alpha.val) (hinit : s.initialized = false)
    {x : Int64} (hx₁ : 0 ≤ x.val) (hx₂ : x.val ≤ maxInput) :
    (∀ v ∈ s.updateSteps x, -2 ^ 63 ≤ v ∧ v < 2 ^ 63) ∧ (s.update x).Bounded x.val x.val := by
  unfold maxInput at hx₂
  have hE : (x * alphaScale).val = x.val * 10000 := by
    rw [Int64.val_mul, alphaScale_val]; exact Int64.bmod_of_range (by omega) (by omega)
  refine ⟨by simp only [updateSteps, hinit, Bool.not_false, if_true, List.mem_singleton,
    forall_eq]; omega, ?_⟩
  simp only [update, hinit, Bool.not_false, if_true]
  exact ⟨ha₀, ha₁, hb, rfl, by rw [hE]; omega, by rw [hE]; omega, le_rfl,
    by rw [maxScaledDevSq, hb]; simp only [Int64.val_zero]; omega⟩

/-- `update(x)` for each `x` of `xs` in turn. -/
def updateAll (s : EWMAStats) (xs : List Int64) : EWMAStats := xs.foldl update s

@[simp] theorem updateAll_cons (s : EWMAStats) (x : Int64) (xs : List Int64) :
    s.updateAll (x :: xs) = (s.update x).updateAll xs := rfl

/-- The exact values of the `int64_t` operations of every update of a run. -/
def runSteps (s : EWMAStats) : List Int64 → List Int
  | [] => []
  | x :: xs => s.updateSteps x ++ (s.update x).runSteps xs

/-- A value that is `x` or one of `xs` is one of `x :: xs`. -/
theorem exists_seen_cons {b : Int} {x : Int64} {xs : List Int64}
    (h : b = x.val ∨ ∃ y ∈ xs, y.val = b) : ∃ y ∈ x :: xs, y.val = b := by
  rcases h with rfl | ⟨y, hy, rfl⟩
  · exact ⟨x, List.mem_cons_self _ _, rfl⟩
  · exact ⟨y, List.mem_cons_of_mem _ hy, rfl⟩

/-- A bound that is the old one or `x`, or that a later update made a value of `xs`, is the
old one or a value of `x :: xs`. -/
theorem bound_seen {b c b' : Int} {x : Int64} {xs : List Int64} (hc : c = b ∨ c = x.val)
    (h : b' = c ∨ ∃ y ∈ xs, y.val = b') : b' = b ∨ ∃ y ∈ x :: xs, y.val = b' := by
  rcases h with rfl | h
  · exact hc.imp id fun h => exists_seen_cons (.inl h)
  · exact .inr (exists_seen_cons (.inr h))

/-- A run of values in range keeps a bounded EWMA bounded, without overflow; the bounds of
the mean stay values seen. -/
theorem Bounded.updateAll {s : EWMAStats} {lo hi : Int} (h : s.Bounded lo hi) (hlo : 0 ≤ lo)
    (hhi : hi ≤ maxInput) {xs : List Int64} (hxs : ∀ x ∈ xs, 0 ≤ x.val ∧ x.val ≤ maxInput) :
    (∀ v ∈ s.runSteps xs, -2 ^ 63 ≤ v ∧ v < 2 ^ 63) ∧
      ∃ lo' hi', (s.updateAll xs).Bounded lo' hi' ∧ 0 ≤ lo' ∧ hi' ≤ maxInput ∧
        (lo' = lo ∨ ∃ x ∈ xs, x.val = lo') ∧ (hi' = hi ∨ ∃ x ∈ xs, x.val = hi') := by
  induction xs generalizing s lo hi with
  | nil => exact ⟨(fun _ hv => by cases hv), lo, hi, h, hlo, hhi, .inl rfl, .inl rfl⟩
  | cons x xs ih =>
    obtain ⟨hx₁, hx₂⟩ := hxs x (List.mem_cons_self _ _)
    obtain ⟨hsteps, h'⟩ := h.update hlo hhi hx₁ hx₂
    obtain ⟨hrest, lo', hi', hb, hlo', hhi', hl, hh⟩ :=
      ih h' (le_min hlo hx₁) (max_le hhi hx₂) fun y hy => hxs y (List.mem_cons_of_mem _ hy)
    refine ⟨fun v hv => ?_, lo', hi', hb, hlo', hhi', bound_seen (min_choice lo x.val) hl,
      bound_seen (max_choice hi x.val) hh⟩
    rcases List.mem_append.1 hv with hv | hv
    · exact hsteps v hv
    · exact hrest v hv

/-- **The EWMA of values in `[0, floor(sqrt(INT64_MAX))]` cannot leave their range.** For
every weight `alpha_` in `[0, ALPHA_SCALE]` and every nonempty run of values in
`[0, 3037000499]` from the constructor, the mean lies between the smallest and the largest
value seen, the variance is not negative, no `int64_t` operation of any update overflows, and
a constant run `c, c, …` has mean `c`. -/
theorem updateAll_bounds (expAlpha : Int → Int64) (halfLife : Int)
    (hα₀ : 0 ≤ (computeAlpha expAlpha halfLife).val)
    (hα₁ : (computeAlpha expAlpha halfLife).val ≤ 10000) (xs : List Int64)
    (hxs : ∀ x ∈ xs, 0 ≤ x.val ∧ x.val ≤ maxInput) (hne : xs ≠ []) :
    (∃ x ∈ xs, x.val ≤ ((create expAlpha halfLife).updateAll xs).mean.val) ∧
      (∃ x ∈ xs, ((create expAlpha halfLife).updateAll xs).mean.val ≤ x.val) ∧
      0 ≤ ((create expAlpha halfLife).updateAll xs).ewmaVar.val ∧
      (∀ v ∈ (create expAlpha halfLife).runSteps xs, -2 ^ 63 ≤ v ∧ v < 2 ^ 63) ∧
      ∀ c : Int, (∀ x ∈ xs, x.val = c) →
        ((create expAlpha halfLife).updateAll xs).mean.val = c := by
  obtain ⟨x, xs, rfl⟩ := List.exists_cons_of_ne_nil hne
  obtain ⟨hx₁, hx₂⟩ := hxs x (List.mem_cons_self _ _)
  have hb : (create expAlpha halfLife).oneMinusAlpha.val =
      10000 - (create expAlpha halfLife).alpha.val := by
    show (alphaScale - computeAlpha expAlpha halfLife).val =
      10000 - (computeAlpha expAlpha halfLife).val
    rw [Int64.val_sub, alphaScale_val]; exact Int64.bmod_of_range (by omega) (by omega)
  simp only [updateAll_cons, runSteps]
  obtain ⟨hfirst, h₁⟩ := update_first hα₀ hα₁ hb rfl hx₁ hx₂
  obtain ⟨hrest, lo, hi, h, hlo, -, hl, hh⟩ :=
    h₁.updateAll hx₁ hx₂ fun y hy => hxs y (List.mem_cons_of_mem _ hy)
  have hmean := h.mean_val hlo
  obtain ⟨y, hy, rfl⟩ := exists_seen_cons hl
  obtain ⟨z, hz, rfl⟩ := exists_seen_cons hh
  refine ⟨⟨y, hy, hmean.1⟩, ⟨z, hz, hmean.2⟩, h.var_nonneg, fun v hv => ?_, fun c hc => ?_⟩
  · rcases List.mem_append.1 hv with hv | hv
    · exact hfirst v hv
    · exact hrest v hv
  · have := hc y hy; have := hc z hz; omega

/-- A constant run of `7`s has mean `7`, whatever the half-life. -/
theorem updateAll_constant_seven :
    ((create (fun _ => 137) 50).updateAll [7, 7, 7]).mean.val = 7 :=
  (updateAll_bounds (fun _ => 137) 50 (by decide) (by decide) [7, 7, 7] (by decide)
    (by decide)).2.2.2.2 7 (by decide)

end EWMAStats

end Sage
