import Sage.Core.Int64

/-! # TSC time (`core/timing.hpp`)

`TSCCalibrator` converts between TSC ticks and nanoseconds through a 16.16 fixed-point tick
rate `ticks_per_ns_fp16_`, measured once by `calibrate()`. CAL stamps every market-data message
with `tsc_to_ns(rdtscp())`; ADE and RME convert measured tick counts with it.

* **`TSCCalibrator.tscToNs_toNat`** — below `2^48` ticks, `tsc_to_ns(tsc)` is
  `tsc * 2^16 / ticks_per_ns_fp16_`, rounded down.
* **`TSCCalibrator.nsToTsc_tscToNs`** — ticks to nanoseconds and back never gains a tick and
  loses fewer than `ticks_per_ns_fp16_ / 2^16 + 1`.
* **`TSCCalibrator.tscToNs_wraps`** — `tsc << 16` drops the top 16 bits of the count, so
  `tsc_to_ns` is monotone on `[0, 2^48)` and repeats with period `2^48` ticks: at tick `2^48`
  it falls back from its largest value to `0`. -/

namespace Sage

/-- `TSCCalibrator`: the tick rate as a 16.16 fixed-point count of TSC ticks per nanosecond.
Its `double` copy `ticks_per_ns_` is only printed. -/
structure TSCCalibrator where
  ticksPerNsFp16 : BitVec 64

namespace TSCCalibrator

/-! ## (1) The model -/

/-- `calibrate()` from the TSC ticks and the nanoseconds that elapsed over its `100` ms sleep:
`ticks_per_ns_fp16_ = (elapsed_tsc << 16) / elapsed_ns`, in `uint64_t`. -/
def calibrate (elapsedTsc elapsedNs : BitVec 64) : TSCCalibrator :=
  ⟨(elapsedTsc <<< 16) / elapsedNs⟩

/-- `tsc_to_ns(tsc)`: `(tsc << 16) / ticks_per_ns_fp16_`. -/
def tscToNs (c : TSCCalibrator) (tsc : BitVec 64) : BitVec 64 := (tsc <<< 16) / c.ticksPerNsFp16

/-- `ns_to_tsc(ns)`: `(ns * ticks_per_ns_fp16_) >> 16`. -/
def nsToTsc (c : TSCCalibrator) (ns : BitVec 64) : BitVec 64 := (ns * c.ticksPerNsFp16) >>> 16

theorem toNat_tscToNs (c : TSCCalibrator) (tsc : BitVec 64) :
    (c.tscToNs tsc).toNat = tsc.toNat * 2 ^ 16 % 2 ^ 64 / c.ticksPerNsFp16.toNat := by
  rw [tscToNs, BitVec.toNat_udiv, BitVec.toNat_shiftLeft, Nat.shiftLeft_eq]

/-- **Below `2^48` ticks the shift does not wrap.** -/
theorem tscToNs_toNat (c : TSCCalibrator) {tsc : BitVec 64} (h : tsc.toNat < 2 ^ 48) :
    (c.tscToNs tsc).toNat = tsc.toNat * 2 ^ 16 / c.ticksPerNsFp16.toNat := by
  rw [toNat_tscToNs, Nat.mod_eq_of_lt (by omega)]

/-! ## (2) Round trip and wrap -/

/-- **Ticks to nanoseconds and back.** For every positive tick rate and every `tsc` below
`2^48`, `ns_to_tsc(tsc_to_ns(tsc))` is at most `tsc` and short of it by less than
`ticks_per_ns_fp16_ / 2^16 + 1` ticks; neither step wraps. -/
theorem nsToTsc_tscToNs (c : TSCCalibrator) (hc : 0 < c.ticksPerNsFp16.toNat)
    (tsc : BitVec 64) (h : tsc.toNat < 2 ^ 48) :
    (c.nsToTsc (c.tscToNs tsc)).toNat ≤ tsc.toNat ∧
      tsc.toNat * 2 ^ 16 <
        ((c.nsToTsc (c.tscToNs tsc)).toNat + 1) * 2 ^ 16 + c.ticksPerNsFp16.toNat := by
  have hn := c.tscToNs_toNat h
  generalize c.tscToNs tsc = n at hn ⊢
  -- `n * f` is at most `tsc * 2^16`, so the product in `ns_to_tsc` does not wrap either
  have h₁ : n.toNat * c.ticksPerNsFp16.toNat ≤ tsc.toNat * 2 ^ 16 :=
    hn ▸ Nat.div_mul_le_self _ _
  have h₂ := Nat.lt_mul_div_succ (tsc.toNat * 2 ^ 16) hc
  rw [← hn, Nat.mul_add_one, Nat.mul_comm c.ticksPerNsFp16.toNat] at h₂
  have hr : (c.nsToTsc n).toNat = n.toNat * c.ticksPerNsFp16.toNat / 2 ^ 16 := by
    rw [nsToTsc, BitVec.toNat_ushiftRight, BitVec.toNat_mul, Nat.shiftRight_eq_div_pow,
      Nat.mod_eq_of_lt (by omega)]
  rw [hr]
  generalize n.toNat * c.ticksPerNsFp16.toNat = m at *
  have h₃ := Nat.div_mul_le_self m (2 ^ 16)
  have h₄ := Nat.lt_mul_div_succ m (show 0 < 2 ^ 16 by norm_num)
  constructor <;> omega

/-- At 3 GHz the round trip from the last tick before the wrap does not overshoot. -/
theorem nsToTsc_tscToNs_three_ghz :
    0 < (calibrate 300000000 100000000).ticksPerNsFp16.toNat ∧
      (BitVec.ofNat 64 (2 ^ 48 - 1)).toNat < 2 ^ 48 ∧
      ((calibrate 300000000 100000000).nsToTsc
        ((calibrate 300000000 100000000).tscToNs (BitVec.ofNat 64 (2 ^ 48 - 1)))).toNat ≤
        (BitVec.ofNat 64 (2 ^ 48 - 1)).toNat :=
  ⟨by decide, by decide,
    (nsToTsc_tscToNs _ (by decide) (BitVec.ofNat 64 (2 ^ 48 - 1)) (by decide)).1⟩

/-- **`tsc_to_ns` wraps every `2^48` ticks.** For every tick rate, `tsc_to_ns` is monotone on
`[0, 2^48)` and takes the same value at `tsc` and `tsc + 2^48`; at tick `2^48`, about 26 hours
of a 3 GHz TSC, it is `0`, while one tick before it is positive whenever
`ticks_per_ns_fp16_` is positive and at most `2^64 - 2^16`. -/
theorem tscToNs_wraps (c : TSCCalibrator) :
    (∀ a b : BitVec 64, a ≤ b → b.toNat < 2 ^ 48 → c.tscToNs a ≤ c.tscToNs b) ∧
      (∀ tsc : BitVec 64, c.tscToNs (tsc + BitVec.ofNat 64 (2 ^ 48)) = c.tscToNs tsc) ∧
      c.tscToNs (BitVec.ofNat 64 (2 ^ 48)) = 0 ∧
      (0 < c.ticksPerNsFp16.toNat → c.ticksPerNsFp16.toNat ≤ 2 ^ 64 - 2 ^ 16 →
        0 < (c.tscToNs (BitVec.ofNat 64 (2 ^ 48 - 1))).toNat) := by
  refine ⟨fun a b hab hb => ?_, fun tsc => ?_, ?_, fun hc hf => ?_⟩
  · rw [BitVec.le_def] at hab ⊢
    rw [c.tscToNs_toNat hb, c.tscToNs_toNat (by omega)]
    exact Nat.div_le_div_right (Nat.mul_le_mul_right _ hab)
  · apply BitVec.eq_of_toNat_eq
    rw [toNat_tscToNs, toNat_tscToNs, BitVec.toNat_add, BitVec.toNat_ofNat]
    -- `2^48 * 2^16` is `2^64`: the added period shifts out
    rw [show (tsc.toNat + 2 ^ 48 % 2 ^ 64) % 2 ^ 64 * 2 ^ 16 % 2 ^ 64 =
      tsc.toNat * 2 ^ 16 % 2 ^ 64 by omega]
  · apply BitVec.eq_of_toNat_eq
    rw [toNat_tscToNs, BitVec.toNat_ofNat]
    rw [show 2 ^ 48 % 2 ^ 64 * 2 ^ 16 % 2 ^ 64 = 0 by norm_num, Nat.zero_div]
    rfl
  · rw [c.tscToNs_toNat (by norm_num)]
    exact Nat.div_pos (by norm_num; omega) hc

/-- At 3 GHz the largest timestamp before the wrap is about `9.38 * 10^13` ns. -/
theorem tscToNs_wraps_three_ghz :
    (calibrate 300000000 100000000).tscToNs (BitVec.ofNat 64 (2 ^ 48)) = 0 ∧
      0 < ((calibrate 300000000 100000000).tscToNs (BitVec.ofNat 64 (2 ^ 48 - 1))).toNat :=
  ⟨(tscToNs_wraps _).2.2.1, (tscToNs_wraps _).2.2.2 (by decide) (by decide)⟩

end TSCCalibrator

end Sage
