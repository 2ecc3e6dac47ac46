import Sage.Types.FixedPoint

/-! # Streaming statistics of the analytics stage

ADE keeps, per symbol, window and exponentially weighted statistics of prices and quantities
(`ade/rolling_stats.hpp`, `ade/ewma_stats.hpp`, `ade/tick_buffer.hpp`, and the `ZScoreCapper`
of `ade/winsorization.hpp`). Every quantity is an `int64_t`, so every sum, square and product
below wraps as `Int64` does.

* **`newtonSqrt`** — the Newton–Raphson integer square root that `stddev_approx` and
  `VolRegimeDetector::isqrt` each spell out; its loop never runs out of its `2^64` rounds
  (`newtonSqrt_eq_newtonLoop_add`).
* **`RollingStats`** — `RollingStats<N>`: a ring of the last `N` values with their running
  `sum_` and `sum_sq_`.
* **`EWMAStats`** — the scaled-integer EWMA of mean and variance. `compute_alpha` evaluates
  `std::exp` in `double` for a positive half-life; that value, `expAlpha`, is a parameter.
* **`VolRegimeDetector`** — EWMAs of the volatility and of its changes; it cannot report a
  regime change before ten volatility changes (`isRegimeChange_of_count_lt`).
* **`ZScoreCapper`**, **`TickBuffer`** — winsorization, and the last `N` ticks. -/

namespace Sage

/-! ## (1) The Newton–Raphson integer square root -/

/-- The loop `while (y < x) { x = y; y = (x + n / x) / 2; }`, run for at most `fuel`
rounds; the result is `x`. -/
def newtonLoop (n : Int64) : Nat → Int64 → Int64 → Int64
  | 0, x, _ => x
  | fuel + 1, x, y => if y < x then newtonLoop n fuel y ((y + n / y) / 2) else x

/-- The integer square root spelled out in `RollingStats::stddev_approx`,
`EWMAStats::stddev_approx` and `VolRegimeDetector::isqrt`: `0` for `n ≤ 0`, else the loop
from `x = n`, `y = (x + 1) / 2`. Each round lowers `x` and `x` stays an `int64_t`, so the
loop takes fewer than `2^64` rounds. -/
def newtonSqrt (n : Int64) : Int64 :=
  if n ≤ 0 then 0 else newtonLoop n (2 ^ 64) n ((n + 1) / 2)

/-- **A further round changes nothing** once the fuel exceeds the distance from `x` down to
`INT64_MIN`: the loop has stopped before the fuel runs out. -/
theorem newtonLoop_succ_fuel (n : Int64) :
    ∀ (fuel : Nat) (x y : Int64), x.val + 2 ^ 63 < fuel →
      newtonLoop n (fuel + 1) x y = newtonLoop n fuel x y
  | 0, x, _, h => absurd h (by have := x.le_val; omega)
  | fuel + 1, x, y, h => by
    show (if y < x then _ else x) = (if y < x then _ else x)
    split
    · next hyx =>
      have := y.le_val
      exact newtonLoop_succ_fuel n fuel y _ (by rw [Int64.lt_def] at hyx; omega)
    · rfl

/-- **The fuel of `newtonSqrt` never runs out**: any number of further rounds gives the same
root, so `newtonSqrt` is the C++ loop run to its end. -/
theorem newtonSqrt_eq_newtonLoop_add (n : Int64) (h : 0 < n.val) (k : Nat) :
    newtonSqrt n = newtonLoop n (2 ^ 64 + k) n ((n + 1) / 2) := by
  have hn : ¬ n ≤ 0 := by rw [Int64.le_def]; simp only [Int64.val_zero]; omega
  rw [newtonSqrt, if_neg hn]
  induction k with
  | zero => rfl
  | succ k ih =>
    rw [← Nat.add_assoc, newtonLoop_succ_fuel n _ n _ (by have := n.val_lt; push_cast; omega), ih]

/-! ## (2) `RollingStats<N>` -/

/-- `i & mask_` for the window length `N`, `mask_ = N - 1`: the slot of `RollingStats<N>` and
`TickBuffer<N>` that a position maps to. -/
def maskIndex (N : Nat) [NeZero N] (i : Nat) : Fin N :=
  ⟨i &&& (N - 1), Nat.lt_of_le_of_lt Nat.and_le_right (Nat.sub_lt (NeZero.pos N) Nat.one_pos)⟩

/-- `RollingStats<N>`: the window `buffer_` with its write position, the number of values in
it (at most `N`), and the running `sum_` and `sum_sq_`. -/
structure RollingStats (N : Nat) where
  buffer : Fin N → Int64
  pos : Fin N
  count : Fin (N + 1)
  sum : Int64
  sumSq : Int64

namespace RollingStats

variable {N : Nat} [NeZero N]

/-- `RollingStats()`: an empty window of zeros. -/
def empty : RollingStats N := ⟨fun _ => 0, 0, 0, 0, 0⟩

/-- `update(new_val)`: a full window first takes its oldest value `buffer_[pos_]` out of both
sums, a window not yet full counts one more value; then the new value is stored and added,
and `pos_` moves to `(pos_ + 1) & mask_`. -/
def update (s : RollingStats N) (newVal : Int64) : RollingStats N :=
  let oldVal := s.buffer s.pos
  let s := if h : s.count.val = N then
      { s with sum := s.sum - oldVal, sumSq := s.sumSq - oldVal * oldVal }
    else { s with count := ⟨s.count.val + 1, by have := s.count.isLt; omega⟩ }
  { s with buffer := Function.update s.buffer s.pos newVal, sum := s.sum + newVal,
           sumSq := s.sumSq + newVal * newVal, pos := maskIndex N (s.pos.val + 1) }

/-- `mean()`: `sum_ / count_`, truncated, or `0` for an empty window. -/
def mean (s : RollingStats N) : Int64 :=
  if 0 < s.count.val then s.sum / Int64.ofInt s.count.val else 0

/-- `variance()`: `sum_sq_ / n - mean * mean`, or `0` below two values. -/
def variance (s : RollingStats N) : Int64 :=
  if s.count.val < 2 then 0 else s.sumSq / Int64.ofInt s.count.val - s.mean * s.mean

/-- `stddev_approx()`. -/
def stddevApprox (s : RollingStats N) : Int64 := newtonSqrt s.variance

end RollingStats

/-! ## (3) `EWMAStats` -/

/-- `ALPHA_SCALE`. -/
def alphaScale : Int64 := 10000

@[simp] theorem alphaScale_val : alphaScale.val = 10000 := rfl

/-- `EWMAStats`: the scaled weight `alpha_` and its complement, the scaled mean and variance,
the number of samples, and whether the first one has been seen. -/
structure EWMAStats where
  alpha : Int64
  oneMinusAlpha : Int64
  ewmaMean : Int64
  ewmaVar : Int64
  count : BitVec 64
  initialized : Bool

namespace EWMAStats

/-- `compute_alpha(half_life)`: `ALPHA_SCALE / 10` for a non-positive half-life, else
`static_cast<int64_t>((1.0 - std::exp(-0.693147 / half_life)) * ALPHA_SCALE)`, a `double`
computation that the model leaves to the parameter `expAlpha`. -/
def computeAlpha (expAlpha : Int → Int64) (halfLife : Int) : Int64 :=
  if halfLife ≤ 0 then alphaScale / 10 else expAlpha halfLife

/-- `EWMAStats(half_life)`. -/
def create (expAlpha : Int → Int64) (halfLife : Int) : EWMAStats :=
  let alpha := computeAlpha expAlpha halfLife
  ⟨alpha, alphaScale - alpha, 0, 0, 0, false⟩

/-- `update(new_val)`: the first value sets the mean; each later one moves the mean by
`alpha_` and the variance by the scaled square of its deviation from the old mean. -/
def update (s : EWMAStats) (newVal : Int64) : EWMAStats :=
  if !s.initialized then
    { s with ewmaMean := newVal * alphaScale, ewmaVar := 0, initialized := true, count := 1 }
  else
    let oldMean := s.ewmaMean
    let deviation := newVal - oldMean / alphaScale
    let scaledDevSq := deviation * deviation / priceScale
    { s with ewmaMean := s.alpha * newVal + s.oneMinusAlpha * (oldMean / alphaScale),
             ewmaVar := (s.oneMinusAlpha * s.ewmaVar +
               s.alpha * s.oneMinusAlpha * scaledDevSq) / alphaScale,
             count := s.count + 1 }

/-- `mean()`. -/
def mean (s : EWMAStats) : Int64 := if s.initialized then s.ewmaMean / alphaScale else 0

/-- `is_ready()`: ten samples or more. -/
def isReady (s : EWMAStats) : Bool := 10 ≤ s.count

/-- An update counts at most one sample. -/
theorem count_update_le (s : EWMAStats) (v : Int64) :
    (s.update v).count.toNat ≤ s.count.toNat + 1 := by
  unfold update
  split
  · exact Nat.le_add_left _ _
  · have : (1 : BitVec 64).toNat = 1 := rfl
    simp only [BitVec.toNat_add, this]
    omega

end EWMAStats

/-! ## (4) `VolRegimeDetector` -/

/-- `VolRegimeDetector`: EWMAs of the volatility and of its absolute changes, the threshold,
and the last volatility seen. -/
structure VolRegimeDetector where
  volEwma : EWMAStats
  volOfVolEwma : EWMAStats
  regimeThreshold : Int64
  lastVol : Int64

namespace VolRegimeDetector

/-- `VolRegimeDetector(half_life)`: the vol-of-vol EWMA has twice the half-life; the
threshold is `2 * PRICE_SCALE`. -/
def create (expAlpha : Int → Int64) (halfLife : Int) : VolRegimeDetector :=
  ⟨EWMAStats.create expAlpha halfLife, EWMAStats.create expAlpha (halfLife * 2),
    2 * priceScale, 0⟩

/-- `isqrt(n)`. -/
def isqrt (n : Int64) : Int64 := newtonSqrt n

/-- `is_regime_change()`: the vol-of-vol EWMA is ready, the normal volatility positive, and
the vol-of-vol above `regime_threshold_ * normal_vol / PRICE_SCALE`. -/
def isRegimeChange (d : VolRegimeDetector) : Bool :=
  if !d.volOfVolEwma.isReady then false
  else
    let volOfVol := d.volOfVolEwma.mean
    let normalVol := d.volEwma.mean
    if normalVol ≤ 0 then false else d.regimeThreshold * normalVol / priceScale < volOfVol

/-- `update(variance)`: the volatility `isqrt(variance)` feeds `vol_ewma_`, its change from
a positive `last_vol_` feeds `vol_of_vol_ewma_`; the result is `is_regime_change()`. -/
def update (d : VolRegimeDetector) (variance : Int64) : VolRegimeDetector × Bool :=
  let vol := isqrt variance
  let d := { d with volEwma := d.volEwma.update vol }
  let d := if 0 < d.lastVol then { d with volOfVolEwma := d.volOfVolEwma.update (vol - d.lastVol).abs }
    else d
  let d := { d with lastVol := vol }
  (d, d.isRegimeChange)

@[simp] theorem update_snd (d : VolRegimeDetector) (variance : Int64) :
    (d.update variance).2 = (d.update variance).1.isRegimeChange := rfl

/-- `current_vol()`. -/
def currentVol (d : VolRegimeDetector) : Int64 := d.volEwma.mean

/-- **No regime change before ten volatility changes**: whatever the weights and values, an
unready vol-of-vol EWMA answers `false`. -/
theorem isRegimeChange_of_count_lt (d : VolRegimeDetector) (h : d.volOfVolEwma.count.toNat < 10) :
    d.isRegimeChange = false := by
  have : d.volOfVolEwma.isReady = false := by
    simp only [EWMAStats.isReady, decide_eq_false_iff_not, BitVec.le_def]; exact Nat.not_le.2 h
  simp [isRegimeChange, this]

/-- An update counts at most one volatility change. -/
theorem count_update_le (d : VolRegimeDetector) (v : Int64) :
    (d.update v).1.volOfVolEwma.count.toNat ≤ d.volOfVolEwma.count.toNat + 1 := by
  unfold update
  dsimp only
  split
  · exact EWMAStats.count_update_le _ _
  · exact Nat.le_succ _

end VolRegimeDetector

/-! ## (5) Winsorization and the tick ring -/

/-- `ZScoreCapper`: the cap `max_z_`. -/
structure ZScoreCapper where
  maxZ : Int64

namespace ZScoreCapper

/-- `cap(z_score)`: clamp to `[-max_z_, max_z_]`. -/
def cap (c : ZScoreCapper) (z : Int64) : Int64 :=
  if c.maxZ < z then c.maxZ else if z < -c.maxZ then -c.maxZ else z

/-- `is_outlier(z_score)`: `std::abs(z_score) > max_z_`. -/
def isOutlier (c : ZScoreCapper) (z : Int64) : Bool := c.maxZ < z.abs

end ZScoreCapper

/-- `TickBuffer<N>`: the last `N` prices and quantities, the write position, and how many
are held. -/
structure TickBuffer (N : Nat) where
  prices : Fin N → FixedPoint
  quantities : Fin N → FixedPoint
  pos : Fin N
  count : Fin (N + 1)

namespace TickBuffer

variable {N : Nat} [NeZero N]

/-- `TickBuffer()`: the arrays hold default `FixedPoint`s, zero. -/
def empty : TickBuffer N := ⟨fun _ => .zero, fun _ => .zero, 0, 0⟩

/-- `push(price, qty)`: store at `pos_`, move `pos_` to `(pos_ + 1) & mask_`, count up to
`N`. -/
def push (b : TickBuffer N) (price qty : FixedPoint) : TickBuffer N :=
  ⟨Function.update b.prices b.pos price, Function.update b.quantities b.pos qty,
    maskIndex N (b.pos.val + 1),
    if h : b.count.val < N then ⟨b.count.val + 1, by omega⟩ else b.count⟩

/-- The slot `(pos_ - 1 - idx) & mask_` that the getters read, `pos_ - 1 - idx` computed in
`size_t`. -/
def slotOf (b : TickBuffer N) (idx : BitVec 64) : Fin N :=
  maskIndex N (BitVec.ofNat 64 b.pos.val - 1 - idx).toNat

/-- `get_price(idx)`: `idx` ticks back from the last push. -/
def getPrice (b : TickBuffer N) (idx : BitVec 64) : FixedPoint := b.prices (b.slotOf idx)

/-- `get_qty(idx)`. -/
def getQty (b : TickBuffer N) (idx : BitVec 64) : FixedPoint := b.quantities (b.slotOf idx)

/-- `size()`. -/
def size (b : TickBuffer N) : Nat := b.count.val

end TickBuffer

end Sage
