import Sage.Infra.RingBuffer

/-! # Positions and the circuit breaker (`rme/position_tracker.hpp`, `rme/circuit_breaker.hpp`)

* **`PositionTracker`** — one `Position` per symbol slot, the running total exposure and the
  daily PnL. `updatePosition` adds a delta to a slot's quantity and moves the exposure by
  `|new| - |old|`, both in `int64_t`.
* **`CircuitBreaker`** — the latch checked on every signal. This file models its calls one at
  a time; RME's heartbeat thread trips it with `DAILY_LOSS_BREACH` (the source passes the
  string `"Daily loss limit"`, which does not name a reason).
* **`sum_update`**, **`exposureSum_updatePosition`** — the exposure bookkeeping: updating one
  slot moves `∑ |quantity|` by exactly `|new| - |old|`.
* **`runCalls_books`** — over any run of `update_position`, `record_pnl` and `reset` calls,
  the total exposure is the wrapped `∑ std::abs(quantity)` (exactly `∑ |quantity|` away from
  overflow), and each slot holds the sum of its deltas since the last reset.
* **`runCalls_dailyPnl_unbooked`** — no call writes a slot's PnL fields, so they sum to `0`,
  while `daily_pnl_` sums what `record_pnl` was given since the last reset. -/

namespace Sage

/-- A per-symbol `Position`. -/
structure Position where
  /-- Positive long, negative short. -/
  quantity : Int64
  avgPriceScaled : Int64
  unrealizedPnl : Int64
  realizedPnl : Int64
  lastUpdateNs : BitVec 64
  tradeCount : BitVec 32
  deriving DecidableEq, Repr

/-- `Position{}`: everything zero. -/
def Position.zero : Position := ⟨0, 0, 0, 0, 0, 0⟩

/-- The `PositionTracker`: `positions_`, `total_exposure_`, `daily_pnl_`. -/
structure PositionTracker where
  positions : Fin maxSymbols → Position
  totalExposure : Int64
  dailyPnl : Int64

namespace PositionTracker

/-- `reset()`, which the constructor also runs. -/
def reset : PositionTracker := ⟨fun _ => Position.zero, 0, 0⟩

/-- `update_position(symbol_id, delta)`: `quantity += delta`, `trade_count++`, and
`total_exposure_ += std::abs(new_qty) - std::abs(old_qty)`. -/
def updatePosition (t : PositionTracker) (symbolId : BitVec 64) (delta : Int64) :
    PositionTracker :=
  let idx := symbolSlot symbolId
  let pos := t.positions idx
  let oldQty := pos.quantity
  let newQty := oldQty + delta
  let exposureChange := newQty.abs - oldQty.abs
  { t with
    positions := Function.update t.positions idx
      { pos with quantity := newQty, tradeCount := pos.tradeCount + 1 }
    totalExposure := t.totalExposure + exposureChange }

/-- `get_position(symbol_id)`. -/
def getPosition (t : PositionTracker) (symbolId : BitVec 64) : Int64 :=
  (t.positions (symbolSlot symbolId)).quantity

/-- `get_total_exposure()`. -/
def getTotalExposure (t : PositionTracker) : Int64 := t.totalExposure

/-- `get_daily_pnl()`. -/
def getDailyPnl (t : PositionTracker) : Int64 := t.dailyPnl

/-- `record_pnl(pnl)`: `daily_pnl_ += pnl`. -/
def recordPnl (t : PositionTracker) (pnl : Int64) : PositionTracker :=
  { t with dailyPnl := t.dailyPnl + pnl }

@[simp] theorem getTotalExposure_eq (t : PositionTracker) :
    t.getTotalExposure = t.totalExposure := rfl

@[simp] theorem getDailyPnl_eq (t : PositionTracker) : t.getDailyPnl = t.dailyPnl := rfl

@[simp] theorem updatePosition_quantity_self (t : PositionTracker) (id : BitVec 64) (d : Int64) :
    ((t.updatePosition id d).positions (symbolSlot id)).quantity =
      (t.positions (symbolSlot id)).quantity + d := by
  simp [updatePosition]

@[simp] theorem updatePosition_positions_of_ne (t : PositionTracker) (id : BitVec 64) (d : Int64)
    {i : Fin maxSymbols} (h : i ≠ symbolSlot id) :
    (t.updatePosition id d).positions i = t.positions i := by
  simp [updatePosition, h]

@[simp] theorem updatePosition_totalExposure (t : PositionTracker) (id : BitVec 64) (d : Int64) :
    (t.updatePosition id d).totalExposure =
      t.totalExposure + (((t.positions (symbolSlot id)).quantity + d).abs -
        (t.positions (symbolSlot id)).quantity.abs) := rfl

@[simp] theorem updatePosition_dailyPnl (t : PositionTracker) (id : BitVec 64) (d : Int64) :
    (t.updatePosition id d).dailyPnl = t.dailyPnl := rfl

/-- The exposure the tracker should hold: `∑ |quantity|` over the slots, over the integers. -/
def exposureSum (t : PositionTracker) : Int := ∑ i, |(t.positions i).quantity.val|

end PositionTracker

/-- Updating one entry moves a sum over all slots by the change of that entry. -/
theorem sum_update {n : Nat} (f : Fin n → Int) (k : Fin n) (v : Int) :
    ∑ i, Function.update f k v i = ∑ i, f i + (v - f k) := by
  rw [Finset.sum_update_of_mem (Finset.mem_univ k), Finset.sdiff_singleton_eq_erase,
    ← Finset.sum_erase_add _ _ (Finset.mem_univ k)]
  ring

namespace PositionTracker

/-- Updating one slot moves a sum over the slots' quantities by the change at that slot. -/
theorem sum_quantity_updatePosition (t : PositionTracker) (id : BitVec 64) (d : Int64)
    (g : Int64 → Int) :
    ∑ i, g ((t.updatePosition id d).positions i).quantity = ∑ i, g (t.positions i).quantity +
      (g ((t.positions (symbolSlot id)).quantity + d) -
        g (t.positions (symbolSlot id)).quantity) := by
  have h : (fun i => g ((t.updatePosition id d).positions i).quantity) =
      Function.update (fun i => g (t.positions i).quantity) (symbolSlot id)
        (g ((t.positions (symbolSlot id)).quantity + d)) := by
    funext i
    by_cases hi : i = symbolSlot id
    · subst hi; simp
    · simp [hi]
  rw [h, sum_update]

/-- **`update_position` moves `∑ |quantity|` by `|new| - |old|`** of the slot it touches. -/
theorem exposureSum_updatePosition (t : PositionTracker) (id : BitVec 64) (d : Int64) :
    (t.updatePosition id d).exposureSum = t.exposureSum +
      (|((t.positions (symbolSlot id)).quantity + d).val| -
        |(t.positions (symbolSlot id)).quantity.val|) :=
  sum_quantity_updatePosition t id d fun q => |q.val|

/-! ## Runs of tracker calls

A run starts from the constructor, which calls `reset()`. -/

/-- The wrapped exposure the tracker should hold: `∑ std::abs(quantity)` over the slots,
summed in `int64_t`. -/
def exposureWrapped (t : PositionTracker) : Int64 :=
  Int64.ofInt (∑ i, (t.positions i).quantity.abs.val)

end PositionTracker

/-- A call on the `PositionTracker`. -/
inductive TrackerCall
  | updatePosition (symbolId : BitVec 64) (delta : Int64)
  | recordPnl (pnl : Int64)
  | reset

namespace PositionTracker

/-- One call. -/
def call (t : PositionTracker) : TrackerCall → PositionTracker
  | .updatePosition symbolId delta => t.updatePosition symbolId delta
  | .recordPnl pnl => t.recordPnl pnl
  | .reset => reset

/-- Calls in turn. -/
def runCalls (t : PositionTracker) (cs : List TrackerCall) : PositionTracker := cs.foldl call t

@[simp] theorem runCalls_nil (t : PositionTracker) : t.runCalls [] = t := rfl

@[simp] theorem runCalls_cons (t : PositionTracker) (c : TrackerCall) (cs : List TrackerCall) :
    t.runCalls (c :: cs) = (t.call c).runCalls cs := rfl

/-- The deltas passed to `update_position` for the slot `s` since the last `reset`, after
`acc`. -/
def deltasSince (s : Fin maxSymbols) (acc : List Int64) : List TrackerCall → List Int64
  | [] => acc
  | .updatePosition id d :: cs => deltasSince s (if symbolSlot id = s then acc ++ [d] else acc) cs
  | .recordPnl _ :: cs => deltasSince s acc cs
  | .reset :: cs => deltasSince s [] cs

/-- A reset tracker holds no exposure. -/
theorem totalExposure_reset : reset.totalExposure = reset.exposureWrapped := by
  apply Int64.ext; simp [exposureWrapped, reset, Position.zero]

/-- A call keeps the total exposure equal to the wrapped `∑ std::abs(quantity)`: an update
adds `|new| - |old|` of the slot it touches, which moves the sum by the same amount. -/
theorem call_exposureWrapped {t : PositionTracker} (h : t.totalExposure = t.exposureWrapped)
    (c : TrackerCall) : (t.call c).totalExposure = (t.call c).exposureWrapped := by
  cases c with
  | updatePosition id d =>
    apply Int64.ext
    rw [call, updatePosition_totalExposure, h, exposureWrapped, exposureWrapped,
      sum_quantity_updatePosition t id d fun q => q.abs.val]
    simp only [Int64.val_add, Int64.val_sub, Int64.val_ofInt, Int.bmod_add_bmod_congr,
      Int.add_bmod_bmod]
  | recordPnl p => exact h
  | reset => exact totalExposure_reset

/-- A call keeps each slot's quantity the wrapped sum of its deltas since the last `reset`. -/
theorem call_quantity {t : PositionTracker} {s : Fin maxSymbols} {acc : List Int64}
    (h : (t.positions s).quantity = Int64.ofInt (acc.map Int64.val).sum) (c : TrackerCall) :
    ((t.call c).positions s).quantity =
      Int64.ofInt ((deltasSince s acc [c]).map Int64.val).sum := by
  cases c with
  | updatePosition id d =>
    simp only [call, deltasSince]
    split
    · next hs =>
      subst hs
      apply Int64.ext
      rw [updatePosition_quantity_self, h, Int64.val_add, Int64.val_ofInt, Int64.val_ofInt,
        Int.bmod_add_bmod_congr, List.map_append, List.sum_append]
      simp
    · next hs => rw [updatePosition_positions_of_ne _ _ _ (Ne.symm hs), h]
  | recordPnl p => exact h
  | reset => rfl

theorem deltasSince_cons (s : Fin maxSymbols) (acc : List Int64) (c : TrackerCall)
    (cs : List TrackerCall) :
    deltasSince s acc (c :: cs) = deltasSince s (deltasSince s acc [c]) cs := by
  cases c <;> rfl

/-- A run keeps the total exposure equal to the wrapped `∑ std::abs(quantity)`. -/
theorem runCalls_exposureWrapped (t : PositionTracker) (cs : List TrackerCall)
    (h : t.totalExposure = t.exposureWrapped) :
    (t.runCalls cs).totalExposure = (t.runCalls cs).exposureWrapped := by
  induction cs generalizing t with
  | nil => exact h
  | cons c cs ih => exact ih _ (call_exposureWrapped h c)

/-- A run keeps each slot's quantity the wrapped sum of its deltas since the last `reset`. -/
theorem runCalls_quantity (s : Fin maxSymbols) (t : PositionTracker) (acc : List Int64)
    (cs : List TrackerCall) (h : (t.positions s).quantity = Int64.ofInt (acc.map Int64.val).sum) :
    ((t.runCalls cs).positions s).quantity =
      Int64.ofInt ((deltasSince s acc cs).map Int64.val).sum := by
  induction cs generalizing t acc with
  | nil => exact h
  | cons c cs ih =>
    rw [runCalls_cons, deltasSince_cons]
    exact ih _ _ (call_quantity h c)

/-- **The tracker's books stay exact over any run of calls.** From construction, whatever
updates (of any symbol id and delta), PnL records and resets follow: the total exposure is
`∑ std::abs(quantity)` over the 256 slots summed in `int64_t`, hence exactly `∑ |quantity|`
over the integers while no quantity is `INT64_MIN` and that sum is below `2^63`; and each
slot's quantity is the `int64_t` sum of the deltas given since the last reset to the symbol
ids that map to it. -/
theorem runCalls_books (cs : List TrackerCall) :
    (reset.runCalls cs).getTotalExposure = (reset.runCalls cs).exposureWrapped ∧
      ((∀ i, ((reset.runCalls cs).positions i).quantity ≠ Int64.minValue) →
        (reset.runCalls cs).exposureSum < 2 ^ 63 →
        (reset.runCalls cs).getTotalExposure.val = (reset.runCalls cs).exposureSum) ∧
      ∀ s, ((reset.runCalls cs).positions s).quantity =
        Int64.ofInt ((deltasSince s [] cs).map Int64.val).sum := by
  have hexp := runCalls_exposureWrapped reset cs totalExposure_reset
  refine ⟨hexp, fun hmin hlt => ?_, fun s => runCalls_quantity s reset [] cs rfl⟩
  have hsum : ∑ i, ((reset.runCalls cs).positions i).quantity.abs.val =
      (reset.runCalls cs).exposureSum :=
    Finset.sum_congr rfl fun i _ => Int64.val_abs_of_ne_min (hmin i)
  have hnonneg : 0 ≤ (reset.runCalls cs).exposureSum :=
    Finset.sum_nonneg fun i _ => abs_nonneg _
  rw [getTotalExposure_eq, hexp, exposureWrapped, Int64.val_ofInt, hsum,
    Int64.bmod_of_range (by omega) hlt]

/-- The fresh tracker meets the exactness conditions. -/
theorem runCalls_books_nil : (reset.runCalls []).getTotalExposure.val = 0 :=
  ((runCalls_books []).2.1 (fun _ => show (0 : Int64) ≠ Int64.minValue by decide)
    (by simp [exposureSum, reset, Position.zero])).trans
      (by simp [exposureSum, reset, Position.zero])

/-! ## The daily PnL

`record_pnl` is the only writer of `daily_pnl_`; nothing writes a slot's `realized_pnl` or
`unrealized_pnl` but `reset`, which zeroes them. -/

/-- The amounts passed to `record_pnl` since the last `reset`, after `acc`. -/
def pnlsSince (acc : List Int64) : List TrackerCall → List Int64
  | [] => acc
  | .updatePosition _ _ :: cs => pnlsSince acc cs
  | .recordPnl p :: cs => pnlsSince (acc ++ [p]) cs
  | .reset :: cs => pnlsSince [] cs

/-- The PnL the slots book: `∑ (realized_pnl + unrealized_pnl)` over the 256 slots, over the
integers. -/
def slotPnl (t : PositionTracker) : Int :=
  ∑ i, ((t.positions i).realizedPnl.val + (t.positions i).unrealizedPnl.val)

/-- No slot books any PnL. -/
def PnlClear (t : PositionTracker) : Prop :=
  ∀ i, (t.positions i).realizedPnl = 0 ∧ (t.positions i).unrealizedPnl = 0

theorem PnlClear.slotPnl {t : PositionTracker} (h : t.PnlClear) : t.slotPnl = 0 :=
  Finset.sum_eq_zero fun i _ => by rw [(h i).1, (h i).2]; rfl

/-- No call writes a slot's PnL fields but `reset`, which clears them. -/
theorem PnlClear.call {t : PositionTracker} (h : t.PnlClear) (c : TrackerCall) :
    (t.call c).PnlClear := by
  cases c with
  | updatePosition id d =>
    intro i
    by_cases hi : i = symbolSlot id
    · subst hi; simpa [PositionTracker.call, updatePosition] using h (symbolSlot id)
    · rw [PositionTracker.call, updatePosition_positions_of_ne _ _ _ hi]; exact h i
  | recordPnl p => exact h
  | reset => exact fun _ => ⟨rfl, rfl⟩

/-- A call keeps `daily_pnl_` the wrapped sum of the amounts recorded since the last
`reset`. -/
theorem call_dailyPnl {t : PositionTracker} {acc : List Int64}
    (h : t.dailyPnl = Int64.ofInt (acc.map Int64.val).sum) (c : TrackerCall) :
    (t.call c).dailyPnl = Int64.ofInt ((pnlsSince acc [c]).map Int64.val).sum := by
  cases c with
  | updatePosition id d => exact h
  | recordPnl p =>
    apply Int64.ext
    rw [call, recordPnl, Int64.val_add, h, Int64.val_ofInt, Int64.val_ofInt, pnlsSince,
      pnlsSince, List.map_append, List.sum_append, Int.bmod_add_bmod_congr]
    simp
  | reset => rfl

theorem pnlsSince_cons (acc : List Int64) (c : TrackerCall) (cs : List TrackerCall) :
    pnlsSince acc (c :: cs) = pnlsSince (pnlsSince acc [c]) cs := by
  cases c <;> rfl

/-- A run keeps `daily_pnl_` the wrapped sum of the amounts recorded since the last
`reset`. -/
theorem runCalls_dailyPnl (t : PositionTracker) (acc : List Int64) (cs : List TrackerCall)
    (h : t.dailyPnl = Int64.ofInt (acc.map Int64.val).sum) :
    (t.runCalls cs).dailyPnl = Int64.ofInt ((pnlsSince acc cs).map Int64.val).sum := by
  induction cs generalizing t acc with
  | nil => exact h
  | cons c cs ih =>
    rw [runCalls_cons, pnlsSince_cons]
    exact ih _ _ (call_dailyPnl h c)

/-- A run keeps the slots' PnL fields clear. -/
theorem PnlClear.runCalls {t : PositionTracker} (h : t.PnlClear) (cs : List TrackerCall) :
    (t.runCalls cs).PnlClear := by
  induction cs generalizing t with
  | nil => exact h
  | cons c cs ih => exact ih (h.call c)

/-- **`record_pnl` books PnL that no slot holds.** From construction, over any run of
updates, PnL records and resets, no call writes a slot's `realized_pnl` or `unrealized_pnl`,
so their sum over the 256 slots stays `0`; `get_daily_pnl()` is the `int64_t` sum of the
amounts recorded since the last reset. The two agree only while those amounts sum to `0`
modulo `2^64`: a single `record_pnl(1)` reports `1` against a slot sum of `0`. -/
theorem runCalls_dailyPnl_unbooked (cs : List TrackerCall) :
    (reset.runCalls cs).slotPnl = 0 ∧
      (reset.runCalls cs).getDailyPnl = Int64.ofInt ((pnlsSince [] cs).map Int64.val).sum ∧
      (reset.runCalls [.recordPnl 1]).getDailyPnl.val ≠
        (reset.runCalls [.recordPnl 1]).slotPnl := by
  have hclear : reset.PnlClear := fun _ => ⟨rfl, rfl⟩
  refine ⟨(hclear.runCalls cs).slotPnl, runCalls_dailyPnl reset [] cs rfl, ?_⟩
  rw [(hclear.runCalls _).slotPnl, getDailyPnl_eq, runCalls_dailyPnl reset [] _ rfl]
  decide

end PositionTracker

/-- `CircuitBreakerReason`. -/
inductive CircuitBreakerReason
  | none | highErrorRate | latencySpike | dailyLossBreach | manualHalt
  deriving DecidableEq, Repr

/-- The `CircuitBreaker`: the atomic flag `tripped_` and the plain `reason_`. -/
structure CircuitBreaker where
  tripped : Bool
  reason : CircuitBreakerReason
  deriving DecidableEq, Repr

namespace CircuitBreaker

/-- The constructor: not tripped, reason `NONE`. -/
def init : CircuitBreaker := ⟨false, .none⟩

/-- `trip(reason)`: `tripped_.exchange(true)`; only the call that flips it writes `reason_`. -/
def trip (b : CircuitBreaker) (reason : CircuitBreakerReason) : CircuitBreaker :=
  if !b.tripped then ⟨true, reason⟩ else ⟨true, b.reason⟩

/-- `reset()`: `tripped_ = false`, `reason_ = NONE`. -/
def reset (_ : CircuitBreaker) : CircuitBreaker := ⟨false, .none⟩

/-- `is_tripped()`. -/
def isTripped (b : CircuitBreaker) : Bool := b.tripped

/-- `get_reason()`. -/
def getReason (b : CircuitBreaker) : CircuitBreakerReason := b.reason

end CircuitBreaker

end Sage
