import Sage.Rme.PositionTracker
import Sage.Poe.Engine

/-! # The risk stage (`rme/rme_main.cpp`, `rme/risk_limits.hpp`)

RME pops messages from ADE, runs `process_signal` on each `SIGNAL` and forwards each
`HEARTBEAT` to POE; its heartbeat thread may trip the circuit breaker, an operator may reset
it, and POE drains the RME→POE ring.

* **`checkRiskFast`** — the breaker test, then the four limits, each computed in `int64_t`
  with `std::abs`.
* **`processSignal`** — `order_value = confidence.raw() * direction`; on approval the position
  is updated *before* the push, as the spec asks (§9). It also reports what became of the
  signal (`SignalOutcome`): rejected, placed on the queue, or dropped by a full queue.
* **`Rme.step`**, **`Rme.runLog`** — one event of the stage, and a run with the outcome of
  every signal.
* **`processSignal_neutral_sent_as_sell`** — a neutral signal (`direction = 0`) passes the gate
  with `order_value = 0`, leaves the position flat, and reaches the exchange as a sell: POE
  renders `side = 0` as `SELL` and FIX `54=2`.
* **`processSignal_limits_sound`** — for signals whose integer order value lies strictly
  inside `int64_t`, and limits with `max_order_size` of headroom below `2^63`, every reachable
  state keeps each position and the exposure within their limits, and every approved signal
  passed the five checks over the integers. Outside that range the gate is unsound: a raw
  confidence of `INT64_MIN` passes, since `std::abs(INT64_MIN)` is negative, and a product that
  wraps to `0` passes whatever its size.
* **`processSignal_accounting`** — what a rejection and a drop by a full RME→POE ring change;
  on runs without a drop, the counter identity and the positions as sums over the placed
  orders; and a run on which an approved order is dropped after its position was updated,
  counted as neither approved nor rejected. -/

namespace Sage

/-- `RiskLimits` (the `concentration_limit` field is read by no code and left out). -/
structure RiskLimits where
  maxPositionPerSymbol : Int64
  maxTotalExposure : Int64
  /-- A positive number: the loss that trips the breaker. -/
  maxDailyLoss : Int64
  maxOrderSize : Int64

/-- `g_limits`, RME's configured limits. -/
def gLimits : RiskLimits := ⟨1000000, 10000000, 100000, 50000⟩

/-- `check_risk_fast(symbol_id, order_value)`: `true` approves. -/
def checkRiskFast (limits : RiskLimits) (breaker : CircuitBreaker) (tracker : PositionTracker)
    (symbolId : BitVec 64) (orderValue : Int64) : Bool :=
  if breaker.isTripped then false
  else
    let currentPosition := tracker.getPosition symbolId
    let newPosition := currentPosition + orderValue
    let positionOk := decide (newPosition.abs ≤ limits.maxPositionPerSymbol)
    let sizeOk := decide (orderValue.abs ≤ limits.maxOrderSize)
    let totalExposure := tracker.getTotalExposure
    let exposureOk := decide (totalExposure + orderValue.abs ≤ limits.maxTotalExposure)
    let pnlOk := decide (tracker.getDailyPnl > -limits.maxDailyLoss)
    positionOk && sizeOk && exposureOk && pnlOk

/-- `confidence.raw() * direction`, in `int64_t`. -/
def orderValue (signal : Signal) : Int64 := signal.confidence.raw * signal.direction.toInt64

/-- The `OrderRequest` RME builds for an approved signal: market order (`price` zero, type
`1`), immediate-or-cancel (`1`), `quantity = confidence`, `side = direction`. -/
def orderFor (orderId : BitVec 64) (signal : Signal) : OrderRequest :=
  ⟨orderId, signal.symbolId, FixedPoint.zero, signal.confidence, signal.direction, 1, 1⟩

/-- The state of the risk stage. Latency accounting (`g_total_latency_ns`) reads the clock
and is left out. -/
structure Rme where
  /-- `g_circuit_breaker`. -/
  breaker : CircuitBreaker
  /-- `g_position_tracker`. -/
  tracker : PositionTracker
  /-- `g_rme_to_poe_buffer`. -/
  toPoe : RingBuffer SageMessage cap65536
  /-- `g_signals_received`. -/
  signalsReceived : BitVec 64
  /-- `g_orders_approved`. -/
  ordersApproved : BitVec 64
  /-- `g_orders_rejected`. -/
  ordersRejected : BitVec 64
  /-- `g_sequence`. -/
  sequence : BitVec 64

/-- What `process_signal` did with a signal. -/
inductive SignalOutcome
  /-- `check_risk_fast` failed. -/
  | rejected
  /-- Approved, and `try_push` put the order on the RME→POE ring. -/
  | placed (order : OrderRequest)
  /-- Approved, but `try_push` found the ring full. -/
  | dropped (order : OrderRequest)
  deriving DecidableEq, Repr

/-- The order a `placed` outcome put on the ring. -/
def SignalOutcome.placedOrder? : SignalOutcome → Option OrderRequest
  | .placed o => some o
  | _ => none

/-- Whether the outcome is a drop by a full ring. -/
def SignalOutcome.isDropped : SignalOutcome → Bool
  | .dropped _ => true
  | _ => false

namespace Rme

/-- RME at start-up: breaker reset, tracker reset, an empty zeroed ring, counters zero. -/
def init : Rme := ⟨.init, .reset, RingBuffer.empty 0 fun _ => SageMessage.zeroed, 0, 0, 0, 0⟩

/-- `process_signal(msg)` on the signal `signal`, at monotonic time `now`. -/
def processSignal (limits : RiskLimits) (st : Rme) (signal : Signal) (now : BitVec 64) :
    Rme × SignalOutcome :=
  let st := { st with signalsReceived := st.signalsReceived + 1 }
  let value := orderValue signal
  if !checkRiskFast limits st.breaker st.tracker signal.symbolId value then
    ({ st with ordersRejected := st.ordersRejected + 1 }, .rejected)
  else
    let sequence := st.sequence + 1
    let order := orderFor sequence signal
    let tracker := st.tracker.updatePosition signal.symbolId value
    let push := st.toPoe.tryPush ⟨now, sequence, .order order⟩
    if push.2 then
      ({ st with sequence, tracker, toPoe := push.1, ordersApproved := st.ordersApproved + 1 },
        .placed order)
    else ({ st with sequence, tracker, toPoe := push.1 }, .dropped order)

end Rme

/-- An event of the risk stage. -/
inductive RmeEvent
  /-- The hot loop pops a `SIGNAL` and runs `process_signal`. -/
  | signal (s : Signal) (now : BitVec 64)
  /-- The hot loop pops a `HEARTBEAT` and forwards it with `try_push`. -/
  | heartbeat (timestamp sequence : BitVec 64) (h : Heartbeat)
  /-- The breaker is tripped (the heartbeat thread on a daily-loss breach, or any caller). -/
  | trip (reason : CircuitBreakerReason)
  /-- An operator resets the breaker. -/
  | reset
  /-- POE pops one message from the RME→POE ring. -/
  | consume

namespace Rme

/-- One event, with the outcome of the signal it processed, if any. -/
def step (limits : RiskLimits) (st : Rme) : RmeEvent → Rme × Option SignalOutcome
  | .signal s now => let r := st.processSignal limits s now; (r.1, some r.2)
  | .heartbeat ts seq h => ({ st with toPoe := (st.toPoe.tryPush ⟨ts, seq, .heartbeat h⟩).1 }, none)
  | .trip r => ({ st with breaker := st.breaker.trip r }, none)
  | .reset => ({ st with breaker := st.breaker.reset }, none)
  | .consume => ({ st with toPoe := st.toPoe.tryPop.1 }, none)

/-- A run of events from `st`: the final state and the outcomes of its signals, in order. -/
def runLog (limits : RiskLimits) (st : Rme) : List RmeEvent → Rme × List SignalOutcome
  | [] => (st, [])
  | e :: es =>
    let r := st.step limits e
    let rest := r.1.runLog limits es
    (rest.1, r.2.toList ++ rest.2)

end Rme

set_option maxRecDepth 8000 in
/-- **A neutral signal is sent as a sell.** From start-up, the signal `{symbol 0, confidence
0.5, direction 0}` has `order_value = 0`, so every limit passes and the position stays `0`;
the order `{side 0, quantity 0.5}` is placed on the RME→POE ring, where POE's `try_pop` finds
it. POE's audit record says `SELL`, and its FIX message carries `54=2` and `38=0.50000000`: the
exchange position moves by `-0.5`. -/
theorem processSignal_neutral_sent_as_sell :
    (Rme.init.processSignal gLimits ⟨0, ⟨50000000⟩, 0, 1⟩ 0).2 =
        .placed (orderFor 1 ⟨0, ⟨50000000⟩, 0, 1⟩) ∧
      (orderValue ⟨0, ⟨50000000⟩, 0, 1⟩).val = 0 ∧
      ((Rme.init.processSignal gLimits ⟨0, ⟨50000000⟩, 0, 1⟩ 0).1.tracker.getPosition 0).val = 0 ∧
      (Rme.init.processSignal gLimits ⟨0, ⟨50000000⟩, 0, 1⟩ 0).1.toPoe.tryPop.2 =
        some ⟨0, 1, .order (orderFor 1 ⟨0, ⟨50000000⟩, 0, 1⟩)⟩ ∧
      AuditLog.sideStr (orderFor 1 ⟨0, ⟨50000000⟩, 0, 1⟩).side = "SELL".toList ∧
      "54=2".toList ∈
        (Poe.fixFor (1769774400 <<< 32) (orderFor 1 ⟨0, ⟨50000000⟩, 0, 1⟩)).splitOn soh ∧
      "38=0.50000000".toList ∈
        (Poe.fixFor (1769774400 <<< 32) (orderFor 1 ⟨0, ⟨50000000⟩, 0, 1⟩)).splitOn soh := by
  decide

end Sage

namespace Sage

/-! ## Soundness of the gate where `order_value` is exact -/

/-- A signal whose integer order value `confidence.raw() * direction` lies strictly inside
`int64_t`, so that `order_value` and its `std::abs` are exact. The spec's signals
(`direction ∈ {+1, 0, -1}`, `0 ≤ confidence ≤ 1.0`) are among them. -/
def Signal.InRange (s : Signal) : Prop :=
  |s.confidence.raw.val * s.direction.val| < 2 ^ 63

/-- Positive limits leaving `max_order_size` of headroom below `2^63` in the position and
exposure limits, so that no check of an order within `max_order_size` can overflow. -/
def RiskLimits.Sane (l : RiskLimits) : Prop :=
  0 < l.maxPositionPerSymbol.val ∧ 0 < l.maxTotalExposure.val ∧ 0 < l.maxDailyLoss.val ∧
    0 < l.maxOrderSize.val ∧ l.maxPositionPerSymbol.val + l.maxOrderSize.val < 2 ^ 63 ∧
    l.maxTotalExposure.val + l.maxOrderSize.val < 2 ^ 63

/-- The spec's five checks, over the integers, on the pre-update snapshot. -/
def PassesLimits (l : RiskLimits) (b : CircuitBreaker) (t : PositionTracker) (s : Signal) :
    Prop :=
  b.tripped = false ∧
    |(t.getPosition s.symbolId).val + s.confidence.raw.val * s.direction.val| ≤
      l.maxPositionPerSymbol.val ∧
    |s.confidence.raw.val * s.direction.val| ≤ l.maxOrderSize.val ∧
    t.totalExposure.val + |s.confidence.raw.val * s.direction.val| ≤ l.maxTotalExposure.val ∧
    -l.maxDailyLoss.val < t.dailyPnl.val

/-- The tracker invariant the gate maintains: every position within its limit, and the
exposure counter equal to `∑ |quantity|` and within its limit. -/
structure RiskInvariant (l : RiskLimits) (t : PositionTracker) : Prop where
  position_le : ∀ i, |(t.positions i).quantity.val| ≤ l.maxPositionPerSymbol.val
  exposure_eq : t.totalExposure.val = t.exposureSum
  exposure_le : t.totalExposure.val ≤ l.maxTotalExposure.val

theorem PositionTracker.exposureSum_nonneg (t : PositionTracker) : 0 ≤ t.exposureSum :=
  Finset.sum_nonneg fun _ _ => abs_nonneg _

/-- In range, `order_value` is the exact product. -/
theorem orderValue_val {s : Signal} (hs : s.InRange) :
    (orderValue s).val = s.confidence.raw.val * s.direction.val := by
  have h := abs_lt.mp hs
  exact Int64.val_mul_of_range (by simp only [Int8.val_toInt64]; omega)
    (by simp only [Int8.val_toInt64]; omega)

/-- **In range, the `int64_t` checks are the integer checks.** From an invariant state and
with sane limits, `check_risk_fast` approves exactly the signals that pass the five checks over
the integers: an order above `max_order_size` fails the size check on both sides, and no sum
of an order within it overflows. -/
theorem checkRiskFast_iff {l : RiskLimits} {b : CircuitBreaker} {t : PositionTracker}
    {s : Signal} (hl : l.Sane) (ht : RiskInvariant l t) (hs : s.InRange) :
    checkRiskFast l b t s.symbolId (orderValue s) = true ↔ PassesLimits l b t s := by
  have hv := orderValue_val hs
  obtain ⟨-, -, hd0, -, hpm, hxm⟩ := hl
  have hovabs : (orderValue s).abs.val = |s.confidence.raw.val * s.direction.val| := by
    rw [Int64.val_abs_of_lt (by rw [hv]; exact (abs_lt.mp hs).1), hv]
  unfold checkRiskFast PassesLimits
  by_cases hsize : |s.confidence.raw.val * s.direction.val| ≤ l.maxOrderSize.val
  · have hp := abs_le.mp (ht.position_le (symbolSlot s.symbolId))
    have hE0 : 0 ≤ t.totalExposure.val := ht.exposure_eq ▸ t.exposureSum_nonneg
    have hE := ht.exposure_le
    have hv₀ := abs_nonneg (s.confidence.raw.val * s.direction.val)
    have hvb := abs_le.mp hsize
    have hnew : (t.getPosition s.symbolId + orderValue s).val =
        (t.getPosition s.symbolId).val + s.confidence.raw.val * s.direction.val := by
      rw [Int64.val_add_of_range] <;> simp only [PositionTracker.getPosition, hv] at * <;> omega
    have hnewabs : (t.getPosition s.symbolId + orderValue s).abs.val =
        |(t.getPosition s.symbolId).val + s.confidence.raw.val * s.direction.val| := by
      rw [Int64.val_abs_of_lt, hnew]
      rw [hnew]; simp only [PositionTracker.getPosition] at *; omega
    have hexp : (t.totalExposure + (orderValue s).abs).val =
        t.totalExposure.val + |s.confidence.raw.val * s.direction.val| := by
      rw [Int64.val_add_of_range] <;> rw [hovabs] <;> omega
    have hpnl : (-l.maxDailyLoss).val = -l.maxDailyLoss.val := Int64.val_neg_of_pos hd0
    cases hb : b.tripped
    · simp only [CircuitBreaker.isTripped, hb, Bool.false_eq_true, ite_false, Bool.and_eq_true,
        decide_eq_true_eq, Int64.le_def, Int64.lt_def, gt_iff_lt, hnewabs, hovabs, hexp, hpnl,
        PositionTracker.getTotalExposure_eq, PositionTracker.getDailyPnl_eq, true_and, and_assoc]
    · simp [CircuitBreaker.isTripped, hb]
  · refine iff_of_false ?_ fun h => hsize h.2.2.1
    have h₀ : decide ((orderValue s).abs ≤ l.maxOrderSize) = false := by
      rw [decide_eq_false_iff_not, Int64.le_def, hovabs]; exact hsize
    simp only [h₀, Bool.and_false, Bool.false_and, ite_self, Bool.false_eq_true,
      not_false_eq_true]

/-- The arithmetic of `update_position`, exact away from the `int64_t` bounds: a quantity
`q` and a delta `d` within the limits `M` and `D`, and an exposure `e` covering `|q|` with room
for `|d|` below `T`, give the exact new quantity and the exact new exposure
`e + |q + d| - |q|`. -/
theorem updatePosition_arith_exact {q d e : Int64} {M T D : Int} (hM : M + D < 2 ^ 63)
    (hT : T + D < 2 ^ 63) (hq : |q.val| ≤ M) (hd : |d.val| ≤ D)
    (hnew : |q.val + d.val| ≤ M) (he₀ : |q.val| ≤ e.val) (he : e.val + |d.val| ≤ T) :
    (q + d).val = q.val + d.val ∧
      (e + ((q + d).abs - q.abs)).val = e.val + (|q.val + d.val| - |q.val|) := by
  have hq' := abs_le.mp hq
  have hd' := abs_le.mp hd
  have hnew' := abs_le.mp hnew
  have h₀ := abs_nonneg (q.val + d.val)
  have h₁ := abs_nonneg q.val
  have hsum : (q + d).val = q.val + d.val := Int64.val_add_of_range (by omega) (by omega)
  have habs : (q + d).abs.val = |q.val + d.val| := by
    rw [Int64.val_abs_of_lt (by omega), hsum]
  have hold : q.abs.val = |q.val| := Int64.val_abs_of_lt (by omega)
  have hchg : ((q + d).abs - q.abs).val = |q.val + d.val| - |q.val| := by
    rw [Int64.val_sub_of_range] <;> rw [habs, hold] <;> omega
  have htri : |q.val + d.val| ≤ |q.val| + |d.val| := abs_add _ _
  exact ⟨hsum, by rw [Int64.val_add_of_range] <;> rw [hchg] <;> omega⟩

/-- **An approved signal in range keeps the invariant.** Its position update is exact, and
the exposure moves by `|new| - |old| ≤ |order_value|`, which the exposure check bounds. -/
theorem RiskInvariant.updatePosition {l : RiskLimits} {b : CircuitBreaker}
    {t : PositionTracker} {s : Signal} (hl : l.Sane) (ht : RiskInvariant l t)
    (hs : s.InRange) (hpass : PassesLimits l b t s) :
    RiskInvariant l (t.updatePosition s.symbolId (orderValue s)) := by
  have hv := orderValue_val hs
  obtain ⟨-, -, -, -, hpm, hxm⟩ := hl
  obtain ⟨-, hpos, hsize, hexpo, -⟩ := hpass
  rw [← hv] at hpos hsize hexpo
  have hold : |(t.positions (symbolSlot s.symbolId)).quantity.val| ≤ t.totalExposure.val :=
    ht.exposure_eq ▸ Finset.single_le_sum (f := fun i => |(t.positions i).quantity.val|)
      (fun _ _ => abs_nonneg _) (Finset.mem_univ _)
  obtain ⟨hnew, hexp⟩ := updatePosition_arith_exact hpm hxm
    (ht.position_le (symbolSlot s.symbolId)) hsize hpos hold hexpo
  have htri := abs_add (t.positions (symbolSlot s.symbolId)).quantity.val (orderValue s).val
  refine ⟨fun i => ?_, ?_, ?_⟩
  · by_cases hi : i = symbolSlot s.symbolId
    · subst hi; rw [PositionTracker.updatePosition_quantity_self, hnew]; exact hpos
    · rw [PositionTracker.updatePosition_positions_of_ne _ _ _ hi]; exact ht.position_le i
  · rw [PositionTracker.exposureSum_updatePosition, PositionTracker.updatePosition_totalExposure,
      hexp, hnew, ht.exposure_eq]
  · rw [PositionTracker.updatePosition_totalExposure, hexp]; omega

/-- An event whose signal, if any, is in range. -/
def RmeEvent.InRange : RmeEvent → Prop
  | .signal s _ => s.InRange
  | _ => True

namespace Rme

/-- **What `process_signal` can do.** Reject, counting the rejection; or approve, update the
position and `g_sequence`, and then either place the order, counting the approval, or find the
ring full and leave it as it was but for its refreshed `cached_tail_`. -/
theorem processSignal_cases (l : RiskLimits) (st : Rme) (s : Signal) (now : BitVec 64) :
    let r := st.processSignal l s now
    let order := orderFor (st.sequence + 1) s
    let push := st.toPoe.tryPush ⟨now, st.sequence + 1, .order order⟩
    let tracker := st.tracker.updatePosition s.symbolId (orderValue s)
    (checkRiskFast l st.breaker st.tracker s.symbolId (orderValue s) = false ∧ r.2 = .rejected ∧
      r.1 = { st with signalsReceived := st.signalsReceived + 1,
                      ordersRejected := st.ordersRejected + 1 }) ∨
    (checkRiskFast l st.breaker st.tracker s.symbolId (orderValue s) = true ∧ push.2 = true ∧
      r.2 = .placed order ∧
      r.1 = { st with signalsReceived := st.signalsReceived + 1,
                      ordersApproved := st.ordersApproved + 1, sequence := st.sequence + 1,
                      tracker, toPoe := push.1 }) ∨
    (checkRiskFast l st.breaker st.tracker s.symbolId (orderValue s) = true ∧ push.2 = false ∧
      r.2 = .dropped order ∧
      r.1 = { st with signalsReceived := st.signalsReceived + 1, sequence := st.sequence + 1,
                      tracker, toPoe := { st.toPoe with cachedTail := st.toPoe.tail } }) := by
  intro r order push tracker
  by_cases hc : checkRiskFast l st.breaker st.tracker s.symbolId (orderValue s) = true
  · cases hp : push.2
    · have hq := RingBuffer.tryPush_eq_of_snd_false hp
      refine .inr (.inr ⟨hc, rfl, ?_, ?_⟩) <;>
        simp only [r, processSignal, hc, Bool.not_true, Bool.false_eq_true, if_false] <;>
        simp only [push, order] at hp hq <;> simp only [hp, hq, Bool.false_eq_true, if_false]
    · refine .inr (.inl ⟨hc, rfl, ?_, ?_⟩) <;>
        simp only [r, processSignal, hc, Bool.not_true, Bool.false_eq_true, if_false] <;>
        simp only [push, order] at hp <;> simp only [hp, if_true]
  · rw [Bool.not_eq_true] at hc
    exact .inl ⟨hc, by simp [r, processSignal, hc], by simp [r, processSignal, hc]⟩

/-- `process_signal` rejects exactly when `check_risk_fast` fails. -/
theorem processSignal_rejected_iff (l : RiskLimits) (st : Rme) (s : Signal) (now : BitVec 64) :
    (st.processSignal l s now).2 = .rejected ↔
      checkRiskFast l st.breaker st.tracker s.symbolId (orderValue s) = false := by
  rcases processSignal_cases l st s now with ⟨hc, hr, -⟩ | ⟨hc, -, hr, -⟩ | ⟨hc, -, hr, -⟩ <;>
    simp [hc, hr]

/-- `process_signal` changes the tracker only by the update of an approved signal. -/
theorem processSignal_tracker (l : RiskLimits) (st : Rme) (s : Signal) (now : BitVec 64) :
    (st.processSignal l s now).1.tracker =
      if checkRiskFast l st.breaker st.tracker s.symbolId (orderValue s) then
        st.tracker.updatePosition s.symbolId (orderValue s)
      else st.tracker := by
  rcases processSignal_cases l st s now with ⟨hc, -, h⟩ | ⟨hc, -, -, h⟩ | ⟨hc, -, -, h⟩ <;>
    simp [hc, h]

/-- **Step lemma**: every event in range keeps the invariant. -/
theorem riskInvariant_step {l : RiskLimits} (hl : l.Sane) {st : Rme} {e : RmeEvent}
    (ht : RiskInvariant l st.tracker) (he : e.InRange) :
    RiskInvariant l (st.step l e).1.tracker := by
  cases e with
  | signal s now =>
    simp only [step, processSignal_tracker]
    split
    · rename_i hc
      exact ht.updatePosition hl he ((checkRiskFast_iff hl ht he).mp hc)
    · exact ht
  | heartbeat => exact ht
  | trip => exact ht
  | reset => exact ht
  | consume => exact ht

/-- **Run lemma**: a run of events in range keeps the invariant. -/
theorem riskInvariant_runLog {l : RiskLimits} (hl : l.Sane) (evs : List RmeEvent) :
    ∀ {st : Rme}, RiskInvariant l st.tracker → (∀ e ∈ evs, e.InRange) →
      RiskInvariant l (st.runLog l evs).1.tracker := by
  induction evs with
  | nil => intro st ht _; exact ht
  | cons e es ih =>
    intro st ht hevs
    exact ih (riskInvariant_step hl ht (hevs e (List.mem_cons_self _ _)))
      fun e' h => hevs e' (List.mem_cons_of_mem _ h)

/-- The fresh tracker satisfies the invariant. -/
theorem riskInvariant_init {l : RiskLimits} (hl : l.Sane) : RiskInvariant l init.tracker := by
  obtain ⟨hp, hx, -⟩ := hl
  refine ⟨fun _ => ?_, ?_, ?_⟩ <;>
    simp only [init, PositionTracker.reset, PositionTracker.exposureSum, Position.zero,
      Int64.val_zero, abs_zero, Finset.sum_const_zero] <;> omega

end Rme

/-- **From start-up, a non-positive `std::abs` passes the gate.** Under sane limits,
`check_risk_fast` on the fresh tracker approves every order value whose `std::abs` is not
positive: `0`, and `INT64_MIN`, which `std::abs` leaves negative. -/
theorem checkRiskFast_init {l : RiskLimits} (hl : l.Sane) (symbolId : BitVec 64) {v : Int64}
    (hv : v.abs.val ≤ 0) :
    checkRiskFast l Rme.init.breaker Rme.init.tracker symbolId v = true := by
  obtain ⟨hp, hx, hd, hs, -⟩ := hl
  have hpnl : (-l.maxDailyLoss).val = -l.maxDailyLoss.val := Int64.val_neg_of_pos hd
  simp only [checkRiskFast, Rme.init, CircuitBreaker.init, CircuitBreaker.isTripped,
    PositionTracker.reset, PositionTracker.getPosition, Position.zero, Int64.zero_add,
    PositionTracker.getTotalExposure_eq, PositionTracker.getDailyPnl_eq, Bool.false_eq_true,
    ite_false, Bool.and_eq_true, decide_eq_true_eq, Int64.le_def, Int64.lt_def, gt_iff_lt,
    hpnl, Int64.val_zero]
  omega

/-- From start-up, under sane limits, `process_signal` places the order of every signal whose
`order_value` has a non-positive `std::abs`, and the position becomes that order value. -/
theorem processSignal_init_of_abs_nonpos {l : RiskLimits} (hl : l.Sane) {s : Signal}
    (now : BitVec 64) (hv : (orderValue s).abs.val ≤ 0) :
    (Rme.init.processSignal l s now).2 = .placed (orderFor 1 s) ∧
      (Rme.init.processSignal l s now).1.tracker.getPosition s.symbolId = orderValue s := by
  have hc := checkRiskFast_init hl s.symbolId hv
  rcases Rme.processSignal_cases l Rme.init s now with ⟨hc', -⟩ | ⟨-, -, h₂, h₁⟩ | ⟨-, hp, -⟩
  · rw [hc] at hc'; cases hc'
  · rw [h₂, h₁]
    exact ⟨rfl, by simp [PositionTracker.getPosition, Rme.init, PositionTracker.reset,
      Position.zero, Int64.zero_add]⟩
  · rw [RingBuffer.tryPush_of_room rfl (by decide)] at hp; cases hp

/-- **The risk gate is sound where `order_value` is exact, and only there.** With limits that
are positive and leave `max_order_size` of headroom below `2^63` (as `g_limits` does), every
state reachable from start-up by `process_signal` on signals whose integer order value lies
strictly inside `int64_t`, breaker trips and resets, forwarded heartbeats and POE's pops keeps
every position within `max_position_per_symbol` and the exposure within
`[0, max_total_exposure]`; and every such signal it approves there (in particular every
`OrderRequest` it pushes) passed the five checks over the integers, on the pre-update
snapshot. Outside that range the gate fails from start-up: a raw confidence of `INT64_MIN`
with direction `+1` is placed, because `std::abs(INT64_MIN)` is negative, and moves the
position beyond its limit; and a raw confidence of `2^62` with direction `4`, whose product
wraps to `order_value = 0`, is placed although `|confidence * direction| = 2^64` exceeds
`max_order_size`. -/
theorem processSignal_limits_sound (l : RiskLimits) (hl : l.Sane) (evs : List RmeEvent)
    (hevs : ∀ e ∈ evs, e.InRange) :
    (let st := (Rme.init.runLog l evs).1
     (∀ i, |(st.tracker.positions i).quantity.val| ≤ l.maxPositionPerSymbol.val) ∧
        0 ≤ st.tracker.totalExposure.val ∧
        st.tracker.totalExposure.val ≤ l.maxTotalExposure.val ∧
        ∀ (s : Signal) (now : BitVec 64), s.InRange → (st.processSignal l s now).2 ≠ .rejected →
          PassesLimits l st.breaker st.tracker s) ∧
    (let r := Rme.init.processSignal l ⟨0, ⟨Int64.minValue⟩, 1, 1⟩ 0
     r.2 = .placed (orderFor 1 ⟨0, ⟨Int64.minValue⟩, 1, 1⟩) ∧
        l.maxPositionPerSymbol.val < |(r.1.tracker.getPosition 0).val|) ∧
    (Rme.init.processSignal l ⟨0, ⟨4611686018427387904⟩, 4, 1⟩ 0).2 =
        .placed (orderFor 1 ⟨0, ⟨4611686018427387904⟩, 4, 1⟩) ∧
      ¬ PassesLimits l Rme.init.breaker Rme.init.tracker ⟨0, ⟨4611686018427387904⟩, 4, 1⟩ := by
  have ht := Rme.riskInvariant_runLog hl evs (Rme.riskInvariant_init hl) hevs
  obtain ⟨hmin, hminPos⟩ := processSignal_init_of_abs_nonpos hl (s := ⟨0, ⟨Int64.minValue⟩, 1, 1⟩)
    0 (by decide)
  obtain ⟨hwrap, -⟩ := processSignal_init_of_abs_nonpos hl
    (s := ⟨0, ⟨4611686018427387904⟩, 4, 1⟩) 0 (by decide)
  have hP := l.maxPositionPerSymbol.val_lt
  have hO := l.maxOrderSize.val_lt
  refine ⟨⟨ht.position_le, ht.exposure_eq ▸ PositionTracker.exposureSum_nonneg _, ht.exposure_le,
    fun s now hs hr => (checkRiskFast_iff hl ht hs).mp ?_⟩, ⟨hmin, ?_⟩, hwrap, ?_⟩
  · rwa [Ne, Rme.processSignal_rejected_iff, Bool.not_eq_false] at hr
  · rw [hminPos]
    exact lt_of_lt_of_le hP (by decide)
  · rintro ⟨-, -, hsize, -⟩
    exact absurd hsize (not_le.mpr (lt_of_lt_of_le hO (by decide)))

/-- `g_limits` is sane, and a run with one in-range signal is covered. -/
theorem processSignal_limits_sound_gLimits :
    gLimits.Sane ∧ (∀ e ∈ [RmeEvent.signal ⟨0, ⟨100⟩, 1, 1⟩ 0], e.InRange) ∧
      (let st := (Rme.init.runLog gLimits [RmeEvent.signal ⟨0, ⟨100⟩, 1, 1⟩ 0]).1
       (∀ i, |(st.tracker.positions i).quantity.val| ≤ gLimits.maxPositionPerSymbol.val) ∧
          0 ≤ st.tracker.totalExposure.val ∧
          st.tracker.totalExposure.val ≤ gLimits.maxTotalExposure.val ∧
          ∀ (s : Signal) (now : BitVec 64), s.InRange →
            (st.processSignal gLimits s now).2 ≠ .rejected →
              PassesLimits gLimits st.breaker st.tracker s) ∧
      (let r := Rme.init.processSignal gLimits ⟨0, ⟨Int64.minValue⟩, 1, 1⟩ 0
       r.2 = .placed (orderFor 1 ⟨0, ⟨Int64.minValue⟩, 1, 1⟩) ∧
          gLimits.maxPositionPerSymbol.val < |(r.1.tracker.getPosition 0).val|) ∧
      (Rme.init.processSignal gLimits ⟨0, ⟨4611686018427387904⟩, 4, 1⟩ 0).2 =
          .placed (orderFor 1 ⟨0, ⟨4611686018427387904⟩, 4, 1⟩) ∧
        ¬ PassesLimits gLimits Rme.init.breaker Rme.init.tracker
          ⟨0, ⟨4611686018427387904⟩, 4, 1⟩ := by
  have hl : gLimits.Sane := by
    simp only [RiskLimits.Sane, gLimits]; decide
  have hevs : ∀ e ∈ [RmeEvent.signal ⟨0, ⟨100⟩, 1, 1⟩ 0], e.InRange := by
    simp only [List.mem_singleton, forall_eq, RmeEvent.InRange, Signal.InRange]
    decide
  exact ⟨hl, hevs, processSignal_limits_sound gLimits hl _ hevs⟩

/-! ## Bookkeeping, and what a full ring does to it -/

namespace Rme

/-- A signal that passes the gate, on a full ring whose cached tail is current, is dropped
after its position and `g_sequence` were updated; the ring is left as it was. -/
theorem processSignal_of_full {l : RiskLimits} {st : Rme} {s : Signal} {now : BitVec 64}
    (hc : checkRiskFast l st.breaker st.tracker s.symbolId (orderValue s) = true)
    (hct : st.toPoe.cachedTail = st.toPoe.tail)
    (hfull : (st.toPoe.head - st.toPoe.tail).toNat = cap65536.val) :
    st.processSignal l s now =
      ({ st with signalsReceived := st.signalsReceived + 1, sequence := st.sequence + 1,
                 tracker := st.tracker.updatePosition s.symbolId (orderValue s) },
        .dropped (orderFor (st.sequence + 1) s)) := by
  have hp : st.toPoe.tryPush ⟨now, st.sequence + 1, .order (orderFor (st.sequence + 1) s)⟩ =
      (st.toPoe, false) := RingBuffer.tryPush_of_full hct hfull
  rcases processSignal_cases l st s now with ⟨hc', -⟩ | ⟨-, hp', -⟩ | ⟨-, -, h₂, h₁⟩
  · rw [hc] at hc'; cases hc'
  · rw [hp] at hp'; cases hp'
  · rw [Prod.ext_iff, h₁, h₂, RingBuffer.refresh_cachedTail hct]
    exact ⟨rfl, rfl⟩

theorem runLog_append (l : RiskLimits) (st : Rme) (xs ys : List RmeEvent) :
    st.runLog l (xs ++ ys) =
      (((st.runLog l xs).1.runLog l ys).1,
        (st.runLog l xs).2 ++ ((st.runLog l xs).1.runLog l ys).2) := by
  induction xs generalizing st with
  | nil => rfl
  | cons e es ih => simp [runLog, ih]

theorem runLog_signal (l : RiskLimits) (st : Rme) (s : Signal) (now : BitVec 64) :
    st.runLog l [.signal s now] =
      ((st.processSignal l s now).1, [(st.processSignal l s now).2]) := rfl

/-- Forwarded heartbeats only push onto the RME→POE ring. -/
theorem runLog_heartbeats (l : RiskLimits) (st : Rme) (ts seq : BitVec 64) (h : Heartbeat)
    (n : Nat) :
    st.runLog l (List.replicate n (.heartbeat ts seq h)) =
      ({ st with toPoe := st.toPoe.pushAll (List.replicate n ⟨ts, seq, .heartbeat h⟩) }, []) := by
  induction n generalizing st with
  | zero => rfl
  | succ n ih => simp [List.replicate_succ, runLog, step, ih]

end Rme

/-- A full RME→POE ring unbalances the books: RME forwards 65536 heartbeats that POE never
pops, then approves the signal `{confidence = 1 raw, direction = +1}`; the position moves to
`1`, the order is dropped, and `signals_received = 1` while
`orders_approved + orders_rejected = 0`. -/
theorem processSignal_drop_unbalances :
    let r := Rme.init.runLog gLimits
      (List.replicate 65536 (.heartbeat 0 0 ⟨0, 1, 0⟩) ++ [.signal ⟨0, ⟨1⟩, 1, 1⟩ 0])
    r.2 = [.dropped (orderFor 1 ⟨0, ⟨1⟩, 1, 1⟩)] ∧ r.1.signalsReceived = 1 ∧
      r.1.ordersApproved = 0 ∧ r.1.ordersRejected = 0 ∧ (r.1.tracker.getPosition 0).val = 1 := by
  obtain ⟨hh, ht, hct⟩ := RingBuffer.pushes_of_room
    (⟨0, 0, .heartbeat ⟨0, 1, 0⟩⟩ : SageMessage) 65536 Rme.init.toPoe rfl (by decide)
  have hr := @Rme.processSignal_of_full gLimits
    { Rme.init with
      toPoe := Rme.init.toPoe.pushAll (List.replicate 65536 ⟨0, 0, .heartbeat ⟨0, 1, 0⟩⟩) }
    ⟨0, ⟨1⟩, 1, 1⟩ 0 (by decide) (by rw [hct, ht]) (by rw [hh, ht]; decide)
  rw [Rme.runLog_append, Rme.runLog_heartbeats, Rme.runLog_signal, hr]
  exact ⟨rfl, rfl, rfl, rfl, by decide⟩

/-- The `int64_t` sum of `quantity.raw() * side` over the orders of `os` for slot `i`. -/
def placedValue (i : Fin maxSymbols) (os : List OrderRequest) : Int64 :=
  (os.filter fun o => symbolSlot o.symbolId = i).foldl
    (fun acc o => acc + o.quantity.raw * o.side.toInt64) 0

theorem placedValue_append_singleton (i : Fin maxSymbols) (os : List OrderRequest)
    (o : OrderRequest) :
    placedValue i (os ++ [o]) =
      if symbolSlot o.symbolId = i then placedValue i os + o.quantity.raw * o.side.toInt64
      else placedValue i os := by
  unfold placedValue
  split <;> simp [List.filter_append, *]

/-- The books `process_signal` keeps while no order is dropped: the counter identity, and
each position the sum of the values of the orders placed for its slot. -/
def Accounted (st : Rme) (placed : List OrderRequest) : Prop :=
  st.signalsReceived = st.ordersApproved + st.ordersRejected ∧
    ∀ i, (st.tracker.positions i).quantity = placedValue i placed

namespace Rme

/-- **Step lemma** for the books: an event whose signal, if any, was not dropped keeps them. -/
theorem accounted_step {l : RiskLimits} {st : Rme} {placed : List OrderRequest} {e : RmeEvent}
    (h : Accounted st placed) (hnd : ∀ o ∈ (st.step l e).2.toList, o.isDropped = false) :
    Accounted (st.step l e).1
      (placed ++ (st.step l e).2.toList.filterMap SignalOutcome.placedOrder?) := by
  obtain ⟨hc, hq⟩ := h
  cases e with
  | signal s now =>
    simp only [step, Option.toList_some, List.mem_singleton, forall_eq] at hnd ⊢
    rcases processSignal_cases l st s now with ⟨-, hr, h₁⟩ | ⟨-, -, hr, h₁⟩ | ⟨-, -, hr, -⟩
    · rw [hr, h₁]
      refine ⟨by simp only [hc]; bv_omega,
        fun i => by simpa [SignalOutcome.placedOrder?] using hq i⟩
    · rw [hr, h₁]
      refine ⟨by simp only [hc]; bv_omega, fun i => ?_⟩
      have hf : [SignalOutcome.placed (orderFor (st.sequence + 1) s)].filterMap
          SignalOutcome.placedOrder? = [orderFor (st.sequence + 1) s] := rfl
      rw [hf, placedValue_append_singleton]
      by_cases hi : i = symbolSlot s.symbolId
      · subst hi
        rw [PositionTracker.updatePosition_quantity_self, hq]
        simp only [orderFor, if_true]
        rfl
      · rw [PositionTracker.updatePosition_positions_of_ne _ _ _ hi, hq i]
        simp only [orderFor, if_neg (Ne.symm hi)]
    · rw [hr] at hnd; cases hnd
  | heartbeat => simpa [step] using And.intro hc hq
  | trip => simpa [step] using And.intro hc hq
  | reset => simpa [step] using And.intro hc hq
  | consume => simpa [step] using And.intro hc hq

/-- **Run lemma** for the books. -/
theorem accounted_runLog {l : RiskLimits} (evs : List RmeEvent) :
    ∀ {st : Rme} {placed : List OrderRequest}, Accounted st placed →
      (∀ o ∈ (st.runLog l evs).2, o.isDropped = false) →
      Accounted (st.runLog l evs).1
        (placed ++ (st.runLog l evs).2.filterMap SignalOutcome.placedOrder?) := by
  induction evs with
  | nil => intro st placed h _; simpa [runLog] using h
  | cons e es ih =>
    intro st placed h hnd
    simp only [runLog, List.mem_append] at hnd ⊢
    have h₁ := accounted_step (e := e) h fun o ho => hnd o (.inl ho)
    have h₂ := ih h₁ fun o ho => hnd o (.inr ho)
    simpa [List.filterMap_append, List.append_assoc] using h₂

end Rme

/-- **What the risk stage's books say, and where a full ring breaks them.** A signal that
`check_risk_fast` rejects (breaker tripped, or a limit failed) counts itself in
`signals_received` and `orders_rejected` and changes nothing else. A signal that passes but
whose order a full RME→POE ring drops counts itself in `signals_received` only, and has
already moved its position, the exposure and `g_sequence`; the ring is left as it was but for
its refreshed `cached_tail_`. On every run in which no order is dropped,
`signals_received = orders_approved + orders_rejected`, and each slot's position is the
`int64_t` sum of `confidence.raw() * direction` over the orders placed for that slot. A drop is
reachable: with `g_limits`, 65536 forwarded heartbeats that POE never pops fill the ring, and
the next approved signal is dropped with its position moved and neither counter moved. -/
theorem processSignal_accounting (l : RiskLimits) (evs : List RmeEvent)
    (hnd : ∀ o ∈ (Rme.init.runLog l evs).2, o.isDropped = false) :
    (let r := Rme.init.runLog l evs
     r.1.signalsReceived = r.1.ordersApproved + r.1.ordersRejected ∧
       ∀ i, (r.1.tracker.positions i).quantity =
         placedValue i (r.2.filterMap SignalOutcome.placedOrder?)) ∧
    (∀ (st : Rme) (s : Signal) (now : BitVec 64),
      ((st.processSignal l s now).2 = .rejected →
        (st.processSignal l s now).1 = { st with signalsReceived := st.signalsReceived + 1,
                                                 ordersRejected := st.ordersRejected + 1 }) ∧
      ∀ o, (st.processSignal l s now).2 = .dropped o →
        (st.processSignal l s now).1 =
          { st with signalsReceived := st.signalsReceived + 1, sequence := st.sequence + 1,
                    tracker := st.tracker.updatePosition s.symbolId (orderValue s),
                    toPoe := { st.toPoe with cachedTail := st.toPoe.tail } }) ∧
    (let r := Rme.init.runLog gLimits
        (List.replicate 65536 (.heartbeat 0 0 ⟨0, 1, 0⟩) ++ [.signal ⟨0, ⟨1⟩, 1, 1⟩ 0])
     r.2 = [.dropped (orderFor 1 ⟨0, ⟨1⟩, 1, 1⟩)] ∧ r.1.signalsReceived = 1 ∧
       r.1.ordersApproved = 0 ∧ r.1.ordersRejected = 0 ∧
       (r.1.tracker.getPosition 0).val = 1) := by
  refine ⟨?_, fun st s now => ⟨fun hr => ?_, fun o hd => ?_⟩, processSignal_drop_unbalances⟩
  · have h₀ : Accounted Rme.init [] := ⟨rfl, fun i => rfl⟩
    simpa using Rme.accounted_runLog evs h₀ hnd
  · rcases Rme.processSignal_cases l st s now with ⟨-, -, h⟩ | ⟨-, -, h, -⟩ | ⟨-, -, h, -⟩
    · exact h
    all_goals rw [h] at hr; cases hr
  · rcases Rme.processSignal_cases l st s now with ⟨-, h, -⟩ | ⟨-, -, h, -⟩ | ⟨-, -, -, h⟩
    all_goals try (rw [h] at hd; cases hd)
    exact h

/-- A one-signal run has no drop, so the books hold on it. -/
theorem processSignal_accounting_one_signal :
    (∀ o ∈ (Rme.init.runLog gLimits [.signal ⟨0, ⟨1⟩, 1, 1⟩ 0]).2, o.isDropped = false) ∧
      (let r := Rme.init.runLog gLimits [.signal ⟨0, ⟨1⟩, 1, 1⟩ 0]
       r.1.signalsReceived = r.1.ordersApproved + r.1.ordersRejected ∧
         ∀ i, (r.1.tracker.positions i).quantity =
           placedValue i (r.2.filterMap SignalOutcome.placedOrder?)) ∧
      (∀ (st : Rme) (s : Signal) (now : BitVec 64),
        ((st.processSignal gLimits s now).2 = .rejected →
          (st.processSignal gLimits s now).1 =
            { st with signalsReceived := st.signalsReceived + 1,
                      ordersRejected := st.ordersRejected + 1 }) ∧
        ∀ o, (st.processSignal gLimits s now).2 = .dropped o →
          (st.processSignal gLimits s now).1 =
            { st with signalsReceived := st.signalsReceived + 1, sequence := st.sequence + 1,
                      tracker := st.tracker.updatePosition s.symbolId (orderValue s),
                      toPoe := { st.toPoe with cachedTail := st.toPoe.tail } }) ∧
      (let r := Rme.init.runLog gLimits
          (List.replicate 65536 (.heartbeat 0 0 ⟨0, 1, 0⟩) ++ [.signal ⟨0, ⟨1⟩, 1, 1⟩ 0])
       r.2 = [.dropped (orderFor 1 ⟨0, ⟨1⟩, 1, 1⟩)] ∧ r.1.signalsReceived = 1 ∧
         r.1.ordersApproved = 0 ∧ r.1.ordersRejected = 0 ∧
         (r.1.tracker.getPosition 0).val = 1) := by
  have hnd : ∀ o ∈ (Rme.init.runLog gLimits [.signal ⟨0, ⟨1⟩, 1, 1⟩ 0]).2, o.isDropped = false := by
    decide
  exact ⟨hnd, processSignal_accounting gLimits _ hnd⟩

end Sage

namespace Sage

/-! ## The branchless checks of `risk_limits.hpp`

`risk_limits.hpp` also ships `check::all_checks_pass`, four helpers joined by `&&`. RME does
not call it: `check_risk_fast` spells its tests out. On the operands `check_risk_fast`
computes, the two agree except at one input, since `check::position_ok` compares the position
with `-limit` and `limit` where `check_risk_fast` takes `std::abs` of it. -/

namespace Check

/-- `check::position_ok(position, limit)`: `position >= -limit && position <= limit`. -/
def positionOk (position limit : Int64) : Bool :=
  decide (position ≥ -limit) && decide (position ≤ limit)

/-- `check::exposure_ok(exposure, limit)`. -/
def exposureOk (exposure limit : Int64) : Bool := decide (exposure ≤ limit)

/-- `check::pnl_ok(pnl, max_loss)`: `pnl > -max_loss`. -/
def pnlOk (pnl maxLoss : Int64) : Bool := decide (pnl > -maxLoss)

/-- `check::order_size_ok(size, max_size)`: `std::abs(size) <= max_size`. -/
def orderSizeOk (size maxSize : Int64) : Bool := decide (size.abs ≤ maxSize)

/-- `check::all_checks_pass(...)`: `ok` starts `true` and is `&&`-ed with each helper. -/
def allChecksPass (newPosition positionLimit orderSize orderLimit totalExposure exposureLimit
    dailyPnl lossLimit : Int64) : Bool :=
  let ok := true
  let ok := ok && positionOk newPosition positionLimit
  let ok := ok && orderSizeOk orderSize orderLimit
  let ok := ok && exposureOk totalExposure exposureLimit
  ok && pnlOk dailyPnl lossLimit

/-- `position_ok` is `std::abs(position) <= limit` except for a position of `INT64_MIN` under
any other limit: there `std::abs` stays negative and passes, while `position >= -limit`
fails. (`-limit` wraps only at `limit = INT64_MIN`, where both tests pass only `INT64_MIN`.) -/
theorem positionOk_eq (position limit : Int64) :
    positionOk position limit =
      (decide (position.abs ≤ limit) &&
        (decide (position ≠ Int64.minValue) || decide (limit = Int64.minValue))) := by
  have hmin : Int64.minValue.val = -2 ^ 63 := rfl
  rw [Bool.eq_iff_iff]
  simp only [positionOk, Bool.and_eq_true, Bool.or_eq_true, decide_eq_true_eq, ge_iff_le,
    Int64.le_def, ne_eq, Int64.ext_iff, hmin]
  rcases eq_or_ne limit Int64.minValue with rfl | hl
  · rcases eq_or_ne position Int64.minValue with rfl | hp
    · decide
    · have := Int64.val_gt_of_ne_min hp
      rw [show -Int64.minValue = Int64.minValue by decide, Int64.val_abs_of_ne_min hp, hmin]
      have := abs_nonneg position.val
      omega
  · have hl' := Int64.val_gt_of_ne_min hl
    have hl'' := limit.val_lt
    have hn : (-limit).val = -limit.val := Int64.bmod_of_range (by omega) (by omega)
    rcases eq_or_ne position Int64.minValue with rfl | hp
    · rw [Int64.abs_minValue, hn, hmin]
      omega
    · rw [Int64.val_abs_of_ne_min hp, hn, abs_le]
      have := Int64.val_gt_of_ne_min hp
      omega

example : positionOk Int64.minValue 1000000 = false ∧
    decide (Int64.minValue.abs ≤ 1000000) = true := by decide

end Check

/-- **`all_checks_pass` against `check_risk_fast`.** Fed what `check_risk_fast` computes (the
new position, the order value, the exposure after the order and the daily PnL) under an
untripped breaker, `all_checks_pass` approves exactly the orders `check_risk_fast` approves
whose new position is not `INT64_MIN` (or whose position limit is): on that one position
`check_risk_fast` lets `std::abs` pass and `all_checks_pass` rejects. -/
theorem allChecksPass_checkRiskFast (l : RiskLimits) (b : CircuitBreaker) (t : PositionTracker)
    (symbolId : BitVec 64) (orderValue : Int64) :
    (!b.isTripped &&
      Check.allChecksPass (t.getPosition symbolId + orderValue) l.maxPositionPerSymbol orderValue
        l.maxOrderSize (t.getTotalExposure + orderValue.abs) l.maxTotalExposure t.getDailyPnl
        l.maxDailyLoss) =
      (checkRiskFast l b t symbolId orderValue &&
        (decide (t.getPosition symbolId + orderValue ≠ Int64.minValue) ||
          decide (l.maxPositionPerSymbol = Int64.minValue))) := by
  rw [checkRiskFast, Check.allChecksPass, Check.positionOk_eq]
  cases b.isTripped <;>
    simp only [Check.orderSizeOk, Check.exposureOk, Check.pnlOk, Bool.not_true, Bool.not_false,
      Bool.false_and, Bool.true_and, Bool.false_eq_true, ite_true, ite_false, Bool.and_comm,
      Bool.and_left_comm, Bool.and_assoc]

end Sage
