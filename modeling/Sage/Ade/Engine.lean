import Sage.Ade.Statistics
import Sage.Infra.RingBuffer

/-! # The analytics stage (`ade/ade_main.cpp`)

ADE pops CAL's messages in batches of 16. A `MARKET_DATA` tick goes to
`process_market_data`: slot `symbol_id & 255` of `g_symbol_states` updates its statistics, the
rolling z-score of the price is winsorized at `MAX_ZSCORE`, the regime detector sees the
rolling variance, and a z-score above `0.5` outside a regime change becomes a `Signal`
offered to `g_ade_to_mind_buffer`. A `HEARTBEAT` is forwarded to MIND.

The latency tracking of `process_market_data` (TSC reads, `g_latency_tracker`) only records
timings and is left out, as is the EWMA z-score, which is computed and never read. The clock
reading `get_monotonic_ns()` that stamps a signal is an input.

* **`SymbolState.onTick`** — the per-symbol half of `process_market_data`: the slot's new
  state and the tick's features.
* **`Ade.processMarketData`**, **`Ade.processMessage`**, **`Ade.processBatch`** — the hot
  path.
* **`Ade.runTicks`**, **`SymbolState.runTicks`** — a stream of ticks through ADE, and
  through one slot alone.
* **`runTicks_project`** — ADE's run seen from one slot is that slot's own run on the ticks
  that map to it. -/

namespace Sage

/-- `MarketRegime`. -/
inductive MarketRegime
  | unknown | lowVol | normal | highVol | regimeChange
  deriving DecidableEq, Repr

/-- `EWMA_HALF_LIFE`, in ticks. -/
def ewmaHalfLife : Int := 50

/-- `REGIME_HALF_LIFE`, in ticks. -/
def regimeHalfLife : Int := 100

/-- `MAX_ZSCORE`: `3 * PRICE_SCALE`. -/
def maxZscore : Int64 := 3 * priceScale

/-- `g_zscore_capper`. -/
def zscoreCapper : ZScoreCapper := ⟨maxZscore⟩

/-- `BATCH_SIZE`. -/
def batchSize : BitVec 64 := 16

/-! ## (1) One symbol's analytics -/

/-- `SymbolState`: one slot of `g_symbol_states`. -/
structure SymbolState where
  ticks : TickBuffer 256
  priceStats : RollingStats 64
  volumeStats : RollingStats 64
  priceEwma : EWMAStats
  volEwma : EWMAStats
  regimeDetector : VolRegimeDetector
  lastUpdateNs : BitVec 64
  messageCount : BitVec 64

/-- What `process_market_data` derives from a tick besides the new state: the winsorized
rolling z-score, whether it was an outlier, and the regime. -/
structure TickFeatures where
  zScore : Int64
  outlier : Bool
  regime : MarketRegime

/-- The rolling z-score `price_deviation * PRICE_SCALE / stddev`, or `0` for a zero
deviation estimate. -/
def rollingZScore (stats : RollingStats 64) (price : Int64) : Int64 :=
  let meanPrice := stats.mean
  let priceDeviation := price - meanPrice
  let stddev := stats.stddevApprox
  if 0 < stddev then priceDeviation * priceScale / stddev else 0

/-- Winsorization by `g_zscore_capper`: an outlier is capped, any other z-score kept. -/
def winsorize (z : Int64) : Int64 := if zscoreCapper.isOutlier z then zscoreCapper.cap z else z

/-- The regime of `process_market_data`, read from the updated detector. -/
def classifyRegime (regimeChange : Bool) (d : VolRegimeDetector) : MarketRegime :=
  if regimeChange then .regimeChange
  else if 2 * priceScale < d.currentVol then .highVol
  else if d.currentVol < priceScale / 2 then .lowVol
  else .normal

namespace SymbolState

/-- `SymbolState()`: empty statistics, the EWMAs at `EWMA_HALF_LIFE`, the detector at
`REGIME_HALF_LIFE`. -/
def init (expAlpha : Int → Int64) : SymbolState :=
  ⟨.empty, .empty, .empty, .create expAlpha ewmaHalfLife, .create expAlpha ewmaHalfLife,
    .create expAlpha regimeHalfLife, 0, 0⟩

/-- The statistics updates that open `process_market_data`. -/
def record (s : SymbolState) (timestampNs : BitVec 64) (data : MarketData) : SymbolState :=
  { s with ticks := s.ticks.push data.price data.quantity,
           priceStats := s.priceStats.update data.price.raw,
           volumeStats := s.volumeStats.update data.quantity.raw,
           priceEwma := s.priceEwma.update data.price.raw,
           volEwma := s.volEwma.update data.quantity.raw,
           lastUpdateNs := timestampNs, messageCount := s.messageCount + 1 }

/-- `process_market_data` on the slot's state: record the tick, take the rolling z-score of
its price, winsorize it, and feed the rolling variance to the regime detector. -/
def onTick (s : SymbolState) (timestampNs : BitVec 64) (data : MarketData) :
    SymbolState × TickFeatures :=
  let s := s.record timestampNs data
  let z := rollingZScore s.priceStats data.price.raw
  let (regimeDetector, regimeChange) := s.regimeDetector.update s.priceStats.variance
  ({ s with regimeDetector },
    ⟨winsorize z, zscoreCapper.isOutlier z, classifyRegime regimeChange regimeDetector⟩)

@[simp] theorem onTick_priceStats (s : SymbolState) (timestampNs : BitVec 64) (data : MarketData) :
    (s.onTick timestampNs data).1.priceStats = s.priceStats.update data.price.raw := rfl

@[simp] theorem onTick_regimeDetector (s : SymbolState) (timestampNs : BitVec 64)
    (data : MarketData) : (s.onTick timestampNs data).1.regimeDetector =
      (s.regimeDetector.update (s.priceStats.update data.price.raw).variance).1 := rfl

@[simp] theorem onTick_zScore (s : SymbolState) (timestampNs : BitVec 64) (data : MarketData) :
    (s.onTick timestampNs data).2.zScore =
      winsorize (rollingZScore (s.priceStats.update data.price.raw) data.price.raw) := rfl

@[simp] theorem onTick_regime (s : SymbolState) (timestampNs : BitVec 64) (data : MarketData) :
    (s.onTick timestampNs data).2.regime =
      classifyRegime (s.regimeDetector.update (s.priceStats.update data.price.raw).variance).2
        (s.regimeDetector.update (s.priceStats.update data.price.raw).variance).1 := rfl

end SymbolState

namespace TickFeatures

/-- `should_signal`: `std::abs(z_score) > PRICE_SCALE / 2` outside a regime change. -/
def shouldSignal (f : TickFeatures) : Bool :=
  priceScale / 2 < f.zScore.abs && f.regime != .regimeChange

/-- The `Signal` built for a tick of `data`: direction the sign of the z-score (`-1` for a
non-positive one), confidence `std::abs(z_score)`, strategy `1`. -/
def signal (f : TickFeatures) (data : MarketData) : Signal :=
  ⟨data.symbolId, ⟨f.zScore.abs⟩, if 0 < f.zScore then 1 else -1, 1⟩

/-- The signal a tick emits, offered to `try_push`. -/
def emitted (f : TickFeatures) (data : MarketData) : Option Signal :=
  if f.shouldSignal then some (f.signal data) else none

/-- A tick's signal is about the tick's symbol. -/
theorem symbolId_of_mem_emitted {f : TickFeatures} {data : MarketData} {sig : Signal}
    (h : sig ∈ f.emitted data) : sig.symbolId = data.symbolId := by
  unfold emitted at h
  split at h
  · cases h; rfl
  · cases h

end TickFeatures

/-- A tick as `process_market_data` meets it: the envelope's timestamp, the `MarketData`,
and the clock reading a signal of it would carry. -/
structure Tick where
  timestampNs : BitVec 64
  data : MarketData
  now : BitVec 64
  deriving DecidableEq, Repr

namespace SymbolState

/-- One slot's run over a stream of its ticks, with the signals they emit. -/
def runTicks (s : SymbolState) : List Tick → SymbolState × List Signal
  | [] => (s, [])
  | t :: ts =>
    let r := s.onTick t.timestampNs t.data
    let rs := r.1.runTicks ts
    (rs.1, (r.2.emitted t.data).toList ++ rs.2)

end SymbolState

/-! ## (2) The stage -/

/-- ADE's state: the two rings it touches, `g_symbol_states`, the four metrics and
`g_sequence`. -/
structure Ade where
  fromCal : RingBuffer SageMessage cap65536
  toMind : RingBuffer SageMessage cap65536
  symbolStates : Fin maxSymbols → SymbolState
  messagesProcessed : BitVec 64
  signalsGenerated : BitVec 64
  signalsGated : BitVec 64
  outliersCapped : BitVec 64
  sequence : BitVec 64

namespace Ade

/-- ADE at start-up: zeroed rings, every slot fresh, every counter zero. -/
def init (expAlpha : Int → Int64) : Ade :=
  ⟨.empty 0 fun _ => .zeroed, .empty 0 fun _ => .zeroed, fun _ => .init expAlpha, 0, 0, 0, 0, 0⟩

/-- `process_market_data(msg)`, with `now` the clock reading of a signal; the second result
is the signal offered to `try_push`. A full ring drops it, counted nowhere. -/
def processMarketData (st : Ade) (timestampNs : BitVec 64) (data : MarketData)
    (now : BitVec 64) : Ade × Option Signal :=
  let i := symbolSlot data.symbolId
  let r := (st.symbolStates i).onTick timestampNs data
  let f := r.2
  let st₁ : Ade :=
    { st with
      symbolStates := Function.update st.symbolStates i r.1
      outliersCapped := if f.outlier then st.outliersCapped + 1 else st.outliersCapped }
  let st₂ : Ade :=
    if f.shouldSignal then
      let seq := st₁.sequence + 1
      let pushed := st₁.toMind.tryPush (.createSignal now seq (f.signal data))
      { st₁ with
        sequence := seq
        toMind := pushed.1
        signalsGenerated := if pushed.2 then st₁.signalsGenerated + 1 else st₁.signalsGenerated }
    else if priceScale / 2 < f.zScore.abs then { st₁ with signalsGated := st₁.signalsGated + 1 }
    else st₁
  ({ st₂ with messagesProcessed := st₂.messagesProcessed + 1 }, f.emitted data)

/-- One message of a batch: `MARKET_DATA` to `process_market_data`, `HEARTBEAT` forwarded
(dropped silently by a full ring), anything else skipped. -/
def processMessage (st : Ade) (m : SageMessage) (now : BitVec 64) : Ade × Option Signal :=
  match m.payload with
  | .marketData d => st.processMarketData m.timestampNs d now
  | .heartbeat _ => ({ st with toMind := (st.toMind.tryPush m).1 }, none)
  | _ => (st, none)

/-- A sequence of messages, each with its clock reading. -/
def processMessages (st : Ade) : List (SageMessage × BitVec 64) → Ade × List Signal
  | [] => (st, [])
  | (m, now) :: ms =>
    let r := st.processMessage m now
    let rs := r.1.processMessages ms
    (rs.1, r.2.toList ++ rs.2)

/-- `process_batch()`: `try_pop_batch(batch, BATCH_SIZE)`, then the popped messages in
order, the `i`-th read at `clock i`. -/
def processBatch (st : Ade) (clock : Nat → BitVec 64) : Ade × List Signal :=
  let (fromCal, batch) := st.fromCal.tryPopBatch batchSize
  { st with fromCal }.processMessages (batch.enum.map fun (i, m) => (m, clock i))

/-- A stream of ticks through `process_market_data`, with the signals offered. -/
def runTicks (st : Ade) : List Tick → Ade × List Signal
  | [] => (st, [])
  | t :: ts =>
    let r := st.processMarketData t.timestampNs t.data t.now
    let rs := r.1.runTicks ts
    (rs.1, r.2.toList ++ rs.2)

/-! ## (3) One tick, seen from one slot -/

/-- **A tick changes only its own slot**, to what `onTick` makes of it. -/
theorem processMarketData_symbolStates (st : Ade) (timestampNs : BitVec 64) (data : MarketData)
    (now : BitVec 64) :
    (st.processMarketData timestampNs data now).1.symbolStates =
      Function.update st.symbolStates (symbolSlot data.symbolId)
        ((st.symbolStates (symbolSlot data.symbolId)).onTick timestampNs data).1 := by
  unfold processMarketData
  dsimp only
  split_ifs <;> rfl

/-- The signal a tick offers is the one its slot's features decide. -/
theorem processMarketData_signal (st : Ade) (timestampNs : BitVec 64) (data : MarketData)
    (now : BitVec 64) :
    (st.processMarketData timestampNs data now).2 =
      ((st.symbolStates (symbolSlot data.symbolId)).onTick timestampNs data).2.emitted data :=
  rfl

/-! ## (4) The run, seen from one slot -/

/-- Every signal of a run is about the symbol of one of its ticks. -/
theorem symbolId_of_mem_runTicks (st : Ade) (ts : List Tick) {sig : Signal}
    (h : sig ∈ (st.runTicks ts).2) : ∃ t ∈ ts, sig.symbolId = t.data.symbolId := by
  induction ts generalizing st with
  | nil => cases h
  | cons t ts ih =>
    simp only [runTicks, List.mem_append, Option.mem_toList] at h
    rcases h with h | h
    · exact ⟨t, List.mem_cons_self _ _, TickFeatures.symbolId_of_mem_emitted h⟩
    · obtain ⟨u, hu, hsig⟩ := ih _ h
      exact ⟨u, List.mem_cons_of_mem _ hu, hsig⟩

/-- **ADE's run projects onto each slot**: the slot's final state and the signals about
symbols of that slot are the slot's own run over the ticks that map to it. -/
theorem runTicks_project (st : Ade) (i : Fin maxSymbols) (ts : List Tick) :
    ((st.runTicks ts).1.symbolStates i,
      (st.runTicks ts).2.filter fun sig => symbolSlot sig.symbolId = i) =
      (st.symbolStates i).runTicks (ts.filter fun t => symbolSlot t.data.symbolId = i) := by
  induction ts generalizing st with
  | nil => rfl
  | cons t ts ih =>
    have hsig : ∀ sig ∈ (st.processMarketData t.timestampNs t.data t.now).2.toList,
        symbolSlot sig.symbolId = symbolSlot t.data.symbolId := fun _ h => by
      rw [TickFeatures.symbolId_of_mem_emitted (Option.mem_toList.1 h)]
    have hstep := ih (st.processMarketData t.timestampNs t.data t.now).1
    rw [processMarketData_symbolStates] at hstep
    simp only [runTicks, SymbolState.runTicks, List.filter_cons, List.filter_append]
    by_cases hi : symbolSlot t.data.symbolId = i
    · subst hi
      rw [Function.update_same] at hstep
      rw [List.filter_eq_self.2 fun sig h => by simpa using hsig sig h]
      simp only [decide_True, if_true, SymbolState.runTicks, ← hstep, processMarketData_signal]
    · rw [Function.update_noteq (Ne.symm hi)] at hstep
      rw [List.filter_eq_nil_iff.2 fun sig h => by simpa [hsig sig h] using hi]
      simpa only [hi, decide_False, Bool.false_eq_true, if_false, List.nil_append] using hstep

end Ade

end Sage
