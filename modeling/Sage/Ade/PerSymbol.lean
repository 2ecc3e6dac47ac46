import Sage.Ade.Engine
import Sage.Cal.Connector

/-! # One symbol at a time

`process_market_data` finds a tick's state at `symbol_id & (MAX_SYMBOLS - 1)`. CAL's validator
admits only ids below 256, where that slot is the id itself, so on validated streams each
symbol's analytics run apart from every other symbol's. For the first ticks of a symbol the
regime gate cannot close, and what the symbol emits follows from its rolling price
statistics alone; a two-tick history already shows those statistics overflow.

* **`runTicks_project_symbol`** — on a validated stream, ADE seen from symbol `s` is `s`'s
  own run over its ticks.
* **`SymbolState.runTicks_congr`** — a slot reads a tick's timestamp, price and quantity
  (`Tick.reading`) and nothing else of it.
* **`runTicks_symbol_isolated`** — two validated streams whose ticks for `s` read alike leave
  `s` in the same state and emit the same signals for it.
* **`runTicks_warmup`** — before the vol-of-vol EWMA is ready, a symbol emits what its rolling
  price statistics decide (`RollingStats.gateOpenSignals`).
* **`exactZScore`** — the z-score of exact integer arithmetic, for comparison.
* **`runTicks_overflow_flips_direction`** — two ticks of symbol 0 at 100 and 2000 make
  `sum_sq_` wrap; ADE emits a sell at the cap where the exact z-score is `+1.0`. -/

namespace Sage

/-! ## (1) Validated ids own their slot -/

/-- Below `MAX_SYMBOLS`, a symbol's slot is `s` exactly when its id is. -/
theorem symbolSlot_eq_iff {symbolId : BitVec 64} (h : symbolId.toNat < maxSymbols)
    (s : Fin maxSymbols) : symbolSlot symbolId = s ↔ symbolId.toNat = s.val := by
  rw [Fin.ext_iff, symbolSlot_val_of_lt h]

/-- A tick the validator accepts has an id below `MAX_SYMBOLS`. -/
theorem Validator.symbolId_lt_of_accept {data : MarketData}
    (h : (Validator.validateMarketData data).status = .accept) : data.symbolId.toNat < maxSymbols :=
  ((Validator.validateMarketData_accept_iff data).1 h).1

namespace Ade

/-- **On a validated stream, ADE seen from symbol `s`** is `s`'s own run over its ticks: the
slot's final state, and the signals about `s`. -/
theorem runTicks_project_symbol (st : Ade) (s : Fin maxSymbols) (ts : List Tick)
    (hvalid : ∀ t ∈ ts, (Validator.validateMarketData t.data).status = .accept) :
    ((st.runTicks ts).1.symbolStates s,
      (st.runTicks ts).2.filter fun sig => sig.symbolId.toNat = s.val) =
      (st.symbolStates s).runTicks (ts.filter fun t => t.data.symbolId.toNat = s.val) := by
  have hlt : ∀ t ∈ ts, t.data.symbolId.toNat < maxSymbols := fun t ht =>
    Validator.symbolId_lt_of_accept (hvalid t ht)
  have hsig : (st.runTicks ts).2.filter (fun sig => sig.symbolId.toNat = s.val) =
      (st.runTicks ts).2.filter fun sig => symbolSlot sig.symbolId = s := by
    refine List.filter_congr fun sig hmem => ?_
    obtain ⟨t, ht, hid⟩ := symbolId_of_mem_runTicks st ts hmem
    simp only [hid, symbolSlot_eq_iff (hlt t ht)]
  have hticks : ts.filter (fun t => t.data.symbolId.toNat = s.val) =
      ts.filter fun t => symbolSlot t.data.symbolId = s :=
    List.filter_congr fun t ht => by simp only [symbolSlot_eq_iff (hlt t ht)]
  rw [hsig, hticks, runTicks_project]

end Ade

/-! ## (2) What a slot reads of a tick -/

/-- What a slot reads of a tick: its timestamp, price and quantity. Its flags, exchange id and
the clock reading its signal would carry are read by no slot. -/
def Tick.reading (t : Tick) : BitVec 64 × FixedPoint × FixedPoint :=
  (t.timestampNs, t.data.price, t.data.quantity)

/-- A signal's payload reads the tick's symbol id, and of the tick nothing else. -/
theorem TickFeatures.emitted_congr (f : TickFeatures) {d₁ d₂ : MarketData}
    (h : d₁.symbolId = d₂.symbolId) : f.emitted d₁ = f.emitted d₂ := by
  simp only [TickFeatures.emitted, TickFeatures.signal, h]

namespace SymbolState

/-- `process_market_data` reads a tick's price and quantity, with its timestamp. -/
theorem onTick_congr (s : SymbolState) (timestampNs : BitVec 64) {d₁ d₂ : MarketData}
    (hp : d₁.price = d₂.price) (hq : d₁.quantity = d₂.quantity) :
    s.onTick timestampNs d₁ = s.onTick timestampNs d₂ := by
  simp only [onTick, record, hp, hq]

/-- **A slot reads only a tick's timestamp, price and quantity.** Two streams of ticks of one
symbol id whose readings agree take a slot to the same state and emit the same signals,
whatever their flags, exchange ids and clock readings. -/
theorem runTicks_congr (s : SymbolState) {id : BitVec 64} {ts₁ ts₂ : List Tick}
    (h₁ : ∀ t ∈ ts₁, t.data.symbolId = id) (h₂ : ∀ t ∈ ts₂, t.data.symbolId = id)
    (h : ts₁.map Tick.reading = ts₂.map Tick.reading) : s.runTicks ts₁ = s.runTicks ts₂ := by
  induction ts₁ generalizing s ts₂ with
  | nil => cases ts₂ with
    | nil => rfl
    | cons => cases h
  | cons t ts ih =>
    cases ts₂ with
    | nil => cases h
    | cons t' ts' =>
      simp only [List.map_cons, List.cons.injEq, Tick.reading, Prod.mk.injEq] at h
      obtain ⟨⟨hts, hp, hq⟩, hrest⟩ := h
      have hid : t.data.symbolId = t'.data.symbolId :=
        (h₁ t (List.mem_cons_self _ _)).trans (h₂ t' (List.mem_cons_self _ _)).symm
      simp only [runTicks, hts, onTick_congr s t'.timestampNs hp hq,
        TickFeatures.emitted_congr _ hid,
        ih _ (fun u hu => h₁ u (List.mem_cons_of_mem _ hu))
          (fun u hu => h₂ u (List.mem_cons_of_mem _ hu)) hrest]

end SymbolState

/-! ## (3) Isolation -/

namespace Ade

/-- **Per-symbol isolation.** Take two validated tick streams whose ticks for symbol `s`, in
order, have the same timestamps, prices and quantities, run from two states that agree on
`s`'s slot (two start-ups, say): `s`'s slot ends the same in both, and the signals emitted for
`s` are the same. -/
theorem runTicks_symbol_isolated (s : Fin maxSymbols) (st₁ st₂ : Ade) (ts₁ ts₂ : List Tick)
    (hvalid : ∀ t ∈ ts₁ ++ ts₂, (Validator.validateMarketData t.data).status = .accept)
    (hsame : (ts₁.filter fun t => t.data.symbolId.toNat = s.val).map Tick.reading =
      (ts₂.filter fun t => t.data.symbolId.toNat = s.val).map Tick.reading)
    (hstart : st₁.symbolStates s = st₂.symbolStates s) :
    (st₁.runTicks ts₁).1.symbolStates s = (st₂.runTicks ts₂).1.symbolStates s ∧
      (st₁.runTicks ts₁).2.filter (fun sig => sig.symbolId.toNat = s.val) =
        (st₂.runTicks ts₂).2.filter fun sig => sig.symbolId.toNat = s.val := by
  have h₁ := runTicks_project_symbol st₁ s ts₁ fun t ht => hvalid t (List.mem_append_left _ ht)
  have h₂ := runTicks_project_symbol st₂ s ts₂ fun t ht => hvalid t (List.mem_append_right _ ht)
  have hid : ∀ ts : List Tick, ∀ t ∈ ts.filter (fun t => t.data.symbolId.toNat = s.val),
      t.data.symbolId = BitVec.ofNat 64 s.val := fun ts t ht => by
    have := of_decide_eq_true (List.mem_filter.1 ht).2
    exact BitVec.eq_of_toNat_eq (by rw [this, BitVec.toNat_ofNat]; omega)
  rw [hstart, SymbolState.runTicks_congr _ (hid ts₁) (hid ts₂) hsame, ← h₂] at h₁
  exact Prod.ext_iff.1 h₁

/-- Symbol 0 alone, and symbol 0 after a tick of symbol 7, from start-up; the second stream's
tick of symbol 0 is a bid from another exchange, with another clock reading. -/
theorem runTicks_symbol_isolated_interleaved :
    ((init fun _ => 0).runTicks [⟨1, ⟨⟨10000000000⟩, ⟨100000000⟩, 0, 4, 0⟩, 1⟩]).1.symbolStates
        ⟨0, by decide⟩ =
      ((init fun _ => 0).runTicks [⟨1, ⟨⟨500000000⟩, ⟨100000000⟩, 7, 4, 0⟩, 1⟩,
        ⟨1, ⟨⟨10000000000⟩, ⟨100000000⟩, 0, 1, 3⟩, 9⟩]).1.symbolStates ⟨0, by decide⟩ ∧
    ((init fun _ => 0).runTicks [⟨1, ⟨⟨10000000000⟩, ⟨100000000⟩, 0, 4, 0⟩, 1⟩]).2.filter
        (fun sig => sig.symbolId.toNat = 0) =
      ((init fun _ => 0).runTicks [⟨1, ⟨⟨500000000⟩, ⟨100000000⟩, 7, 4, 0⟩, 1⟩,
        ⟨1, ⟨⟨10000000000⟩, ⟨100000000⟩, 0, 1, 3⟩, 9⟩]).2.filter
        fun sig => sig.symbolId.toNat = 0 :=
  runTicks_symbol_isolated ⟨0, by decide⟩ _ _ _ _ (by decide) (by decide) rfl

end Ade

/-! ## (4) The first ticks of a symbol -/

/-- The signal a winsorized z-score makes for a tick of `data` with the regime gate open. -/
def gateOpenSignal (z : Int64) (data : MarketData) : Option Signal :=
  if priceScale / 2 < z.abs then some ⟨data.symbolId, ⟨z.abs⟩, if 0 < z then 1 else -1, 1⟩
  else none

/-- The signals a stream of one symbol's ticks makes from its rolling price statistics
alone, the regime gate open throughout. -/
def RollingStats.gateOpenSignals (stats : RollingStats 64) : List Tick → List Signal
  | [] => []
  | t :: ts =>
    let stats := stats.update t.data.price.raw
    (gateOpenSignal (winsorize (rollingZScore stats t.data.price.raw)) t.data).toList ++
      stats.gateOpenSignals ts

/-- Outside a regime change a tick emits what its z-score decides. -/
theorem TickFeatures.emitted_of_ne {f : TickFeatures} (h : f.regime ≠ .regimeChange)
    (data : MarketData) : f.emitted data = gateOpenSignal f.zScore data := by
  simp [emitted, shouldSignal, signal, gateOpenSignal, h]

/-- Without a detected change the regime is never `REGIME_CHANGE`. -/
theorem classifyRegime_false (d : VolRegimeDetector) : classifyRegime false d ≠ .regimeChange := by
  simp only [classifyRegime, Bool.false_eq_true, if_false]
  split_ifs <;> decide

namespace SymbolState

/-- **While the vol-of-vol EWMA is short of ten samples a tick passes the regime gate**, and
the tick adds at most one sample. -/
theorem onTick_warmup (s : SymbolState) (timestampNs : BitVec 64) (data : MarketData)
    (h : s.regimeDetector.volOfVolEwma.count.toNat + 1 < 10) :
    (s.onTick timestampNs data).2.regime ≠ .regimeChange ∧
      (s.onTick timestampNs data).1.regimeDetector.volOfVolEwma.count.toNat ≤
        s.regimeDetector.volOfVolEwma.count.toNat + 1 := by
  have hc := VolRegimeDetector.count_update_le s.regimeDetector
    (s.priceStats.update data.price.raw).variance
  have hflag := VolRegimeDetector.isRegimeChange_of_count_lt _ (Nat.lt_of_le_of_lt hc h)
  refine ⟨?_, by rw [onTick_regimeDetector]; exact hc⟩
  rw [onTick_regime, VolRegimeDetector.update_snd, hflag]
  exact classifyRegime_false _

/-- **Warm-up.** Over a symbol's ticks while its vol-of-vol EWMA stays short of ten samples,
the slot emits exactly what its rolling price statistics decide, whatever the EWMA weights. -/
theorem runTicks_warmup (s : SymbolState) (ts : List Tick)
    (h : s.regimeDetector.volOfVolEwma.count.toNat + ts.length < 10) :
    (s.runTicks ts).2 = s.priceStats.gateOpenSignals ts := by
  induction ts generalizing s with
  | nil => rfl
  | cons t ts ih =>
    simp only [List.length_cons] at h
    obtain ⟨hne, hle⟩ := s.onTick_warmup t.timestampNs t.data (by omega)
    simp only [runTicks, RollingStats.gateOpenSignals, TickFeatures.emitted_of_ne hne]
    rw [ih _ (by omega)]
    rfl

end SymbolState

namespace Ade

/-- On a stream of one slot's ticks, ADE emits what that slot's own run emits. -/
theorem runTicks_signals_of_slot (st : Ade) (i : Fin maxSymbols) (ts : List Tick)
    (hts : ∀ t ∈ ts, symbolSlot t.data.symbolId = i) :
    (st.runTicks ts).2 = ((st.symbolStates i).runTicks ts).2 := by
  have hp := congrArg Prod.snd (runTicks_project st i ts)
  rwa [List.filter_eq_self.2 fun sig hsig => by
      obtain ⟨t, ht, hid⟩ := symbolId_of_mem_runTicks st ts hsig
      simpa [hid] using hts t ht,
    List.filter_eq_self.2 fun t ht => by simpa using hts t ht] at hp

end Ade

/-! ## (5) Exact z-scores, and a history that overflows -/

/-- The z-score of a tick at price `p` over the window `w` of prices, in exact integer
arithmetic: `mu = trunc(sum w / |w|)`, `sigma = floor(sqrt(trunc(sum w^2 / |w|) - mu^2))`,
`z = trunc((p - mu) * 10^8 / sigma)`, and `0` when `sigma = 0`. -/
def exactZScore (w : List Int) (p : Int) : Int :=
  let n : Int := w.length
  let mu := w.sum.tdiv n
  let sigma := Int.sqrt ((w.map fun x => x ^ 2).sum.tdiv n - mu ^ 2)
  if sigma = 0 then 0 else ((p - mu) * 10 ^ 8).tdiv sigma

/-- **Two ticks that overflow the rolling statistics.** From start-up, whatever
`compute_alpha` returns, symbol 0 trades at 100 and then at 2000. The square `2000^2` of raw
prices wraps `sum_sq_`, the rolling z-score comes out below `-3`, and ADE emits a sell at the
cap `3.0`; over the exact integers the window `[100, 2000]` gives `z = +1.0`, a buy. -/
theorem runTicks_overflow_flips_direction (expAlpha : Int → Int64) :
    ((Ade.init expAlpha).runTicks
        [⟨1, ⟨⟨10000000000⟩, ⟨100000000⟩, 0, 4, 0⟩, 1⟩,
          ⟨2, ⟨⟨200000000000⟩, ⟨100000000⟩, 0, 4, 0⟩, 2⟩]).2 =
      [⟨0, ⟨300000000⟩, -1, 1⟩] ∧
    exactZScore [10000000000, 200000000000] 200000000000 = 100000000 := by
  constructor
  · rw [Ade.runTicks_signals_of_slot _ ⟨0, by decide⟩ _ (by decide),
      SymbolState.runTicks_warmup _ _ (by show (0 : BitVec 64).toNat + 2 < 10; decide)]
    show RollingStats.empty.gateOpenSignals _ = _
    decide
  · have hvar : (([10000000000, 200000000000] : List Int).map fun x => x ^ 2).sum.tdiv 2 -
        ([10000000000, 200000000000] : List Int).sum.tdiv 2 ^ 2 = 95000000000 * 95000000000 := by
      decide
    unfold exactZScore
    dsimp only
    rw [show ((([10000000000, 200000000000] : List Int).length : Int)) = 2 from rfl, hvar,
      Int.sqrt_eq]
    decide

end Sage
