import Sage.Ade.PerSymbol
import Sage.Ade.Output

/-! # ADE's signal counters

`process_market_data` counts a tick in `g_signals_generated` when `try_push` takes its signal,
and in `g_signals_gated` when the regime gate holds back a z-score that clears
`PRICE_SCALE / 2`. A signal that `try_push` turns away, on a full ring, is counted nowhere.

The ring's consumer is not part of ADE (nothing in ADE pops `g_ade_to_mind_buffer`); a run here
interleaves the messages ADE handles with any `try_pop` and `try_pop_batch` calls of a
consumer. Each tick of a run leaves a line in the run's log: its capped z-score and what became
of its would-be signal.

* **`AdeEvent`**, **`Ade.step`**, **`Ade.run`**, **`Ade.log`** — runs with a consumer, and their
  tick logs.
* **`run_signalCounters`** — on every run, the two counters move by the number of signals
  taken and of signals gated.
* **`run_signal_accounting`** — and the ticks that clear `PRICE_SCALE / 2` are those two and
  the dropped ones.
* **`full_queue_drops_signal`** — after 65536 forwarded heartbeats with no consumer, a tick that
  clears `PRICE_SCALE / 2` is counted in neither counter. -/

namespace Sage

/-- What becomes of a tick's would-be signal. -/
inductive SignalFate
  /-- The capped z-score does not clear `PRICE_SCALE / 2`. -/
  | quiet
  /-- It does, during a regime change: `g_signals_gated`. -/
  | gated
  /-- `try_push` takes the signal: `g_signals_generated`. -/
  | accepted
  /-- `try_push` finds the ring full. -/
  | dropped
  deriving DecidableEq, Repr

/-- What can happen around ADE's output ring: ADE handles a message `process_batch` popped
(`now` is the clock reading a signal of it would carry), or the consumer of
`g_ade_to_mind_buffer` calls `try_pop` or `try_pop_batch`. -/
inductive AdeEvent
  | handle (m : SageMessage) (now : BitVec 64)
  | consumerPop
  | consumerPopBatch (maxCount : BitVec 64)

/-- A tick's line in the log of a run: its capped rolling z-score and its signal's fate. -/
structure TickLog where
  zScore : Int64
  fate : SignalFate

namespace Ade

/-- The fate of the signal of a tick `data` that ADE processes in state `st`. -/
def fate (st : Ade) (timestampNs : BitVec 64) (data : MarketData) (now : BitVec 64) : SignalFate :=
  let f := ((st.symbolStates (symbolSlot data.symbolId)).onTick timestampNs data).2
  if f.shouldSignal then
    if (st.toMind.tryPush (.createSignal now (st.sequence + 1) (f.signal data))).2 then .accepted
    else .dropped
  else if priceScale / 2 < f.zScore.abs then .gated else .quiet

/-- One event. -/
def step (st : Ade) : AdeEvent → Ade
  | .handle m now => (st.processMessage m now).1
  | .consumerPop => { st with toMind := st.toMind.tryPop.1 }
  | .consumerPopBatch maxCount => { st with toMind := (st.toMind.tryPopBatch maxCount).1 }

/-- A run of events. -/
def run (st : Ade) : List AdeEvent → Ade
  | [] => st
  | e :: es => (st.step e).run es

/-- The log line an event leaves: one for a tick, none otherwise. -/
def logOf (st : Ade) : AdeEvent → List TickLog
  | .handle m now =>
    match m.payload with
    | .marketData d =>
      [⟨((st.symbolStates (symbolSlot d.symbolId)).onTick m.timestampNs d).2.zScore,
        st.fate m.timestampNs d now⟩]
    | _ => []
  | _ => []

/-- The log of a run. -/
def log (st : Ade) : List AdeEvent → List TickLog
  | [] => []
  | e :: es => st.logOf e ++ (st.step e).log es

@[simp] theorem run_nil (st : Ade) : st.run [] = st := rfl

@[simp] theorem run_cons (st : Ade) (e : AdeEvent) (es : List AdeEvent) :
    st.run (e :: es) = (st.step e).run es := rfl

@[simp] theorem log_nil (st : Ade) : st.log [] = [] := rfl

@[simp] theorem log_cons (st : Ade) (e : AdeEvent) (es : List AdeEvent) :
    st.log (e :: es) = st.logOf e ++ (st.step e).log es := rfl

theorem run_append (st : Ade) (es es' : List AdeEvent) :
    st.run (es ++ es') = (st.run es).run es' := by
  induction es generalizing st <;> simp [*]

theorem log_append (st : Ade) (es es' : List AdeEvent) :
    st.log (es ++ es') = st.log es ++ (st.run es).log es' := by
  induction es generalizing st <;> simp [*]

/-! ## (1) One tick -/

/-- `process_market_data` moves `g_signals_generated` for a taken signal and
`g_signals_gated` for a gated one. -/
theorem processMarketData_counters (st : Ade) (timestampNs : BitVec 64) (data : MarketData)
    (now : BitVec 64) :
    (st.processMarketData timestampNs data now).1.signalsGenerated =
        st.signalsGenerated + (if st.fate timestampNs data now = .accepted then 1 else 0) ∧
      (st.processMarketData timestampNs data now).1.signalsGated =
        st.signalsGated + (if st.fate timestampNs data now = .gated then 1 else 0) := by
  unfold processMarketData fate
  dsimp only
  split_ifs <;> simp_all only [reduceCtorEq, add_zero, and_self, not_true_eq_false]

/-- A tick's signal has a fate other than `quiet` exactly when its capped z-score clears
`PRICE_SCALE / 2`. -/
theorem fate_ne_quiet_iff (st : Ade) (timestampNs : BitVec 64) (data : MarketData)
    (now : BitVec 64) :
    st.fate timestampNs data now ≠ .quiet ↔ priceScale / 2 <
      ((st.symbolStates (symbolSlot data.symbolId)).onTick timestampNs data).2.zScore.abs := by
  unfold fate
  dsimp only
  split_ifs with hs _ hz <;> simp_all [TickFeatures.shouldSignal]

/-! ## (2) Whole runs -/

/-- **Step lemma.** -/
theorem step_signalCounters (st : Ade) (e : AdeEvent) :
    (st.step e).signalsGenerated =
        st.signalsGenerated + BitVec.ofNat 64 ((st.logOf e).countP (·.fate = .accepted)) ∧
      (st.step e).signalsGated =
        st.signalsGated + BitVec.ofNat 64 ((st.logOf e).countP (·.fate = .gated)) := by
  cases e with
  | handle m now =>
    obtain ⟨timestampNs, seq, payload⟩ := m
    cases payload with
    | marketData d =>
      obtain ⟨h₁, h₂⟩ := processMarketData_counters st timestampNs d now
      simp only [step, processMessage, logOf, h₁, h₂, List.countP_cons, List.countP_nil]
      generalize st.fate timestampNs d now = f
      cases f <;> exact ⟨rfl, rfl⟩
    | _ => exact ⟨(add_zero _).symm, (add_zero _).symm⟩
  | _ => exact ⟨(add_zero _).symm, (add_zero _).symm⟩

/-- Every line of a run's log is of a tick that clears `PRICE_SCALE / 2` exactly when its fate
is not `quiet`. -/
theorem fate_ne_quiet_of_mem_log (st : Ade) (es : List AdeEvent) :
    ∀ o ∈ st.log es, (o.fate ≠ .quiet ↔ priceScale / 2 < o.zScore.abs) := by
  induction es generalizing st with
  | nil => simp
  | cons e es ih =>
    simp only [log_cons, List.mem_append]
    rintro o (ho | ho)
    · cases e with
      | handle m now =>
        simp only [logOf] at ho
        split at ho
        · rw [List.mem_singleton.1 ho]; exact fate_ne_quiet_iff _ _ _ _
        · cases ho
      | _ => cases ho
    · exact ih _ o ho

/-- **Run lemma**: over every run, `g_signals_generated` moves by the number of signals
`try_push` took and `g_signals_gated` by the number the regime gate held back. -/
theorem run_signalCounters (st : Ade) (es : List AdeEvent) :
    (st.run es).signalsGenerated =
        st.signalsGenerated + BitVec.ofNat 64 ((st.log es).countP (·.fate = .accepted)) ∧
      (st.run es).signalsGated =
        st.signalsGated + BitVec.ofNat 64 ((st.log es).countP (·.fate = .gated)) := by
  induction es generalizing st with
  | nil => simp
  | cons e es ih =>
    obtain ⟨h₁, h₂⟩ := step_signalCounters st e
    obtain ⟨ih₁, ih₂⟩ := ih (st.step e)
    simp only [run_cons, log_cons, List.countP_append, ih₁, ih₂, h₁, h₂, BitVec.ofNat_add,
      add_assoc, and_self]

/-- A log whose lines clear `PRICE_SCALE / 2` exactly when their fate is not `quiet` counts
them as the signals taken, gated and dropped. -/
theorem countP_clears (l : List TickLog)
    (h : ∀ o ∈ l, (o.fate ≠ .quiet ↔ priceScale / 2 < o.zScore.abs)) :
    l.countP (fun o => priceScale / 2 < o.zScore.abs) =
      l.countP (·.fate = .accepted) + l.countP (·.fate = .gated) +
        l.countP (·.fate = .dropped) := by
  induction l with
  | nil => rfl
  | cons o l ih =>
    have ho := h o (List.mem_cons_self _ _)
    simp only [List.countP_cons, ih fun o' h' => h o' (List.mem_cons_of_mem _ h')]
    cases hf : o.fate <;> simp only [hf, ne_eq, not_true_eq_false, false_iff, true_iff,
      reduceCtorEq, not_false_eq_true] at ho <;> simp [hf, ho] <;> omega

/-- **ADE's signal counters over every run.** Whatever the messages and whatever the consumer
does, `g_signals_generated` moves by the number of signals `try_push` took, `g_signals_gated`
by the number held back by the regime gate, and the ticks whose capped z-score clears
`PRICE_SCALE / 2` are exactly those taken, gated and dropped. -/
theorem run_signal_accounting (st : Ade) (es : List AdeEvent) :
    (st.run es).signalsGenerated =
        st.signalsGenerated + BitVec.ofNat 64 ((st.log es).countP (·.fate = .accepted)) ∧
      (st.run es).signalsGated =
        st.signalsGated + BitVec.ofNat 64 ((st.log es).countP (·.fate = .gated)) ∧
      (st.log es).countP (fun o => priceScale / 2 < o.zScore.abs) =
        (st.log es).countP (·.fate = .accepted) + (st.log es).countP (·.fate = .gated) +
          (st.log es).countP (·.fate = .dropped) :=
  ⟨(run_signalCounters st es).1, (run_signalCounters st es).2,
    countP_clears _ (fate_ne_quiet_of_mem_log st es)⟩

/-! ## (3) A full ring -/

/-- On a ring whose `N` slots are all taken, with a current cached tail, a tick leaves the ring
as it was, and its signal, if offered, is dropped. -/
theorem step_tick_of_full {st : Ade} (hc : st.toMind.cachedTail = st.toMind.tail)
    (hfull : (st.toMind.head - st.toMind.tail).toNat = cap65536.val)
    (timestampNs seq : BitVec 64) (data : MarketData) (now : BitVec 64) :
    (st.step (.handle (.createMarketData timestampNs seq data) now)).toMind = st.toMind ∧
      (st.step (.handle (.createMarketData timestampNs seq data) now)).symbolStates =
        Function.update st.symbolStates (symbolSlot data.symbolId)
          ((st.symbolStates (symbolSlot data.symbolId)).onTick timestampNs data).1 ∧
      st.logOf (.handle (.createMarketData timestampNs seq data) now) =
        [⟨((st.symbolStates (symbolSlot data.symbolId)).onTick timestampNs data).2.zScore,
          let f := ((st.symbolStates (symbolSlot data.symbolId)).onTick timestampNs data).2
          if f.shouldSignal then .dropped else if priceScale / 2 < f.zScore.abs then .gated
          else .quiet⟩] := by
  simp only [step, processMessage, SageMessage.createMarketData, logOf, fate,
    processMarketData_toMind, processMarketData_symbolStates, RingBuffer.tryPush_of_full hc hfull]
  split_ifs <;> simp_all

/-- `n` forwarded heartbeats push `n` times and change nothing else. -/
theorem run_heartbeats (st : Ade) (m : SageMessage) (hb : Heartbeat)
    (hm : m.payload = .heartbeat hb) (now : BitVec 64) (n : Nat) :
    st.run (List.replicate n (.handle m now)) =
        { st with toMind := st.toMind.pushAll (List.replicate n m) } ∧
      st.log (List.replicate n (.handle m now)) = [] := by
  induction n generalizing st with
  | zero => exact ⟨rfl, rfl⟩
  | succ n ih =>
    obtain ⟨h₁, h₂⟩ := ih (st.step (.handle m now))
    simp only [List.replicate_succ, run_cons, log_cons, h₁, h₂, RingBuffer.pushAll_cons]
    simp [step, processMessage, logOf, hm]

/-- The ticks of the failing run: symbol 0 at prices `1.00`, `1.00` and `1.03`. -/
def dropTicks : List AdeEvent :=
  [.handle (.createMarketData 1 1 ⟨⟨100000000⟩, ⟨100000000⟩, 0, 4, 0⟩) 1,
    .handle (.createMarketData 2 2 ⟨⟨100000000⟩, ⟨100000000⟩, 0, 4, 0⟩) 2,
    .handle (.createMarketData 3 3 ⟨⟨103000000⟩, ⟨100000000⟩, 0, 4, 0⟩) 3]

/-- The failing run: 65536 heartbeats forwarded while no consumer pops, then `dropTicks`. -/
def fullQueueRun : List AdeEvent :=
  List.replicate 65536 (.handle (.createHeartbeat 0 0 0) 0) ++ dropTicks

/-- **The three ticks on a full ring.** From any state whose output ring is full, with
`cached_tail_` up to date, and whose symbol 0 is fresh: the first two ticks score `0` and stay
quiet, the third scores `1.41421412` with the regime gate still open, and its signal is
dropped. -/
theorem log_dropTicks_of_full {expAlpha : Int → Int64} {st : Ade}
    (hc : st.toMind.cachedTail = st.toMind.tail)
    (hfull : (st.toMind.head - st.toMind.tail).toNat = cap65536.val)
    (h0 : st.symbolStates (symbolSlot 0) = SymbolState.init expAlpha) :
    st.log dropTicks = [⟨0, .quiet⟩, ⟨0, .quiet⟩, ⟨141421412, .dropped⟩] := by
  -- slot 0 through the three ticks: the detector warms up, the z-scores are `0`, `0`, `1.414…`
  set d₀ : MarketData := ⟨⟨100000000⟩, ⟨100000000⟩, 0, 4, 0⟩
  set d₁₀ : MarketData := ⟨⟨103000000⟩, ⟨100000000⟩, 0, 4, 0⟩
  set s₀ := SymbolState.init expAlpha
  have hp : s₀.priceStats = .empty := rfl
  have hcount : s₀.regimeDetector.volOfVolEwma.count.toNat = 0 := rfl
  obtain ⟨-, hw₁⟩ := s₀.onTick_warmup 1 d₀ (by rw [hcount]; decide)
  obtain ⟨-, hw₂⟩ := (s₀.onTick 1 d₀).1.onTick_warmup 2 d₀ (by omega)
  obtain ⟨hw₃, -⟩ :=
    ((s₀.onTick 1 d₀).1.onTick 2 d₀).1.onTick_warmup 3 d₁₀ (by omega)
  have habs0 : ¬ priceScale / 2 < Int64.abs 0 := by decide
  have h141 : priceScale / 2 < Int64.abs 141421412 := by decide
  have hz₁ : (s₀.onTick 1 d₀).2.zScore = 0 := by
    rw [SymbolState.onTick_zScore, hp]; decide
  have hz₂ : ((s₀.onTick 1 d₀).1.onTick 2 d₀).2.zScore = 0 := by
    rw [SymbolState.onTick_zScore, SymbolState.onTick_priceStats, hp]; decide
  have hz₃ :
      (((s₀.onTick 1 d₀).1.onTick 2 d₀).1.onTick 3 d₁₀).2.zScore = 141421412 := by
    rw [SymbolState.onTick_zScore, SymbolState.onTick_priceStats, SymbolState.onTick_priceStats, hp]
    decide
  -- step by step
  have e₁ := step_tick_of_full hc hfull 1 1 d₀ 1
  set st₂ := st.step (.handle (.createMarketData 1 1 d₀) 1)
  have e₂ := @step_tick_of_full st₂ (by rw [e₁.1]; exact hc) (by rw [e₁.1]; exact hfull)
    2 2 d₀ 2
  set st₃ := st₂.step (.handle (.createMarketData 2 2 d₀) 2)
  have e₃ := @step_tick_of_full st₃ (by rw [e₂.1, e₁.1]; exact hc)
    (by rw [e₂.1, e₁.1]; exact hfull) 3 3 d₁₀ 3
  rw [dropTicks, log_cons, log_cons, log_cons, log_nil, e₁.2.2, e₂.2.2, e₃.2.2, e₂.2.1,
    e₁.2.1]
  dsimp only
  simp only [Function.update_same, h0, hz₁, hz₂, hz₃, TickFeatures.shouldSignal, habs0,
    h141, decide_False, decide_True, Bool.false_and, Bool.true_and, Bool.false_eq_true,
    bne_iff_ne, ne_eq, hw₃, not_false_eq_true, if_true, if_false, List.singleton_append,
    List.append_nil]

end Ade

/-- **A signal dropped by a full ring is counted nowhere.** From start-up, whatever
`compute_alpha` returns, ADE forwards 65536 heartbeats to a ring no one pops, then processes
three ticks of symbol 0 at prices `1.00`, `1.00` and `1.03`. The third tick's capped z-score is
`1.41421412`, past `PRICE_SCALE / 2`, and the regime gate is open, so `process_market_data` offers its
signal; `try_push` turns it away, and neither `g_signals_generated` nor `g_signals_gated`
moves. -/
theorem full_queue_drops_signal (expAlpha : Int → Int64) :
    ((Ade.init expAlpha).log Ade.fullQueueRun).map (·.fate) = [.quiet, .quiet, .dropped] ∧
      ((Ade.init expAlpha).log Ade.fullQueueRun).countP
          (fun o => priceScale / 2 < o.zScore.abs) = 1 ∧
      ((Ade.init expAlpha).run Ade.fullQueueRun).signalsGenerated = 0 ∧
      ((Ade.init expAlpha).run Ade.fullQueueRun).signalsGated = 0 := by
  -- the heartbeats fill the ring
  obtain ⟨hrun, hlog⟩ :=
    Ade.run_heartbeats (Ade.init expAlpha) (.createHeartbeat 0 0 0) ⟨0, 0, 0⟩ rfl 0 65536
  obtain ⟨hhead, htail, hct⟩ := RingBuffer.pushes_of_room (.createHeartbeat 0 0 0) 65536
    (Ade.init expAlpha).toMind rfl (show ((0 : BitVec 64) - 0).toNat + 65536 ≤ 65536 by decide)
  set st₁ : Ade := { Ade.init expAlpha with
    toMind := (Ade.init expAlpha).toMind.pushAll (List.replicate 65536 (.createHeartbeat 0 0 0)) }
  have hc₁ : st₁.toMind.cachedTail = st₁.toMind.tail := hct.trans htail.symm
  have hfull₁ : (st₁.toMind.head - st₁.toMind.tail).toNat = cap65536.val := by
    simp only [st₁, hhead, htail]
    show ((0 : BitVec 64) + 65536 - 0).toNat = 65536
    decide
  have hlog₃ := Ade.log_dropTicks_of_full hc₁ hfull₁
    (show st₁.symbolStates (symbolSlot 0) = SymbolState.init expAlpha from rfl)
  -- the counters of the whole run
  obtain ⟨hg, hgt⟩ := Ade.run_signalCounters st₁ Ade.dropTicks
  rw [hlog₃] at hg hgt
  rw [Ade.fullQueueRun, Ade.log_append, Ade.run_append, hlog, hrun, hlog₃, hg, hgt]
  exact ⟨rfl, by decide, rfl, rfl⟩

end Sage
