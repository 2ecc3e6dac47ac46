import Sage.Ade.Accounting

/-! # The regime gate, on and off

The spec's gate-monotonicity law compares two runs of ADE over one history of messages and one
schedule of calls by the consumer of `g_ade_to_mind_buffer`: ADE as it is, and ADE with
`regime_change` forced to `false` in `process_market_data`. No statistic reads the flag, so the
slots evolve alike in both runs, and a tick offers its signal in the gated run only if it does
in the other.

* **`SymbolState.features`**, **`Ade.stepGated`**, **`Ade.runGated`**, **`Ade.logGated`** — the
  two runs; `gate = true` is ADE's own (`runGated_true`, `logGated_true`).
* **`Ade.PairInv`** — the two runs side by side: the same slots, safe producer views, and the
  gated ring holding no more messages than the ungated one.
* **`gate_monotone_of_fifo`** — while the consumer calls no `try_pop` after a `try_pop_batch`,
  the gated ring has taken no more signals than the ungated one, after every event.
* **`Ade.SameView`** — what a run's decisions read: the output ring's indices, and each slot's
  price window and regime detector.
* **`gate_monotonicity_broken_by_batch`** — a consumer that pops after a batch lets the gated
  ring take more signals than the ungated one. -/

namespace Sage

/-! ## (1) The two runs -/

namespace SymbolState

/-- The features `process_market_data` acts on: with the gate, those of `onTick`, whose regime
reads `regime_change` as the detector answers it; without, the regime read from the updated
detector as the code reads it when `regime_change` is `false`. -/
def features (gate : Bool) (s : SymbolState) (timestampNs : BitVec 64) (data : MarketData) :
    TickFeatures :=
  let r := s.onTick timestampNs data
  if gate then r.2 else { r.2 with regime := classifyRegime false r.1.regimeDetector }

@[simp] theorem features_true (s : SymbolState) (timestampNs : BitVec 64) (data : MarketData) :
    s.features true timestampNs data = (s.onTick timestampNs data).2 := rfl

@[simp] theorem zScore_features (gate : Bool) (s : SymbolState) (timestampNs : BitVec 64)
    (data : MarketData) :
    (s.features gate timestampNs data).zScore = (s.onTick timestampNs data).2.zScore := by
  cases gate <;> rfl

/-- Without the gate a tick signals exactly when its capped z-score clears `PRICE_SCALE / 2`. -/
theorem shouldSignal_features_false (s : SymbolState) (timestampNs : BitVec 64)
    (data : MarketData) :
    (s.features false timestampNs data).shouldSignal =
      decide (priceScale / 2 < (s.onTick timestampNs data).2.zScore.abs) := by
  simp [features, TickFeatures.shouldSignal, classifyRegime_false]

/-- **A tick signals with the gate only if it does without.** -/
theorem shouldSignal_features_false_of_true {s : SymbolState} {timestampNs : BitVec 64}
    {data : MarketData} (h : (s.features true timestampNs data).shouldSignal) :
    (s.features false timestampNs data).shouldSignal := by
  rw [shouldSignal_features_false]
  simp only [features_true, TickFeatures.shouldSignal, Bool.and_eq_true] at h
  exact h.1

end SymbolState

namespace Ade

/-- `process_market_data` acting on the features of `gate`: `processMarketData` line by line
but for the features it reads (`processMarketDataGated_true`). -/
def processMarketDataGated (gate : Bool) (st : Ade) (timestampNs : BitVec 64) (data : MarketData)
    (now : BitVec 64) : Ade :=
  let i := symbolSlot data.symbolId
  let r := (st.symbolStates i).onTick timestampNs data
  let f := (st.symbolStates i).features gate timestampNs data
  let st₁ : Ade :=
    { st with
      symbolStates := Function.update st.symbolStates i r.1
      outliersCapped := if f.outlier then st.outliersCapped + 1 else st.outliersCapped }
  let st₂ : Ade :=
    if f.shouldSignal then
      let seq := st₁.sequence + 1
      let pushed := st₁.toMind.tryPush (.createSignal now seq (f.signal data))
      { st₁ with
        sequence := seq
        toMind := pushed.1
        signalsGenerated := if pushed.2 then st₁.signalsGenerated + 1 else st₁.signalsGenerated }
    else if priceScale / 2 < f.zScore.abs then { st₁ with signalsGated := st₁.signalsGated + 1 }
    else st₁
  { st₂ with messagesProcessed := st₂.messagesProcessed + 1 }

theorem processMarketDataGated_true (st : Ade) (timestampNs : BitVec 64) (data : MarketData)
    (now : BitVec 64) :
    st.processMarketDataGated true timestampNs data now =
      (st.processMarketData timestampNs data now).1 := rfl

/-- The fate of a tick's signal in the run of `gate`. -/
def fateGated (gate : Bool) (st : Ade) (timestampNs : BitVec 64) (data : MarketData)
    (now : BitVec 64) : SignalFate :=
  let f := (st.symbolStates (symbolSlot data.symbolId)).features gate timestampNs data
  if f.shouldSignal then
    if (st.toMind.tryPush (.createSignal now (st.sequence + 1) (f.signal data))).2 then .accepted
    else .dropped
  else if priceScale / 2 < f.zScore.abs then .gated else .quiet

/-- One event of the run of `gate`: a tick goes to `processMarketDataGated`, any other event is
handled as in `step`. -/
def stepGated (gate : Bool) (st : Ade) : AdeEvent → Ade
  | .handle m now =>
    match m.payload with
    | .marketData d => st.processMarketDataGated gate m.timestampNs d now
    | _ => st.step (.handle m now)
  | e => st.step e

/-- The log line an event leaves in the run of `gate`. -/
def logOfGated (gate : Bool) (st : Ade) : AdeEvent → List TickLog
  | .handle m now =>
    match m.payload with
    | .marketData d =>
      [⟨((st.symbolStates (symbolSlot d.symbolId)).onTick m.timestampNs d).2.zScore,
        st.fateGated gate m.timestampNs d now⟩]
    | _ => []
  | _ => []

/-- A run of events with the gate on or off. -/
def runGated (gate : Bool) (st : Ade) : List AdeEvent → Ade
  | [] => st
  | e :: es => (st.stepGated gate e).runGated gate es

/-- The log of a run with the gate on or off. -/
def logGated (gate : Bool) (st : Ade) : List AdeEvent → List TickLog
  | [] => []
  | e :: es => st.logOfGated gate e ++ (st.stepGated gate e).logGated gate es

section Runs

variable (gate : Bool) (st : Ade)

@[simp] theorem runGated_nil : st.runGated gate [] = st := rfl

@[simp] theorem runGated_cons (e : AdeEvent) (es : List AdeEvent) :
    st.runGated gate (e :: es) = (st.stepGated gate e).runGated gate es := rfl

@[simp] theorem logGated_nil : st.logGated gate [] = [] := rfl

@[simp] theorem logGated_cons (e : AdeEvent) (es : List AdeEvent) :
    st.logGated gate (e :: es) = st.logOfGated gate e ++ (st.stepGated gate e).logGated gate es :=
  rfl

theorem runGated_append (es es' : List AdeEvent) :
    st.runGated gate (es ++ es') = (st.runGated gate es).runGated gate es' := by
  induction es generalizing st <;> simp [*]

theorem logGated_append (es es' : List AdeEvent) :
    st.logGated gate (es ++ es') =
      st.logGated gate es ++ (st.runGated gate es).logGated gate es' := by
  induction es generalizing st <;> simp [*]

end Runs

/-- With the gate on, an event is handled as ADE handles it. -/
theorem stepGated_true (st : Ade) (e : AdeEvent) : st.stepGated true e = st.step e := by
  cases e with
  | handle m now => obtain ⟨_, _, p⟩ := m; cases p <;> rfl
  | _ => rfl

theorem logOfGated_true (st : Ade) (e : AdeEvent) : st.logOfGated true e = st.logOf e := by
  cases e with
  | handle m now => obtain ⟨_, _, p⟩ := m; cases p <;> rfl
  | _ => rfl

/-- **The gated run is ADE's run.** -/
theorem runGated_true (st : Ade) (es : List AdeEvent) : st.runGated true es = st.run es := by
  induction es generalizing st <;> simp [stepGated_true, *]

theorem logGated_true (st : Ade) (es : List AdeEvent) : st.logGated true es = st.log es := by
  induction es generalizing st <;> simp [stepGated_true, logOfGated_true, *]

/-- **A tick, in either run**: its slot moves by `onTick`; the output ring is offered the
tick's signal if the features call for one; the log counts the signal as taken exactly when
that `try_push` succeeds. -/
theorem stepGated_marketData (gate : Bool) (st : Ade) (timestampNs seq : BitVec 64)
    (d : MarketData) (now : BitVec 64) :
    (st.stepGated gate (.handle ⟨timestampNs, seq, .marketData d⟩ now)).symbolStates =
        Function.update st.symbolStates (symbolSlot d.symbolId)
          ((st.symbolStates (symbolSlot d.symbolId)).onTick timestampNs d).1 ∧
      (st.stepGated gate (.handle ⟨timestampNs, seq, .marketData d⟩ now)).toMind =
        (if ((st.symbolStates (symbolSlot d.symbolId)).features gate timestampNs d).shouldSignal
        then (st.toMind.tryPush (.createSignal now (st.sequence + 1)
          (((st.symbolStates (symbolSlot d.symbolId)).features gate timestampNs d).signal d))).1
        else st.toMind) ∧
      (st.logOfGated gate (.handle ⟨timestampNs, seq, .marketData d⟩ now)).countP
          (·.fate = .accepted) =
        if ((st.symbolStates (symbolSlot d.symbolId)).features gate timestampNs d).shouldSignal ∧
          (st.toMind.tryPush (.createSignal now (st.sequence + 1)
            (((st.symbolStates (symbolSlot d.symbolId)).features gate timestampNs d).signal d))).2
        then 1 else 0 := by
  simp only [stepGated, processMarketDataGated, logOfGated, fateGated]
  split_ifs <;> simp_all

end Ade

/-! ## (2) The two runs side by side -/

namespace RingBuffer

variable {α : Type} {N : Capacity}

/-- A ring on a safe producer view, offered an item or not (`o`): it stays safe, keeps a safe
consumer view, and holds one more item exactly when it was offered one with room; the push
succeeded exactly then. -/
theorem offer_spec (rb : RingBuffer α N) (ht : rb.TailOk) (o : Bool) (x : α) :
    (if o then (rb.tryPush x).1 else rb).TailOk ∧
      (rb.HeadOk → (if o then (rb.tryPush x).1 else rb).HeadOk) ∧
      (if o then (rb.tryPush x).1 else rb).contents.length =
        rb.contents.length + (if o ∧ rb.contents.length < N.val then 1 else 0) ∧
      (if o ∧ (rb.tryPush x).2 then 1 else 0) =
        (if o ∧ rb.contents.length < N.val then 1 else 0) := by
  obtain ⟨hs, -, ht', hh'⟩ := rb.tryPush_spec x ht
  cases o
  · simp [ht]
  · refine ⟨ht', hh', ?_, ?_⟩ <;> simp [rb.length_tryPush x ht, hs]

end RingBuffer

namespace Ade

/-- **The two runs side by side**: the gated state `g` and the ungated `u` hold the same slots,
safe producer views on their output rings, and the gated ring no more messages than the
ungated one. -/
structure PairInv (g u : Ade) : Prop where
  symbolStates_eq : g.symbolStates = u.symbolStates
  tailOk_gated : g.toMind.TailOk
  tailOk_ungated : u.toMind.TailOk
  length_le : g.toMind.contents.length ≤ u.toMind.contents.length

/-- The arithmetic of one tick: a ring holding no more than another, offered a signal only if
the other is, still holds no more after the offers. -/
theorem offer_le {og ou : Bool} (himp : og = true → ou = true) {lg lu N : Nat} (hle : lg ≤ lu) :
    lg + (if og = true ∧ lg < N then 1 else 0) ≤ lu + (if ou = true ∧ lu < N then 1 else 0) := by
  cases og <;> cases ou <;> simp at himp ⊢ <;> (try split_ifs) <;> omega

/-- **Step lemma.** One event keeps the two runs side by side, and keeps `a_g - n_g ≤ a_u - n_u`
for `a` the signals a ring takes at the event and `n` the messages it holds: a signal both
rings are offered moves `a` and `n` alike, a heartbeat the ungated ring turns away is one the
gated ring may still take, and a pop takes at least as much from the fuller ring. A `try_pop`
needs safe consumer views, which every event but a batch keeps. -/
theorem PairInv.step {g u : Ade} (h : g.PairInv u) (e : AdeEvent)
    (hpop : e = .consumerPop → g.toMind.HeadOk ∧ u.toMind.HeadOk) :
    (g.stepGated true e).PairInv (u.stepGated false e) ∧
      (g.logOfGated true e).countP (·.fate = .accepted) +
          (u.stepGated false e).toMind.contents.length + g.toMind.contents.length ≤
        (u.logOfGated false e).countP (·.fate = .accepted) +
          (g.stepGated true e).toMind.contents.length + u.toMind.contents.length ∧
      (g.toMind.HeadOk → u.toMind.HeadOk → (∀ k, e ≠ .consumerPopBatch k) →
        (g.stepGated true e).toMind.HeadOk ∧ (u.stepGated false e).toMind.HeadOk) := by
  obtain ⟨hs, hg, hu, hle⟩ := h
  cases e with
  | handle m now =>
    obtain ⟨ts, seq, p⟩ := m
    cases p with
    | marketData d =>
      obtain ⟨hsg, htg, hcg⟩ := stepGated_marketData true g ts seq d now
      obtain ⟨hsu, htu, hcu⟩ := stepGated_marketData false u ts seq d now
      rw [hs] at hsg htg hcg
      have himp := @SymbolState.shouldSignal_features_false_of_true
        (u.symbolStates (symbolSlot d.symbolId)) ts d
      refine ⟨⟨hsg.trans hsu.symm, ?_, ?_, ?_⟩, ?_, fun hg' hu' _ => ⟨?_, ?_⟩⟩ <;>
        simp only [htg, htu, hcg, hcu]
      · exact (g.toMind.offer_spec hg _ _).1
      · exact (u.toMind.offer_spec hu _ _).1
      · rw [(g.toMind.offer_spec hg _ _).2.2.1, (u.toMind.offer_spec hu _ _).2.2.1]
        exact offer_le himp hle
      · rw [(g.toMind.offer_spec hg _ _).2.2.1, (u.toMind.offer_spec hu _ _).2.2.1,
          (g.toMind.offer_spec hg _ _).2.2.2, (u.toMind.offer_spec hu _ _).2.2.2]
        omega
      · exact (g.toMind.offer_spec hg _ _).2.1 hg'
      · exact (u.toMind.offer_spec hu _ _).2.1 hu'
    | heartbeat hb =>
      have lg := g.toMind.length_tryPush ⟨ts, seq, .heartbeat hb⟩ hg
      have lu := u.toMind.length_tryPush ⟨ts, seq, .heartbeat hb⟩ hu
      obtain ⟨-, -, tg, hhg⟩ := g.toMind.tryPush_spec ⟨ts, seq, .heartbeat hb⟩ hg
      obtain ⟨-, -, tu, hhu⟩ := u.toMind.tryPush_spec ⟨ts, seq, .heartbeat hb⟩ hu
      refine ⟨⟨hs, tg, tu, ?_⟩, ?_, fun hg' hu' _ => ⟨hhg hg', hhu hu'⟩⟩ <;>
        simp only [stepGated, Ade.step, processMessage, logOfGated, List.countP_nil, lg, lu] <;>
        split_ifs <;> omega
    | _ =>
      refine ⟨⟨hs, hg, hu, hle⟩, ?_, fun hg' hu' _ => ⟨hg', hu'⟩⟩
      simp only [stepGated, Ade.step, processMessage, logOfGated, List.countP_nil]
      omega
  | consumerPop =>
    obtain ⟨hhg, hhu⟩ := hpop rfl
    obtain ⟨-, -, tg, hhg'⟩ := g.toMind.tryPop_spec hg hhg
    obtain ⟨-, -, tu, hhu'⟩ := u.toMind.tryPop_spec hu hhu
    have lg := g.toMind.length_tryPop hg hhg
    have lu := u.toMind.length_tryPop hu hhu
    refine ⟨⟨hs, tg, tu, ?_⟩, ?_, fun _ _ _ => ⟨hhg', hhu'⟩⟩ <;>
      simp only [stepGated, Ade.step, logOfGated, List.countP_nil, lg, lu] <;> omega
  | consumerPopBatch k =>
    have tg := (g.toMind.tryPopBatch_spec k hg).2.2
    have tu := (u.toMind.tryPopBatch_spec k hu).2.2
    have lg := g.toMind.length_tryPopBatch k hg
    have lu := u.toMind.length_tryPopBatch k hu
    refine ⟨⟨hs, tg, tu, ?_⟩, ?_, fun _ _ hk => absurd rfl (hk k)⟩ <;>
      simp only [stepGated, Ade.step, logOfGated, List.countP_nil, lg, lu] <;> omega

/-- **Run lemma, no batch.** Over events with no `try_pop_batch`, two runs side by side with
safe consumer views stay so, and keep `a_g - n_g ≤ a_u - n_u` for `a` the signals their rings
take over the events. -/
theorem PairInv.run_of_noBatch : ∀ (es : List AdeEvent) {g u : Ade}, g.PairInv u →
    g.toMind.HeadOk → u.toMind.HeadOk → (∀ e ∈ es, ∀ k, e ≠ .consumerPopBatch k) →
    (g.runGated true es).PairInv (u.runGated false es) ∧
      (g.runGated true es).toMind.HeadOk ∧ (u.runGated false es).toMind.HeadOk ∧
      (g.logGated true es).countP (·.fate = .accepted) +
          (u.runGated false es).toMind.contents.length + g.toMind.contents.length ≤
        (u.logGated false es).countP (·.fate = .accepted) +
          (g.runGated true es).toMind.contents.length + u.toMind.contents.length
  | [], _, _, h, hg, hu, _ => ⟨h, hg, hu, by simp only [runGated_nil, logGated_nil]; omega⟩
  | e :: es, _, _, h, hg, hu, hes => by
    obtain ⟨h', hc, hh⟩ := h.step e fun _ => ⟨hg, hu⟩
    obtain ⟨hg', hu'⟩ := hh hg hu (hes e (List.mem_cons_self _ _))
    obtain ⟨ih, ihg, ihu, ihc⟩ :=
      run_of_noBatch es h' hg' hu' fun e' he' => hes e' (List.mem_cons_of_mem _ he')
    refine ⟨ih, ihg, ihu, ?_⟩
    simp only [runGated_cons, logGated_cons, List.countP_append]
    omega

/-- **Run lemma, no pop.** Over events with no `try_pop`, two runs side by side stay so, and
keep `a_g - n_g ≤ a_u - n_u`. -/
theorem PairInv.run_of_noPop : ∀ (es : List AdeEvent) {g u : Ade}, g.PairInv u →
    (∀ e ∈ es, e ≠ .consumerPop) →
    (g.runGated true es).PairInv (u.runGated false es) ∧
      (g.logGated true es).countP (·.fate = .accepted) +
          (u.runGated false es).toMind.contents.length + g.toMind.contents.length ≤
        (u.logGated false es).countP (·.fate = .accepted) +
          (g.runGated true es).toMind.contents.length + u.toMind.contents.length
  | [], _, _, h, _ => ⟨h, by simp only [runGated_nil, logGated_nil]; omega⟩
  | e :: es, _, _, h, hes => by
    obtain ⟨h', hc, -⟩ := h.step e fun he => absurd he (hes e (List.mem_cons_self _ _))
    obtain ⟨ih, ihc⟩ := run_of_noPop es h' fun e' he' => hes e' (List.mem_cons_of_mem _ he')
    refine ⟨ih, ?_⟩
    simp only [runGated_cons, logGated_cons, List.countP_append]
    omega

end Ade

/-! ## (3) What a run reads -/

namespace SymbolState

/-- A tick's features, and the price window and detector it leaves, read only the slot's price
window and detector. -/
theorem onTick_of_same {s s' : SymbolState} (hp : s.priceStats = s'.priceStats)
    (hr : s.regimeDetector = s'.regimeDetector) (timestampNs : BitVec 64) (data : MarketData) :
    (s.onTick timestampNs data).2 = (s'.onTick timestampNs data).2 ∧
      (s.onTick timestampNs data).1.priceStats = (s'.onTick timestampNs data).1.priceStats ∧
      (s.onTick timestampNs data).1.regimeDetector =
        (s'.onTick timestampNs data).1.regimeDetector := by
  simp only [onTick, record, hp, hr, and_self]

theorem features_of_same {s s' : SymbolState} (hp : s.priceStats = s'.priceStats)
    (hr : s.regimeDetector = s'.regimeDetector) (gate : Bool) (timestampNs : BitVec 64)
    (data : MarketData) : s.features gate timestampNs data = s'.features gate timestampNs data := by
  obtain ⟨h₁, -, h₃⟩ := onTick_of_same hp hr timestampNs data
  simp only [features, h₁, h₃]

end SymbolState

namespace Ade

/-- Two ADE states that every decision of a run reads alike: the output ring's four indices,
and each slot's price window and regime detector. The rest may differ: the ring's slots, the
counters, `g_sequence`, and each slot's tick ring, volume window and price and volume EWMAs,
whose z-score `process_market_data` computes and never reads. -/
structure SameView (st st' : Ade) : Prop where
  indices_eq : st.toMind.indices = st'.toMind.indices
  priceStats_eq : ∀ i, (st.symbolStates i).priceStats = (st'.symbolStates i).priceStats
  regimeDetector_eq : ∀ i, (st.symbolStates i).regimeDetector = (st'.symbolStates i).regimeDetector

/-- **Step lemma.** One event, with the gate on or off, keeps two states reading alike, and
logs the same line from both. -/
theorem SameView.stepGated {st st' : Ade} (h : st.SameView st') (gate : Bool) (e : AdeEvent) :
    (st.stepGated gate e).SameView (st'.stepGated gate e) ∧
      st.logOfGated gate e = st'.logOfGated gate e := by
  obtain ⟨hi, hp, hr⟩ := h
  cases e with
  | handle m now =>
    obtain ⟨ts, seq, p⟩ := m
    cases p with
    | marketData d =>
      obtain ⟨hs, ht, -⟩ := stepGated_marketData gate st ts seq d now
      obtain ⟨hs', ht', -⟩ := stepGated_marketData gate st' ts seq d now
      obtain ⟨hf, hp₁, hr₁⟩ := SymbolState.onTick_of_same (hp (symbolSlot d.symbolId))
        (hr (symbolSlot d.symbolId)) ts d
      have hfe := SymbolState.features_of_same (hp (symbolSlot d.symbolId))
        (hr (symbolSlot d.symbolId)) gate ts d
      refine ⟨⟨?_, fun j => ?_, fun j => ?_⟩, ?_⟩
      · rw [ht, ht', hfe]
        split_ifs
        · exact (RingBuffer.tryPush_indices hi _ _).2
        · exact hi
      · rw [hs, hs']
        by_cases hj : j = symbolSlot d.symbolId
        · subst hj; simp only [Function.update_same, hp₁]
        · simp only [Function.update_noteq hj, hp j]
      · rw [hs, hs']
        by_cases hj : j = symbolSlot d.symbolId
        · subst hj; simp only [Function.update_same, hr₁]
        · simp only [Function.update_noteq hj, hr j]
      · simp only [RingBuffer.indices, Prod.mk.injEq] at hi
        simp only [logOfGated, fateGated, hf, hfe, RingBuffer.tryPush_snd_eq, hi]
    | heartbeat hb =>
      exact ⟨⟨(RingBuffer.tryPush_indices hi _ _).2, hp, hr⟩, rfl⟩
    | _ => exact ⟨⟨hi, hp, hr⟩, rfl⟩
  | consumerPop => exact ⟨⟨RingBuffer.tryPop_indices hi, hp, hr⟩, rfl⟩
  | consumerPopBatch k => exact ⟨⟨RingBuffer.tryPopBatch_indices hi k, hp, hr⟩, rfl⟩

/-- **Run lemma.** Two states reading alike log the same over any run, with the gate on or
off. -/
theorem SameView.logGated (gate : Bool) :
    ∀ (es : List AdeEvent) {st st' : Ade}, st.SameView st' →
      (st.runGated gate es).SameView (st'.runGated gate es) ∧
        st.logGated gate es = st'.logGated gate es
  | [], _, _, h => ⟨h, rfl⟩
  | e :: es, _, _, h => by
    obtain ⟨h', hl⟩ := h.stepGated gate e
    obtain ⟨ih, ihl⟩ := SameView.logGated gate es h'
    exact ⟨ih, by simp only [logGated_cons, hl, ihl]⟩

/-- **ADE reads `compute_alpha` at `REGIME_HALF_LIFE` and its double only.** Start-ups whose
weights agree there read alike: the weights of the price and volume EWMAs, at
`EWMA_HALF_LIFE`, feed nothing a decision reads. -/
theorem sameView_init {expAlpha expAlpha' : Int → Int64} (h100 : expAlpha 100 = expAlpha' 100)
    (h200 : expAlpha 200 = expAlpha' 200) : (init expAlpha).SameView (init expAlpha') :=
  ⟨rfl, fun _ => rfl, fun _ => by
    simp [init, SymbolState.init, VolRegimeDetector.create, EWMAStats.create,
      EWMAStats.computeAlpha, regimeHalfLife, h100, h200]⟩

/-- **The slots evolve alike with the gate on and off**: from states with the same slots, any
run leaves the same slots. -/
theorem symbolStates_runGated (gate gate' : Bool) :
    ∀ (es : List AdeEvent) {st st' : Ade}, st.symbolStates = st'.symbolStates →
      (st.runGated gate es).symbolStates = (st'.runGated gate' es).symbolStates
  | [], _, _, h => h
  | e :: es, st, st', h => by
    refine symbolStates_runGated gate gate' es ?_
    cases e with
    | handle m now =>
      obtain ⟨ts, seq, p⟩ := m
      cases p with
      | marketData d =>
        rw [(stepGated_marketData gate st ts seq d now).1,
          (stepGated_marketData gate' st' ts seq d now).1, h]
      | _ => exact h
    | _ => exact h

/-- Forwarded heartbeats, with the gate on or off, push and change nothing else. -/
theorem runGated_heartbeats (gate : Bool) (st : Ade) (m : SageMessage) (hb : Heartbeat)
    (hm : m.payload = .heartbeat hb) (now : BitVec 64) (n : Nat) :
    st.runGated gate (List.replicate n (.handle m now)) =
        { st with toMind := st.toMind.pushAll (List.replicate n m) } ∧
      st.logGated gate (List.replicate n (.handle m now)) = [] := by
  induction n generalizing st with
  | zero => exact ⟨rfl, rfl⟩
  | succ n ih =>
    obtain ⟨h₁, h₂⟩ := ih (st.stepGated gate (.handle m now))
    simp only [List.replicate_succ, runGated_cons, logGated_cons, h₁, h₂, RingBuffer.pushAll_cons]
    simp [stepGated, Ade.step, processMessage, logOfGated, hm]

end Ade

/-- **Gate monotonicity, for a first-in first-out consumer.** From any state with safe views on
the output ring (start-up, say), the runs with the gate on and off over one history of messages
and one schedule of the consumer's calls, in which no `try_pop` follows a `try_pop_batch`, keep
their slots alike, and the gated ring has taken no more signals than the ungated one. Every
prefix of such a schedule is one, so this holds after every event. -/
theorem gate_monotone_of_fifo (st : Ade) (ht : st.toMind.TailOk) (hh : st.toMind.HeadOk)
    (pre post : List AdeEvent) (hpre : ∀ e ∈ pre, ∀ k, e ≠ .consumerPopBatch k)
    (hpost : ∀ e ∈ post, e ≠ .consumerPop) :
    (st.run (pre ++ post)).symbolStates = (st.runGated false (pre ++ post)).symbolStates ∧
      (st.log (pre ++ post)).countP (·.fate = .accepted) ≤
        (st.logGated false (pre ++ post)).countP (·.fate = .accepted) := by
  obtain ⟨h₁, -, -, c₁⟩ := Ade.PairInv.run_of_noBatch pre ⟨rfl, ht, ht, le_rfl⟩ hh hh hpre
  obtain ⟨h₂, c₂⟩ := Ade.PairInv.run_of_noPop post h₁ hpost
  rw [← Ade.runGated_true, ← Ade.logGated_true, Ade.runGated_append, Ade.runGated_append,
    Ade.logGated_append, Ade.logGated_append, List.countP_append, List.countP_append]
  have := h₂.length_le
  exact ⟨h₂.symbolStates_eq, by omega⟩

/-- Start-up, a `try_pop`, then a `try_pop_batch`. -/
theorem gate_monotone_of_fifo_pop_then_batch :
    ((Ade.init fun _ => 0).run ([.consumerPop] ++ [.consumerPopBatch 16])).symbolStates =
        ((Ade.init fun _ => 0).runGated false
          ([.consumerPop] ++ [.consumerPopBatch 16])).symbolStates ∧
      ((Ade.init fun _ => 0).log ([.consumerPop] ++ [.consumerPopBatch 16])).countP
          (·.fate = .accepted) ≤
        ((Ade.init fun _ => 0).logGated false ([.consumerPop] ++ [.consumerPopBatch 16])).countP
          (·.fate = .accepted) :=
  gate_monotone_of_fifo (Ade.init fun _ => 0) (RingBuffer.tailOk_empty 0 _)
    (RingBuffer.headOk_empty 0 _) [.consumerPop] [.consumerPopBatch 16] (by simp) (by simp)

/-! ## (4) A consumer that pops after a batch -/

namespace Ade

/-- A tick of symbol `symbolId` at raw price `price`: quantity `1.0`, a trade. -/
def priceTick (symbolId : BitVec 64) (price : Int64) : AdeEvent :=
  .handle (.createMarketData 0 0 ⟨⟨price⟩, ⟨priceScale⟩, symbolId, 4, 0⟩) 0

/-- The opening of the failing run. Symbol 0 ticks at `1.0` and `2.0`, whose signal both runs
take and the consumer pops; nine ticks at `1.5` then one at `1.0` bring the regime detector to
a regime change at a capped z-score of `-1.86`, a signal only the ungated ring takes. The
consumer's batch takes it, a `try_pop` on the stale `cached_head_` moves the ungated ring's
`tail_` past its `head_`, and a batch of 65536 moves it further. -/
def gateWarmup : List AdeEvent :=
  [priceTick 0 priceScale, priceTick 0 (2 * priceScale), .consumerPop] ++
    List.replicate 9 (priceTick 0 (priceScale + priceScale / 2)) ++
    [priceTick 0 priceScale, .consumerPopBatch 16, .consumerPop, .consumerPopBatch 65536]

/-- The close of the failing run: symbol 1 ticks at `1.0`, `2.0` and `3.0`; the last two
signal in both runs. -/
def gateTail : List AdeEvent :=
  [priceTick 1 priceScale, priceTick 1 (2 * priceScale), priceTick 1 (3 * priceScale)]

/-- The failing run: the opening, 65534 forwarded heartbeats, the close. -/
def gateRun : List AdeEvent :=
  gateWarmup ++ List.replicate 65534 (.handle (.createHeartbeat 0 0 0) 0) ++ gateTail

/-- **The failing run, cut at its heartbeats.** The heartbeats log nothing and, while
`head_ - cached_tail_` leaves room, only move `head_`, whatever `tail_` is. So the run logs the
opening's lines, then the close's from the state after the opening with any ring whose indices
are those, `head_` moved on by 65534; the ring's slots play no part. -/
theorem logGated_gateRun (gate : Bool) (st : Ade) (rb : RingBuffer SageMessage cap65536)
    (hroom : ((st.runGated gate gateWarmup).toMind.head -
      (st.runGated gate gateWarmup).toMind.cachedTail).toNat + 65534 ≤ 65536)
    (hrb : rb.indices = ((st.runGated gate gateWarmup).toMind.head + BitVec.ofNat 64 65534,
      (st.runGated gate gateWarmup).toMind.cachedTail, (st.runGated gate gateWarmup).toMind.tail,
      (st.runGated gate gateWarmup).toMind.cachedHead)) :
    st.logGated gate gateRun = st.logGated gate gateWarmup ++
      ({ (st.runGated gate gateWarmup) with toMind := rb } : Ade).logGated gate gateTail := by
  rw [gateRun, logGated_append, logGated_append, runGated_append]
  generalize st.runGated gate gateWarmup = st' at hroom hrb ⊢
  obtain ⟨hrun, hlog⟩ := runGated_heartbeats gate st' (.createHeartbeat 0 0 0) ⟨0, 0, 0⟩ rfl 0 65534
  have hi := RingBuffer.pushes_of_cachedRoom (.createHeartbeat 0 0 0) 65534 st'.toMind hroom
  rw [hlog, hrun, List.append_nil]
  generalize st'.toMind.pushAll (List.replicate 65534 (.createHeartbeat 0 0 0)) = rb' at hi ⊢
  have hv : SameView { st' with toMind := rb' } { st' with toMind := rb } :=
    ⟨hi.trans hrb.symm, fun _ => rfl, fun _ => rfl⟩
  rw [(hv.logGated gate gateTail).2]

end Ade

/-- `compute_alpha`'s values at the half-lives ADE builds its EWMAs with, `EWMA_HALF_LIFE`,
`REGIME_HALF_LIFE` and its double: `(1 - exp(-0.693147 / h)) * 10000`, truncated, is `137.67`,
`69.07` and `34.59` for `h = 50`, `100`, `200`. -/
def computeAlphaValues (halfLife : Int) : Int64 :=
  if halfLife = 50 then 137 else if halfLife = 100 then 69 else if halfLife = 200 then 34 else 0

set_option maxRecDepth 20000 in
/-- **Gate monotonicity fails for a consumer that pops after a batch.** The slots evolve alike
with the gate on and off, on every run. But with `compute_alpha`'s values at
`REGIME_HALF_LIFE` and its double, the failing run ends with the gated ring having taken three
signals and the ungated ring two. The regime change holds back one signal from the gated ring
only. The consumer's `try_pop` after its batch then runs the ungated ring's `tail_` past its
`head_`, and the ring refuses both signals of the close, which the gated ring takes. -/
theorem gate_monotonicity_broken_by_batch (expAlpha : Int → Int64) (h100 : expAlpha 100 = 69)
    (h200 : expAlpha 200 = 34) :
    (∀ (st : Ade) (es : List AdeEvent),
        (st.run es).symbolStates = (st.runGated false es).symbolStates) ∧
      ((Ade.init expAlpha).log Ade.gateRun).countP (·.fate = .accepted) = 3 ∧
      ((Ade.init expAlpha).logGated false Ade.gateRun).countP (·.fate = .accepted) = 2 := by
  have hv := @Ade.sameView_init expAlpha computeAlphaValues (by rw [h100]; rfl) (by rw [h200]; rfl)
  refine ⟨fun st es => ?_, ?_, ?_⟩
  · rw [← Ade.runGated_true]
    exact Ade.symbolStates_runGated true false es rfl
  · -- the gated ring after the heartbeats: `head_ = 65535`, `tail_ = 1`
    rw [← Ade.logGated_true, (hv.logGated true Ade.gateRun).2,
      Ade.logGated_gateRun true _ ⟨65535, 0, 1, 1, fun _ => .zeroed⟩ (by decide) (by decide)]
    decide
  · -- the ungated ring: `head_ = 65536`, `tail_ = 65539`, run past it
    rw [(hv.logGated false Ade.gateRun).2,
      Ade.logGated_gateRun false _ ⟨65536, 0, 65539, 1, fun _ => .zeroed⟩ (by decide) (by decide)]
    decide

/-- At `compute_alpha`'s own values. -/
theorem gate_monotonicity_broken_by_batch_computeAlpha :
    (computeAlphaValues 100 = 69 ∧ computeAlphaValues 200 = 34) ∧
      (∀ (st : Ade) (es : List AdeEvent),
          (st.run es).symbolStates = (st.runGated false es).symbolStates) ∧
        ((Ade.init computeAlphaValues).log Ade.gateRun).countP (·.fate = .accepted) = 3 ∧
        ((Ade.init computeAlphaValues).logGated false Ade.gateRun).countP
          (·.fate = .accepted) = 2 :=
  ⟨⟨rfl, rfl⟩, gate_monotonicity_broken_by_batch computeAlphaValues rfl rfl⟩

end Sage
