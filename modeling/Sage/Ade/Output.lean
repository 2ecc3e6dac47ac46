import Sage.Ade.Engine
import Sage.Infra.RingBufferQueue

/-! # What ADE puts on its output ring

`process_market_data` offers a `Signal` for a tick whose winsorized z-score clears
`PRICE_SCALE / 2` outside a regime change, and `process_batch` forwards heartbeats; both go to
`g_ade_to_mind_buffer`, which ADE itself never pops. The confidence of a signal is the
z-score's `std::abs`, so it ranges up to `MAX_ZSCORE = 3 · PRICE_SCALE`, past the `1.0` of the
spec's table of message fields.

* **`Signal.FromAde`** — the shape of ADE's signals: direction `+1` or `-1` (never `0`),
  strategy `1`, confidence above `PRICE_SCALE / 2` and at most `MAX_ZSCORE`.
* **`abs_winsorize_le`** — winsorization bounds the z-score's `std::abs` by `MAX_ZSCORE`.
* **`winsorize_idempotent`** — capping, and winsorizing, twice is doing it once.
* **`Ade.processMessages_fromAde`** — whatever ADE processes, the signals it offers have that
  shape, and its output ring holds only such signals and heartbeats. -/

namespace Sage

/-- The shape of a signal ADE builds: direction `+1` or `-1`, strategy `1`, and confidence
above `PRICE_SCALE / 2` and at most `MAX_ZSCORE`. -/
def Signal.FromAde (s : Signal) : Prop :=
  (s.direction.val = 1 ∨ s.direction.val = -1) ∧ s.strategyId = 1 ∧
    (priceScale / 2).val < s.confidence.raw.val ∧ s.confidence.raw.val ≤ maxZscore.val

instance (s : Signal) : Decidable s.FromAde := inferInstanceAs (Decidable (_ ∧ _ ∧ _ ∧ _))

/-- Whether ADE may place a message on `g_ade_to_mind_buffer`: a signal of its shape, or a
heartbeat. -/
def SageMessage.FromAde (m : SageMessage) : Prop :=
  match m.payload with
  | .signal s => s.FromAde
  | .heartbeat _ => True
  | _ => False

/-- **Winsorization bounds the z-score's `std::abs` by `MAX_ZSCORE`.** An outlier is capped
to `±MAX_ZSCORE`; any other z-score is within already, `INT64_MIN` included, whose `std::abs`
stays negative. -/
theorem abs_winsorize_le (z : Int64) : (winsorize z).abs.val ≤ maxZscore.val := by
  have hmax : maxZscore.val = 300000000 := by decide
  unfold winsorize
  split
  · unfold ZScoreCapper.cap
    split_ifs with h₁ h₂
    · decide
    · decide
    · have hneg : (-maxZscore).val = -300000000 := by decide
      simp only [zscoreCapper, Int64.lt_def, not_lt, hmax, hneg] at h₁ h₂ ⊢
      rw [Int64.val_abs_of_lt (by omega), abs_le]
      omega
  · next h => simpa [ZScoreCapper.isOutlier, zscoreCapper] using h

/-- **Capping twice is capping once**, for a capper whose `max_z_` is not negative (the
constructor does not check it). -/
theorem ZScoreCapper.cap_cap (c : ZScoreCapper) (hc : 0 ≤ c.maxZ.val) (z : Int64) :
    c.cap (c.cap z) = c.cap z := by
  have hneg : (-c.maxZ).val = -c.maxZ.val :=
    Int64.bmod_of_range (by have := c.maxZ.val_lt; omega) (by have := c.maxZ.val_lt; omega)
  unfold cap
  split_ifs <;> first | rfl | (simp only [Int64.lt_def, hneg] at *; omega)

/-- A negative `max_z_` flips the sign at each cap. -/
example :
    (⟨-5⟩ : ZScoreCapper).cap ((⟨-5⟩ : ZScoreCapper).cap 0) ≠ (⟨-5⟩ : ZScoreCapper).cap 0 := by
  decide

/-- A winsorized z-score is no outlier, so winsorizing it again keeps it. -/
theorem winsorize_winsorize (z : Int64) : winsorize (winsorize z) = winsorize z := by
  have hin : zscoreCapper.isOutlier (winsorize z) = false := by
    simpa [ZScoreCapper.isOutlier, zscoreCapper] using abs_winsorize_le z
  rw [winsorize, hin]
  rfl

/-- **Winsorization is idempotent** (the spec's law): `g_zscore_capper.cap` applied twice is
applied once, and so is the winsorization of `process_market_data`. -/
theorem winsorize_idempotent (z : Int64) :
    zscoreCapper.cap (zscoreCapper.cap z) = zscoreCapper.cap z ∧
      winsorize (winsorize z) = winsorize z :=
  ⟨zscoreCapper.cap_cap (by decide) z, winsorize_winsorize z⟩

namespace TickFeatures

/-- A signal built from a z-score within `MAX_ZSCORE` that clears the gate has ADE's shape. -/
theorem signal_fromAde {f : TickFeatures} (data : MarketData)
    (hz : f.zScore.abs.val ≤ maxZscore.val) (hs : f.shouldSignal = true) :
    (f.signal data).FromAde := by
  simp only [shouldSignal, Bool.and_eq_true, decide_eq_true_eq, Int64.lt_def] at hs
  refine ⟨?_, rfl, hs.1, hz⟩
  simp only [signal]
  split <;> decide

/-- The signal a tick emits has ADE's shape. -/
theorem fromAde_of_mem_emitted (s : SymbolState) (timestampNs : BitVec 64) (data : MarketData)
    {sig : Signal} (h : sig ∈ (s.onTick timestampNs data).2.emitted data) : sig.FromAde := by
  unfold emitted at h
  split at h
  · next hs =>
    cases h
    exact signal_fromAde data (by rw [SymbolState.onTick_zScore]; exact abs_winsorize_le _) hs
  · cases h

end TickFeatures

namespace Ade

/-- `process_market_data` pushes the tick's signal onto the output ring exactly when the tick
emits one. -/
theorem processMarketData_toMind (st : Ade) (timestampNs : BitVec 64) (data : MarketData)
    (now : BitVec 64) :
    (st.processMarketData timestampNs data now).1.toMind =
      if ((st.symbolStates (symbolSlot data.symbolId)).onTick timestampNs data).2.shouldSignal
      then (st.toMind.tryPush (.createSignal now (st.sequence + 1)
        (((st.symbolStates (symbolSlot data.symbolId)).onTick timestampNs data).2.signal data))).1
      else st.toMind := by
  unfold processMarketData
  dsimp only
  split
  · rfl
  · split <;> rfl

/-- A push of a message of ADE's shape keeps the ring to that shape. -/
theorem tryPush_fromAde {rb : RingBuffer SageMessage cap65536} {y : SageMessage}
    (ht : rb.TailOk) (h : ∀ x ∈ rb.contents, x.FromAde) (hy : y.FromAde) :
    (rb.tryPush y).1.TailOk ∧ ∀ x ∈ (rb.tryPush y).1.contents, x.FromAde := by
  obtain ⟨ht', L, hL, hsub⟩ := rb.tryPush_contents_sublist y ht
  refine ⟨ht', fun x hx => ?_⟩
  rw [hL, List.mem_append] at hx
  rcases hx with hx | hx
  · exact h x hx
  · rw [List.mem_singleton.1 (hsub.subset hx)]
    exact hy

/-- **One message keeps ADE's output to its shape**: the signal it offers, if any, and the
output ring, whose producer view stays safe. -/
theorem processMessage_fromAde (st : Ade) (m : SageMessage) (now : BitVec 64)
    (ht : st.toMind.TailOk) (h : ∀ x ∈ st.toMind.contents, x.FromAde) :
    (∀ sig ∈ (st.processMessage m now).2, sig.FromAde) ∧
      (st.processMessage m now).1.toMind.TailOk ∧
      ∀ x ∈ (st.processMessage m now).1.toMind.contents, x.FromAde := by
  obtain ⟨timestampNs, seq, payload⟩ := m
  cases payload with
  | marketData d =>
    refine ⟨fun sig hsig => TickFeatures.fromAde_of_mem_emitted _ _ _ hsig, ?_⟩
    simp only [processMessage]
    rw [processMarketData_toMind]
    split
    · next hs =>
      exact tryPush_fromAde ht h (TickFeatures.signal_fromAde d
        (by rw [SymbolState.onTick_zScore]; exact abs_winsorize_le _) hs)
    · exact ⟨ht, h⟩
  | heartbeat hb =>
    exact ⟨(fun _ hs => by cases hs), tryPush_fromAde ht h trivial⟩
  | _ => exact ⟨(fun _ hs => by cases hs), ht, h⟩

/-- A sequence of messages keeps ADE's output to its shape. -/
theorem processMessages_fromAde_of : ∀ (st : Ade) (ms : List (SageMessage × BitVec 64)),
    st.toMind.TailOk → (∀ x ∈ st.toMind.contents, x.FromAde) →
    (∀ sig ∈ (st.processMessages ms).2, sig.FromAde) ∧
      (st.processMessages ms).1.toMind.TailOk ∧
      ∀ x ∈ (st.processMessages ms).1.toMind.contents, x.FromAde
  | st, [], ht, h => ⟨(fun _ hs => by cases hs), ht, h⟩
  | st, (m, now) :: ms, ht, h => by
    obtain ⟨hsig, ht', h'⟩ := processMessage_fromAde st m now ht h
    obtain ⟨hsigs, ht'', h''⟩ := processMessages_fromAde_of _ ms ht' h'
    refine ⟨fun sig hs => ?_, ht'', h''⟩
    simp only [processMessages, List.mem_append, Option.mem_toList] at hs
    rcases hs with hs | hs
    · exact hsig sig hs
    · exact hsigs sig hs

/-- **ADE emits only signals of its shape.** Whatever messages ADE processes from start-up,
in whatever order, every signal it offers, and every message on `g_ade_to_mind_buffer`, is a
forwarded heartbeat or a signal with direction `+1` or `-1`, strategy `1`, and confidence
above `PRICE_SCALE / 2` and at most `MAX_ZSCORE = 3 · PRICE_SCALE`. -/
theorem processMessages_fromAde (expAlpha : Int → Int64) (ms : List (SageMessage × BitVec 64)) :
    (∀ sig ∈ ((init expAlpha).processMessages ms).2, sig.FromAde) ∧
      ∀ m ∈ ((init expAlpha).processMessages ms).1.toMind.contents, m.FromAde := by
  have hnil : (init expAlpha).toMind.contents = [] := by
    simp [init, RingBuffer.contents, RingBuffer.empty]
  obtain ⟨hsig, -, hring⟩ := processMessages_fromAde_of (init expAlpha) ms
    (RingBuffer.tailOk_empty 0 _) (by rw [hnil]; exact fun _ hs => by cases hs)
  exact ⟨hsig, hring⟩

end Ade

end Sage
