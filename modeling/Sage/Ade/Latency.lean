import Sage.Core.Timing

/-! # Latency histograms (`ade/latency_tracker.hpp`)

ADE records, for every market-data message, the TSC ticks it spent on the message and the gap
between the message's timestamp and the decision time, each into a `LatencyHistogram`: 128
buckets of 100 ns, the last one also counting every longer latency, with the count, sum and
extremes of the samples. The heartbeat prints percentiles and means of them.

* **`LatencyHistogram.Tracks`** — what `record()` keeps over any run from `reset()`: the
  count, one bucket per sample, the wrapped sum and the extremes; **`tracks_recordAll`**.
* **`LatencyHistogram.percentile_spec`** — for every target rank `1 ≤ target ≤ count()`,
  `percentile()` is the upper edge of the bucket holding the `target`-th smallest sample; it
  never reaches the `max_latency_` fallback, and it reports `12800` ns for any sample in the
  overflow bucket, however long.
* **`LatencyBreakdown.bottleneck_spec`** — `bottleneck()` names the first stage with the
  largest time, or `"unknown"` when every stage took `0` ns. -/

namespace Sage

/-- `LatencyHistogram`: the counters of the `NUM_BUCKETS = 128` buckets, the number and the
`uint64_t` sum of the samples, and the smallest and largest sample. -/
structure LatencyHistogram where
  buckets : Fin 128 → BitVec 64
  totalCount : BitVec 64
  totalLatency : BitVec 64
  minLatency : BitVec 64
  maxLatency : BitVec 64

namespace LatencyHistogram

/-! ## (1) The model -/

/-- `BUCKET_SIZE_NS`. -/
def bucketSizeNs : Nat := 100

/-- The bucket `record(latency_ns)` bumps: `latency_ns / BUCKET_SIZE_NS`, or
`OVERFLOW_BUCKET = 127` from `NUM_BUCKETS` on. -/
def bucketOf (latencyNs : BitVec 64) : Fin 128 :=
  if h : latencyNs.toNat / bucketSizeNs < 128 then ⟨latencyNs.toNat / bucketSizeNs, h⟩ else 127

/-- `reset()`, which the constructor calls: empty buckets, `min_latency_ = UINT64_MAX`. -/
def reset : LatencyHistogram := ⟨fun _ => 0, 0, 0, BitVec.allOnes 64, 0⟩

/-- `record(latency_ns)`. -/
def record (h : LatencyHistogram) (latencyNs : BitVec 64) : LatencyHistogram :=
  let bucket := bucketOf latencyNs
  { buckets := Function.update h.buckets bucket (h.buckets bucket + 1)
    totalCount := h.totalCount + 1
    totalLatency := h.totalLatency + latencyNs
    minLatency := if latencyNs < h.minLatency then latencyNs else h.minLatency
    maxLatency := if h.maxLatency < latencyNs then latencyNs else h.maxLatency }

/-- The loop of `percentile()` over the buckets `is`, from the count `cumulative` of those
before them: the first bucket `i` at which the cumulative count reaches `target` gives
`(i + 1) * BUCKET_SIZE_NS`; past the last bucket, `max_latency_`. -/
def scanBuckets (h : LatencyHistogram) (target : BitVec 64) :
    List (Fin 128) → BitVec 64 → BitVec 64
  | [], _ => h.maxLatency
  | i :: is, cumulative =>
    if target ≤ cumulative + h.buckets i then BitVec.ofNat 64 ((i.val + 1) * bucketSizeNs)
    else scanBuckets h target is (cumulative + h.buckets i)

/-- `percentile(pct)` for `target = (uint64_t)(total_count_ * pct / 100.0)`, the rank the
`double` arithmetic computes: `0` for an empty histogram, else the loop over all buckets. -/
def percentile (h : LatencyHistogram) (target : BitVec 64) : BitVec 64 :=
  if h.totalCount = 0 then 0 else scanBuckets h target (List.finRange 128) 0

/-- `mean()`: `total_latency_ / total_count_`, or `0` for an empty histogram. -/
def mean (h : LatencyHistogram) : BitVec 64 :=
  if h.totalCount = 0 then 0 else h.totalLatency / h.totalCount

/-- `record(x)` for each sample `x` of `ls` in turn. -/
def recordAll (h : LatencyHistogram) (ls : List (BitVec 64)) : LatencyHistogram :=
  ls.foldl record h

theorem recordAll_append_singleton (h : LatencyHistogram) (ls : List (BitVec 64))
    (x : BitVec 64) : h.recordAll (ls ++ [x]) = (h.recordAll ls).record x := by
  rw [recordAll, recordAll, List.foldl_append, List.foldl_cons, List.foldl_nil]

/-! ## (2) What `record()` keeps -/

/-- What a histogram holds after the samples `ls` from `reset()`: their number, in each bucket
the number of samples that land in it, their sum modulo `2^64`, and their extremes, with
`UINT64_MAX` and `0` standing for none. -/
structure Tracks (h : LatencyHistogram) (ls : List (BitVec 64)) : Prop where
  count_eq : h.totalCount.toNat = ls.length
  buckets_eq : ∀ i, (h.buckets i).toNat = ls.countP fun x => bucketOf x = i
  latency_eq : h.totalLatency.toNat = (ls.map BitVec.toNat).sum % 2 ^ 64
  min_eq : h.minLatency.toNat = (ls.map BitVec.toNat).foldl min (2 ^ 64 - 1)
  max_eq : h.maxLatency.toNat = (ls.map BitVec.toNat).foldl max 0

theorem tracks_reset : reset.Tracks [] :=
  ⟨rfl, fun _ => rfl, rfl, by simp [reset], rfl⟩

/-- One sample more, while fewer than `2^64 - 1` are in. -/
theorem Tracks.record {h : LatencyHistogram} {ls : List (BitVec 64)} (ht : h.Tracks ls)
    (hls : ls.length + 1 < 2 ^ 64) (x : BitVec 64) : (h.record x).Tracks (ls ++ [x]) := by
  have hcnt : ∀ i, ls.countP (fun x => bucketOf x = i) ≤ ls.length :=
    fun _ => List.countP_le_length _
  refine ⟨?_, fun i => ?_, ?_, ?_, ?_⟩
  · simp only [LatencyHistogram.record, BitVec.toNat_add, ht.count_eq, List.length_append,
      List.length_singleton]
    exact Nat.mod_eq_of_lt (by simpa using hls)
  · simp only [LatencyHistogram.record, List.countP_append, List.countP_singleton]
    by_cases hi : bucketOf x = i
    · subst hi
      rw [Function.update_same, BitVec.toNat_add, ht.buckets_eq, if_pos (decide_eq_true rfl),
        show (1 : BitVec 64).toNat = 1 from rfl]
      have := hcnt (bucketOf x)
      exact Nat.mod_eq_of_lt (by simp; omega)
    · rw [Function.update_noteq (Ne.symm hi), ht.buckets_eq, decide_eq_false hi]
      rfl
  · simp only [LatencyHistogram.record, BitVec.toNat_add, ht.latency_eq, List.map_append,
      List.map_singleton, List.sum_append, List.sum_singleton, Nat.mod_add_mod]
  · simp only [LatencyHistogram.record, List.map_append, List.map_singleton, List.foldl_append,
      List.foldl_cons, List.foldl_nil, ← ht.min_eq]
    split <;> rename_i hx <;> rw [BitVec.lt_def] at hx <;> omega
  · simp only [LatencyHistogram.record, List.map_append, List.map_singleton, List.foldl_append,
      List.foldl_cons, List.foldl_nil, ← ht.max_eq]
    split <;> rename_i hx <;> rw [BitVec.lt_def] at hx <;> omega

/-- **`record()` summarises the samples.** After any samples `x_1 … x_n`, `n < 2^64`, from
`reset()`: `count()` is `n`, bucket `i` counts the samples with `min(x / 100, 127) = i`,
`total_latency_` is their sum modulo `2^64`, and `min()`, `max()` are their smallest and
largest (`UINT64_MAX` and `0` when there are none). -/
theorem tracks_recordAll (ls : List (BitVec 64)) (hls : ls.length < 2 ^ 64) :
    (reset.recordAll ls).Tracks ls := by
  induction ls using List.reverseRecOn with
  | nil => exact tracks_reset
  | append_singleton ls x ih =>
    rw [recordAll_append_singleton]
    simp only [List.length_append, List.length_singleton] at hls
    exact (ih (by omega)).record hls x

theorem tracks_recordAll_three : (reset.recordAll [5, 150, 20000]).Tracks [5, 150, 20000] :=
  tracks_recordAll [5, 150, 20000] (by decide)

/-! ## (3) `percentile()` -/

/-- Bucket `j` adds its samples to those of the buckets below it. -/
theorem countP_bucketOf_lt_succ (ls : List (BitVec 64)) (j : Fin 128) :
    ls.countP (fun x => (bucketOf x).val < j.val + 1) =
      ls.countP (fun x => (bucketOf x).val < j.val) + ls.countP (fun x => bucketOf x = j) := by
  induction ls with
  | nil => rfl
  | cons x ls ih =>
    simp only [List.countP_cons, ih]
    split_ifs <;> simp only [decide_eq_true_eq, Fin.ext_iff] at * <;> omega

/-- Below the overflow bucket, the buckets under `j` hold exactly the samples under `100 j`
ns. -/
theorem bucketOf_lt_iff (x : BitVec 64) {j : Nat} (hj : j ≤ 127) :
    (bucketOf x).val < j ↔ x.toNat < j * 100 := by
  unfold bucketOf bucketSizeNs
  split
  · simp only; omega
  · show 127 < j ↔ _; omega

theorem countP_toNat_lt (ls : List (BitVec 64)) {j : Nat} (hj : j ≤ 127) :
    ls.countP (fun x => x.toNat < j * 100) = ls.countP (fun x => (bucketOf x).val < j) :=
  List.countP_congr fun x _ => by simpa using (bucketOf_lt_iff x hj).symm

/-- The buckets from `k` on: bucket `k`, then those from `k + 1` on. -/
theorem drop_finRange {n k : Nat} (hk : k < n) :
    (List.finRange n).drop k = ⟨k, hk⟩ :: (List.finRange n).drop (k + 1) := by
  rw [List.drop_eq_getElem_cons (by rw [List.length_finRange]; exact hk), List.getElem_finRange,
    Fin.cast_mk]

/-- **The loop of `percentile()`.** Entered at bucket `k` with the count of the samples below
it, short of `target`, the loop stops at the first bucket `i` whose cumulative count reaches
`target`, returning its upper edge; with `target ≤ count()` it stops before the end. -/
theorem scanBuckets_spec {h : LatencyHistogram} {ls : List (BitVec 64)} (ht : h.Tracks ls)
    (hls : ls.length < 2 ^ 64) {target : BitVec 64} (hT : target.toNat ≤ ls.length) :
    ∀ (m k : Nat) (cumulative : BitVec 64), k + m = 128 →
      cumulative.toNat = ls.countP (fun x => (bucketOf x).val < k) →
      ls.countP (fun x => (bucketOf x).val < k) < target.toNat →
      ∃ i, k ≤ i ∧ i < 128 ∧
        scanBuckets h target ((List.finRange 128).drop k) cumulative =
          BitVec.ofNat 64 ((i + 1) * bucketSizeNs) ∧
        ls.countP (fun x => (bucketOf x).val < i) < target.toNat ∧
        target.toNat ≤ ls.countP (fun x => (bucketOf x).val < i + 1)
  | 0, k, _, hk, _, hlt => by
    rw [show k = 128 by omega, List.countP_eq_length.2 fun x _ => by simp [(bucketOf x).isLt]]
      at hlt
    omega
  | m + 1, k, cumulative, hk, hcum, hlt => by
    have hk' : k < 128 := by omega
    have hsum : (cumulative + h.buckets ⟨k, hk'⟩).toNat =
        ls.countP (fun x => (bucketOf x).val < k + 1) := by
      rw [BitVec.toNat_add, hcum, ht.buckets_eq, ← countP_bucketOf_lt_succ ls ⟨k, hk'⟩]
      exact Nat.mod_eq_of_lt (lt_of_le_of_lt (List.countP_le_length _) hls)
    rw [drop_finRange hk', scanBuckets]
    split
    · next hge =>
      rw [BitVec.le_def, hsum] at hge
      exact ⟨k, le_rfl, hk', rfl, hlt, hge⟩
    · next hlt' =>
      rw [BitVec.le_def, hsum] at hlt'
      obtain ⟨i, hki, hi, he, h₁, h₂⟩ :=
        scanBuckets_spec ht hls hT m (k + 1) _ (by omega) hsum (by omega)
      exact ⟨i, by omega, hi, he, h₁, h₂⟩

/-- **`percentile()` is the bucket of the `target`-th smallest sample.** After any samples
`x_1 … x_n`, `n < 2^64`, from `reset()`, and for every rank `1 ≤ target ≤ n`, `percentile()`
returns the upper edge `(i + 1) * 100` ns of a bucket `i < 128` such that fewer than `target`
samples lie below `100 i` ns and, unless `i` is the overflow bucket `127`, at least `target`
lie below `100 (i + 1)` ns. It never falls through to `max_latency_`, and it never reports more
than `12800` ns, however long the samples of the overflow bucket are. -/
theorem percentile_spec (ls : List (BitVec 64)) (hls : ls.length < 2 ^ 64) (target : BitVec 64)
    (h₁ : 0 < target.toNat) (h₂ : target.toNat ≤ ls.length) :
    ∃ i, i < 128 ∧ ((reset.recordAll ls).percentile target).toNat = (i + 1) * 100 ∧
      ls.countP (fun x => x.toNat < i * 100) < target.toNat ∧
      (i < 127 → target.toNat ≤ ls.countP (fun x => x.toNat < (i + 1) * 100)) := by
  have ht := tracks_recordAll ls hls
  have hne : (reset.recordAll ls).totalCount ≠ 0 := fun h0 => by
    have := ht.count_eq; rw [h0] at this; simp at this; omega
  obtain ⟨i, -, hi, he, hlo, hhi⟩ :=
    scanBuckets_spec ht hls h₂ 128 0 0 rfl (by simp) (by simpa using h₁)
  rw [List.drop_zero] at he
  refine ⟨i, hi, ?_, ?_, fun hi' => ?_⟩
  · rw [percentile, if_neg hne, he, BitVec.toNat_ofNat, bucketSizeNs]
    exact Nat.mod_eq_of_lt (by omega)
  · rwa [countP_toNat_lt ls (by omega)]
  · rwa [countP_toNat_lt ls (by omega)]

theorem percentile_spec_four :
    ∃ i, i < 128 ∧ ((reset.recordAll [50, 150, 250, 30000]).percentile 4).toNat = (i + 1) * 100 ∧
      [50, 150, 250, 30000].countP (fun x : BitVec 64 => x.toNat < i * 100) < 4 ∧
      (i < 127 → 4 ≤ [50, 150, 250, 30000].countP (fun x : BitVec 64 => x.toNat < (i + 1) * 100)) :=
  percentile_spec [50, 150, 250, 30000] (by decide) 4 (by decide) (by decide)

end LatencyHistogram

/-! ## (4) The tracker and the stage breakdown -/

/-- `LatencyTracker`: its `TSCCalibrator` and the histograms of end-to-end latency, of ADE's
processing time and of queue wait. -/
structure LatencyTracker where
  tscCalibrator : TSCCalibrator
  e2e : LatencyHistogram
  processing : LatencyHistogram
  queue : LatencyHistogram

namespace LatencyTracker

/-- `LatencyTracker()`, with the calibration its `TSCCalibrator` measured. -/
def create (tscCalibrator : TSCCalibrator) : LatencyTracker :=
  ⟨tscCalibrator, .reset, .reset, .reset⟩

/-- `record_e2e(exchange_ts, decision_ts)`: the gap, if the decision comes later. -/
def recordE2e (t : LatencyTracker) (exchangeTs decisionTs : BitVec 64) : LatencyTracker :=
  if exchangeTs < decisionTs then { t with e2e := t.e2e.record (decisionTs - exchangeTs) }
  else t

/-- `record_processing(start_tsc, end_tsc)`: the ticks between, in nanoseconds. -/
def recordProcessing (t : LatencyTracker) (startTsc endTsc : BitVec 64) : LatencyTracker :=
  { t with processing := t.processing.record (t.tscCalibrator.tscToNs (endTsc - startTsc)) }

/-- `record_queue_wait(enqueue_ts, dequeue_ts)`: the wait, if the dequeue comes later. -/
def recordQueueWait (t : LatencyTracker) (enqueueTs dequeueTs : BitVec 64) : LatencyTracker :=
  if enqueueTs < dequeueTs then { t with queue := t.queue.record (dequeueTs - enqueueTs) }
  else t

/-- `reset()`. -/
def reset (t : LatencyTracker) : LatencyTracker :=
  { t with e2e := .reset, processing := .reset, queue := .reset }

end LatencyTracker

/-- `LatencyBreakdown`: the time of each pipeline stage and their total. -/
structure LatencyBreakdown where
  networkNs : BitVec 64
  parsingNs : BitVec 64
  queueNs : BitVec 64
  analyticsNs : BitVec 64
  signalNs : BitVec 64
  totalNs : BitVec 64

namespace LatencyBreakdown

/-- `record_total()`: the sum of the five stages, in `uint64_t`. -/
def recordTotal (b : LatencyBreakdown) : LatencyBreakdown :=
  { b with totalNs := b.networkNs + b.parsingNs + b.queueNs + b.analyticsNs + b.signalNs }

/-- The stages in the order `bottleneck()` tests them, with their names. -/
def stages (b : LatencyBreakdown) : List (BitVec 64 × String) :=
  [(b.networkNs, "network"), (b.parsingNs, "parsing"), (b.queueNs, "queue"),
    (b.analyticsNs, "analytics"), (b.signalNs, "signal")]

/-- One test of `bottleneck()`: `if (stage_ns > max_stage) { max_stage = stage_ns; name =
stage; }`. -/
def pickLarger (best stage : BitVec 64 × String) : BitVec 64 × String :=
  if best.1 < stage.1 then stage else best

/-- `bottleneck()`: the five tests from `max_stage = 0`, `name = "unknown"`. -/
def bottleneck (b : LatencyBreakdown) : String :=
  (b.stages.foldl pickLarger (0, "unknown")).2

/-- **The tests pick the first largest stage.** Over any list of stages, the five-way test
either keeps `(0, "unknown")`, when every stage is `0`, or ends on a stage strictly larger than
every stage before it and at least every stage after it. -/
theorem foldl_pickLarger (l : List (BitVec 64 × String)) :
    (l.foldl pickLarger (0, "unknown") = (0, "unknown") ∧ ∀ s ∈ l, s.1 = 0) ∨
      ∃ pre post, l = pre ++ l.foldl pickLarger (0, "unknown") :: post ∧
        0 < (l.foldl pickLarger (0, "unknown")).1.toNat ∧
        (∀ s ∈ pre, s.1 < (l.foldl pickLarger (0, "unknown")).1) ∧
        ∀ s ∈ post, s.1 ≤ (l.foldl pickLarger (0, "unknown")).1 := by
  induction l using List.reverseRecOn with
  | nil => exact Or.inl ⟨rfl, by simp⟩
  | append_singleton l s ih =>
    rw [List.foldl_append, List.foldl_cons, List.foldl_nil]
    generalize l.foldl pickLarger (0, "unknown") = r at ih
    unfold pickLarger
    split
    · next hlt =>
      -- the new stage is the largest so far
      right
      refine ⟨l, [], rfl, by rw [BitVec.lt_def] at hlt; omega, fun t ht => ?_, by simp⟩
      rcases ih with ⟨rfl, h0⟩ | ⟨pre, post, rfl, -, hpre, hpost⟩
      · rw [h0 t ht]; exact hlt
      · rcases List.mem_append.1 ht with ht | ht
        · exact BitVec.lt_def.2 (Nat.lt_trans (hpre t ht) hlt)
        rcases List.mem_cons.1 ht with rfl | ht
        · exact hlt
        · exact BitVec.lt_def.2 (Nat.lt_of_le_of_lt (hpost t ht) hlt)
    · next hge =>
      rw [BitVec.not_lt] at hge
      rcases ih with ⟨rfl, h0⟩ | ⟨pre, post, rfl, hpos, hpre, hpost⟩
      · refine Or.inl ⟨rfl, fun t ht => ?_⟩
        rcases List.mem_append.1 ht with ht | ht
        · exact h0 t ht
        · rw [List.mem_singleton.1 ht]
          exact BitVec.eq_of_toNat_eq (Nat.le_zero.1 (BitVec.le_def.1 hge))
      · refine Or.inr ⟨pre, post ++ [s], by simp, hpos, hpre, fun t ht => ?_⟩
        rcases List.mem_append.1 ht with ht | ht
        · exact hpost t ht
        · rw [List.mem_singleton.1 ht]; exact hge

/-- **`bottleneck()` names the first slowest stage.** For every breakdown, `bottleneck()` is
`"unknown"` exactly when all five stages took `0` ns; otherwise it is the name of a stage with
a positive time larger than every stage tested before it and at least every stage tested after
it. -/
theorem bottleneck_spec (b : LatencyBreakdown) :
    (b.bottleneck = "unknown" ∧ ∀ s ∈ b.stages, s.1 = 0) ∨
      ∃ pre v post, b.stages = pre ++ (v, b.bottleneck) :: post ∧ 0 < v.toNat ∧
        (∀ s ∈ pre, s.1 < v) ∧ ∀ s ∈ post, s.1 ≤ v := by
  unfold bottleneck
  rcases foldl_pickLarger b.stages with ⟨h, h0⟩ | ⟨pre, post, h, hpos, hpre, hpost⟩
  · exact Or.inl ⟨by rw [h], h0⟩
  · exact Or.inr ⟨pre, _, post, h, hpos, hpre, hpost⟩

/-- Parsing and queue both took `9` ns: the first of them is named. -/
example : (⟨5, 9, 9, 1, 0, 0⟩ : LatencyBreakdown).bottleneck = "parsing" := by decide

end LatencyBreakdown

end Sage
