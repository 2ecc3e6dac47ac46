import Sage.Poe.Engine
import Sage.Poe.AuditRecords

/-! # The order lifecycle in the audit log

`process_order` logs `ORDER` before it hands the FIX bytes to the transport, and `SENT` or
`ERROR|SEND_FAILED` after. `log_order` returns at once when the file did not open, and
nothing checks what it did: the bytes go out all the same.

* **`processOrder_sends_unlogged`** — with a log whose file failed to open, an order is sent
  with no `ORDER` record and no counter that records the loss.
* **`Poe.run_audit_ordering`** — on a log that opened, every run writes its records in pairs:
  each `SENT` or `ERROR` right after the `ORDER` of its id, the ids distinct until the
  generator's counter wraps. -/

namespace Sage

/-- **An order leaves with no audit trace when the log did not open.** The constructor's
`file_.open` failed (`AuditLog.create none`); POE pops a market buy of 1.0 of symbol 0 (the
order RME builds for a signal of confidence 1.0) and the transport accepts it. The FIX message of
the first exchange id goes on the wire and counts as sent, while the audit file stays empty
and none of its counters moves. -/
theorem processOrder_sends_unlogged (tsOrder tsOutcome : Tm) :
    ((Poe.init 1769774400 (AuditLog.create none)).step
        (.popped ⟨0, 1, .order ⟨1, 0, FixedPoint.zero, ⟨100000000⟩, 1, 1, 1⟩⟩ tsOrder tsOutcome
          true)).wire =
      [Poe.fixFor (1769774400 <<< 32) ⟨1, 0, FixedPoint.zero, ⟨100000000⟩, 1, 1, 1⟩] ∧
    ((Poe.init 1769774400 (AuditLog.create none)).step
        (.popped ⟨0, 1, .order ⟨1, 0, FixedPoint.zero, ⟨100000000⟩, 1, 1, 1⟩⟩ tsOrder tsOutcome
          true)).ordersSent = 1 ∧
    ((Poe.init 1769774400 (AuditLog.create none)).step
        (.popped ⟨0, 1, .order ⟨1, 0, FixedPoint.zero, ⟨100000000⟩, 1, 1, 1⟩⟩ tsOrder tsOutcome
          true)).audit =
      AuditLog.create none :=
  ⟨rfl, rfl, rfl⟩

/-! ## The audit trail of a run -/

namespace OrderIDGenerator

/-- The ids `n` calls of `generate()` return, in order. -/
def ids (g : OrderIDGenerator) : Nat → List (BitVec 64)
  | 0 => []
  | n + 1 => g.generate.1 :: g.generate.2.ids n

@[simp] theorem length_ids (g : OrderIDGenerator) (n : Nat) : (g.ids n).length = n := by
  induction n generalizing g with
  | zero => rfl
  | succ n ih => simp [ids, ih]

/-- The low 32 bits of an id are the counter it was drawn at. -/
theorem generate_fst_setWidth (g : OrderIDGenerator) : g.generate.1.setWidth 32 = g.counter := by
  ext i
  simp [generate, BitVec.getLsbD_setWidth, BitVec.getLsbD_or, BitVec.getLsbD_shiftLeft]

/-- The ids' low 32 bits count on from the counter. -/
theorem map_setWidth_ids (g : OrderIDGenerator) (n : Nat) :
    (g.ids n).map (·.setWidth 32) = (List.range n).map fun k => g.counter + BitVec.ofNat 32 k := by
  induction n generalizing g with
  | zero => rfl
  | succ n ih =>
    rw [ids, List.map_cons, ih, List.range_succ_eq_map, List.map_cons, List.map_map,
      generate_fst_setWidth]
    congr 1
    · simp
    · refine List.map_congr_left fun k _ => ?_
      simp only [Function.comp, generate]
      bv_omega

/-- **Collision-free until the counter wraps**: at most `2^32` ids drawn in turn are distinct. -/
theorem nodup_ids (g : OrderIDGenerator) {n : Nat} (hn : n ≤ 2 ^ 32) : (g.ids n).Nodup := by
  refine List.Nodup.of_map (·.setWidth 32) ?_
  rw [map_setWidth_ids]
  refine (List.nodup_range n).map_on fun a ha b hb h => ?_
  rw [List.mem_range] at ha hb
  bv_omega

end OrderIDGenerator

namespace Poe

/-- The calls `process_order` makes on the log for `order` under the exchange id `id`: `ORDER`,
then `SENT` or `ERROR|SEND_FAILED`. -/
def orderCalls (id : BitVec 64) (tsOrder tsOutcome : Tm) (sendOk : Bool) (order : OrderRequest) :
    List (Tm × AuditCall) :=
  [(tsOrder, .order id order),
    (tsOutcome, if sendOk then .sent id else .error id (some sendFailed))]

/-- The calls on the log of the orders `os` (each with its two clock readings and the
transport's answer), under the ids the generator `g` draws in turn. -/
def ordersCalls (g : OrderIDGenerator) : List (Tm × Tm × Bool × OrderRequest) → List (Tm × AuditCall)
  | [] => []
  | (tsOrder, tsOutcome, sendOk, order) :: os =>
    orderCalls g.generate.1 tsOrder tsOutcome sendOk order ++ ordersCalls g.generate.2 os

/-- **One event, seen from the log**: it makes the calls of one order under the generator's
next id, or writes nothing and draws no id. -/
theorem step_audit (st : Poe) (e : PoeEvent) :
    ((st.step e).audit.file = st.audit.file ∧ (st.step e).audit.isOpen = st.audit.isOpen ∧
        (st.step e).gen = st.gen) ∨
      ∃ tsOrder tsOutcome sendOk order, (st.step e).audit =
          st.audit.runCalls (orderCalls st.gen.generate.1 tsOrder tsOutcome sendOk order) ∧
        (st.step e).gen = st.gen.generate.2 := by
  cases e with
  | popped m tsOrder tsOutcome sendOk =>
    simp only [step]
    split
    · exact .inl ⟨rfl, rfl, rfl⟩
    · split
      · next order _ =>
        exact .inr ⟨tsOrder, tsOutcome, sendOk, order, by cases sendOk <;> exact ⟨rfl, rfl⟩⟩
      · exact .inl ⟨rfl, rfl, rfl⟩
      · exact .inl ⟨rfl, rfl, rfl⟩
  | flush => refine .inl ⟨?_, ?_, rfl⟩ <;> simp only [step, AuditLog.flush] <;> split <;> rfl
  | sync => refine .inl ⟨?_, ?_, rfl⟩ <;> simp only [step, AuditLog.sync] <;> split <;> rfl

/-- **What a run writes to an open log**: the calls of the orders it processes, under the ids
the generator draws in turn. -/
theorem run_audit : ∀ (st : Poe) (es : List PoeEvent), st.audit.isOpen = true →
    ∃ os, (st.run es).audit.file =
      st.audit.file ++ ((ordersCalls st.gen os).map fun c => c.2.entry c.1).flatten
  | st, [], _ => ⟨[], by simp [run, ordersCalls]⟩
  | st, e :: es, h => by
    rcases step_audit st e with ⟨hf, ho, hg⟩ | ⟨tsOrder, tsOutcome, sendOk, order, ha, hg⟩
    · obtain ⟨os, hos⟩ := run_audit (st.step e) es (ho.trans h)
      exact ⟨os, by rw [run, hos, hf, hg]⟩
    · have ho : (st.step e).audit.isOpen = true := by rw [ha, AuditLog.isOpen_runCalls, h]
      obtain ⟨os, hos⟩ := run_audit (st.step e) es ho
      refine ⟨(tsOrder, tsOutcome, sendOk, order) :: os, ?_⟩
      rw [run, hos, ha, AuditLog.file_runCalls h, hg, ordersCalls, List.map_append,
        List.flatten_append, List.append_assoc]

/-- Every call POE makes on the log is newline-free. -/
theorem newlineFree_ordersCalls (g : OrderIDGenerator) (os : List (Tm × Tm × Bool × OrderRequest)) :
    ∀ c ∈ ordersCalls g os, c.2.NewlineFree := by
  induction os generalizing g with
  | nil => simp [ordersCalls]
  | cons o os ih =>
    obtain ⟨tsOrder, tsOutcome, sendOk, order⟩ := o
    simp only [ordersCalls, orderCalls, List.cons_append, List.singleton_append, List.mem_cons]
    rintro c (rfl | rfl | hc)
    · simp only [AuditCall.NewlineFree, AuditCall.fields, List.mem_cons, List.mem_singleton]
      rintro f (rfl | rfl | rfl | rfl | hf)
      · exact (plain_decimal _).not_mem_newline
      · exact (plain_sideStr _).not_mem_newline
      · exact (plain_render _).not_mem_newline
      · exact (plain_render _).not_mem_newline
      · cases hf
    · cases sendOk <;> simp [AuditCall.NewlineFree, AuditCall.fields, sendFailed]
    · exact ih _ c hc

/-- The records of the calls of the orders `os`: an `ORDER` record and its outcome's, per
order, sharing the id the generator drew. -/
theorem records_ordersCalls (g : OrderIDGenerator) (os : List (Tm × Tm × Bool × OrderRequest)) :
    ∃ pairs : List (AuditRecord × AuditRecord),
      (ordersCalls g os).map (fun c => some (c.2.record c.1)) =
          pairs.flatMap (fun p => [some p.1, some p.2]) ∧
        (∀ p ∈ pairs, p.1.event = "ORDER".toList ∧
          (p.2.event = "SENT".toList ∨ p.2.event = "ERROR".toList) ∧ p.2.orderId = p.1.orderId) ∧
        pairs.map (fun p => p.1.orderId) = (g.ids os.length).map BitVec.toNat := by
  induction os generalizing g with
  | nil => exact ⟨[], rfl, by simp, rfl⟩
  | cons o os ih =>
    obtain ⟨tsOrder, tsOutcome, sendOk, order⟩ := o
    obtain ⟨pairs, hmap, hpairs, hids⟩ := ih g.generate.2
    refine ⟨(AuditCall.record tsOrder (.order g.generate.1 order),
      AuditCall.record tsOutcome (if sendOk then .sent g.generate.1
        else .error g.generate.1 (some sendFailed))) :: pairs, ?_, ?_, ?_⟩
    · simp only [ordersCalls, orderCalls, List.map_append, hmap, List.flatMap_cons]
      rfl
    · simp only [List.mem_cons]
      rintro p (rfl | hp)
      · cases sendOk <;> simp [AuditCall.record, AuditCall.event, AuditCall.orderId]
      · exact hpairs p hp
    · simp only [List.map_cons, hids, List.length_cons, OrderIDGenerator.ids]
      rfl

/-- **The audit trail of any run** (the spec's audit ordering, and its collision-free ids).
On a log that opened, what a run of POE from start-up writes after the file's earlier content
and header reads back as pairs of records: an `ORDER` record, then right after it the `SENT`
or `ERROR` record of the same order id. While at most `2^32` orders have gone through, their
ids are distinct. -/
theorem run_audit_ordering (startupTs : BitVec 64) (log : AuditLog) (hopen : log.isOpen = true)
    (es : List PoeEvent) :
    ∃ pairs : List (AuditRecord × AuditRecord),
      (auditLines (((init startupTs log).run es).audit.file.drop log.file.length)).map
          parseRecord = pairs.flatMap (fun p => [some p.1, some p.2]) ∧
        (∀ p ∈ pairs, p.1.event = "ORDER".toList ∧
          (p.2.event = "SENT".toList ∨ p.2.event = "ERROR".toList) ∧ p.2.orderId = p.1.orderId) ∧
        (pairs.length ≤ 2 ^ 32 → (pairs.map fun p => p.1.orderId).Nodup) := by
  obtain ⟨os, hos⟩ := run_audit (init startupTs log) es hopen
  rw [show (init startupTs log).audit = log from rfl,
    show (init startupTs log).gen = ⟨startupTs, 0⟩ from rfl] at hos
  obtain ⟨pairs, hmap, hpairs, hids⟩ := records_ordersCalls ⟨startupTs, 0⟩ os
  have hnl := newlineFree_ordersCalls ⟨startupTs, 0⟩ os
  refine ⟨pairs, ?_, hpairs, fun hlen => ?_⟩
  · rw [hos, List.drop_left, auditLines_entries _ hnl, List.map_map, ← hmap]
    exact List.map_congr_left fun c hc => (parseRecord_entry c.1 c.2 (hnl c hc)).1
  · have hlen' : os.length = pairs.length := by
      simpa using (congrArg List.length hids).symm
    rw [hids]
    exact (OrderIDGenerator.nodup_ids _ (hlen' ▸ hlen)).map BitVec.toNat_injective

/-- A log opened on an empty file, and a run of one order that the transport accepts, then a
flush. -/
theorem run_audit_ordering_one_order :
    (AuditLog.create (some [])).isOpen = true ∧
      ∃ pairs : List (AuditRecord × AuditRecord),
        (auditLines (((init 1769774400 (AuditLog.create (some []))).run
            [.popped ⟨0, 1, .order ⟨1, 0, FixedPoint.zero, ⟨100000000⟩, 1, 1, 1⟩⟩
              ⟨2026, 1, 30, 12, 0, 0, by decide, by decide, by decide, by decide, by decide,
                by decide⟩
              ⟨2026, 1, 30, 12, 0, 1, by decide, by decide, by decide, by decide, by decide,
                by decide⟩ true, .flush]).audit.file.drop
              (AuditLog.create (some [])).file.length)).map parseRecord =
            pairs.flatMap (fun p => [some p.1, some p.2]) ∧
          (∀ p ∈ pairs, p.1.event = "ORDER".toList ∧
            (p.2.event = "SENT".toList ∨ p.2.event = "ERROR".toList) ∧
              p.2.orderId = p.1.orderId) ∧
          (pairs.length ≤ 2 ^ 32 → (pairs.map fun p => p.1.orderId).Nodup) :=
  ⟨rfl, run_audit_ordering 1769774400 _ rfl _⟩

end Poe

end Sage
