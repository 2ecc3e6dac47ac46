import Sage.Poe.AuditRecords

/-! # The audit log's counters

`entries_logged()` and `truncation_count()` are the log's metrics. `write_entry` counts every
entry it writes, and `write_entry_safe` counts a truncation before handing its cut record on.
`log_order` writes through `write_entry` alone; `log_sent`, `log_ack`, `log_fill` and
`log_error` through `write_entry_safe`. `log_reject` cuts its reason to 63 characters itself
and writes straight to the stream, under the mutex, past both counters.

* **`AuditCall.viaWriteEntry`**, **`AuditCall.cutBySafe`** — which calls move each counter.
* **`runCalls_counters`** — over every run on an open log, `entries_logged_` moves by the number
  of calls other than `log_reject`, and `truncation_count_` by the number of records that
  `write_entry_safe` cut.
* **`logReject_uncounted`** — a `log_reject` appends one record and moves neither counter, even
  when it cut the reason. -/

namespace Sage

namespace AuditCall

/-- The calls whose record goes through `write_entry`, which counts it: all but `log_reject`. -/
def viaWriteEntry : AuditCall → Bool
  | .reject .. => false
  | _ => true

/-- The calls whose record `write_entry_safe` cuts and counts: a `log_sent`, `log_ack`,
`log_fill` or `log_error` whose record has `ENTRY_SIZE` bytes or more. -/
def cutBySafe (ts : Tm) (c : AuditCall) : Bool :=
  match c with
  | .order .. | .reject .. => false
  | _ => decide (entrySize ≤ (AuditLog.recordLine ts c.event c.orderId c.fields).length)

end AuditCall

namespace AuditLog

theorem recordLine_ne_nil (ts : Tm) (event : String) (orderId : BitVec 64)
    (fields : List (List Char)) : recordLine ts event orderId fields ≠ [] := by
  simp [recordLine]

theorem truncateEntry_ne_nil {line : List Char} (h : line ≠ []) : truncateEntry line ≠ [] := by
  unfold truncateEntry; split <;> simp [h]

/-- `write_entry` counts a nonempty entry and no truncation. -/
theorem counters_writeEntry (log : AuditLog) {b : List Char} (hb : b ≠ []) :
    (log.writeEntry b).entriesLogged = log.entriesLogged + 1 ∧
      (log.writeEntry b).truncationCount = log.truncationCount := by
  unfold writeEntry
  rw [if_neg (by simpa using hb)]
  dsimp only
  split <;> exact ⟨rfl, rfl⟩

/-- `write_entry_safe` counts a nonempty record, and a truncation when it reaches
`ENTRY_SIZE`. -/
theorem counters_writeEntrySafe (log : AuditLog) {line : List Char} (h : line ≠ []) :
    (log.writeEntrySafe line).entriesLogged = log.entriesLogged + 1 ∧
      (log.writeEntrySafe line).truncationCount =
        log.truncationCount + BitVec.ofNat 64 (if entrySize ≤ line.length then 1 else 0) := by
  unfold writeEntrySafe
  split <;> rename_i hl <;>
    simp only [counters_writeEntry _ (truncateEntry_ne_nil h), ge_iff_le, hl, if_true, if_false,
      BitVec.ofNat_eq_ofNat, BitVec.add_zero, and_self]

/-- **What one call on an open log counts.** -/
theorem call_counters {log : AuditLog} (h : log.isOpen = true) (ts : Tm) (c : AuditCall) :
    (log.call ts c).entriesLogged =
        log.entriesLogged + BitVec.ofNat 64 (if c.viaWriteEntry then 1 else 0) ∧
      (log.call ts c).truncationCount =
        log.truncationCount + BitVec.ofNat 64 (if c.cutBySafe ts then 1 else 0) := by
  have hs := fun event orderId fields =>
    counters_writeEntrySafe log (recordLine_ne_nil ts event orderId fields)
  cases c <;>
    simp only [call, logOrder, logSafe, logSent, logAck, logFill, logReject, logError, h,
      Bool.not_true, Bool.false_eq_true, if_false, AuditCall.viaWriteEntry, AuditCall.cutBySafe,
      AuditCall.event, AuditCall.orderId, AuditCall.fields, decide_eq_true_eq, hs,
      formatOrderLog, counters_writeEntry log (recordLine_ne_nil _ _ _ _), if_true,
      BitVec.ofNat_eq_ofNat, BitVec.add_zero, and_self]

end AuditLog

/-- **The counters over every run.** On an open log, whatever the calls and their arguments,
`entries_logged_` moves by the number of calls other than `log_reject`, and
`truncation_count_` by the number of records that `write_entry_safe` cut, both modulo
`2^64`. -/
theorem runCalls_counters (log : AuditLog) (hopen : log.isOpen = true)
    (calls : List (Tm × AuditCall)) :
    (log.runCalls calls).entriesLogged =
        log.entriesLogged + BitVec.ofNat 64 (calls.countP fun c => c.2.viaWriteEntry) ∧
      (log.runCalls calls).truncationCount =
        log.truncationCount + BitVec.ofNat 64 (calls.countP fun c => c.2.cutBySafe c.1) := by
  induction calls generalizing log with
  | nil => simp [AuditLog.runCalls]
  | cons c cs ih =>
    obtain ⟨h₁, h₂⟩ := AuditLog.call_counters hopen c.1 c.2
    obtain ⟨ih₁, ih₂⟩ := ih _ ((AuditLog.isOpen_call log c.1 c.2).trans hopen)
    simp only [AuditLog.runCalls, ih₁, ih₂, h₁, h₂, List.countP_cons, BitVec.ofNat_add,
      BitVec.add_assoc, BitVec.add_comm (BitVec.ofNat 64 (if _ then 1 else 0)), and_self]

/-- A freshly opened log, then a `log_sent` and a `log_reject`. -/
theorem runCalls_counters_sent_reject :
    let ts : Tm := ⟨2026, 1, 30, 12, 0, 0, by decide, by decide, by decide, by decide, by decide,
      by decide⟩
    let calls := [(ts, AuditCall.sent 1), (ts, .reject 1 none)]
    (AuditLog.create (some [])).isOpen = true ∧
      ((AuditLog.create (some [])).runCalls calls).entriesLogged =
        (AuditLog.create (some [])).entriesLogged +
          BitVec.ofNat 64 (calls.countP fun c => c.2.viaWriteEntry) ∧
      ((AuditLog.create (some [])).runCalls calls).truncationCount =
        (AuditLog.create (some [])).truncationCount +
          BitVec.ofNat 64 (calls.countP fun c => c.2.cutBySafe c.1) :=
  ⟨rfl, runCalls_counters _ rfl _⟩

/-- **`log_reject` writes a record that neither counter sees.** On an open log, a
`log_reject` whose reason holds no newline in its first 63 characters appends exactly one
line, yet `entries_logged_` stays as it was. The line holds the reason's first 63 characters,
so a longer reason is cut, yet `truncation_count_` stays as it was too. -/
theorem logReject_uncounted (log : AuditLog) (hopen : log.isOpen = true) (ts : Tm)
    (orderId : BitVec 64) (reason : Option CStr)
    (hnl : (AuditCall.reject orderId reason).NewlineFree) :
    (auditLines ((log.call ts (.reject orderId reason)).file.drop log.file.length)).length = 1 ∧
      (log.call ts (.reject orderId reason)).entriesLogged = log.entriesLogged ∧
      (log.call ts (.reject orderId reason)).truncationCount = log.truncationCount ∧
      ∀ r, reason = some r →
        (log.call ts (.reject orderId reason)).file =
          log.file ++ AuditLog.recordLine ts "REJECT" orderId [r.chars.take 63] := by
  obtain ⟨h₁, h₂⟩ := AuditLog.call_counters hopen ts (.reject orderId reason)
  have hlines := auditLines_entries [(ts, .reject orderId reason)] (by simpa using hnl)
  simp only [List.map_cons, List.map_nil, List.flatten_cons, List.flatten_nil,
    List.append_nil] at hlines
  refine ⟨?_, by simpa [AuditCall.viaWriteEntry] using h₁,
    by simpa [AuditCall.cutBySafe] using h₂, fun r hr => ?_⟩
  · rw [AuditLog.file_call hopen, List.drop_left, hlines, List.length_singleton]
  · have hlen := length_recordHead_le ts "REJECT" orderId (by decide)
    have hline :
        (AuditLog.recordLine ts "REJECT" orderId [r.chars.take 63]).length < entrySize := by
      have := List.length_take_le 63 r.chars
      simp only [recordLine_eq, List.map_cons, List.map_nil, List.flatten_cons,
        List.flatten_nil, List.append_nil, List.length_append, List.length_cons,
        List.length_singleton, List.length_nil, entrySize] at hlen ⊢
      omega
    rw [AuditLog.file_call hopen, hr]
    simp only [AuditCall.entry, AuditCall.event, AuditCall.orderId, AuditCall.fields,
      Option.map_some', Option.getD_some, if_pos hline, List.take_length]

/-- The input of `test_truncation_handling`: a freshly opened log, and a reject of order 2
with a reason of 200 characters. -/
theorem logReject_uncounted_long_reason :
    let ts : Tm := ⟨2026, 1, 30, 12, 0, 0, by decide, by decide, by decide, by decide, by decide,
      by decide⟩
    let reason : Option CStr := some ⟨List.replicate 200 'x', by decide⟩
    let log := AuditLog.create (some [])
    log.isOpen = true ∧ (AuditCall.reject 2 reason).NewlineFree ∧
      (auditLines ((log.call ts (.reject 2 reason)).file.drop log.file.length)).length = 1 ∧
      (log.call ts (.reject 2 reason)).entriesLogged = log.entriesLogged ∧
      (log.call ts (.reject 2 reason)).truncationCount = log.truncationCount ∧
      ∀ r, reason = some r →
        (log.call ts (.reject 2 reason)).file =
          log.file ++ AuditLog.recordLine ts "REJECT" 2 [r.chars.take 63] := by
  intro ts reason log
  have hnl : (AuditCall.reject 2 reason).NewlineFree := by
    simp [reason, AuditCall.NewlineFree, AuditCall.fields]
  exact ⟨rfl, hnl, logReject_uncounted log rfl ts 2 reason hnl⟩

end Sage
