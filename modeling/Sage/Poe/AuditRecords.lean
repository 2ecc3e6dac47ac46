import Sage.Poe.AuditLog

/-! # Reading the audit log back

The restart reconciliation reads the audit file as lines, and each line as `|`-separated
fields: timestamp, event, order id and, for `ORDER` and `FILL`, the symbol id.

* **`auditLines`**, **`parseRecord`** — the reader.
* **`AuditCall.entry`**, **`file_runCalls`** — the bytes each call appends.
* **`runCalls_records`** — every call whose free-text argument has no newline gives exactly
  one line, of at most `ENTRY_SIZE` bytes, which reads back as the call's record.
* **`logAck_newline_forges_record`** — an acknowledgement id with a newline gives two lines,
  the second a forged record. -/

namespace Sage

/-! ## Text without separators -/

/-- `c` is neither the field separator `|` nor a newline. -/
def plainChar (c : Char) : Bool := c != '|' && c != '\n'

/-- Text that cannot split a field or a line. -/
def Plain (l : List Char) : Prop := l.all plainChar = true

instance (l : List Char) : Decidable (Plain l) := inferInstanceAs (Decidable (_ = true))

theorem Plain.append {a b : List Char} (ha : Plain a) (hb : Plain b) : Plain (a ++ b) := by
  simp only [Plain, List.all_append, Bool.and_eq_true] at *
  exact ⟨ha, hb⟩

theorem Plain.not_mem_bar {l : List Char} (h : Plain l) : '|' ∉ l := fun hm => by
  simpa [plainChar] using List.all_eq_true.mp h _ hm

theorem Plain.not_mem_newline {l : List Char} (h : Plain l) : '\n' ∉ l := fun hm => by
  simpa [plainChar] using List.all_eq_true.mp h _ hm

theorem plain_decimal (n : Nat) : Plain (decimal n) := by
  refine List.all_eq_true.mpr fun c hc => ?_
  have := isDigit_of_mem_decimal n c hc
  simp only [isDigit, Bool.and_eq_true, decide_eq_true_eq] at this
  have h₁ : c ≠ '|' := fun e => by subst e; simp at this
  have h₂ : c ≠ '\n' := fun e => by subst e; simp at this
  simp [plainChar, h₁, h₂]

theorem plain_pad2 (n : Nat) : Plain (pad2 n) := by
  unfold pad2
  split
  · exact Plain.append (a := ['0']) (by decide) (plain_decimal n)
  · exact plain_decimal n

/-- A timestamp is digits, `-`, `T`, `:` and `Z`. -/
theorem plain_strftimeUtc (t : Tm) : Plain (strftimeUtc t) := by
  have := plain_decimal t.year
  have := plain_pad2 t.month
  have := plain_pad2 t.day
  have := plain_pad2 t.hour
  have := plain_pad2 t.minute
  have := plain_pad2 t.second
  simp_all only [Plain, strftimeUtc, List.all_append]
  decide

theorem plain_render (d : DoubleText) : Plain d.render := by
  have hsign : ∀ neg : Bool, Plain (if neg then ['-'] else []) := by decide
  cases d with
  | finite neg i f _ =>
    have hz : Plain (List.replicate (8 - (decimal f).length) '0') :=
      List.all_eq_true.mpr fun c hc => by rw [List.eq_of_mem_replicate hc]; decide
    exact (((hsign neg).append (plain_decimal i)).append (by decide : Plain ['.'])).append
      (hz.append (plain_decimal f))
  | inf neg => exact (hsign neg).append (by decide)
  | nan neg => exact (hsign neg).append (by decide)

theorem plain_sideStr (side : Int8) : Plain (AuditLog.sideStr side) := by
  unfold AuditLog.sideStr
  split <;> decide

/-! ## Field lengths -/

theorem length_pad2_le {n : Nat} (h : n < 100) : (pad2 n).length ≤ 2 := by
  unfold pad2
  split
  · simpa using length_decimal_le n 0 (by omega)
  · exact length_decimal_le n 1 (by omega)

theorem length_strftimeUtc_le (t : Tm) : (strftimeUtc t).length ≤ 26 := by
  have := length_decimal_le t.year 9 (by have := t.year_lt; omega)
  have := length_pad2_le (show t.month < 100 by have := t.month_lt; omega)
  have := length_pad2_le (show t.day < 100 by have := t.day_lt; omega)
  have := length_pad2_le (show t.hour < 100 by have := t.hour_lt; omega)
  have := length_pad2_le (show t.minute < 100 by have := t.minute_lt; omega)
  have := length_pad2_le (show t.second < 100 by have := t.second_lt; omega)
  simp only [strftimeUtc, List.length_append, List.length_singleton]
  omega

/-! ## The reader -/

/-- The lines of the log: the runs between newlines, each closed by one. -/
def auditLines (bytes : List Char) : List (List Char) := (bytes.splitOn '\n').dropLast

/-- A record as the reconciliation reads it: timestamp, event and order id, and for `ORDER`
and `FILL` the symbol id. -/
structure AuditRecord where
  timestamp : List Char
  event : List Char
  orderId : Nat
  symbolId : Option Nat
  deriving DecidableEq

/-- One line read back: the first three `|`-separated fields, and the fourth as the symbol id
of an `ORDER` or `FILL` record. -/
def parseRecord (line : List Char) : Option AuditRecord :=
  match line.splitOn '|' with
  | ts :: ev :: id :: rest =>
    (digitsVal id).map fun n => ⟨ts, ev, n,
      if ev = "ORDER".toList ∨ ev = "FILL".toList then rest.head?.bind digitsVal else none⟩
  | _ => none

theorem splitOn_append_cons {a : List Char} {c : Char} (ha : c ∉ a) (b : List Char) :
    (a ++ c :: b).splitOn c = a :: b.splitOn c :=
  List.splitOnP_first _ a (fun x hx h => ha (by rwa [beq_iff_eq.mp h] at hx)) c (by simp) b

theorem splitOn_of_not_mem {a : List Char} {c : Char} (ha : c ∉ a) : a.splitOn c = [a] :=
  List.splitOnP_eq_single _ a fun x hx h => ha (by rwa [beq_iff_eq.mp h] at hx)

/-- Lines closed by a newline read back as themselves. -/
theorem auditLines_flatten (bodies : List (List Char)) (h : ∀ b ∈ bodies, '\n' ∉ b) :
    auditLines (bodies.map (· ++ ['\n'])).flatten = bodies := by
  induction bodies with
  | nil => rfl
  | cons b bs ih =>
    have hb := h b (List.mem_cons_self _ _)
    simp only [auditLines, List.map_cons, List.flatten_cons, List.append_assoc,
      List.singleton_append] at ih ⊢
    have hne : List.splitOn '\n' (bs.map (· ++ ['\n'])).flatten ≠ [] := List.splitOnP_ne_nil _ _
    rw [splitOn_append_cons hb, List.dropLast_cons_of_ne_nil hne,
      ih fun x hx => h x (List.mem_cons_of_mem _ hx)]

/-- The timestamp, event and order id of a record, with the `|` that ends each. -/
def recordHead (ts : Tm) (event : String) (orderId : BitVec 64) : List Char :=
  strftimeUtc ts ++ '|' :: (event.toList ++ '|' :: decimal orderId.toNat)

/-- **A record's head reads back**, with the next field after it. -/
theorem parseRecord_head_bar (ts : Tm) (event : String) (orderId : BitVec 64) (rest : List Char)
    (hev : Plain event.toList) :
    parseRecord (recordHead ts event orderId ++ '|' :: rest) =
      some ⟨strftimeUtc ts, event.toList, orderId.toNat,
        if event.toList = "ORDER".toList ∨ event.toList = "FILL".toList then
          (rest.splitOn '|').head?.bind digitsVal
        else none⟩ := by
  simp only [recordHead, List.append_assoc, List.cons_append]
  rw [parseRecord, splitOn_append_cons (plain_strftimeUtc ts).not_mem_bar,
    splitOn_append_cons hev.not_mem_bar, splitOn_append_cons (plain_decimal _).not_mem_bar]
  simp only [digitsVal_decimal, Option.map_some']

/-- A record's head alone reads back, with no symbol id. -/
theorem parseRecord_head (ts : Tm) (event : String) (orderId : BitVec 64)
    (hev : Plain event.toList) :
    parseRecord (recordHead ts event orderId) =
      some ⟨strftimeUtc ts, event.toList, orderId.toNat, none⟩ := by
  simp only [recordHead]
  rw [parseRecord, splitOn_append_cons (plain_strftimeUtc ts).not_mem_bar,
    splitOn_append_cons hev.not_mem_bar, splitOn_of_not_mem (plain_decimal _).not_mem_bar]
  simp [digitsVal_decimal]

/-! ## Records -/

theorem recordLine_eq (ts : Tm) (event : String) (orderId : BitVec 64)
    (fields : List (List Char)) :
    AuditLog.recordLine ts event orderId fields =
      recordHead ts event orderId ++ (fields.map fun f => '|' :: f).flatten ++ ['\n'] := by
  simp [AuditLog.recordLine, recordHead]

theorem newline_not_mem_recordHead (ts : Tm) (event : String) (orderId : BitVec 64)
    (hev : Plain event.toList) : '\n' ∉ recordHead ts event orderId := by
  simp only [recordHead, List.mem_append, List.mem_cons, not_or]
  exact ⟨(plain_strftimeUtc ts).not_mem_newline, by decide, hev.not_mem_newline, by decide,
    (plain_decimal _).not_mem_newline⟩

theorem length_recordHead_le (ts : Tm) (event : String) (orderId : BitVec 64)
    (hev : event.toList.length ≤ 6) : (recordHead ts event orderId).length ≤ 54 := by
  have := length_strftimeUtc_le ts
  have := length_decimal_toNat_le orderId
  simp only [recordHead, List.length_append, List.length_cons]
  omega

theorem newline_not_mem_fields {fields : List (List Char)} (h : ∀ f ∈ fields, '\n' ∉ f) :
    '\n' ∉ (fields.map fun f => '|' :: f).flatten := by
  simp only [List.mem_flatten, List.mem_map, not_exists, not_and]
  rintro _ ⟨f, hf, rfl⟩ hm
  rcases List.mem_cons.mp hm with e | hm
  · exact absurd e (by decide)
  · exact h f hf hm

/-- A field cut inside by `write_entry_safe`: its first `k` characters, then `[TRUNC]`. -/
def cutField (k : Nat) (x : List Char) : List Char := x.take k ++ "[TRUNC]".toList

/-- **What `write_entry_safe` writes of a record with fields.** The head stays whole; the
rest is cut to fit 255 bytes with the marker when the record is too long. -/
theorem truncateEntry_record (head x : List Char) (hhead : head.length ≤ 55) :
    AuditLog.truncateEntry (head ++ '|' :: (x ++ ['\n'])) =
      head ++ '|' :: (if head.length + x.length + 2 ≥ entrySize then
        cutField (entrySize - 10 - head.length) x else x) ++ ['\n'] := by
  have hlen : (head ++ '|' :: (x ++ ['\n'])).length = head.length + x.length + 2 := by
    simp only [List.length_append, List.length_cons, List.length_nil]; omega
  unfold AuditLog.truncateEntry
  rw [hlen]
  split
  · rename_i h
    rw [List.take_append_eq_append_take, List.take_of_length_le (by simp [entrySize]; omega),
      List.take_cons (by simp [entrySize]; omega),
      List.take_append_of_le_length (by simp only [entrySize] at h ⊢; omega)]
    have hk : entrySize - 8 - 1 - head.length - 1 = entrySize - 10 - head.length := by
      simp only [entrySize]; omega
    simp [cutField, hk]
  · simp

/-- **A record through `write_entry_safe`**: its head, a `|`, the rest whole or cut, and the
newline; never more than `ENTRY_SIZE` bytes, and no newline inside when the fields have
none. -/
theorem truncateEntry_recordLine (ts : Tm) (event : String) (orderId : BitVec 64) (f : List Char)
    (fs : List (List Char)) (hev : Plain event.toList) (hevl : event.toList.length ≤ 6)
    (hnl : ∀ g ∈ f :: fs, '\n' ∉ g) :
    ∃ y, AuditLog.truncateEntry (AuditLog.recordLine ts event orderId (f :: fs)) =
        (recordHead ts event orderId ++ '|' :: y) ++ ['\n'] ∧
      '\n' ∉ recordHead ts event orderId ++ '|' :: y ∧
      (recordHead ts event orderId ++ '|' :: y).length + 1 ≤ entrySize ∧
      (y = f ++ (fs.map fun g => '|' :: g).flatten ∨
        ∃ k, 190 ≤ k ∧ y = cutField k (f ++ (fs.map fun g => '|' :: g).flatten)) := by
  have hh := length_recordHead_le ts event orderId hevl
  have hx : '\n' ∉ f ++ (fs.map fun g => '|' :: g).flatten :=
    List.not_mem_append (hnl f (List.mem_cons_self _ _))
      (newline_not_mem_fields fun g hg => hnl g (List.mem_cons_of_mem _ hg))
  have hline : AuditLog.recordLine ts event orderId (f :: fs) =
      recordHead ts event orderId ++
        '|' :: ((f ++ (fs.map fun g => '|' :: g).flatten) ++ ['\n']) := by
    rw [recordLine_eq]; simp
  rw [hline, truncateEntry_record _ _ (by omega)]
  have hhead := newline_not_mem_recordHead ts event orderId hev
  have hbar : ∀ y, '\n' ∉ y → '\n' ∉ recordHead ts event orderId ++ '|' :: y := fun y hy =>
    List.not_mem_append hhead (List.not_mem_cons_of_ne_of_not_mem (by decide) hy)
  have h7 : "[TRUNC]".toList.length = 7 := rfl
  split
  · refine ⟨_, rfl, hbar _ ?_, ?_, .inr ⟨_, by simp only [entrySize]; omega, rfl⟩⟩
    · exact List.not_mem_append (fun h => hx (List.mem_of_mem_take h)) (by decide)
    · simp only [cutField, List.length_append, List.length_cons, List.length_take, h7]
      simp only [entrySize] at *
      omega
  · rename_i h
    refine ⟨_, rfl, hbar _ hx, ?_, .inl rfl⟩
    simp only [List.length_append, List.length_cons] at h ⊢
    omega

/-! ## What each call appends -/

namespace AuditCall

/-- The event name the call writes. -/
def event : AuditCall → String
  | .order .. => "ORDER"
  | .sent .. => "SENT"
  | .ack .. => "ACK"
  | .fill .. => "FILL"
  | .reject .. => "REJECT"
  | .error .. => "ERROR"

/-- The order id the call writes. -/
def orderId : AuditCall → BitVec 64
  | .order id _ | .sent id | .ack id _ | .fill id _ _ _ | .reject id _ | .error id _ => id

/-- The symbol id an `ORDER` or `FILL` record carries. -/
def symbolId? : AuditCall → Option (BitVec 64)
  | .order _ o => some o.symbolId
  | .fill _ s _ _ => some s
  | _ => none

/-- The fields after the order id, as the call's `snprintf` copies them. -/
def fields : AuditCall → List (List Char)
  | .order _ o => [decimal o.symbolId.toNat, AuditLog.sideStr o.side,
      o.price.toDoubleText.render, o.quantity.toDoubleText.render]
  | .sent _ => []
  | .ack _ a => [(a.map CStr.chars).getD []]
  | .fill _ s p q => [decimal s.toNat, p.render, q.render]
  | .reject _ r => [(r.map fun r => r.chars.take 63).getD []]
  | .error _ e => [(e.map CStr.chars).getD "UNKNOWN".toList]

/-- No field the call writes holds a newline: a condition on the acknowledgement id, the first
63 characters of the reject reason and the error message; the other fields never do. -/
def NewlineFree (c : AuditCall) : Prop := ∀ f ∈ c.fields, '\n' ∉ f

/-- The record a reader should recover from the call made at `ts`. -/
def record (ts : Tm) (c : AuditCall) : AuditRecord :=
  ⟨strftimeUtc ts, c.event.toList, c.orderId.toNat, c.symbolId?.map BitVec.toNat⟩

/-- The bytes the call appends to an open log. -/
def entry (ts : Tm) (c : AuditCall) : List Char :=
  let line := AuditLog.recordLine ts c.event c.orderId c.fields
  match c with
  | .order .. => line
  | .reject .. => line.take (if line.length < entrySize then line.length else entrySize - 1)
  | _ => AuditLog.truncateEntry line

end AuditCall

namespace AuditLog

@[simp] theorem file_writeEntry (log : AuditLog) (b : List Char) :
    (log.writeEntry b).file = log.file ++ b := by
  unfold writeEntry
  split
  · rename_i h; rw [List.length_eq_zero.mp h, List.append_nil]
  · dsimp only; split <;> rfl

@[simp] theorem isOpen_writeEntry (log : AuditLog) (b : List Char) :
    (log.writeEntry b).isOpen = log.isOpen := by
  unfold writeEntry
  split
  · rfl
  · dsimp only; split <;> rfl

@[simp] theorem file_writeEntrySafe (log : AuditLog) (line : List Char) :
    (log.writeEntrySafe line).file = log.file ++ truncateEntry line := by
  unfold writeEntrySafe; split <;> simp

@[simp] theorem isOpen_writeEntrySafe (log : AuditLog) (line : List Char) :
    (log.writeEntrySafe line).isOpen = log.isOpen := by
  unfold writeEntrySafe; split <;> simp

/-- **What a call appends to an open log.** -/
theorem file_call {log : AuditLog} (h : log.isOpen = true) (ts : Tm) (c : AuditCall) :
    (log.call ts c).file = log.file ++ c.entry ts := by
  cases c <;> simp [call, logOrder, logSafe, logSent, logAck, logFill, logReject, logError,
    formatOrderLog, h, AuditCall.entry, AuditCall.fields, AuditCall.event, AuditCall.orderId]

theorem isOpen_call (log : AuditLog) (ts : Tm) (c : AuditCall) :
    (log.call ts c).isOpen = log.isOpen := by
  cases c <;> simp only [call, logOrder, logSafe, logSent, logAck, logFill, logReject, logError] <;>
    split <;> simp

theorem isOpen_runCalls (log : AuditLog) (calls : List (Tm × AuditCall)) :
    (log.runCalls calls).isOpen = log.isOpen := by
  induction calls generalizing log with
  | nil => rfl
  | cons c cs ih => rw [runCalls, ih, isOpen_call]

/-- **What a run of calls appends to an open log**: each call's entry, in call order. -/
theorem file_runCalls {log : AuditLog} (h : log.isOpen = true) (calls : List (Tm × AuditCall)) :
    (log.runCalls calls).file = log.file ++ (calls.map fun c => c.2.entry c.1).flatten := by
  induction calls generalizing log with
  | nil => simp [runCalls]
  | cons c cs ih =>
    rw [runCalls, ih ((isOpen_call log c.1 c.2).trans h), file_call h]
    simp

end AuditLog

/-! ## Every entry is one line that reads back -/

theorem AuditCall.plain_event (c : AuditCall) : Plain c.event.toList := by
  cases c <;> rfl

theorem splitOn_head_of_bar {d : List Char} (hd : Plain d) (w : List Char) :
    ((d ++ '|' :: w).splitOn '|').head? = some d := by
  rw [splitOn_append_cons hd.not_mem_bar]; rfl

/-- Cutting a field list after its first field keeps that field and its `|`. -/
theorem cutField_bar {d : List Char} (w : List Char) {k : Nat} (h : d.length < k) :
    ∃ w', cutField k (d ++ '|' :: w) = d ++ '|' :: w' := by
  refine ⟨w.take (k - d.length - 1) ++ "[TRUNC]".toList, ?_⟩
  rw [cutField, List.take_append_eq_append_take, List.take_of_length_le (by omega),
    List.take_cons (by omega)]
  simp

theorem AuditCall.symbolId?_eq_none (c : AuditCall)
    (h : ¬(c.event.toList = "ORDER".toList ∨ c.event.toList = "FILL".toList)) :
    c.symbolId? = none := by
  cases c with
  | order => exact absurd (.inl rfl) h
  | fill => exact absurd (.inr rfl) h
  | _ => rfl

theorem AuditCall.length_event_le (c : AuditCall) : c.event.toList.length ≤ 6 := by
  cases c <;> simp only [AuditCall.event] <;> decide

/-- The record of a call reads back from its head and the fields after it, given its first
field when the event carries a symbol id. -/
theorem parseRecord_call (ts : Tm) (c : AuditCall) (y : List Char)
    (hsym : c.event.toList = "ORDER".toList ∨ c.event.toList = "FILL".toList →
      (y.splitOn '|').head?.bind digitsVal = c.symbolId?.map BitVec.toNat) :
    parseRecord (recordHead ts c.event c.orderId ++ '|' :: y) = some (c.record ts) := by
  rw [parseRecord_head_bar _ _ _ _ c.plain_event, AuditCall.record]
  split
  · rename_i h; rw [hsym h]
  · rename_i h; rw [c.symbolId?_eq_none h]; rfl

/-- **Each entry is one line**: a newline-free body of at most 255 bytes and its newline,
and the body reads back as the call's record. -/
theorem AuditCall.entry_spec (ts : Tm) (c : AuditCall) (hc : c.NewlineFree) :
    ∃ body, c.entry ts = body ++ ['\n'] ∧ '\n' ∉ body ∧ body.length + 1 ≤ entrySize ∧
      parseRecord body = some (c.record ts) := by
  have hhead := newline_not_mem_recordHead ts c.event c.orderId c.plain_event
  have hlen := length_recordHead_le ts c.event c.orderId c.length_event_le
  have hbar : ∀ y, '\n' ∉ y → '\n' ∉ recordHead ts c.event c.orderId ++ '|' :: y := fun y hy =>
    List.not_mem_append hhead (List.not_mem_cons_of_ne_of_not_mem (by decide) hy)
  cases c with
  | order id o =>
    simp only [AuditCall.event, AuditCall.orderId] at hlen hbar hhead
    have hs := length_decimal_toNat_le o.symbolId
    have hp := length_render_toDoubleText_le o.price
    have hq := length_render_toDoubleText_le o.quantity
    have hside : (AuditLog.sideStr o.side).length ≤ 4 := by
      unfold AuditLog.sideStr; split <;> decide
    refine ⟨recordHead ts "ORDER" id ++ '|' :: (decimal o.symbolId.toNat ++
      '|' :: (AuditLog.sideStr o.side ++ '|' :: (o.price.toDoubleText.render ++
        '|' :: o.quantity.toDoubleText.render))), ?_, hbar _ ?_, ?_, ?_⟩
    · simp [AuditCall.entry, recordLine_eq, AuditCall.fields, AuditCall.event, AuditCall.orderId]
    · simp only [List.mem_append, List.mem_cons, not_or]
      exact ⟨(plain_decimal _).not_mem_newline, by decide, (plain_sideStr _).not_mem_newline,
        by decide, (plain_render _).not_mem_newline, by decide, (plain_render _).not_mem_newline⟩
    · simp only [List.length_append, List.length_cons, entrySize] at hlen ⊢
      omega
    · refine parseRecord_call ts (.order id o) _ fun _ => ?_
      rw [splitOn_head_of_bar (plain_decimal _)]
      simp [digitsVal_decimal, AuditCall.symbolId?]
  | sent id =>
    simp only [AuditCall.event, AuditCall.orderId] at hlen hbar hhead
    refine ⟨recordHead ts "SENT" id, ?_, hhead, by simp only [entrySize] at hlen ⊢; omega, ?_⟩
    · have hshort : ¬(recordHead ts "SENT" id ++ ['\n']).length ≥ entrySize := by
        simp only [List.length_append, List.length_singleton, entrySize] at hlen ⊢
        omega
      simp only [AuditCall.entry, recordLine_eq, AuditCall.fields, AuditCall.event,
        AuditCall.orderId, List.map_nil, List.flatten_nil, List.append_nil]
      rw [AuditLog.truncateEntry, if_neg hshort]
    · rw [parseRecord_head _ _ _ (by decide)]; rfl
  | ack id a =>
    obtain ⟨y, he, hn, hl, -⟩ :=
      truncateEntry_recordLine ts "ACK" id _ [] (by decide) (by decide) hc
    exact ⟨_, he, hn, hl, parseRecord_call ts (.ack id a) y
      fun h => absurd h (by simp only [AuditCall.event]; decide)⟩
  | fill id sym p q =>
    obtain ⟨y, he, hn, hl, hy⟩ := truncateEntry_recordLine ts "FILL" id _ [p.render, q.render]
      (by decide) (by decide) hc
    obtain ⟨w, rfl⟩ : ∃ w, y = decimal sym.toNat ++ '|' :: w := by
      rcases hy with rfl | ⟨k, hk, rfl⟩
      · exact ⟨p.render ++ '|' :: q.render, by simp⟩
      · have := length_decimal_toNat_le sym
        simpa using cutField_bar (d := decimal sym.toNat) (p.render ++ '|' :: q.render)
          (show (decimal sym.toNat).length < k by omega)
    refine ⟨_, he, hn, hl, parseRecord_call ts (.fill id sym p q) _ fun _ => ?_⟩
    rw [splitOn_head_of_bar (plain_decimal _)]
    simp [digitsVal_decimal, AuditCall.symbolId?]
  | reject id r =>
    simp only [AuditCall.event, AuditCall.orderId] at hlen hbar hhead
    have hr : ((r.map fun r => r.chars.take 63).getD []).length ≤ 63 := by
      cases r <;> simp
    have hshort : (recordHead ts "REJECT" id ++ '|' :: ((r.map fun r => r.chars.take 63).getD [] ++
        ['\n'])).length < entrySize := by
      simp only [List.length_append, List.length_cons, List.length_nil, entrySize] at hlen ⊢
      omega
    refine ⟨recordHead ts "REJECT" id ++ '|' :: (r.map fun r => r.chars.take 63).getD [], ?_,
      hbar _ (hc _ (List.mem_singleton_self _)), ?_, parseRecord_call ts (.reject id r) _
        fun h => absurd h (by simp only [AuditCall.event]; decide)⟩
    · simp only [AuditCall.entry, recordLine_eq, AuditCall.fields, AuditCall.event,
        AuditCall.orderId, List.map_cons, List.map_nil, List.flatten_cons, List.flatten_nil,
        List.append_nil]
      rw [if_pos (by simpa using hshort), List.take_length]
    · simp only [List.length_append, List.length_cons, List.length_nil] at hshort ⊢
      omega
  | error id e =>
    obtain ⟨y, he, hn, hl, -⟩ :=
      truncateEntry_recordLine ts "ERROR" id _ [] (by decide) (by decide) hc
    exact ⟨_, he, hn, hl, parseRecord_call ts (.error id e) y
      fun h => absurd h (by simp only [AuditCall.event]; decide)⟩

/-! ## A run of calls, read back -/

/-- A newline-free call's entry, without its newline, reads back as the call's record and
fits a line of the log. -/
theorem parseRecord_entry (ts : Tm) (c : AuditCall) (hc : c.NewlineFree) :
    parseRecord (c.entry ts).dropLast = some (c.record ts) ∧
      (c.entry ts).dropLast.length + 1 ≤ entrySize := by
  obtain ⟨b, he, -, hl, hp⟩ := c.entry_spec ts hc
  rw [he, List.dropLast_concat]
  exact ⟨hp, hl⟩

/-- The entries of newline-free calls split into lines at their newlines: one line per call,
the entry without its newline. -/
theorem auditLines_entries (calls : List (Tm × AuditCall)) (hnl : ∀ c ∈ calls, c.2.NewlineFree) :
    auditLines (calls.map fun c => c.2.entry c.1).flatten =
      calls.map fun c => (c.2.entry c.1).dropLast := by
  have hspec : ∀ c ∈ calls,
      (c.2.entry c.1).dropLast ++ ['\n'] = c.2.entry c.1 ∧ '\n' ∉ (c.2.entry c.1).dropLast := by
    intro c hc
    obtain ⟨b, he, hn, -, -⟩ := c.2.entry_spec c.1 (hnl c hc)
    rw [he, List.dropLast_concat]
    exact ⟨rfl, hn⟩
  have hsplit : (calls.map fun c => c.2.entry c.1) =
      (calls.map fun c => (c.2.entry c.1).dropLast).map (· ++ ['\n']) := by
    rw [List.map_map]
    exact List.map_congr_left fun c hc => (hspec c hc).1.symm
  rw [hsplit, auditLines_flatten _ fun b hb => by
    obtain ⟨c, hc, rfl⟩ := List.mem_map.mp hb; exact (hspec c hc).2]

/-- **An audit log reads back record by record.** On an open log, a run of calls whose fields
hold no newline appends exactly one line per call, in call order, each of at most
`ENTRY_SIZE` bytes with its newline; and each line reads back as its call's timestamp, event
and order id, with the symbol id for `ORDER` and `FILL`. -/
theorem runCalls_records (log : AuditLog) (hopen : log.isOpen = true)
    (calls : List (Tm × AuditCall)) (hnl : ∀ c ∈ calls, c.2.NewlineFree) :
    (auditLines ((log.runCalls calls).file.drop log.file.length)).length = calls.length ∧
      (∀ l ∈ auditLines ((log.runCalls calls).file.drop log.file.length),
        l.length + 1 ≤ entrySize) ∧
      (auditLines ((log.runCalls calls).file.drop log.file.length)).map parseRecord =
        calls.map fun c => some (c.2.record c.1) := by
  rw [AuditLog.file_runCalls hopen, List.drop_left, auditLines_entries calls hnl]
  refine ⟨by simp, fun b hb => ?_, ?_⟩
  · obtain ⟨c, hc, rfl⟩ := List.mem_map.mp hb
    exact (parseRecord_entry c.1 c.2 (hnl c hc)).2
  · rw [List.map_map]
    exact List.map_congr_left fun c hc => (parseRecord_entry c.1 c.2 (hnl c hc)).1

/-- A freshly opened log and one `log_sent` call meet the conditions. -/
theorem runCalls_records_one_sent :
    (AuditLog.create (some [])).isOpen = true ∧
      (∀ c ∈ [((⟨2026, 1, 30, 12, 0, 0, by decide, by decide, by decide, by decide, by decide,
          by decide⟩ : Tm), AuditCall.sent 5)], c.2.NewlineFree) ∧
      (auditLines (((AuditLog.create (some [])).runCalls
          [(⟨2026, 1, 30, 12, 0, 0, by decide, by decide, by decide, by decide, by decide,
              by decide⟩, AuditCall.sent 5)]).file.drop (AuditLog.create (some [])).file.length)).length = 1 ∧
      (∀ l ∈ auditLines (((AuditLog.create (some [])).runCalls
          [(⟨2026, 1, 30, 12, 0, 0, by decide, by decide, by decide, by decide, by decide,
              by decide⟩, AuditCall.sent 5)]).file.drop (AuditLog.create (some [])).file.length),
        l.length + 1 ≤ entrySize) ∧
      (auditLines (((AuditLog.create (some [])).runCalls
          [(⟨2026, 1, 30, 12, 0, 0, by decide, by decide, by decide, by decide, by decide,
              by decide⟩, AuditCall.sent 5)]).file.drop (AuditLog.create (some [])).file.length)).map parseRecord =
        [some (AuditCall.record ⟨2026, 1, 30, 12, 0, 0, by decide, by decide, by decide, by decide,
          by decide, by decide⟩ (.sent 5))] := by
  have hnl : ∀ c ∈ [((⟨2026, 1, 30, 12, 0, 0, by decide, by decide, by decide, by decide, by decide,
      by decide⟩ : Tm), AuditCall.sent 5)], c.2.NewlineFree := by
    simp [AuditCall.NewlineFree, AuditCall.fields]
  exact ⟨rfl, hnl, runCalls_records _ rfl _ hnl⟩

set_option maxRecDepth 8000 in
/-- **A newline in an acknowledgement id forges a record.** One `log_ack` on a freshly
opened log, with the exchange's ack id `EX1⏎2026-01-30T12:00:01Z|SENT|7`, appends two lines;
the second reads back as a `SENT` record of order 7. -/
theorem logAck_newline_forges_record :
    (auditLines (((AuditLog.create (some [])).runCalls
        [(⟨2026, 1, 30, 12, 0, 0, by decide, by decide, by decide, by decide, by decide, by decide⟩,
          .ack 5 (some ⟨"EX1\n2026-01-30T12:00:01Z|SENT|7".toList, by decide⟩))]).file.drop
        auditHeader.length)).map parseRecord =
      [some ⟨"2026-01-30T12:00:00Z".toList, "ACK".toList, 5, none⟩,
        some ⟨"2026-01-30T12:00:01Z".toList, "SENT".toList, 7, none⟩] := by
  decide

end Sage
