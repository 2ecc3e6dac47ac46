import Sage.Poe.Printf

/-! # The audit log (`poe/audit_log.hpp`)

`AuditLog` appends one text record per lifecycle event of an order to `sage_audit.log`,
`TIMESTAMP|EVENT|ORDER_ID[|FIELD…]` closed by a newline, formatted with `snprintf` into a
256-byte stack buffer (`ENTRY_SIZE`). The state is what the calls change: whether the stream
opened, the bytes handed to it, how far they have been flushed to the kernel, and the four
counters. Nothing here reaches the disk: `sync` flushes the stream and calls `pubsync` on its
`filebuf`, which writes the same buffer to the kernel again and makes no `fsync`.

* **`AuditLog.create`** — the constructor: open in append mode, then the three header lines.
* **`writeEntry`**, **`writeEntrySafe`** — the two write paths; the safe one cuts a record of
  256 bytes or more to 255, ending in `[TRUNC]\n`, and counts the truncation.
* **`logOrder`**, **`logSent`**, **`logAck`**, **`logFill`**, **`logReject`**,
  **`logError`**, **`flush`**, **`sync`** — the public calls.
* **`AuditCall`**, **`AuditLog.runCalls`** — a sequence of logging calls, each with the UTC
  time `get_timestamp_utc` read for it. -/

namespace Sage

/-- A `const char*` argument: its characters up to the terminating NUL. -/
structure CStr where
  chars : List Char
  no_nul : Char.ofNat 0 ∉ chars

/-- The audit log's state. -/
structure AuditLog where
  /-- `file_.is_open()`: fixed by the constructor. -/
  isOpen : Bool
  /-- Every byte handed to `file_`, in order: what the file holds once flushed. -/
  file : List Char
  /-- How many of them the last `flush` or `sync` pushed to the kernel. -/
  flushed : Nat
  pendingWrites : BitVec 64
  entriesLogged : BitVec 64
  truncationCount : BitVec 64
  syncCount : BitVec 64

/-- The three header lines the constructor writes to an opened file. -/
def auditHeader : List Char :=
  ("# SAGE Audit Log\n" ++ "# Format: TIMESTAMP|EVENT|ORDER_ID|SYMBOL|SIDE|PRICE|QTY\n" ++
    "# Events: ORDER (intent), SENT (transmitted), ACK, REJECT, FILL, ERROR\n").toList

/-- `ENTRY_SIZE`. -/
def entrySize : Nat := 256

/-- `FLUSH_INTERVAL`. -/
def flushInterval : BitVec 64 := 100

namespace AuditLog

/-- `AuditLog(filename)`: `file_.open(filename, app | out)` finds the file's earlier content
(`some old`) or fails (`none`); an opened file gets the header, flushed. -/
def create : Option (List Char) → AuditLog
  | none => ⟨false, [], 0, 0, 0, 0, 0⟩
  | some old =>
    let file := old ++ auditHeader
    ⟨true, file, file.length, 0, 0, 0, 0⟩

/-- `write_entry(buffer, len)`: append `bytes`, count it, flush every `FLUSH_INTERVAL`
entries. -/
def writeEntry (log : AuditLog) (bytes : List Char) : AuditLog :=
  if bytes.length = 0 then log
  else
    let log := { log with file := log.file ++ bytes, entriesLogged := log.entriesLogged + 1,
                          pendingWrites := log.pendingWrites + 1 }
    if log.pendingWrites ≥ flushInterval then
      { log with flushed := log.file.length, pendingWrites := 0 }
    else log

/-- What `write_entry_safe` writes of the record `line` that `snprintf` formatted (`len` is
its full length): a record of `ENTRY_SIZE` bytes or more keeps its first 247 bytes and gets
the 8-byte marker `[TRUNC]\n`, 255 bytes in all. -/
def truncateEntry (line : List Char) : List Char :=
  if line.length ≥ entrySize then line.take (entrySize - 8 - 1) ++ "[TRUNC]\n".toList else line

/-- `write_entry_safe(buffer, len, ENTRY_SIZE)`: count a truncation, then `write_entry`. -/
def writeEntrySafe (log : AuditLog) (line : List Char) : AuditLog :=
  (if line.length ≥ entrySize then { log with truncationCount := log.truncationCount + 1 }
    else log).writeEntry (truncateEntry line)

/-- The record `"%s|EVENT|%llu|%s…\n"` that the `snprintf` of every logging call formats: the
timestamp, the event name, the order id, then the call's further fields, each after a `|`. -/
def recordLine (ts : Tm) (event : String) (orderId : BitVec 64) (fields : List (List Char)) :
    List Char :=
  strftimeUtc ts ++ ['|'] ++ event.toList ++ ['|'] ++ decimal orderId.toNat ++
    (fields.map fun f => '|' :: f).flatten ++ ['\n']

/-- `side_str` of `format_order_log`: `BUY` when `side > 0`, else `SELL`. -/
def sideStr (side : Int8) : List Char := if 0 < side then "BUY".toList else "SELL".toList

/-- `format_order_log(buffer, size, event, order_id, order)`:
`"%s|%s|%llu|%llu|%s|%.8f|%.8f\n"`. -/
def formatOrderLog (ts : Tm) (event : String) (orderId : BitVec 64) (order : OrderRequest) :
    List Char :=
  recordLine ts event orderId [decimal order.symbolId.toNat, sideStr order.side,
    order.price.toDoubleText.render, order.quantity.toDoubleText.render]

/-- `log_order(exchange_order_id, order)`: the `ORDER` record through `write_entry` (no
truncation guard: the record always fits, `formatOrderLog_length_lt`). -/
def logOrder (log : AuditLog) (ts : Tm) (exchangeOrderId : BitVec 64) (order : OrderRequest) :
    AuditLog :=
  if !log.isOpen then log else log.writeEntry (formatOrderLog ts "ORDER" exchangeOrderId order)

/-- The logging calls that format a record and write it through `write_entry_safe`. -/
def logSafe (log : AuditLog) (ts : Tm) (event : String) (orderId : BitVec 64)
    (fields : List (List Char)) : AuditLog :=
  if !log.isOpen then log else log.writeEntrySafe (recordLine ts event orderId fields)

/-- `log_sent(order_id)`: `"%s|SENT|%llu\n"`. -/
def logSent (log : AuditLog) (ts : Tm) (orderId : BitVec 64) : AuditLog :=
  log.logSafe ts "SENT" orderId []

/-- `log_ack(order_id, exchange_ack_id)`: `"%s|ACK|%llu|%s\n"`, a null id printed empty. -/
def logAck (log : AuditLog) (ts : Tm) (orderId : BitVec 64) (exchangeAckId : Option CStr) :
    AuditLog :=
  log.logSafe ts "ACK" orderId [(exchangeAckId.map CStr.chars).getD []]

/-- `log_fill(order_id, symbol_id, fill_price, fill_qty)`: `"%s|FILL|%llu|%llu|%.8f|%.8f\n"`. -/
def logFill (log : AuditLog) (ts : Tm) (orderId symbolId : BitVec 64)
    (fillPrice fillQty : DoubleText) : AuditLog :=
  log.logSafe ts "FILL" orderId [decimal symbolId.toNat, fillPrice.render, fillQty.render]

/-- `log_reject(order_id, reason)`: the reason cut to 63 characters (`strncpy` into
`safe_reason[64]`), `"%s|REJECT|%llu|%s\n"` written straight to the stream (at most 255
bytes) and flushed; it bypasses `write_entry`, so no counter moves. -/
def logReject (log : AuditLog) (ts : Tm) (orderId : BitVec 64) (reason : Option CStr) :
    AuditLog :=
  if !log.isOpen then log
  else
    let line := recordLine ts "REJECT" orderId [(reason.map fun r => r.chars.take 63).getD []]
    let file := log.file ++ line.take (if line.length < entrySize then line.length else entrySize - 1)
    { log with file, flushed := file.length }

/-- `log_error(order_id, error_msg)`: `"%s|ERROR|%llu|%s\n"`, a null message printed
`UNKNOWN`. -/
def logError (log : AuditLog) (ts : Tm) (orderId : BitVec 64) (errorMsg : Option CStr) :
    AuditLog :=
  log.logSafe ts "ERROR" orderId [(errorMsg.map CStr.chars).getD "UNKNOWN".toList]

/-- `flush()`: everything to the kernel. -/
def flush (log : AuditLog) : AuditLog :=
  if log.isOpen then { log with flushed := log.file.length, pendingWrites := 0 } else log

/-- `sync()`: `file_.flush()`, then `rdbuf()->pubsync()`, which on a `filebuf` is one more
flush to the kernel, and the count. -/
def sync (log : AuditLog) : AuditLog :=
  if log.isOpen then
    { log with flushed := log.file.length, syncCount := log.syncCount + 1, pendingWrites := 0 }
  else log

end AuditLog

/-! ## Runs of logging calls -/

/-- A call of the logging interface, with its arguments. -/
inductive AuditCall
  | order (exchangeOrderId : BitVec 64) (o : OrderRequest)
  | sent (orderId : BitVec 64)
  | ack (orderId : BitVec 64) (exchangeAckId : Option CStr)
  | fill (orderId symbolId : BitVec 64) (fillPrice fillQty : DoubleText)
  | reject (orderId : BitVec 64) (reason : Option CStr)
  | error (orderId : BitVec 64) (errorMsg : Option CStr)

namespace AuditLog

/-- One call, at the UTC time `ts`. -/
def call (log : AuditLog) (ts : Tm) : AuditCall → AuditLog
  | .order id o => log.logOrder ts id o
  | .sent id => log.logSent ts id
  | .ack id a => log.logAck ts id a
  | .fill id s p q => log.logFill ts id s p q
  | .reject id r => log.logReject ts id r
  | .error id e => log.logError ts id e

/-- A sequence of calls, each at its own time. -/
def runCalls (log : AuditLog) : List (Tm × AuditCall) → AuditLog
  | [] => log
  | (ts, c) :: cs => (log.call ts c).runCalls cs

end AuditLog

end Sage
