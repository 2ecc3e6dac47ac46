import Sage.Poe.FixEncoder
import Sage.Poe.AuditLog

/-! # The order execution stage (`poe/poe_main.cpp`, `poe/order_id_gen.hpp`)

POE's hot loop pops RME's messages; on an `ORDER_REQUEST` it runs `process_order`: draw an
exchange order id, log the `ORDER` record, encode the FIX NewOrderSingle, hand it to
`send_to_exchange`, and log `SENT` or `ERROR|SEND_FAILED`. The heartbeat thread calls the
log's `flush`, the fsync thread its `sync`.

`send_to_exchange` is the spec's opaque `send(bytes) → bool`; the sources' placeholder adds
the length to `g_bytes_sent` and answers `true`. Its answer is an input of the model, and the
bytes sent are recorded on `wire`. Each `get_timestamp_utc` reads the clock, so each record
gets its own time.

* **`OrderIDGenerator.generate`** — `startup_ts << 32 | count`.
* **`Poe.logIntent`**, **`Poe.transmit`**, **`Poe.logOutcome`**, **`Poe.processOrder`** —
  the three phases of `process_order` and their composition.
* **`PoeEvent`**, **`Poe.step`**, **`Poe.run`** — the hot loop with the two housekeeping
  threads interleaved. -/

namespace Sage

/-- `OrderIDGenerator`: the start-up time in seconds and a 32-bit counter. -/
structure OrderIDGenerator where
  startupTs : BitVec 64
  counter : BitVec 32

/-- `generate()`: `static_cast<uint64_t>(startup_ts_) << 32 | count`, and the counter moves
on. -/
def OrderIDGenerator.generate (g : OrderIDGenerator) : BitVec 64 × OrderIDGenerator :=
  ((g.startupTs <<< 32) ||| g.counter.setWidth 64, { g with counter := g.counter + 1 })

/-- POE's state: the id generator, the audit log, what went on the wire, the counters, and
whether the hot loop has left on a `SHUTDOWN` message. -/
structure Poe where
  gen : OrderIDGenerator
  audit : AuditLog
  /-- The byte strings handed to `send_to_exchange`, in order. -/
  wire : List (List Char)
  ordersSent : BitVec 64
  ordersFailed : BitVec 64
  bytesSent : BitVec 64
  stopped : Bool

namespace Poe

/-- POE at start-up: the generator at the start-up time `startupTs`, the log as its
constructor left it, nothing sent. -/
def init (startupTs : BitVec 64) (audit : AuditLog) : Poe :=
  ⟨⟨startupTs, 0⟩, audit, [], 0, 0, 0, false⟩

/-- The FIX bytes `process_order` encodes for `order` under the exchange id `id`. -/
def fixFor (id : BitVec 64) (order : OrderRequest) : List Char :=
  encodeNewOrderFast fixBufferSize id order.symbolId order.side order.price.toDoubleText
    order.quantity.toDoubleText

/-- `process_order`, up to the send: draw the id, log the `ORDER` record. -/
def logIntent (st : Poe) (ts : Tm) (order : OrderRequest) : Poe × BitVec 64 :=
  let (id, gen) := st.gen.generate
  ({ st with gen, audit := st.audit.logOrder ts id order }, id)

/-- `send_to_exchange(g_fix_buffer, fix_len)`. -/
def transmit (st : Poe) (bytes : List Char) : Poe :=
  { st with wire := st.wire ++ [bytes], bytesSent := st.bytesSent + BitVec.ofNat 64 bytes.length }

/-- The `SEND_FAILED` message of `log_error`. -/
def sendFailed : CStr := ⟨"SEND_FAILED".toList, by decide⟩

/-- After the send: `SENT` and `g_orders_sent`, or `ERROR|SEND_FAILED` and
`g_orders_failed`. -/
def logOutcome (st : Poe) (ts : Tm) (id : BitVec 64) (sendOk : Bool) : Poe :=
  if sendOk then { st with audit := st.audit.logSent ts id, ordersSent := st.ordersSent + 1 }
  else { st with audit := st.audit.logError ts id (some sendFailed),
                 ordersFailed := st.ordersFailed + 1 }

/-- `process_order(msg)` on the order `order`; `tsOrder` and `tsOutcome` are the clock
readings of the two records, `sendOk` the transport's answer. -/
def processOrder (st : Poe) (tsOrder tsOutcome : Tm) (sendOk : Bool) (order : OrderRequest) :
    Poe :=
  let r := st.logIntent tsOrder order
  (r.1.transmit (fixFor r.2 order)).logOutcome tsOutcome r.2 sendOk

end Poe

/-- What can happen to POE: the hot loop pops a message (with the clock readings and the
transport's answer `process_order` would use), or a housekeeping thread flushes or syncs the
log. -/
inductive PoeEvent
  | popped (m : SageMessage) (tsOrder tsOutcome : Tm) (sendOk : Bool)
  | flush
  | sync

namespace Poe

/-- One event. After `SHUTDOWN` the hot loop has left and pops nothing more. -/
def step (st : Poe) : PoeEvent → Poe
  | .popped m tsOrder tsOutcome sendOk =>
    if st.stopped then st
    else match m.payload with
      | .order o => st.processOrder tsOrder tsOutcome sendOk o
      | .shutdown => { st with stopped := true }
      | _ => st
  | .flush => { st with audit := st.audit.flush }
  | .sync => { st with audit := st.audit.sync }

/-- A run of events. -/
def run (st : Poe) : List PoeEvent → Poe
  | [] => st
  | e :: es => (st.step e).run es

end Poe

end Sage
