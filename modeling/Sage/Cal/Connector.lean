import Sage.Infra.RingBufferSteps
import Sage.Infra.RingBufferQueue

/-! # The connector stage (`cal/cal_main.cpp`, `cal/validator.hpp`)

CAL turns exchange trades into `MARKET_DATA` messages for ADE. The JSON decoder is an
external collaborator (its placeholder in the sources parses nothing), so the parsed tick is
an input. `process_message` runs on the WebSocket client's thread: validate, number, push
onto `g_cal_to_ade_buffer`. `heartbeat_thread` wakes every second and pushes a heartbeat
onto the same ring.

* **`Validator.validateMarketData`** — the ingress contract: symbol below `MAX_SYMBOLS`,
  positive price and quantity.
* **`SymbolTable.run_isValid`** — the symbol registry after any calls: a symbol is valid exactly
  when it is below `MAX_VALID_SYMBOL_ID` and was added since the last `clear()`.
* **`Cal.prepareMessage`**, **`Cal.processMessage`**, **`Cal.heartbeatTick`** — the two
  producers, the first split at its `try_push`.
* **`cal_heartbeat_race_loses_message`** — the two producers of one ring race on `head_`, and
  a message whose `try_push` returned `true` never reaches ADE.
* **`created`** — what CAL is for: the stream of validated, numbered ticks and heartbeats.
* **`Cal.run_forwards_created`** — with the two producers' calls serialized, the ring holds a
  selection of that stream in order, and every decoded tick is counted once. -/

namespace Sage

/-- `ValidationStatus`. -/
inductive ValidationStatus
  | accept | reject | warn
  deriving DecidableEq, Repr

/-- `ValidationResult`: a status and a reason (`nullptr` is `none`). -/
structure ValidationResult where
  status : ValidationStatus
  reason : Option String
  deriving DecidableEq, Repr

/-- `MAX_VALID_SYMBOL_ID`. -/
def maxValidSymbolId : Nat := 256

namespace Validator

/-- `validate_symbol_id(symbol_id)`. -/
def validateSymbolId (symbolId : BitVec 64) : Bool := symbolId.toNat < maxValidSymbolId

/-- `validate_market_data(data)`: the symbol range, then the price, then the quantity. -/
def validateMarketData (data : MarketData) : ValidationResult :=
  if data.symbolId.toNat ≥ maxValidSymbolId then ⟨.reject, some "Symbol ID out of range"⟩
  else if data.price.raw.val ≤ 0 then ⟨.reject, some "Price <= 0"⟩
  else if data.quantity.raw.val ≤ 0 then ⟨.reject, some "Qty <= 0"⟩
  else ⟨.accept, none⟩

/-- What `validate_market_data` accepts: a symbol below `MAX_VALID_SYMBOL_ID`, a positive
price and a positive quantity. -/
theorem validateMarketData_accept_iff (data : MarketData) :
    (validateMarketData data).status = .accept ↔
      data.symbolId.toNat < maxValidSymbolId ∧ 0 < data.price.raw.val ∧
        0 < data.quantity.raw.val := by
  unfold validateMarketData
  split_ifs <;> simp <;> omega

end Validator

/-! ## The symbol table

`SymbolTable` (`validator.hpp`) is the registry the validator's documentation has the hot path
consult; `process_message` does not use it. `valid_symbols_` is an
`std::unordered_set<uint64_t>`: the model keeps its elements as a list with no element twice,
each below `MAX_VALID_SYMBOL_ID`, since `add_symbol` inserts nothing else. -/

/-- `SymbolTable`: the elements of `valid_symbols_`. -/
structure SymbolTable where
  validSymbols : List (BitVec 64)
  nodup : validSymbols.Nodup
  lt_max : ∀ s ∈ validSymbols, s.toNat < maxValidSymbolId

/-- A call on the table: `add_symbol(symbol_id, name)` (the name is ignored) or `clear()`. -/
inductive SymbolCall
  | addSymbol (symbolId : BitVec 64)
  | clear
  deriving DecidableEq, Repr

namespace SymbolTable

/-- The default-constructed table. -/
def empty : SymbolTable := ⟨[], List.nodup_nil, fun _ h => absurd h (List.not_mem_nil _)⟩

/-- `add_symbol(symbol_id)`: `valid_symbols_.insert(symbol_id)` when
`symbol_id < MAX_VALID_SYMBOL_ID`; inserting an element already present changes nothing. -/
def addSymbol (t : SymbolTable) (symbolId : BitVec 64) : SymbolTable :=
  if h : symbolId.toNat < maxValidSymbolId then
    if hm : symbolId ∈ t.validSymbols then t
    else ⟨t.validSymbols ++ [symbolId], t.nodup.append (List.nodup_singleton _)
        (List.disjoint_singleton.2 hm), fun s hs => by
          rcases List.mem_append.1 hs with hs | hs
          · exact t.lt_max s hs
          · rw [List.mem_singleton.1 hs]; exact h⟩
  else t

/-- `is_valid(symbol_id)`: `find(symbol_id) != end()`. -/
def isValid (t : SymbolTable) (symbolId : BitVec 64) : Bool := decide (symbolId ∈ t.validSymbols)

/-- `count()`: `size()`. -/
def count (t : SymbolTable) : BitVec 64 := BitVec.ofNat 64 t.validSymbols.length

/-- One call. -/
def call (t : SymbolTable) : SymbolCall → SymbolTable
  | .addSymbol symbolId => t.addSymbol symbolId
  | .clear => empty

/-- A sequence of calls. -/
def run (t : SymbolTable) (calls : List SymbolCall) : SymbolTable := calls.foldl call t

theorem isValid_addSymbol (t : SymbolTable) (symbolId x : BitVec 64) :
    (t.addSymbol symbolId).isValid x =
      (t.isValid x || (decide (x = symbolId) && decide (symbolId.toNat < maxValidSymbolId))) := by
  unfold addSymbol
  split
  · split
    · next hm => by_cases hx : x = symbolId <;> simp_all [isValid]
    · simp [isValid, Bool.or_comm, *]
  · simp [*]

/-- At most `MAX_VALID_SYMBOL_ID` symbols: the elements are distinct and below it. -/
theorem length_le (t : SymbolTable) : t.validSymbols.length ≤ maxValidSymbolId := by
  have hsub : t.validSymbols.map BitVec.toNat ⊆ List.range maxValidSymbolId := fun n hn => by
    obtain ⟨s, hs, rfl⟩ := List.mem_map.1 hn
    exact List.mem_range.2 (t.lt_max s hs)
  have := ((t.nodup.map fun _ _ => BitVec.eq_of_toNat_eq).subperm hsub).length_le
  rwa [List.length_map, List.length_range] at this

/-- **What a run of calls leaves in the table.** After any calls, `symbol_id` is valid exactly
when it is below `MAX_VALID_SYMBOL_ID` and was added after the last `clear()`, or no `clear()`
was called and it was valid before; `count()` never exceeds `MAX_VALID_SYMBOL_ID`. -/
theorem run_isValid (t : SymbolTable) (calls : List SymbolCall) (x : BitVec 64) :
    ((t.run calls).isValid x = true ↔
      (x.toNat < maxValidSymbolId ∧
          SymbolCall.addSymbol x ∈ calls.reverse.takeWhile (· != .clear)) ∨
        (SymbolCall.clear ∉ calls ∧ t.isValid x = true)) ∧
      (t.run calls).count.toNat ≤ maxValidSymbolId := by
  refine ⟨?_, ?_⟩
  · induction calls using List.reverseRecOn with
    | nil => simp [run]
    | append_singleton calls c ih =>
      rw [run, List.foldl_append, List.foldl_cons, List.foldl_nil, ← run]
      cases c with
      | addSymbol y =>
        rw [call, isValid_addSymbol, Bool.or_eq_true, ih]
        by_cases hy : x = y
        · subst hy
          simp
          tauto
        · simp [hy]
      | clear => simp [call, empty, isValid]
  · have := length_le (t.run calls)
    rw [count, BitVec.toNat_ofNat, Nat.mod_eq_of_lt (by unfold maxValidSymbolId at this; omega)]
    exact this

example :
    (empty.run [.addSymbol 3, .addSymbol 300, .clear, .addSymbol 7, .addSymbol 7]).validSymbols =
      [7] := by decide

end SymbolTable

/-- CAL's state: the ring to ADE, the sequence counter, the heartbeat's own counter, and
the three metrics. -/
structure Cal where
  buffer : RingBuffer SageMessage cap65536
  sequence : BitVec 64
  heartbeatSeq : BitVec 64
  messagesReceived : BitVec 64
  messagesDropped : BitVec 64
  validationErrors : BitVec 64

namespace Cal

/-- CAL at start-up: an empty zeroed ring and every counter zero. -/
def init : Cal := ⟨RingBuffer.empty 0 fun _ => SageMessage.zeroed, 0, 0, 0, 0, 0⟩

/-- `process_message` up to its `try_push`: drop a tick the decoder rejected, count one the
validator rejects, and number an accepted one (`++g_sequence`), giving the message to push.
The status test stands for `!validate_market_data(*result)`, which negates a
`ValidationResult` (a struct with no conversion to `bool`); the intent is "not accepted". -/
def prepareMessage (st : Cal) (parsed : Option MarketData) (timestamp : BitVec 64) :
    Cal × Option SageMessage :=
  match parsed with
  | none => (st, none)
  | some d =>
    if (Validator.validateMarketData d).status ≠ .accept then
      ({ st with validationErrors := st.validationErrors + 1 }, none)
    else
      let sequence := st.sequence + 1
      ({ st with sequence }, some ⟨timestamp, sequence, .marketData d⟩)

/-- `process_message(data, len)` with its `try_push` run to completion: count the message
received, or dropped when the ring is full. -/
def processMessage (st : Cal) (parsed : Option MarketData) (timestamp : BitVec 64) : Cal :=
  let r := st.prepareMessage parsed timestamp
  match r.2 with
  | none => r.1
  | some m =>
    let push := r.1.buffer.tryPush m
    if push.2 then { r.1 with buffer := push.1, messagesReceived := r.1.messagesReceived + 1 }
    else { r.1 with buffer := push.1, messagesDropped := r.1.messagesDropped + 1 }

/-- One wake-up of `heartbeat_thread` at monotonic time `now`: `++heartbeat_seq`, and a
best-effort `try_push` of `create_heartbeat(now, heartbeat_seq, 1)`. -/
def heartbeatTick (st : Cal) (now : BitVec 64) : Cal :=
  let heartbeatSeq := st.heartbeatSeq + 1
  { st with heartbeatSeq,
            buffer := (st.buffer.tryPush (SageMessage.createHeartbeat now heartbeatSeq 1)).1 }

end Cal

/-- The two threads of CAL that push onto `g_cal_to_ade_buffer`. -/
inductive CalThread
  /-- The WebSocket client's I/O thread, running `process_message`. -/
  | io
  /-- `heartbeat_thread`. -/
  | heartbeat
  deriving DecidableEq

/-- **CAL's two producers lose a message.** The I/O thread's `process_message` prepares the
first tick, `{symbol 0, price 100.0, quantity 1.0}`, as message 1 and calls `try_push`; it
loads `head_ = 0`. The heartbeat thread's `try_push` of heartbeat 1 loads the same `head_`,
writes slot 0 and publishes `head_ = 1`. The I/O thread then writes its message over slot 0
and publishes `head_ = 1` again. Both calls return `true`, but ADE's `try_pop_batch(·, 16)`
obtains only the tick: the heartbeat is lost. -/
theorem cal_heartbeat_race_loses_message :
    (Cal.init.prepareMessage (some ⟨⟨10000000000⟩, ⟨100000000⟩, 0, 4, 0⟩) 5).2 =
        some ⟨5, 1, .marketData ⟨⟨10000000000⟩, ⟨100000000⟩, 0, 4, 0⟩⟩ ∧
      ((Sys.init (ι := CalThread) (N := cap65536) 0 fun _ => SageMessage.zeroed).run
        [.call .io ⟨5, 1, .marketData ⟨⟨10000000000⟩, ⟨100000000⟩, 0, 4, 0⟩⟩,
          .call .heartbeat (SageMessage.createHeartbeat 7 1 1),
          .prodStep .heartbeat, .prodStep .heartbeat, .prodStep .heartbeat,
          .prodStep .io, .prodStep .io, .prodStep .io,
          .callBatch 16, .consStep, .consStep, .consStep]).map
        (fun s => (s.pushed .io, s.pushed .heartbeat, s.obtained)) =
        some ([⟨5, 1, .marketData ⟨⟨10000000000⟩, ⟨100000000⟩, 0, 4, 0⟩⟩],
          [SageMessage.createHeartbeat 7 1 1],
          [⟨5, 1, .marketData ⟨⟨10000000000⟩, ⟨100000000⟩, 0, 4, 0⟩⟩]) := by
  decide

/-! ## A serialized run, against what CAL is for

With the two producers' calls serialized, each call runs to completion. The ring is a `static`
of CAL's own process and nothing there pops it, so once it holds 65536 messages every further
push fails; the results below hold however full it is. -/

/-- One thing CAL does, its producers' calls serialized: `process_message` on a frame that the
decoder turned into `parsed` (`none`: not a trade), or one wake-up of `heartbeat_thread`. -/
inductive CalEvent
  | message (parsed : Option MarketData) (timestamp : BitVec 64)
  | heartbeat (now : BitVec 64)

namespace CalEvent

/-- Whether the event is a decoded tick that the validator accepts. -/
def accepted : CalEvent → Bool
  | .message (some d) _ => (Validator.validateMarketData d).status = .accept
  | _ => false

/-- Whether the event is a decoded tick that the validator rejects. -/
def rejected : CalEvent → Bool
  | .message (some d) _ => (Validator.validateMarketData d).status ≠ .accept
  | _ => false

end CalEvent

/-- **What CAL is for**: the messages a schedule makes it build, in order. Accepted ticks are
numbered on from `seq`, heartbeats on from `hb`; a frame that is not a trade and a tick the
validator rejects build nothing. -/
def created (seq hb : BitVec 64) : List CalEvent → List SageMessage
  | [] => []
  | .message none _ :: es => created seq hb es
  | .message (some d) timestamp :: es =>
    if (Validator.validateMarketData d).status = .accept then
      ⟨timestamp, seq + 1, .marketData d⟩ :: created (seq + 1) hb es
    else created seq hb es
  | .heartbeat now :: es => SageMessage.createHeartbeat now (hb + 1) 1 :: created seq (hb + 1) es

/-- Whether CAL may forward a message: market data that the validator accepts, or a heartbeat
of component `1`. -/
def SageMessage.fromCal (m : SageMessage) : Bool :=
  match m.payload with
  | .marketData d => (Validator.validateMarketData d).status = .accept
  | .heartbeat h => h.componentId = 1
  | _ => false

/-- Everything CAL builds, it may forward. -/
theorem fromCal_of_mem_created (seq hb : BitVec 64) (es : List CalEvent) :
    ∀ m ∈ created seq hb es, m.fromCal := by
  induction seq, hb, es using created.induct with
  | case1 => simp [created]
  | case2 seq hb _ es ih => simpa [created] using ih
  | case3 seq hb d _ es hacc ih =>
    simpa [created, hacc, SageMessage.fromCal] using ih
  | case4 seq hb d _ es hrej ih => simpa [created, hrej] using ih
  | case5 seq hb _ es ih =>
    simpa [created, SageMessage.fromCal, SageMessage.createHeartbeat] using ih

namespace Cal

/-- One event, its call run to completion. -/
def step (st : Cal) : CalEvent → Cal
  | .message parsed timestamp => st.processMessage parsed timestamp
  | .heartbeat now => st.heartbeatTick now

/-- A serialized schedule. -/
def run (st : Cal) : List CalEvent → Cal
  | [] => st
  | e :: es => (st.step e).run es

/-- **What one event does to the counters**: an accepted tick takes the next sequence number
and is counted received or dropped; a rejected one is counted an error. -/
theorem step_counters (st : Cal) (e : CalEvent) :
    (st.step e).sequence = st.sequence + BitVec.ofNat 64 ([e].countP CalEvent.accepted) ∧
      (st.step e).messagesReceived + (st.step e).messagesDropped =
        st.messagesReceived + st.messagesDropped + BitVec.ofNat 64 ([e].countP CalEvent.accepted) ∧
      (st.step e).validationErrors =
        st.validationErrors + BitVec.ofNat 64 ([e].countP CalEvent.rejected) := by
  cases e with
  | message p ts =>
    cases p with
    | none => simp [step, processMessage, prepareMessage, CalEvent.accepted, CalEvent.rejected]
    | some d =>
      by_cases hacc : (Validator.validateMarketData d).status = .accept
      · simp only [step, processMessage, prepareMessage, hacc, ne_eq, not_true_eq_false,
          if_false]
        split <;> simp [CalEvent.accepted, CalEvent.rejected, hacc] <;> bv_omega
      · simp [step, processMessage, prepareMessage, hacc, CalEvent.accepted, CalEvent.rejected]
  | heartbeat now => simp [step, heartbeatTick, CalEvent.accepted, CalEvent.rejected]

/-- The counters after a schedule. -/
theorem run_counters : ∀ (st : Cal) (es : List CalEvent),
    (st.run es).sequence = st.sequence + BitVec.ofNat 64 (es.countP CalEvent.accepted) ∧
      (st.run es).messagesReceived + (st.run es).messagesDropped =
        st.messagesReceived + st.messagesDropped + BitVec.ofNat 64 (es.countP CalEvent.accepted) ∧
      (st.run es).validationErrors =
        st.validationErrors + BitVec.ofNat 64 (es.countP CalEvent.rejected)
  | st, [] => by simp [run]
  | st, e :: es => by
    obtain ⟨h₁, h₂, h₃⟩ := step_counters st e
    obtain ⟨ih₁, ih₂, ih₃⟩ := run_counters (st.step e) es
    have hsplit : ∀ p : CalEvent → Bool,
        (e :: es).countP p = [e].countP p + es.countP p := fun p => by
      rw [← List.singleton_append, List.countP_append]
    simp only [run, ih₁, ih₂, ih₃, h₁, h₂, h₃, hsplit, BitVec.ofNat_add, BitVec.add_assoc,
      and_self]

/-- **One event, against what CAL is for**: the ring gains the message the event builds, or
nothing, and the producer's view stays safe. -/
theorem step_contents (st : Cal) (e : CalEvent) (es : List CalEvent) (h : st.buffer.TailOk) :
    (st.step e).buffer.TailOk ∧ ∃ M L,
      created st.sequence st.heartbeatSeq (e :: es) =
        M ++ created (st.step e).sequence (st.step e).heartbeatSeq es ∧
      (st.step e).buffer.contents = st.buffer.contents ++ L ∧ List.Sublist L M := by
  cases e with
  | message p ts =>
    cases p with
    | none => exact ⟨h, [], [], rfl, (List.append_nil _).symm, List.nil_sublist _⟩
    | some d =>
      by_cases hacc : (Validator.validateMarketData d).status = .accept
      · obtain ⟨h', L, hL, hsub⟩ :=
          st.buffer.tryPush_contents_sublist ⟨ts, st.sequence + 1, .marketData d⟩ h
        simp only [step, processMessage, prepareMessage, hacc, ne_eq, not_true_eq_false,
          if_false]
        split <;> exact ⟨h', _, L, by simp only [created, hacc, if_true]; rfl, hL, hsub⟩
      · simp only [step, processMessage, prepareMessage, hacc, ne_eq, not_false_eq_true,
          if_true]
        exact ⟨h, [], [], by simp only [created, hacc, if_false]; rfl,
          (List.append_nil _).symm, List.nil_sublist _⟩
  | heartbeat now =>
    obtain ⟨h', L, hL, hsub⟩ :=
      st.buffer.tryPush_contents_sublist (SageMessage.createHeartbeat now (st.heartbeatSeq + 1) 1) h
    exact ⟨h', _, L, rfl, hL, hsub⟩

/-- A schedule adds to the ring a selection of the messages it builds, in order. -/
theorem run_contents : ∀ (st : Cal) (es : List CalEvent), st.buffer.TailOk →
    ∃ L, (st.run es).buffer.contents = st.buffer.contents ++ L ∧
      List.Sublist L (created st.sequence st.heartbeatSeq es)
  | _, [], _ => ⟨[], (List.append_nil _).symm, List.nil_sublist _⟩
  | st, e :: es, h => by
    obtain ⟨h', M, L₁, hM, hL₁, hsub₁⟩ := step_contents st e es h
    obtain ⟨L₂, hL₂, hsub₂⟩ := run_contents (st.step e) es h'
    exact ⟨L₁ ++ L₂, by rw [run, hL₂, hL₁, List.append_assoc], hM ▸ hsub₁.append hsub₂⟩

/-- **CAL forwards what it is for, and counts every tick.** Over any serialized schedule from
start-up, the ring holds, in order, a selection of the messages the schedule builds: none is
reordered, duplicated or invented, so each is a heartbeat of component `1` or a tick that
passed the validator. The accepted ticks took the sequence numbers and were each counted
received or dropped; each rejected tick was counted an error. -/
theorem run_forwards_created (es : List CalEvent) :
    List.Sublist (init.run es).buffer.contents (created 0 0 es) ∧
      (∀ m ∈ (init.run es).buffer.contents, m.fromCal) ∧
      (init.run es).sequence = BitVec.ofNat 64 (es.countP CalEvent.accepted) ∧
      (init.run es).messagesReceived + (init.run es).messagesDropped = (init.run es).sequence ∧
      (init.run es).validationErrors = BitVec.ofNat 64 (es.countP CalEvent.rejected) := by
  obtain ⟨L, hL, hsub⟩ := run_contents init es (RingBuffer.tailOk_empty 0 _)
  have hnil : init.buffer.contents = [] := by simp [init, RingBuffer.contents, RingBuffer.empty]
  rw [hnil, List.nil_append] at hL
  obtain ⟨h₁, h₂, h₃⟩ := run_counters init es
  rw [hL]
  refine ⟨hsub, fun m hm => fromCal_of_mem_created 0 0 es m (hsub.subset hm), ?_, ?_, ?_⟩ <;>
    simp_all [init]

end Cal

end Sage
