import Sage.Types.FixedPoint

/-! # The message envelope (`types/sage_message.hpp`)

Every stage exchanges one 64-byte `SageMessage`: a header (receipt timestamp, sequence id,
`MessageType` tag) and a 40-byte payload union. The C++ union is modelled as the inductive
`Payload`, whose constructor *is* the tag: `SageMessage.msgType` reads it off, so a message
whose tag and payload disagree cannot be built. Every producer of the sources fills the union
member that matches the tag (`create_market_data`, `create_signal`, `create_heartbeat`, the
order built in RME), and every consumer reads only that member. Byte layout, alignment and
the `reserved` padding are not modelled.

Fields: `uint64_t` is `BitVec 64`, `uint32_t` is `BitVec 32`, `uint8_t` is `BitVec 8`,
`int8_t` is `Int8`. -/

namespace Sage

/-- `MessageType` (a `uint8_t` enum). -/
inductive MessageType
  | invalid | marketData | signal | orderRequest | orderAck | orderFill | orderCancel
  | riskAlert | heartbeat | shutdown
  deriving DecidableEq, Repr

/-- `MarketData`: one trade or quote tick. -/
structure MarketData where
  price : FixedPoint
  quantity : FixedPoint
  symbolId : BitVec 64
  /-- `flags`: bid `0x01`, ask `0x02`, trade `0x04`. -/
  flags : BitVec 32
  exchangeId : BitVec 8
  deriving DecidableEq, Repr

/-- `Signal`: a trading signal (`direction`: `+1` buy, `-1` sell, `0` neutral; `confidence`
in `[0, 1]`, scaled). -/
structure Signal where
  symbolId : BitVec 64
  confidence : FixedPoint
  direction : Int8
  strategyId : BitVec 8
  deriving DecidableEq, Repr

/-- `OrderRequest`: an order from RME to POE (`side`: `+1` buy, `-1` sell). -/
structure OrderRequest where
  orderId : BitVec 64
  symbolId : BitVec 64
  price : FixedPoint
  quantity : FixedPoint
  side : Int8
  /-- `1` market, `2` limit, `3` ioc. -/
  orderType : BitVec 8
  timeInForce : BitVec 8
  deriving DecidableEq, Repr

/-- `RiskAlert` (`alert_level`: `0` info, `1` warn, `2` critical). -/
structure RiskAlert where
  timestamp : BitVec 64
  exposure : Int64
  dailyPnl : Int64
  alertLevel : BitVec 8
  deriving DecidableEq, Repr

/-- `Heartbeat` (`status`: `0` ok, `1` degraded, `2` failing). -/
structure Heartbeat where
  sequence : BitVec 64
  componentId : BitVec 32
  status : BitVec 8
  deriving DecidableEq, Repr

/-- The payload union, one constructor per `MessageType`. The tags whose payload no code
reads (`INVALID`, `ORDER_ACK`, `ORDER_FILL`, `ORDER_CANCEL`, `SHUTDOWN`) carry nothing. -/
inductive Payload
  | invalid
  | marketData (d : MarketData)
  | signal (s : Signal)
  | order (o : OrderRequest)
  | orderAck
  | orderFill
  | orderCancel
  | riskAlert (a : RiskAlert)
  | heartbeat (h : Heartbeat)
  | shutdown
  deriving DecidableEq, Repr

/-- `SageMessage`: the envelope. -/
structure SageMessage where
  /-- `timestamp_ns`: local receipt time. -/
  timestampNs : BitVec 64
  /-- `sequence_id`: monotonic per producer. -/
  sequenceId : BitVec 64
  payload : Payload
  deriving DecidableEq, Repr

namespace SageMessage

/-- `msg_type`: the tag of the payload. -/
def msgType (m : SageMessage) : MessageType :=
  match m.payload with
  | .invalid => .invalid
  | .marketData _ => .marketData
  | .signal _ => .signal
  | .order _ => .orderRequest
  | .orderAck => .orderAck
  | .orderFill => .orderFill
  | .orderCancel => .orderCancel
  | .riskAlert _ => .riskAlert
  | .heartbeat _ => .heartbeat
  | .shutdown => .shutdown

/-- `create_market_data(timestamp, seq, data)`. -/
def createMarketData (timestamp seq : BitVec 64) (data : MarketData) : SageMessage :=
  ⟨timestamp, seq, .marketData data⟩

/-- `create_signal(timestamp, seq, sig)`. -/
def createSignal (timestamp seq : BitVec 64) (sig : Signal) : SageMessage :=
  ⟨timestamp, seq, .signal sig⟩

/-- `create_heartbeat(timestamp, seq, component_id)`: the heartbeat's own `sequence` is the
envelope's, its status `0` (ok). -/
def createHeartbeat (timestamp seq : BitVec 64) (componentId : BitVec 32) : SageMessage :=
  ⟨timestamp, seq, .heartbeat ⟨seq, componentId, 0⟩⟩

/-- An all-zero message, the content of a slot of a `static` ring never written: timestamp
and sequence `0`, tag `INVALID`. -/
def zeroed : SageMessage := ⟨0, 0, .invalid⟩

/-- `is_valid()`. -/
def isValid (m : SageMessage) : Bool := m.msgType != .invalid

end SageMessage

/-- `MAX_SYMBOLS` of ADE and RME: the size of their per-symbol arrays. -/
def maxSymbols : Nat := 256

/-- `symbol_id & (MAX_SYMBOLS - 1)`: the per-symbol array slot that ADE and RME index. -/
def symbolSlot (symbolId : BitVec 64) : Fin maxSymbols :=
  ⟨(symbolId &&& 255).toNat, by
    rw [BitVec.toNat_and]; exact Nat.lt_of_le_of_lt Nat.and_le_right (by decide)⟩

/-- Below `MAX_SYMBOLS` the slot is the id itself, so distinct valid ids never alias. -/
theorem symbolSlot_val_of_lt {symbolId : BitVec 64} (h : symbolId.toNat < maxSymbols) :
    (symbolSlot symbolId).val = symbolId.toNat := by
  have : (255 : BitVec 64).toNat = 2 ^ 8 - 1 := rfl
  simp only [symbolSlot, BitVec.toNat_and, this, Nat.and_pow_two_sub_one_eq_mod]
  exact Nat.mod_eq_of_lt h

end Sage
