import Sage.Poe.Printf

/-! # The FIX encoder (`poe/fix_encoder.hpp`)

`FIXEncoder::encode_new_order_fast` writes a FIX 4.2 NewOrderSingle into a caller's buffer,
`encode_cancel_order_fast` an OrderCancelRequest:
fields `tag=value` each closed by SOH (`0x01`), the BodyLength (9) patched in after the body
is written, and the CheckSum (10) over every byte before it. The write pointer is the length
of what has been written; `end` is `buffer_size - 16` bytes in.

* **`appendField`**, **`appendIntField`**, **`appendDoubleField`** — the three writers, each
  skipping its field when the room it asks for is not there.
* **`encodeFast`** — the frame both encoders share: header, body fields, BodyLength patch,
  CheckSum.
* **`encodeNewOrderFast`**, **`encodeCancelOrderFast`** — NewOrderSingle and
  OrderCancelRequest, each `encodeFast` of its body fields. -/

namespace Sage

/-- `SOH`, the FIX field separator. -/
def soh : Char := Char.ofNat 1

/-- `append_field(ptr, end, field)`: `field` and a SOH, unless `ptr + len + 1 > end`. `buf` is
what lies before `ptr`; `limit` is `end - buffer`. -/
def appendField (limit : Nat) (buf field : List Char) : List Char :=
  if buf.length + field.length + 1 > limit then buf else buf ++ field ++ [soh]

/-- `append_int_field(ptr, end, prefix, value)`: `prefix`, `%lu` of `value` and a SOH, unless
fewer than `prefix_len + 20` bytes are left. -/
def appendIntField (limit : Nat) (buf pre : List Char) (value : BitVec 64) : List Char :=
  if buf.length + pre.length + 20 > limit then buf else buf ++ pre ++ decimal value.toNat ++ [soh]

/-- `append_double_field(ptr, end, prefix, value)`: `prefix`, `%.8f` of `value` and a SOH,
unless fewer than `prefix_len + 32` bytes are left. -/
def appendDoubleField (limit : Nat) (buf pre : List Char) (value : DoubleText) : List Char :=
  if buf.length + pre.length + 32 > limit then buf else buf ++ pre ++ value.render ++ [soh]

/-- The byte sum modulo 256 of the FIX CheckSum (each `char` read as a `uint8_t`). -/
def fixChecksum (bytes : List Char) : Nat := (bytes.map fun c => c.toNat % 256).sum % 256

/-- A body field and the writer that appends it. -/
inductive FixField
  /-- `append_field(ptr, end, field)`. -/
  | str (field : List Char)
  /-- `append_int_field(ptr, end, prefix, value)`. -/
  | uint (pre : List Char) (value : BitVec 64)
  /-- `append_double_field(ptr, end, prefix, value)`. -/
  | dbl (pre : List Char) (value : DoubleText)

/-- Append the field with its writer after `buf`. -/
def FixField.append (limit : Nat) (buf : List Char) : FixField → List Char
  | .str field => appendField limit buf field
  | .uint pre value => appendIntField limit buf pre value
  | .dbl pre value => appendDoubleField limit buf pre value

/-- What an encoder leaves in the buffer: the bytes before `ptr` (their number is the return
value), and `body_len_ptr - buffer`, where the BodyLength digits are stored from. -/
structure FixOutput where
  bytes : List Char
  bodyLenAt : Nat

/-- The frame `encode_new_order_fast` and `encode_cancel_order_fast` share around their body
fields `body`: BeginString (8) and the BodyLength placeholder `9=000`, the body, the
BodyLength digits, and the CheckSum (10). The digits are the first three characters of
`%03zu` (`snprintf` into a 4-byte `len_str`), stored at `body_len_ptr[2]`, `[3]` and `[4]`
whether or not `9=000` was written; a store at or past `ptr` leaves the returned bytes alone.
The CheckSum field is `10=%03u` cut to 7 characters. -/
def encodeFast (bufferSize : Nat) (body : List FixField) : FixOutput :=
  let limit := bufferSize - 16
  let b := appendField limit [] "8=FIX.4.2".toList
  let bodyLenAt := b.length
  let b := appendField limit b "9=000".toList
  let bodyStart := b.length
  let b := body.foldl (FixField.append limit) b
  let lenStr := (zeroPad3 (b.length - bodyStart)).take 3
  let b := ((b.set (bodyLenAt + 2) (lenStr.getD 0 '0')).set (bodyLenAt + 3)
    (lenStr.getD 1 '0')).set (bodyLenAt + 4) (lenStr.getD 2 '0')
  ⟨appendField limit b (("10=".toList ++ zeroPad3 (fixChecksum b)).take 7), bodyLenAt⟩

/-- The body of `encode_new_order_fast`: MsgType `D`, ClOrdID, Symbol, Side (`1` when
`side > 0`, else `2`), the fixed TransactTime, OrderQty, OrdType `2`, Price, TimeInForce `0`. -/
def newOrderBody (orderId symbolId : BitVec 64) (side : Int8) (price quantity : DoubleText) :
    List FixField :=
  [.str "35=D".toList, .uint "11=".toList orderId, .uint "55=".toList symbolId,
    .str (if 0 < side then "54=1" else "54=2").toList, .str "60=20260130-12:00:00.000".toList,
    .dbl "38=".toList quantity, .str "40=2".toList, .dbl "44=".toList price, .str "59=0".toList]

/-- `encode_new_order_fast(buffer, buffer_size, order_id, symbol_id, side, price, quantity)`:
the bytes written. -/
def encodeNewOrderFast (bufferSize : Nat) (orderId symbolId : BitVec 64) (side : Int8)
    (price quantity : DoubleText) : List Char :=
  (encodeFast bufferSize (newOrderBody orderId symbolId side price quantity)).bytes

/-- The body of `encode_cancel_order_fast`: MsgType `F`, ClOrdID, OrigClOrdID. -/
def cancelOrderBody (orderId origOrderId : BitVec 64) : List FixField :=
  [.str "35=F".toList, .uint "11=".toList orderId, .uint "41=".toList origOrderId]

/-- `encode_cancel_order_fast(buffer, buffer_size, order_id, orig_order_id)`: the bytes
written. -/
def encodeCancelOrderFast (bufferSize : Nat) (orderId origOrderId : BitVec 64) : List Char :=
  (encodeFast bufferSize (cancelOrderBody orderId origOrderId)).bytes

/-- `FIX_BUFFER_SIZE` of POE. -/
def fixBufferSize : Nat := 512

end Sage
