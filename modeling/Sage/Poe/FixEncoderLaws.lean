import Sage.Poe.FixEncoder

/-! # What the FIX encoders write

The message the spec describes is `fixMessage`: `8=FIX.4.2`, `9=` with the number of body
bytes, the body fields in order, and `10=` with the byte sum of everything before it modulo
256, each field closed by SOH. The encoders write it when every field's writer finds the room
it asks for (`Fits`). A writer that does not find it skips its field, and the frame goes on:
the BodyLength still counts what was written, and the CheckSum is still appended when it fits.

* **`encodeFast_spec`** — with room for every field, the frame writes `fixMessage` of the body
  fields' texts, and the BodyLength digits land inside it.
* **`length_encodeFast_le`** — the returned length is at most `buffer_size`, for every size.
* **`encoders_complete`** — from 182 bytes for a NewOrderSingle and 92 for an
  OrderCancelRequest, every order is written as the spec's message.
* **`encoders_skip_fields`** — below that, a NewOrderSingle can come out with a valid
  BodyLength and CheckSum and five of its fields missing, an OrderCancelRequest as a lone
  `9=000`, and a buffer of fewer than 5 bytes gets the BodyLength digits stored past its
  end. -/

namespace Sage

/-- The `tag=value` text a body field carries. -/
def FixField.text : FixField → List Char
  | .str field => field
  | .uint pre value => pre ++ decimal value.toNat
  | .dbl pre value => pre ++ value.render

/-- The room a field's writer asks for before it writes. -/
def FixField.room : FixField → Nat
  | .str field => field.length + 1
  | .uint pre _ => pre.length + 20
  | .dbl pre _ => pre.length + 32

/-- Fields, each closed by SOH. -/
def fixFields (fields : List (List Char)) : List Char := (fields.map (· ++ [soh])).flatten

/-- **The message of the spec** with the body fields `body`: BeginString, BodyLength (the
number of body bytes), the body, and CheckSum (the byte sum of all before it, modulo 256),
the two numbers with at least three digits. -/
def fixMessage (body : List (List Char)) : List Char :=
  let pre := fixFields ["8=FIX.4.2".toList, "9=".toList ++ zeroPad3 (fixFields body).length] ++
    fixFields body
  pre ++ fixFields ["10=".toList ++ zeroPad3 (fixChecksum pre)]

/-- Every writer of `fs`, from offset `ptr` on, finds the room it asks for below `limit`, and
so does the CheckSum field after them. -/
def Fits (limit : Nat) : Nat → List FixField → Prop
  | ptr, [] => ptr + 7 ≤ limit
  | ptr, f :: fs => ptr + f.room ≤ limit ∧ Fits limit (ptr + f.text.length + 1) fs

/-! ## (1) The writers -/

@[simp] theorem fixFields_nil : fixFields [] = [] := rfl

@[simp] theorem fixFields_cons (f : List Char) (fs : List (List Char)) :
    fixFields (f :: fs) = f ++ [soh] ++ fixFields fs := by
  simp [fixFields]

theorem appendField_of_le {limit : Nat} {buf field : List Char}
    (h : buf.length + field.length + 1 ≤ limit) :
    appendField limit buf field = buf ++ field ++ [soh] :=
  if_neg (by omega)

theorem FixField.append_of_le {limit : Nat} {buf : List Char} {f : FixField}
    (h : buf.length + f.room ≤ limit) : f.append limit buf = buf ++ f.text ++ [soh] := by
  cases f <;> simp only [FixField.room] at h <;>
    simp (disch := omega) only [FixField.append, appendField, appendIntField, appendDoubleField,
      FixField.text, if_neg, List.append_assoc]

theorem FixField.append_of_lt {limit : Nat} {buf : List Char} {f : FixField}
    (h : limit < buf.length + f.room) : f.append limit buf = buf := by
  cases f <;> simp only [FixField.room] at h <;>
    simp (disch := omega) only [FixField.append, appendField, appendIntField, appendDoubleField,
      if_pos]

/-- A field that is written takes at most one byte more than the room it asked for. -/
theorem length_append_le {limit : Nat} (buf : List Char) {f : FixField}
    (hf : f.text.length ≤ f.room) (h : buf.length ≤ limit + 1) :
    (f.append limit buf).length ≤ limit + 1 := by
  by_cases hr : buf.length + f.room ≤ limit
  · rw [FixField.append_of_le hr]; simp; omega
  · rwa [FixField.append_of_lt (by omega)]

theorem Fits.foldl {limit : Nat} {fs : List FixField} {buf : List Char}
    (h : Fits limit buf.length fs) :
    fs.foldl (FixField.append limit) buf = buf ++ fixFields (fs.map FixField.text) := by
  induction fs generalizing buf with
  | nil => simp
  | cons f fs ih =>
    rw [List.foldl_cons, FixField.append_of_le h.1, ih (by simpa using h.2)]
    simp

theorem Fits.checksum {limit : Nat} {fs : List FixField} {ptr : Nat} (h : Fits limit ptr fs) :
    ptr + (fixFields (fs.map FixField.text)).length + 7 ≤ limit := by
  induction fs generalizing ptr with
  | nil => simpa [Fits] using h
  | cons f fs ih =>
    have := ih h.2
    simp only [List.map_cons, fixFields_cons, List.length_append, List.length_singleton]
    omega

/-! ## (2) The frame -/

theorem length_zeroPad3 {n : Nat} (h : n < 1000) : (zeroPad3 n).length = 3 := by
  have := length_decimal_le n 2 h
  simp only [zeroPad3, List.length_append, List.length_replicate]
  omega

@[simp] theorem length_zeroPad3_fixChecksum (bytes : List Char) :
    (zeroPad3 (fixChecksum bytes)).length = 3 :=
  length_zeroPad3 (by unfold fixChecksum; omega)

/-- The header both encoders write first, with the BodyLength placeholder. -/
def fixHeader : List Char := "8=FIX.4.2".toList ++ [soh] ++ ("9=000".toList ++ [soh])

/-- Storing three digits at `body_len_ptr[2..4]` fills in the placeholder. -/
theorem set_bodyLength (rest d : List Char) (hd : d.length = 3) :
    (((fixHeader ++ rest).set 12 (d.getD 0 '0')).set 13 (d.getD 1 '0')).set 14 (d.getD 2 '0') =
      fixFields ["8=FIX.4.2".toList, "9=".toList ++ d] ++ rest := by
  match d, hd with
  | [_, _, _], _ => rfl

theorem appendHeader_of_le {limit : Nat} (h : 16 ≤ limit) :
    appendField limit (appendField limit [] "8=FIX.4.2".toList) "9=000".toList = fixHeader := by
  have h₁ : appendField limit [] "8=FIX.4.2".toList = "8=FIX.4.2".toList ++ [soh] :=
    appendField_of_le (by simp; omega)
  rw [h₁, appendField_of_le (by simp; omega)]
  simp [fixHeader]

/-- **The frame around a body that its writers write out.** When the body's writers leave the
fields `fields` after the header, and the CheckSum field fits after them, the frame writes the
spec's message of `fields`, and the BodyLength digits are stored from offset 10, inside it. -/
theorem encodeFast_of_foldl {bufferSize : Nat} {body : List FixField} {fields : List (List Char)}
    (hfold :
      body.foldl (FixField.append (bufferSize - 16)) fixHeader = fixHeader ++ fixFields fields)
    (hroom : 16 + (fixFields fields).length + 7 ≤ bufferSize - 16)
    (hlen : (fixFields fields).length < 1000) :
    encodeFast bufferSize body = ⟨fixMessage fields, 10⟩ := by
  have h₁ : appendField (bufferSize - 16) [] "8=FIX.4.2".toList = "8=FIX.4.2".toList ++ [soh] :=
    appendField_of_le (by simp; omega)
  have h₂ := appendHeader_of_le (show 16 ≤ bufferSize - 16 by omega)
  rw [h₁] at h₂
  have h₃ : ("8=FIX.4.2".toList ++ [soh]).length = 10 := rfl
  simp only [encodeFast, h₁, h₂, hfold, h₃]
  rw [List.take_of_length_le (by simp [length_zeroPad3 (by simpa [fixHeader] using hlen)]),
    show (fixHeader ++ fixFields fields).length - fixHeader.length =
      (fixFields fields).length by simp,
    set_bodyLength _ _ (length_zeroPad3 hlen),
    List.take_of_length_le (by simp [length_zeroPad3_fixChecksum]),
    appendField_of_le (by simp [length_zeroPad3_fixChecksum, length_zeroPad3 hlen]; omega)]
  simp [fixMessage]

/-- **With room for every field, the frame writes the spec's message** of the fields' texts. -/
theorem encodeFast_spec {bufferSize : Nat} {body : List FixField}
    (h : Fits (bufferSize - 16) 16 body)
    (hlen : (fixFields (body.map FixField.text)).length < 1000) :
    encodeFast bufferSize body = ⟨fixMessage (body.map FixField.text), 10⟩ :=
  encodeFast_of_foldl (Fits.foldl h) h.checksum hlen

/-- `body_len_ptr` is past `8=FIX.4.2` once that field fits, at the buffer's start before. -/
theorem bodyLenAt_encodeFast (bufferSize : Nat) (body : List FixField) :
    (encodeFast bufferSize body).bodyLenAt = if 26 ≤ bufferSize then 10 else 0 := by
  simp only [encodeFast, appendField]
  split_ifs <;> simp_all <;> omega

/-- Below 16 bytes `end` lies before the buffer: nothing is written but the BodyLength digits,
at offsets 2 to 4. -/
theorem encodeFast_of_lt_sixteen {bufferSize : Nat} (h : bufferSize < 16) (body : List FixField) :
    encodeFast bufferSize body = ⟨[], 0⟩ := by
  have hfold : ∀ fs : List FixField, fs.foldl (FixField.append 0) [] = [] := by
    intro fs
    induction fs with
    | nil => rfl
    | cons f fs ih =>
      rw [List.foldl_cons, FixField.append_of_lt (by cases f <;> simp [FixField.room]), ih]
  simp [encodeFast, show bufferSize - 16 = 0 by omega, appendField, hfold]

theorem length_foldl_le {limit : Nat} {fs : List FixField} {buf : List Char}
    (hfs : ∀ f ∈ fs, f.text.length ≤ f.room) (h : buf.length ≤ limit + 1) :
    (fs.foldl (FixField.append limit) buf).length ≤ limit + 1 := by
  induction fs generalizing buf with
  | nil => exact h
  | cons f fs ih =>
    exact ih (fun g hg => hfs g (List.mem_cons_of_mem _ hg))
      (length_append_le buf (hfs f (List.mem_cons_self _ _)) h)

/-- **The returned length never passes `buffer_size`**, whatever the size, as long as every
`%.8f` rendering asked for fits the 32 bytes its writer reserves. -/
theorem length_encodeFast_le (bufferSize : Nat) (body : List FixField)
    (hbody : ∀ f ∈ body, f.text.length ≤ f.room) :
    (encodeFast bufferSize body).bytes.length ≤ bufferSize := by
  by_cases h : bufferSize < 16
  · simp [encodeFast_of_lt_sixteen h]
  have hstr : ∀ (field buf : List Char), buf.length ≤ bufferSize - 16 + 1 →
      (appendField (bufferSize - 16) buf field).length ≤ bufferSize - 16 + 1 :=
    fun field buf => length_append_le (f := .str field) buf (by simp [FixField.text, FixField.room])
  have := length_foldl_le hbody (hstr "9=000".toList _ (hstr "8=FIX.4.2".toList [] (by simp)))
  simp only [encodeFast]
  exact (hstr _ _ (by simpa only [List.length_set] using this)).trans (by omega)

/-! ## (3) NewOrderSingle and OrderCancelRequest -/

theorem length_sideField (side : Int8) :
    (if 0 < side then "54=1" else "54=2").toList.length = 4 := by
  split <;> rfl

theorem fits_newOrderBody {bufferSize : Nat} (h : 182 ≤ bufferSize) (orderId symbolId : BitVec 64)
    (side : Int8) (price quantity : FixedPoint) :
    Fits (bufferSize - 16) 16
        (newOrderBody orderId symbolId side price.toDoubleText quantity.toDoubleText) ∧
      (fixFields ((newOrderBody orderId symbolId side price.toDoubleText
        quantity.toDoubleText).map FixField.text)).length < 1000 := by
  have := length_decimal_toNat_le orderId
  have := length_decimal_toNat_le symbolId
  have := length_render_toDoubleText_le price
  have := length_render_toDoubleText_le quantity
  simp only [Fits, newOrderBody, FixField.room, FixField.text, List.length_append,
    length_sideField, List.map_cons, List.map_nil, fixFields_cons, fixFields_nil,
    List.length_singleton, List.length_nil]
  simp
  omega

theorem fits_cancelOrderBody {bufferSize : Nat} (h : 92 ≤ bufferSize)
    (orderId origOrderId : BitVec 64) :
    Fits (bufferSize - 16) 16 (cancelOrderBody orderId origOrderId) ∧
      (fixFields ((cancelOrderBody orderId origOrderId).map FixField.text)).length < 1000 := by
  have := length_decimal_toNat_le orderId
  have := length_decimal_toNat_le origOrderId
  simp [Fits, cancelOrderBody, FixField.room, FixField.text]
  omega

/-- **Both encoders write the spec's message once the buffer holds the longest one.** From 182
bytes a NewOrderSingle, and from 92 an OrderCancelRequest, is the spec's message of its fields,
for every id, symbol and side and every fixed-point price and quantity: the fields in order,
ClOrdID, Symbol and OrigClOrdID in decimal, Side `1` exactly when `side > 0`, and BodyLength and
CheckSum as the spec counts them. At every size the returned length is at most the buffer's. -/
theorem encoders_complete (bufferSize : Nat) (orderId symbolId origOrderId : BitVec 64)
    (side : Int8) (price quantity : FixedPoint) :
    (182 ≤ bufferSize →
      encodeNewOrderFast bufferSize orderId symbolId side price.toDoubleText quantity.toDoubleText =
        fixMessage ["35=D".toList, "11=".toList ++ decimal orderId.toNat,
          "55=".toList ++ decimal symbolId.toNat, (if 0 < side then "54=1" else "54=2").toList,
          "60=20260130-12:00:00.000".toList, "38=".toList ++ quantity.toDoubleText.render,
          "40=2".toList, "44=".toList ++ price.toDoubleText.render, "59=0".toList]) ∧
    (92 ≤ bufferSize →
      encodeCancelOrderFast bufferSize orderId origOrderId =
        fixMessage ["35=F".toList, "11=".toList ++ decimal orderId.toNat,
          "41=".toList ++ decimal origOrderId.toNat]) ∧
    (encodeNewOrderFast bufferSize orderId symbolId side price.toDoubleText
      quantity.toDoubleText).length ≤ bufferSize ∧
    (encodeCancelOrderFast bufferSize orderId origOrderId).length ≤ bufferSize := by
  have := length_decimal_toNat_le orderId
  have := length_decimal_toNat_le symbolId
  have := length_decimal_toNat_le origOrderId
  have := length_render_toDoubleText_le price
  have := length_render_toDoubleText_le quantity
  refine ⟨fun h => ?_, fun h => ?_, length_encodeFast_le _ _ ?_, length_encodeFast_le _ _ ?_⟩
  · obtain ⟨hf, hl⟩ := fits_newOrderBody h orderId symbolId side price quantity
    rw [encodeNewOrderFast, encodeFast_spec hf hl]
    simp [newOrderBody, FixField.text]
  · obtain ⟨hf, hl⟩ := fits_cancelOrderBody h orderId origOrderId
    rw [encodeCancelOrderFast, encodeFast_spec hf hl]
    simp [cancelOrderBody, FixField.text]
  · simp [newOrderBody, FixField.text, FixField.room]
    omega
  · simp [cancelOrderBody, FixField.text, FixField.room]
    omega

/-- POE's 512-byte buffer holds every order RME sends. -/
theorem encoders_complete_fixBufferSize (price quantity : FixedPoint) :
    encodeNewOrderFast fixBufferSize 1 0 1 price.toDoubleText quantity.toDoubleText =
      fixMessage ["35=D".toList, "11=1".toList, "55=0".toList, "54=1".toList,
        "60=20260130-12:00:00.000".toList, "38=".toList ++ quantity.toDoubleText.render,
        "40=2".toList, "44=".toList ++ price.toDoubleText.render, "59=0".toList] :=
  (encoders_complete fixBufferSize 1 0 0 1 price quantity).1 (by decide)

/-- **The encoders skip fields that do not fit and still return a message.** Into 59 bytes, a
NewOrderSingle comes out for every order as a message whose BodyLength and CheckSum match what
was written, with no ClOrdID, Symbol, TransactTime, OrderQty or Price. Into 22 bytes an
OrderCancelRequest comes out as the lone field `9=000`. And the BodyLength digits, stored at
`body_len_ptr[2..4]` whatever was written, stay inside the buffer exactly when it has at least
5 bytes. -/
theorem encoders_skip_fields :
    (∀ orderId symbolId side price quantity,
      encodeNewOrderFast 59 orderId symbolId side price quantity =
        fixMessage ["35=D".toList, (if 0 < side then "54=1" else "54=2").toList, "40=2".toList,
          "59=0".toList]) ∧
    (∀ orderId origOrderId,
      encodeCancelOrderFast 22 orderId origOrderId = "9=000".toList ++ [soh]) ∧
    ∀ bufferSize body,
      (encodeFast bufferSize body).bodyLenAt + 4 < bufferSize ↔ 5 ≤ bufferSize := by
  refine ⟨fun orderId symbolId side price quantity => ?_, fun orderId origOrderId => ?_,
    fun bufferSize body => ?_⟩
  · have key : ∀ sideField : List Char, sideField.length = 4 →
        (encodeFast 59 [.str "35=D".toList, .uint "11=".toList orderId, .uint "55=".toList symbolId,
          .str sideField, .str "60=20260130-12:00:00.000".toList, .dbl "38=".toList quantity,
          .str "40=2".toList, .dbl "44=".toList price, .str "59=0".toList]).bytes =
        fixMessage ["35=D".toList, sideField, "40=2".toList, "59=0".toList] := by
      intro sideField hs
      refine congrArg FixOutput.bytes (encodeFast_of_foldl ?_ (by simp [hs]) (by simp [hs]))
      simp (disch := simp [fixHeader, FixField.room, FixField.text, hs]) only [Nat.reduceSub,
        List.foldl_cons, List.foldl_nil, FixField.append_of_le, FixField.append_of_lt]
      simp [FixField.text, fixHeader]
    exact key _ (length_sideField side)
  · have h₁ : appendField 6 [] "8=FIX.4.2".toList = [] := if_pos (by simp)
    have h₂ : appendField 6 [] "9=000".toList = "9=000".toList ++ [soh] :=
      appendField_of_le (by simp)
    simp (disch := simp [FixField.room]) only [encodeCancelOrderFast, encodeFast, cancelOrderBody,
      Nat.reduceSub, List.foldl_cons, List.foldl_nil, FixField.append_of_lt, h₁, h₂]
    decide
  · rw [bodyLenAt_encodeFast]
    split <;> omega

end Sage
