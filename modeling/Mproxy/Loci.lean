import Mathlib.Data.List.Basic
import Mathlib.Tactic.Common

set_option relaxedAutoImplicit false
set_option autoImplicit false

/-!
# The part of loci the proxy uses

`of_object_new_from_message` and what it calls: the version check, the length check of
`of_validate_message`, the binding of the message to a wire buffer and the initialisation of the
object. The generated validators of message bodies, one for each version, are a parameter. Whether
`MALLOC` succeeds is an argument, which says yes where it is left out.

## Main definitions

* `Mproxy.Loci` — the generated body validators.
* `Mproxy.ofObjectNewFromMessage` — an object for a message, or `NULL`.

## Main results

* `Mproxy.ofObjectNewFromMessage_wbuf` — the wire buffer of an accepted message is the message.
* `Mproxy.ofObjectNewFromMessage_isSome` — what an accepted message is known to satisfy.
-/

namespace Mproxy

/-- `loci_validate_of_header_OF_VERSION_x`, for each version: whether it accepts the message. -/
structure Loci where
  validateHeader : ℕ → List UInt8 → Bool

/-- Body validators that accept every message. -/
def Loci.lenient : Loci where
  validateHeader := fun _ _ => true

/-- `of_wire_buffer_t` -/
structure OfWireBuffer where
  buf : List UInt8
  allocBytes : ℕ
  currentBytes : ℕ

/-- `of_object_t`, without the fields no modelled function reads. -/
structure OfObject where
  version : ℕ
  length : ℕ
  wbuf : OfWireBuffer

/-- `OF_MESSAGE_MIN_LENGTH` -/
def ofMessageMinLength : ℕ := 8

/-- `of_message_version_get`: the byte at offset `0`. -/
def ofMessageVersionGet (msg : List UInt8) : ℕ := (msg.getD 0 0).toNat

/-- `of_message_length_get`: the big-endian 16-bit number at offset `2`. -/
def ofMessageLengthGet (msg : List UInt8) : ℕ :=
  256 * (msg.getD 2 0).toNat + (msg.getD 3 0).toNat

/-- `OF_VERSION_OKAY` -/
def ofVersionOkay (v : ℕ) : Bool := decide (1 ≤ v) && decide (v ≤ 5)

/-- `of_validate_message(msg, len) == 0` -/
def ofValidateMessage (L : Loci) (msg : List UInt8) (len : ℕ) : Bool :=
  if len < ofMessageMinLength ∨ len ≠ ofMessageLengthGet msg then false
  else if ofVersionOkay (ofMessageVersionGet msg) then
    L.validateHeader (ofMessageVersionGet msg) (msg.take len)
  else false

/-- `of_wire_buffer_new_bind` -/
def ofWireBufferNewBind (buf : List UInt8) (bytes : ℕ) : OfWireBuffer where
  buf := buf
  allocBytes := bytes
  currentBytes := bytes

/-- `of_wire_buffer_grow`: zero the bytes the buffer grows by. -/
def ofWireBufferGrow (w : OfWireBuffer) (bytes : ℕ) : OfWireBuffer :=
  if bytes > w.currentBytes then
    { w with
      buf := w.buf.take w.currentBytes ++ List.replicate (bytes - w.currentBytes) 0 ++
        w.buf.drop bytes
      currentBytes := bytes }
  else w

/-- `of_object_init_map[object_id](obj, version, bytes, 0)`: every generated initialiser sets these
fields and grows the wire buffer to the object's length. -/
def ofObjectInit (obj : OfObject) (version bytes : ℕ) : OfObject where
  version := version
  length := bytes
  wbuf := ofWireBufferGrow obj.wbuf bytes

/-- `of_object_new_from_message`; `none` is `NULL`. `object` and `wireBuffer` say whether the
`MALLOC`s of the object and of its wire buffer succeed. -/
def ofObjectNewFromMessage (L : Loci) (msg : List UInt8) (len : ℕ)
    (object wireBuffer : Bool := true) : Option OfObject :=
  let version := ofMessageVersionGet msg
  if ofVersionOkay version then
    if ofValidateMessage L msg len then
      -- `of_object_new`
      if object = false then none
      -- `of_object_buffer_bind`
      else if wireBuffer = false then none
      else
        let obj : OfObject :=
          { version := version, length := len, wbuf := ofWireBufferNewBind (msg.take len) len }
        some (ofObjectInit obj version len)
    else none
  else none

/-! ## Accepted messages -/

/-- A message that passes the length check holds a header and announces its own length. -/
lemma ofValidateMessage_length {L : Loci} {msg : List UInt8} {len : ℕ}
    (h : ofValidateMessage L msg len = true) : 8 ≤ len ∧ len = ofMessageLengthGet msg := by
  unfold ofValidateMessage ofMessageMinLength at h
  by_cases hlen : len < 8 ∨ len ≠ ofMessageLengthGet msg
  · rw [if_pos hlen] at h
    exact absurd h Bool.false_ne_true
  · omega

/-- What is known of a message loci accepts: its version, that its length is the length its header
announces, and that this is at least a header. -/
lemma ofObjectNewFromMessage_isSome {L : Loci} {msg : List UInt8} {len : ℕ}
    (h : (ofObjectNewFromMessage L msg len).isSome) :
    1 ≤ ofMessageVersionGet msg ∧ ofMessageVersionGet msg ≤ 5 ∧ 8 ≤ len ∧
      len = ofMessageLengthGet msg := by
  unfold ofObjectNewFromMessage at h
  by_cases hv : ofVersionOkay (ofMessageVersionGet msg) = true
  · by_cases hval : ofValidateMessage L msg len = true
    · have := ofValidateMessage_length hval
      simp only [ofVersionOkay, Bool.and_eq_true, decide_eq_true_eq] at hv
      omega
    · simp [hv, hval] at h
  · simp [hv] at h

/-- A message whose version loci does not know is rejected. -/
lemma ofObjectNewFromMessage_version_zero {L : Loci} {msg : List UInt8} {len : ℕ}
    (h : ofMessageVersionGet msg = 0) : ofObjectNewFromMessage L msg len = none := by
  simp [ofObjectNewFromMessage, h, ofVersionOkay]

/-- Memory is asked for behind the checks, and both parts of it are needed. -/
lemma ofObjectNewFromMessage_alloc (L : Loci) (msg : List UInt8) (len : ℕ)
    (object wireBuffer : Bool) :
    (ofObjectNewFromMessage L msg len object wireBuffer).isSome ↔
      (ofObjectNewFromMessage L msg len).isSome ∧ object = true ∧ wireBuffer = true := by
  unfold ofObjectNewFromMessage
  by_cases hv : ofVersionOkay (ofMessageVersionGet msg) = true
  · by_cases hval : ofValidateMessage L msg len = true
    · cases object <;> cases wireBuffer <;> simp [hv, hval]
    · simp [hv, hval]
  · simp [hv]

/-- The wire buffer of an accepted message is the message itself. -/
lemma ofObjectNewFromMessage_wbuf {L : Loci} {msg : List UInt8} {len : ℕ} {obj : OfObject}
    {object wireBuffer : Bool}
    (h : ofObjectNewFromMessage L msg len object wireBuffer = some obj) :
    obj.wbuf = ofWireBufferNewBind (msg.take len) len := by
  unfold ofObjectNewFromMessage at h
  simp only at h
  split_ifs at h
  obtain rfl := Option.some.inj h
  simp [ofObjectInit, ofWireBufferGrow, ofWireBufferNewBind]

/-- The length and body checks read nothing of a message beyond its length and its header. -/
lemma ofValidateMessage_take (L : Loci) (msg : List UInt8) {n len : ℕ} (hn : 8 ≤ n)
    (hlen : len ≤ n) : ofValidateMessage L (msg.take n) len = ofValidateMessage L msg len := by
  have hget : ∀ i, i < 8 → (msg.take n).getD i 0 = msg.getD i 0 := by
    intro i hi
    simp only [List.getD_eq_getElem?_getD, List.getElem?_take_of_lt (by omega : i < n)]
  have hver : ofMessageVersionGet (msg.take n) = ofMessageVersionGet msg := by
    simp only [ofMessageVersionGet, hget 0 (by omega)]
  have hl : ofMessageLengthGet (msg.take n) = ofMessageLengthGet msg := by
    simp only [ofMessageLengthGet, hget 2 (by omega), hget 3 (by omega)]
  unfold ofValidateMessage
  rw [hver, hl, List.take_take, Nat.min_eq_left hlen]

/-- loci reads nothing of a message beyond its length and its header. -/
lemma ofObjectNewFromMessage_take (L : Loci) (msg : List UInt8) {n len : ℕ} (hn : 8 ≤ n)
    (hlen : len ≤ n) (object wireBuffer : Bool) :
    ofObjectNewFromMessage L (msg.take n) len object wireBuffer =
      ofObjectNewFromMessage L msg len object wireBuffer := by
  have hver : ofMessageVersionGet (msg.take n) = ofMessageVersionGet msg := by
    simp only [ofMessageVersionGet, List.getD_eq_getElem?_getD,
      List.getElem?_take_of_lt (by omega : 0 < n)]
  unfold ofObjectNewFromMessage
  rw [hver, ofValidateMessage_take L msg hn hlen, List.take_take, Nat.min_eq_left hlen]

end Mproxy
