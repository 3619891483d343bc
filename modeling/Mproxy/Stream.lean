import Mathlib.Data.List.Basic
import Mathlib.Order.Lattice
import Mathlib.Tactic.Common

set_option relaxedAutoImplicit false
set_option autoImplicit false

/-!
# Byte streams

`stream.c`: a heap block of `cap` bytes of which the first `len` are in use. The block is modelled
with all its bytes, those beyond `len` included: they are what earlier uses of the stream left
there, or what the allocator found there.

Undefined behaviour of the C program is a `Fault`, and so is an exception that ends the process. A
function that may run into one returns in `Except Fault`.

## Main definitions

* `Mproxy.Fault` — the ways in which the program can leave the behaviour C defines.
* `Mproxy.StreamT` — `stream_t`.
* `Mproxy.streamNew`, `Mproxy.streamExpand`, `Mproxy.streamAppend`, `Mproxy.streamLeftShift` —
  the functions of `stream.c`.
-/

namespace Mproxy

/-- Undefined behaviour, by its cause, and the end of the process by an exception. -/
inductive Fault
  /-- an access outside the memory block a pointer points into -/
  | outOfBounds
  /-- a null pointer is dereferenced -/
  | nullDeref
  /-- an attack table is indexed outside its rows and columns -/
  | tableIndex
  /-- an object is used after it was freed -/
  | useAfterFree
  /-- a pointer member that was never set is used -/
  | unsetMember
  /-- an exception is thrown that nobody catches, which ends the process -/
  | uncaught
  deriving DecidableEq, Repr

/-- `DEFAULT_STREAM_LEN` -/
def defaultStreamLen : ℕ := 512

/-- `stream_t`: the block `data` with its `cap` bytes, the first `len` of them in use. -/
structure StreamT where
  data : List UInt8
  len : ℕ
  len_le : len ≤ data.length

namespace StreamT

/-- `s->cap`, the size of the block. -/
def cap (s : StreamT) : ℕ := s.data.length

/-- The bytes in use, `data[0..len)`. -/
def bytes (s : StreamT) : List UInt8 := s.data.take s.len

/-- A stream has as many bytes as its length says. -/
@[simp] lemma length_bytes (s : StreamT) : s.bytes.length = s.len :=
  List.length_take_of_le s.len_le

/-- The length of a stream is no more than its capacity. -/
lemma len_le_cap (s : StreamT) : s.len ≤ s.cap := s.len_le

end StreamT

/-- `stream_new` where `malloc` succeeds; `fresh` is what the new block happens to hold. A caller
that looks at the failure has it as an outcome of its own. -/
def streamNew (size : ℕ) (fresh : ℕ → UInt8) : StreamT where
  data := (List.range size).map fresh
  len := 0
  len_le := Nat.zero_le _

/-- `stream_expand`: `realloc` answers with the bytes the grown part happens to hold, or fails.
`none` is the return value `1`, with the stream as it was. -/
def streamExpand (s : StreamT) (size : ℕ) (realloc : Option (ℕ → UInt8)) : Option StreamT :=
  realloc.map fun fresh =>
    { data := s.data ++ (List.range size).map fun i => fresh (s.cap + i)
      len := s.len
      len_le := by rw [List.length_append]; exact s.len_le.trans (Nat.le_add_right _ _) }

/-- Bytes written into a stream's block behind the bytes in use, which then are in use too: the
`memcpy` of `stream_append` and the `evbuffer_remove` of `on_flow_read`, each with the
`len += n` after it. Bytes that do not fit are written outside the block. -/
def streamFill (s : StreamT) (bytes : List UInt8) : Except Fault StreamT :=
  if h : s.len + bytes.length ≤ s.cap then
    .ok
      { data := s.data.take s.len ++ bytes ++ s.data.drop (s.len + bytes.length)
        len := s.len + bytes.length
        len_le := by
          simp only [List.length_append, List.length_take_of_le s.len_le]
          exact Nat.le_add_right _ _ }
  else .error .outOfBounds

/-- `stream_append`. Every caller ignores the return value `1` of a failed expansion, which leaves
the stream as it was. -/
def streamAppend (s : StreamT) (data : List UInt8) (realloc : Option (ℕ → UInt8)) :
    Except Fault StreamT :=
  if s.len + data.length > s.cap then
    match streamExpand s data.length realloc with
    | none => .ok s
    | some s' => streamFill s' data
  else streamFill s data

/-- `stream_left_shift`: `memcpy(s->data, s->data + size, s->len - size)`. Where the two regions
overlap, C leaves the result open; the block is then what a copy of the bytes as they were before
the call gives. A `size` beyond `len` makes the unsigned difference wrap. -/
def streamLeftShift (s : StreamT) (size : ℕ) : Except Fault StreamT :=
  if size ≤ s.len then
    .ok
      { data := (s.data.drop size).take (s.len - size) ++ s.data.drop (s.len - size)
        len := s.len - size
        len_le := by
          have := s.len_le
          simp only [List.length_append, List.length_take, List.length_drop]
          omega }
  else .error .outOfBounds

/-! ## What the functions do to the bytes in use -/

/-- A new stream has no bytes. -/
@[simp] lemma streamNew_bytes (size : ℕ) (fresh : ℕ → UInt8) :
    (streamNew size fresh).bytes = [] := rfl

/-- Its length is `0`. -/
@[simp] lemma streamNew_len (size : ℕ) (fresh : ℕ → UInt8) : (streamNew size fresh).len = 0 := rfl

/-- Its capacity is what was asked for. -/
@[simp] lemma streamNew_cap (size : ℕ) (fresh : ℕ → UInt8) :
    (streamNew size fresh).cap = size := by
  simp [streamNew, StreamT.cap]

/-- Without memory a stream is not expanded. -/
@[simp] lemma streamExpand_none (s : StreamT) (size : ℕ) : streamExpand s size none = none := rfl

/-- An expanded stream has the bytes it had, and room for `size` more. -/
lemma streamExpand_some {s s' : StreamT} {size : ℕ} {realloc : Option (ℕ → UInt8)}
    (h : streamExpand s size realloc = some s') :
    s'.bytes = s.bytes ∧ s'.len = s.len ∧ s'.cap = s.cap + size := by
  cases realloc with
  | none => simp at h
  | some fresh =>
    simp only [streamExpand, Option.map_some, Option.some.injEq] at h
    subst h
    simp [StreamT.bytes, StreamT.cap, List.take_append_of_le_length s.len_le]

/-- Bytes that fit are appended to the bytes in use; the block keeps its size. -/
lemma streamFill_ok {s : StreamT} {bytes : List UInt8} (h : s.len + bytes.length ≤ s.cap) :
    ∃ s', streamFill s bytes = .ok s' ∧ s'.bytes = s.bytes ++ bytes ∧
      s'.len = s.len + bytes.length ∧ s'.cap = s.cap := by
  refine ⟨_, dif_pos h, ?_, rfl, ?_⟩
  · have hl : (s.data.take s.len ++ bytes).length = s.len + bytes.length := by
      rw [List.length_append, List.length_take_of_le s.len_le]
    simp only [StreamT.bytes]
    rw [List.take_append_of_le_length hl.ge, List.take_of_length_le hl.le]
  · simp only [StreamT.cap] at h ⊢
    simp only [List.length_append, List.length_take_of_le s.len_le, List.length_drop]
    omega

/-- A shift drops the first `size` of the bytes in use; the block keeps its size. -/
lemma streamLeftShift_ok {s : StreamT} {size : ℕ} (h : size ≤ s.len) :
    ∃ s', streamLeftShift s size = .ok s' ∧ s'.bytes = s.bytes.drop size ∧
      s'.len = s.len - size ∧ s'.cap = s.cap := by
  have hle := s.len_le
  refine ⟨_, if_pos h, ?_, rfl, ?_⟩
  · have hl : ((s.data.drop size).take (s.len - size)).length = s.len - size := by
      rw [List.length_take, List.length_drop]; omega
    simp only [StreamT.bytes]
    rw [List.take_append_of_le_length hl.ge, List.take_of_length_le hl.le, List.drop_take]
  · simp only [StreamT.cap]
    simp only [List.length_append, List.length_take, List.length_drop]
    omega

/-- The stream whose block is exactly filled by `bytes`. -/
def StreamT.full (bytes : List UInt8) : StreamT := ⟨bytes, bytes.length, Nat.le_refl _⟩

/-- The bytes of a stream that is full of them. -/
@[simp] lemma StreamT.bytes_full (bytes : List UInt8) : (StreamT.full bytes).bytes = bytes := by
  simp [StreamT.full, StreamT.bytes]

/-- A new stream that is filled to its size at once needs no expansion and is full. -/
lemma streamAppend_new (bytes : List UInt8) (fresh : ℕ → UInt8) (realloc : Option (ℕ → UInt8)) :
    streamAppend (streamNew bytes.length fresh) bytes realloc = .ok (StreamT.full bytes) := by
  have hcap : (streamNew bytes.length fresh).len + bytes.length ≤
      (streamNew bytes.length fresh).cap := by simp
  rw [streamAppend, if_neg (by omega), streamFill, dif_pos hcap]
  simp [streamNew, StreamT.full]

end Mproxy
