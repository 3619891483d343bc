import Mproxy.Loci
import Mproxy.Tables

set_option relaxedAutoImplicit false
set_option autoImplicit false

/-!
# The decision on one message

`action_inject` of `action.c`: what happens to one frame. It returns `NULL` (nothing is forwarded)
or a response stream, and through its out-parameter `dup_count` how many more times the response
is to be sent. It looks at none of its allocations: where one answers `NULL`, this is dereferenced.

## Main definitions

* `Mproxy.InjectMem` — what the allocations of one call answer.
* `Mproxy.actionInject` — `action_inject`.
* `Mproxy.Tables.drops` — whether the tables drop a message.

## Main results

* `Mproxy.actionInject_of_invalid` — a frame that fails the header check gives `NULL`.
* `Mproxy.actionInject_of_version_zero` — a frame of version `0` passes the header check and reads
  the drop table out of range.
* `Mproxy.actionInject_of_valid_mem` — the decision on every other frame.
* `Mproxy.actionInject_of_valid` — the same where there is memory.
-/

namespace Mproxy

/-- A `char` assigned to an `unsigned int`. -/
def charToUnsigned (c : Int8) : ℕ := (c.toInt % 4294967296).toNat

/-- The first `len` bytes behind a pointer to `data`. -/
def readBytes (data : List UInt8) (len : ℕ) : Except Fault (List UInt8) :=
  if len ≤ data.length then .ok (data.take len) else .error .outOfBounds

/-- The answers that one call of `action_inject` gets to its allocations. -/
structure InjectMem where
  /-- the `MALLOC` of `of_object_new` -/
  object : Bool
  /-- the `MALLOC` of `of_wire_buffer_new_bind` -/
  wireBuffer : Bool
  /-- `stream_new`: what the block happens to hold, with `none` for `NULL` -/
  streamNew : Option (ℕ → UInt8)

namespace InjectMem

/-- Every allocation succeeds. -/
def granted : InjectMem := ⟨true, true, some fun _ => 0⟩

/-- All allocations of the path through loci succeed. -/
def Granted (mem : InjectMem) : Prop :=
  mem.object = true ∧ mem.wireBuffer = true ∧ mem.streamNew.isSome

instance (mem : InjectMem) : Decidable mem.Granted := inferInstanceAs (Decidable (_ ∧ _))

/-- An environment that grants everything does. -/
lemma granted_granted : granted.Granted := ⟨rfl, rfl, rfl⟩

end InjectMem

/-- `ret = stream_new(len)` and `stream_append(ret, buf, len)`, which does not look whether `ret` is
`NULL`. -/
def newResponse (block : Option (ℕ → UInt8)) (buf : List UInt8) (len : ℕ) : Except Fault StreamT :=
  match block with
  | none => .error .nullDeref
  | some fresh => do
    let bytes ← readBytes buf len
    streamAppend (streamNew len fresh) bytes none

/-- `action_inject`. `data` is the memory from the frame on, `dupCount` what `*dup_count` holds
before the call, and `rand` what `rand()` returns in this call, if it is asked; `mem` is what its
allocations answer, which is that there is memory where it is left out. The result is the response,
or `none` for `NULL`, and what `*dup_count` holds after the call. -/
def actionInject (L : Loci) (T : Tables) (rand : ℕ) (data : List UInt8) (len : ℕ)
    (dupCount : UInt8) (mem : InjectMem := .granted) : Except Fault (Option StreamT × UInt8) :=
  match data with
  | b₀ :: b₁ :: _ =>
    let ofpVer := b₀.toNat
    let msgType := b₁.toNat
    if isValidOfpHeader ofpVer msgType = false then .ok (none, dupCount)
    else do
      -- `should_drop_msg`
      let cell ← tableGet T.drop (versionRow ofpVer) msgType
      let ptmp := charToUnsigned cell
      if ptmp ≠ 0 ∧ rand % 100 < ptmp then .ok (none, dupCount)
      else do
        -- `should_dup_msg`
        let dupCount ← tableGet T.dup (versionRow ofpVer) msgType
        if dupCount ≠ 0 then do
          let ret ← newResponse mem.streamNew data len
          .ok (some ret, dupCount)
        else
          match ofObjectNewFromMessage L data len mem.object mem.wireBuffer with
          -- `OF_OBJECT_TO_WBUF(obj)` of a `NULL` object
          | none => .error .nullDeref
          | some obj => do
            let ret ← newResponse mem.streamNew obj.wbuf.buf obj.wbuf.currentBytes
            .ok (some ret, dupCount)
  | _ => .error .outOfBounds

/-! ## What the tables prescribe -/

/-- The drop decision for a message of version `v` and type `t`, given what `rand()` returns. -/
def Tables.drops (T : Tables) (v : Fin 5) (t : Fin 35) (rand : ℕ) : Prop :=
  T.drop v t ≠ 0 ∧ rand % 100 < charToUnsigned (T.drop v t)

instance (T : Tables) (v : Fin 5) (t : Fin 35) (rand : ℕ) : Decidable (T.drops v t rand) :=
  inferInstanceAs (Decidable (_ ∧ _))

/-- A drop cell is read as zero exactly if it is zero. -/
lemma charToUnsigned_eq_zero {c : Int8} : charToUnsigned c = 0 ↔ c = 0 := by
  have hlt := c.toInt_lt
  have hle := c.le_toInt
  rw [← Int8.toInt_inj, Int8.toInt_zero]
  unfold charToUnsigned
  omega

/-- A nonnegative drop cell keeps its value. -/
lemma charToUnsigned_of_nonneg {c : Int8} (h : 0 ≤ c.toInt) :
    (charToUnsigned c : ℤ) = c.toInt := by
  have hlt := c.toInt_lt
  unfold charToUnsigned
  omega

/-- A read inside of the bytes gives the first `len` of them. -/
lemma readBytes_of_le {data : List UInt8} {len : ℕ} (h : len ≤ data.length) :
    readBytes data len = .ok (data.take len) := if_pos h

section Decision

variable (L : Loci) (T : Tables) (rand : ℕ) {data : List UInt8} {len : ℕ} (dupCount : UInt8)
  {mem : InjectMem}

/-- A frame whose header fails the check gives `NULL`. -/
lemma actionInject_of_invalid {b₀ b₁ : UInt8} {rest : List UInt8}
    (h : ¬ (b₀.toNat ≤ 5 ∧ b₁.toNat < 35)) :
    actionInject L T rand (b₀ :: b₁ :: rest) len dupCount mem = .ok (none, dupCount) := by
  have hv : isValidOfpHeader b₀.toNat b₁.toNat = false := by
    rw [← isValidOfpHeader_iff] at h
    simpa using h
  simp only [actionInject, hv, if_true]

/-- A frame of version `0` passes the header check; its row of the drop table does not exist. -/
lemma actionInject_of_version_zero {b₀ b₁ : UInt8} {rest : List UInt8} (h₀ : b₀.toNat = 0)
    (h : b₁.toNat < 35) :
    actionInject L T rand (b₀ :: b₁ :: rest) len dupCount mem = .error .tableIndex := by
  have hv : isValidOfpHeader b₀.toNat b₁.toNat = true :=
    isValidOfpHeader_iff.mpr ⟨by omega, h⟩
  have hrow : ¬ versionRow b₀.toNat < 5 := by
    rw [versionRow_lt_iff (by omega)]; omega
  have hget : tableGet T.drop (versionRow b₀.toNat) b₁.toNat = .error .tableIndex :=
    (tableGet_eq_error _ _ _).mpr fun h' => hrow h'.1
  simp only [actionInject, hv, hget]
  rfl

/-- The response the two paths of `action_inject` build: a stream filled to its size. -/
lemma newResponse_some (fresh : ℕ → UInt8) {buf : List UInt8} (h : len ≤ buf.length) :
    newResponse (some fresh) buf len = .ok (StreamT.full (buf.take len)) := by
  have happend := streamAppend_new (buf.take len) fresh none
  rw [List.length_take_of_le h] at happend
  rw [newResponse, readBytes_of_le h, Runs.ok_bind, happend]

/-- **The decision on a frame of version `1` to `5`**: dropped, copied without loci, handed to loci
and forwarded, or, where loci rejects it or an allocation answers `NULL`, a null pointer
dereference.
-/
theorem actionInject_of_valid_mem {b₀ b₁ : UInt8} {rest : List UInt8} (v : Fin 5) (t : Fin 35)
    (hv : b₀.toNat = v + 1) (ht : b₁.toNat = t) (hlen : len ≤ (b₀ :: b₁ :: rest).length) :
    actionInject L T rand (b₀ :: b₁ :: rest) len dupCount mem =
      if T.drops v t rand then .ok (none, dupCount)
      else if T.dup v t ≠ 0 then
        if mem.streamNew.isSome then
          .ok (some (StreamT.full ((b₀ :: b₁ :: rest).take len)), T.dup v t)
        else .error .nullDeref
      else if (ofObjectNewFromMessage L (b₀ :: b₁ :: rest) len).isSome ∧ mem.Granted then
        .ok (some (StreamT.full ((b₀ :: b₁ :: rest).take len)), T.dup v t)
      else .error .nullDeref := by
  have hvalid : isValidOfpHeader b₀.toNat t = true :=
    isValidOfpHeader_iff.mpr ⟨by omega, t.isLt⟩
  have hrow : versionRow b₀.toNat = v := by
    rw [versionRow_of_pos (by omega) (by omega)]; omega
  have hdrops : (charToUnsigned (T.drop v t) ≠ 0 ∧ rand % 100 < charToUnsigned (T.drop v t)) ↔
      T.drops v t rand := by
    rw [Tables.drops, ne_eq, charToUnsigned_eq_zero]
  simp only [actionInject, ht, hvalid, hrow, tableGet_fin, Runs.ok_bind, Bool.true_eq_false,
    if_false]
  generalize b₀ :: b₁ :: rest = data at hlen ⊢
  by_cases h₁ : T.drops v t rand
  · rw [if_pos (hdrops.mpr h₁), if_pos h₁]
  rw [if_neg (fun h => h₁ (hdrops.mp h)), if_neg h₁]
  by_cases h₂ : T.dup v t ≠ 0
  · simp only [if_pos h₂]
    cases mem.streamNew with
    | none => rfl
    | some fresh => rw [newResponse_some fresh hlen]; rfl
  simp only [if_neg h₂]
  have halloc := ofObjectNewFromMessage_alloc L data len mem.object mem.wireBuffer
  cases h₃ : ofObjectNewFromMessage L data len mem.object mem.wireBuffer with
  | none =>
    rw [h₃] at halloc
    rw [if_neg fun h => Bool.false_ne_true (halloc.mpr ⟨h.1, h.2.1, h.2.2.1⟩)]
  | some obj =>
    rw [h₃] at halloc
    obtain ⟨hloci, hobject, hwire⟩ := halloc.mp rfl
    simp only [ofObjectNewFromMessage_wbuf h₃, ofWireBufferNewBind]
    cases hnew : mem.streamNew with
    | none =>
      have hnot : ¬ mem.Granted := fun h => by
        have hsome := h.2.2
        rw [hnew] at hsome
        cases hsome
      rw [if_neg fun h => hnot h.2]
      rfl
    | some fresh =>
      have hgranted : mem.Granted := ⟨hobject, hwire, by rw [hnew]; rfl⟩
      have hlen' : len ≤ (data.take len).length :=
        (List.length_take_of_le hlen).ge
      have hfull := newResponse_some fresh hlen'
      rw [List.take_take, Nat.min_self] at hfull
      rw [if_pos ⟨hloci, hgranted⟩, hfull]
      rfl

/-- **The decision where there is memory.** -/
theorem actionInject_of_valid {b₀ b₁ : UInt8} {rest : List UInt8} (v : Fin 5) (t : Fin 35)
    (hv : b₀.toNat = v + 1) (ht : b₁.toNat = t) (hlen : len ≤ (b₀ :: b₁ :: rest).length) :
    actionInject L T rand (b₀ :: b₁ :: rest) len dupCount =
      if T.drops v t rand then .ok (none, dupCount)
      else if T.dup v t ≠ 0 then
        .ok (some (StreamT.full ((b₀ :: b₁ :: rest).take len)), T.dup v t)
      else if (ofObjectNewFromMessage L (b₀ :: b₁ :: rest) len).isSome then
        .ok (some (StreamT.full ((b₀ :: b₁ :: rest).take len)), T.dup v t)
      else .error .nullDeref := by
  rw [actionInject_of_valid_mem L T rand dupCount v t hv ht hlen]
  simp only [InjectMem.granted_granted, and_true,
    show InjectMem.granted.streamNew.isSome = true from rfl, if_true]

/-- The version and type bytes of a frame: rejected by the header check, of version `0`, or those of
a cell of the tables. -/
lemma header_cases (b₀ b₁ : UInt8) : ¬ (b₀.toNat ≤ 5 ∧ b₁.toNat < 35) ∨
    (b₀.toNat = 0 ∧ b₁.toNat < 35) ∨
    ∃ (v : Fin 5) (t : Fin 35), b₀.toNat = v + 1 ∧ b₁.toNat = t := by
  by_cases hvalid : b₀.toNat ≤ 5 ∧ b₁.toNat < 35
  · right
    rcases Nat.eq_zero_or_pos b₀.toNat with h₀ | h₀
    · exact Or.inl ⟨h₀, hvalid.2⟩
    · exact Or.inr ⟨⟨b₀.toNat - 1, by omega⟩, ⟨b₁.toNat, hvalid.2⟩, by simp only; omega, rfl⟩
  · exact Or.inl hvalid

/-- A response and its copy count do not depend on what `*dup_count` held before the call; without a
response it is left as it was. -/
lemma actionInject_dupCount (hlen : len ≤ data.length) :
    actionInject L T rand data len dupCount mem =
      (actionInject L T rand data len 0 mem).map fun r =>
        if r.1.isSome then r else (none, dupCount) := by
  match data with
  | [] => rfl
  | [b] => rfl
  | b₀ :: b₁ :: rest =>
    rcases header_cases b₀ b₁ with h | ⟨h₀, h₁⟩ | ⟨v, t, hv, ht⟩
    · rw [actionInject_of_invalid L T rand _ h, actionInject_of_invalid L T rand _ h]
      rfl
    · rw [actionInject_of_version_zero L T rand _ h₀ h₁,
        actionInject_of_version_zero L T rand _ h₀ h₁]
      rfl
    · rw [actionInject_of_valid_mem L T rand _ v t hv ht hlen,
        actionInject_of_valid_mem L T rand _ v t hv ht hlen]
      split_ifs <;> rfl

/-- `action_inject` reads nothing but the frame and its header. -/
lemma actionInject_take {n : ℕ} (hn : 8 ≤ n) (hlen : len ≤ n) :
    actionInject L T rand (data.take n) len dupCount mem =
      actionInject L T rand data len dupCount mem := by
  match data with
  | [] => simp
  | [b] =>
    rw [List.take_of_length_le (by simp only [List.length_singleton]; omega)]
  | b₀ :: b₁ :: rest =>
    obtain ⟨m, rfl⟩ : ∃ m, n = m + 2 := ⟨n - 2, by omega⟩
    have hread : readBytes ((b₀ :: b₁ :: rest).take (m + 2)) len =
        readBytes (b₀ :: b₁ :: rest) len := by
      unfold readBytes
      rw [List.length_take, List.take_take, Nat.min_eq_left hlen]
      simp only [Nat.le_min, hlen, true_and]
    have hloci := ofObjectNewFromMessage_take L (b₀ :: b₁ :: rest) hn hlen mem.object mem.wireBuffer
    simp only [List.take_succ_cons] at hread hloci ⊢
    simp only [actionInject, newResponse, hread, hloci]

end Decision

end Mproxy
