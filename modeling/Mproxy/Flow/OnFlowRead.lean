import Mproxy.Lib.Framing
import Mproxy.Action

set_option relaxedAutoImplicit false
set_option autoImplicit false

/-!
# The read callback of a connection

`on_flow_read` of `proxy.cpp`: libevent calls it when bytes have arrived in a client's input
`evbuffer`. It moves them into the client's stream, hands every whole OpenFlow message in it to
`action_inject`, forwards the responses to the client's pair and shifts what was processed out of
the stream.

`action_inject` is a parameter (`Inject`), with a state of its own; so are the answers the callback
gets from the allocator, from `fcntl` and from libevent (`ReadEvent`).

## Main definitions

* `Mproxy.Flow` — the client's stream and input, and the pair's output, as the callback sees them.
* `Mproxy.onFlowRead` — `on_flow_read`, with its frame loop `Mproxy.frameLoop`.
* `Mproxy.ofpFraming` — the framing of OpenFlow messages, as a `Framing.Discipline`.

## Main results

* `Mproxy.ofpMsgLen_toNat` — the byte swap of the length field reads it as big-endian.
* `Mproxy.frameLoop_cuts` — a frame loop that meets no header of length `0` cuts the stream.
-/

namespace Mproxy

open Framing

/-- `OFP_HEADER_BYTES` -/
def ofpHeaderBytes : ℕ := 8

/-- The `uint16_t` at `OFP_HEADER_LEN_OFFSET`, loaded on a little-endian machine and swapped. -/
def ofpMsgLen (ofpMsg : List UInt8) : UInt16 :=
  let raw : UInt16 := (ofpMsg.getD 2 0).toUInt16 ||| (ofpMsg.getD 3 0).toUInt16 <<< 8
  raw >>> 8 ||| raw <<< 8

/-- The function in the place of `action_inject`: from its own state, the memory from the frame on,
the length of the frame and what `dup_count` holds, to the response (`none` for `NULL`), what
`dup_count` holds then, and its next state. -/
abbrev Inject (σ : Type) : Type :=
  σ → List UInt8 → ℕ → UInt8 → Except Fault (Option StreamT × UInt8 × σ)

/-- What one call of `on_flow_read` gets from its surroundings. -/
structure ReadEvent where
  /-- the bytes that arrived in the `evbuffer` since the last call -/
  chunk : List UInt8
  /-- the answer of `realloc`, should `stream_expand` be called -/
  realloc : Option (ℕ → UInt8)
  /-- whether `client_map[fw_fd]` is a client -/
  peerOpen : Bool
  /-- what the uninitialised local `dup_count` holds -/
  dupCount : UInt8
  /-- the answers of `is_valid_fd(fw_fd)`, in the order of the responses -/
  fdValid : ℕ → Bool
  /-- whether `bufferevent_write_buffer` succeeds, in the order of the responses -/
  writeOk : ℕ → Bool

/-- The return statements of `on_flow_read`, and its end (`finished`). -/
inductive Exit
  | noMemory
  | short
  | pairClosed
  | zeroLength
  | incomplete
  | fdClosed
  | writeFailed
  | finished
  deriving DecidableEq, Repr

/-- The data `on_flow_read` works on. -/
structure Flow (σ : Type) where
  /-- the client's `buf` -/
  msg : StreamT
  /-- the bytes in the client's input `evbuffer` -/
  input : List UInt8
  /-- `fw_cli->ev_buf` -/
  evBuf : List UInt8
  /-- the bytes `bufferevent_write_buffer` has moved to the pair's bufferevent -/
  output : List UInt8
  /-- the state of `action_inject` -/
  env : σ

/-- What a call reports besides its effect: where it returned, the frames it handed to
`action_inject`, and the `size` and `len` with which it called `stream_left_shift`. -/
structure Report where
  exit : Exit
  handed : List (Frame UInt8)
  shift : Option (ℕ × ℕ)

/-- The variables of the frame loop. -/
structure Loop (σ : Type) where
  lenProcessed : ℕ
  dupCount : UInt8
  evBuf : List UInt8
  output : List UInt8
  env : σ
  handed : List (Frame UInt8)
  responses : ℕ

/-- How OpenFlow messages are framed. -/
def ofpFraming : Discipline UInt8 where
  hdr := ofpHeaderBytes
  hdr_pos := by decide
  announced := fun s => (ofpMsgLen s).toNat
  announced_append := by
    intro s t hs
    have hget : ∀ i, i < 8 → (s ++ t).getD i 0 = s.getD i 0 := by
      intro i hi
      have : i < s.length := lt_of_lt_of_le hi hs
      simp only [List.getD_eq_getElem?_getD, List.getElem?_append_left this]
    simp only [ofpMsgLen, hget 2 (by omega), hget 3 (by omega)]

/-- `while (dup_count > 0) { evbuffer_add(fw_cli->ev_buf, response->data, response->len);
--dup_count; }` -/
def dupLoop (response : List UInt8) : ℕ → List UInt8 → List UInt8
  | 0, evBuf => evBuf
  | dupCount + 1, evBuf => dupLoop response dupCount (evBuf ++ response)

section Callback

variable {σ : Type}

/-- The variables of the frame loop after `action_inject` returned from the frame `f`. -/
def Loop.hand (l : Loop σ) (f : Frame UInt8) (dupCount : UInt8) (env : σ) : Loop σ :=
  { l with dupCount := dupCount, env := env, handed := l.handed ++ [f] }

/-- `len_processed += n` -/
def Loop.advance (l : Loop σ) (n : ℕ) : Loop σ := { l with lenProcessed := l.lenProcessed + n }

/-- The `if (response)` block: the state of the loop behind it, and the exit if it returned. -/
def forward (ev : ReadEvent) (l : Loop σ) : Option StreamT → Loop σ × Option Exit
  | none => (l, none)
  | some response =>
    let l' : Loop σ := { l with responses := l.responses + 1 }
    if ev.fdValid l.responses = false then (l', some .fdClosed)
    else
      let evBuf := dupLoop response.bytes l.dupCount.toNat (l.evBuf ++ response.bytes)
      if ev.writeOk l.responses then
        ({ l' with dupCount := 0, evBuf := [], output := l.output ++ evBuf }, none)
      else ({ l' with dupCount := 0, evBuf := evBuf }, some .writeFailed)

/-- `while (len_processed + OFP_HEADER_BYTES <= msg->len)`, on the bytes `buf` of the stream. The
first argument bounds the number of rounds; every round processes at least one byte, so `msg->len`
rounds are enough. -/
def frameLoop (inject : Inject σ) (ev : ReadEvent) (buf : List UInt8) :
    ℕ → Loop σ → Except Fault (Loop σ × Exit)
  | 0, l => .ok (l, .finished)
  | fuel + 1, l =>
    if l.lenProcessed + ofpHeaderBytes ≤ buf.length then
      let ofpMsg := buf.drop l.lenProcessed
      let len := (ofpMsgLen ofpMsg).toNat
      if len = 0 then .ok (l, .zeroLength)
      else if len > buf.length - l.lenProcessed then .ok (l, .incomplete)
      else do
        let (response, dupCount, env) ← inject l.env ofpMsg len l.dupCount
        let (l, returned) := forward ev (l.hand (ofpFraming.first ofpMsg) dupCount env) response
        match returned with
        | some exit => .ok (l, exit)
        | none => frameLoop inject ev buf fuel (l.advance len)
    else .ok (l, .finished)

/-- The stream with room for `n` more bytes: it is expanded if there is not enough. -/
def makeRoom (s : StreamT) (n : ℕ) (realloc : Option (ℕ → UInt8)) : Option StreamT :=
  if s.cap - s.len < n then streamExpand s n realloc else some s

/-- The end of `on_flow_read`: two of the exits of the loop shift the processed bytes out. -/
def leave (st : Flow σ) (l : Loop σ) (exit : Exit) : Except Fault (Flow σ × Report) :=
  let st : Flow σ := { st with evBuf := l.evBuf, output := l.output, env := l.env }
  if (exit = .incomplete ∨ exit = .finished) ∧ l.lenProcessed > 0 then do
    let msg ← streamLeftShift st.msg l.lenProcessed
    .ok ({ st with msg := msg }, ⟨exit, l.handed, some (l.lenProcessed, st.msg.len)⟩)
  else .ok (st, ⟨exit, l.handed, none⟩)

/-- `on_flow_read` behind `msg->len += bytes_to_read`. -/
def handleInput (inject : Inject σ) (st : Flow σ) (ev : ReadEvent) :
    Except Fault (Flow σ × Report) :=
  if st.msg.len < ofpHeaderBytes then .ok (st, ⟨.short, [], none⟩)
  else if ev.peerOpen = false then .ok (st, ⟨.pairClosed, [], none⟩)
  else do
    let (l, exit) ← frameLoop inject ev st.msg.bytes st.msg.len
      ⟨0, ev.dupCount, st.evBuf, st.output, st.env, [], 0⟩
    leave st l exit

/-- `on_flow_read` -/
def onFlowRead (inject : Inject σ) (st : Flow σ) (ev : ReadEvent) :
    Except Fault (Flow σ × Report) :=
  let input := st.input ++ ev.chunk
  match makeRoom st.msg input.length ev.realloc with
  | none => .ok ({ st with input := input }, ⟨.noMemory, [], none⟩)
  | some msg => do
    let msg ← streamFill msg input
    handleInput inject { st with msg := msg, input := [] } ev

end Callback

/-! ## The length field -/

/-- Two bytes joined into a halfword. -/
private lemma or_shift_byte {x y : ℕ} (hx : x < 256) : x ||| y <<< 8 = 256 * y + x := by
  rw [Nat.or_comm, Nat.shiftLeft_eq, Nat.mul_comm]
  exact (Nat.two_pow_add_eq_or_of_lt (i := 8) hx y).symm

/-- The swapped length field is the big-endian value of the two bytes at offset `2`. -/
lemma ofpMsgLen_toNat (s : List UInt8) :
    (ofpMsgLen s).toNat = 256 * (s.getD 2 0).toNat + (s.getD 3 0).toNat := by
  unfold ofpMsgLen
  generalize s.getD 2 0 = a
  generalize s.getD 3 0 = b
  have ha := a.toNat_lt
  have hb := b.toNat_lt
  have h8 : (8 : UInt16).toNat % 16 = 8 := by decide
  have hraw : (a.toUInt16 ||| b.toUInt16 <<< 8).toNat = 256 * b.toNat + a.toNat := by
    rw [UInt16.toNat_or, UInt16.toNat_shiftLeft, UInt8.toNat_toUInt16, UInt8.toNat_toUInt16, h8,
      Nat.mod_eq_of_lt (by rw [Nat.shiftLeft_eq]; omega), or_shift_byte ha]
  have hhi : (256 * b.toNat + a.toNat) >>> 8 = b.toNat := by
    rw [Nat.shiftRight_eq_div_pow]; omega
  have hlo : (256 * b.toNat + a.toNat) <<< 8 % 2 ^ 16 = a.toNat <<< 8 := by
    rw [Nat.shiftLeft_eq, Nat.shiftLeft_eq]; omega
  simp only
  rw [UInt16.toNat_or, UInt16.toNat_shiftLeft, UInt16.toNat_shiftRight, hraw, h8, hhi, hlo,
    or_shift_byte hb]

/-- The length field as loci reads it. -/
lemma announced_eq (s : List UInt8) : ofpFraming.announced s = ofMessageLengthGet s :=
  ofpMsgLen_toNat s

/-! ## The frame loop -/

/-- A pair that stays open and takes every write. -/
def ReadEvent.PeerUp (ev : ReadEvent) : Prop :=
  ev.peerOpen = true ∧ (∀ n, ev.fdValid n = true) ∧ ∀ n, ev.writeOk n = true

section Callback

variable {σ : Type}

/-- A call of `action_inject` processes no bytes by itself. -/
@[simp] lemma Loop.hand_lenProcessed (l : Loop σ) (f : Frame UInt8) (d : UInt8) (e : σ) :
    (l.hand f d e).lenProcessed = l.lenProcessed := rfl

/-- The frame is handed on behind the others. -/
@[simp] lemma Loop.hand_handed (l : Loop σ) (f : Frame UInt8) (d : UInt8) (e : σ) :
    (l.hand f d e).handed = l.handed ++ [f] := rfl

/-- The surroundings are those behind the call. -/
@[simp] lemma Loop.hand_env (l : Loop σ) (f : Frame UInt8) (d : UInt8) (e : σ) :
    (l.hand f d e).env = e := rfl

/-- The bytes of a message are processed. -/
@[simp] lemma Loop.advance_lenProcessed (l : Loop σ) (n : ℕ) :
    (l.advance n).lenProcessed = l.lenProcessed + n := rfl

/-- No message is handed on by this. -/
@[simp] lemma Loop.advance_handed (l : Loop σ) (n : ℕ) : (l.advance n).handed = l.handed := rfl

/-- Copying a response out appends it once more than `dup_count` says. -/
lemma dupLoop_eq (response : List UInt8) (n : ℕ) (evBuf : List UInt8) :
    dupLoop response n evBuf = evBuf ++ (List.replicate n response).flatten := by
  induction n generalizing evBuf with
  | zero => simp [dupLoop]
  | succ n ih => simp [dupLoop, ih, List.replicate_succ]

/-- Without a response nothing is forwarded. -/
lemma forward_none (ev : ReadEvent) (l : Loop σ) : forward ev l none = (l, none) := rfl

/-- The forwarding block, where the pair is up: the response is sent `1 + dup_count` times, with
whatever was left in the pair's buffer before it. -/
lemma forward_some {ev : ReadEvent} (hev : ev.PeerUp) (l : Loop σ) (response : StreamT) :
    forward ev l (some response) =
      ({ l with
          responses := l.responses + 1
          dupCount := 0
          evBuf := []
          output := l.output ++
            (l.evBuf ++ (List.replicate (1 + l.dupCount.toNat) response.bytes).flatten) },
        none) := by
  simp [forward, hev.2.1, hev.2.2, dupLoop_eq, Nat.add_comm 1, List.replicate_succ]

/-- The forwarding block moves neither the position, nor the frames handed over, nor the state of
`action_inject`. -/
lemma forward_fields (ev : ReadEvent) (l : Loop σ) (response : Option StreamT) :
    (forward ev l response).1.lenProcessed = l.lenProcessed ∧
      (forward ev l response).1.handed = l.handed ∧ (forward ev l response).1.env = l.env := by
  cases response with
  | none => exact ⟨rfl, rfl, rfl⟩
  | some response =>
    simp only [forward]
    split_ifs <;> exact ⟨rfl, rfl, rfl⟩

/-- Forwarding processes no bytes. -/
@[simp] lemma forward_lenProcessed (ev : ReadEvent) (l : Loop σ) (response : Option StreamT) :
    (forward ev l response).1.lenProcessed = l.lenProcessed := (forward_fields ev l response).1

/-- Forwarding hands no message on. -/
@[simp] lemma forward_handed (ev : ReadEvent) (l : Loop σ) (response : Option StreamT) :
    (forward ev l response).1.handed = l.handed := (forward_fields ev l response).2.1

/-- Forwarding leaves the surroundings of `action_inject` as they are. -/
@[simp] lemma forward_env (ev : ReadEvent) (l : Loop σ) (response : Option StreamT) :
    (forward ev l response).1.env = l.env := (forward_fields ev l response).2.2

/-- Where the pair is up, the forwarding block does not leave the loop. -/
lemma forward_exit {ev : ReadEvent} (hev : ev.PeerUp) (l : Loop σ) (response : Option StreamT) :
    (forward ev l response).2 = none := by
  cases response with
  | none => rfl
  | some response => rw [forward_some hev]

/-- **The frame loop cuts the stream.** A loop that ends without having met a header of length `0`
has handed over the frames of the buffer from where it started, and the bytes it did not process
hold no whole frame.

**Proof sketch.** Induction on the bound on the rounds, which always covers the bytes not yet
processed. A round that goes on takes the first frame of the rest; a round that ends because less
than a header or less than the announced length is there ends at a stuck rest. -/
lemma frameLoop_cuts {inject : Inject σ} {ev : ReadEvent} (hev : ev.PeerUp) {buf : List UInt8}
    {fuel : ℕ} {l l' : Loop σ} {exit : Exit}
    (hrun : frameLoop inject ev buf fuel l = .ok (l', exit)) (hlp : l.lenProcessed ≤ buf.length)
    (hfuel : buf.length - l.lenProcessed ≤ fuel) (hexit : exit ≠ .zeroLength) :
    ∃ fs, l'.handed = l.handed ++ fs ∧ l'.lenProcessed ≤ buf.length ∧
      ofpFraming.Cuts (buf.drop l.lenProcessed) fs (buf.drop l'.lenProcessed) ∧
      (exit = .incomplete ∨ exit = .finished) := by
  have hdr : ofpFraming.hdr = 8 := rfl
  induction fuel generalizing l with
  | zero =>
    obtain ⟨rfl, rfl⟩ : l = l' ∧ Exit.finished = exit := by simpa [frameLoop] using hrun
    refine ⟨[], by simp, hlp, .stuck (Or.inl ?_), Or.inr rfl⟩
    rw [List.length_drop]; omega
  | succ fuel ih =>
    simp only [frameLoop, ofpHeaderBytes] at hrun
    by_cases hroom : l.lenProcessed + 8 ≤ buf.length
    · rw [if_pos hroom] at hrun
      set rest := buf.drop l.lenProcessed with hrest
      have hlen : rest.length = buf.length - l.lenProcessed := List.length_drop
      by_cases hzero : (ofpMsgLen rest).toNat = 0
      · rw [if_pos hzero] at hrun
        obtain ⟨-, rfl⟩ : l = l' ∧ Exit.zeroLength = exit := by simpa using hrun
        exact absurd rfl hexit
      rw [if_neg hzero] at hrun
      by_cases hmore : (ofpMsgLen rest).toNat > buf.length - l.lenProcessed
      · rw [if_pos hmore] at hrun
        obtain ⟨rfl, rfl⟩ : l = l' ∧ Exit.incomplete = exit := by simpa using hrun
        refine ⟨[], by simp, hlp, .stuck (Or.inr ?_), Or.inl rfl⟩
        rw [hlen]
        exact hmore
      rw [if_neg hmore] at hrun
      obtain ⟨⟨response, dupCount, env⟩, -, hrun⟩ := Runs.bind_eq_ok.mp hrun
      simp only [forward_exit hev] at hrun
      obtain ⟨fs, hfs, hle, hcut, hex⟩ := ih hrun (by simp; omega) (by simp; omega)
      refine ⟨ofpFraming.first rest :: fs, by simpa using hfs, hle, ?_, hex⟩
      refine .frame (by omega) (Nat.pos_of_ne_zero hzero)
        (show (ofpMsgLen rest).toNat ≤ rest.length by omega) ?_
      simp only [Loop.advance_lenProcessed, forward_lenProcessed, Loop.hand_lenProcessed] at hcut
      rw [← List.drop_drop] at hcut
      exact hcut
    · rw [if_neg hroom] at hrun
      obtain ⟨rfl, rfl⟩ : l = l' ∧ Exit.finished = exit := by simpa using hrun
      refine ⟨[], by simp, hlp, .stuck (Or.inl ?_), Or.inr rfl⟩
      rw [List.length_drop]; omega

/-- The frame loop never processes more than the buffer holds. -/
lemma frameLoop_le {inject : Inject σ} {ev : ReadEvent} {buf : List UInt8} {fuel : ℕ}
    {l l' : Loop σ} {exit : Exit} (hrun : frameLoop inject ev buf fuel l = .ok (l', exit))
    (hlp : l.lenProcessed ≤ buf.length) : l'.lenProcessed ≤ buf.length := by
  induction fuel generalizing l with
  | zero =>
    obtain ⟨rfl, -⟩ : l = l' ∧ Exit.finished = exit := by simpa [frameLoop] using hrun
    exact hlp
  | succ fuel ih =>
    simp only [frameLoop] at hrun
    split_ifs at hrun with hroom hzero hmore
    · obtain ⟨rfl, -⟩ : l = l' ∧ Exit.zeroLength = exit := by simpa using hrun
      exact hlp
    · obtain ⟨rfl, -⟩ : l = l' ∧ Exit.incomplete = exit := by simpa using hrun
      exact hlp
    · obtain ⟨⟨response, dupCount, env⟩, -, hrun⟩ := Runs.bind_eq_ok.mp hrun
      simp only at hrun
      split at hrun
      · simp only [Except.ok.injEq, Prod.mk.injEq] at hrun
        rw [← hrun.1]
        simpa using hlp
      · exact ih hrun (by simp; omega)
    · obtain ⟨rfl, -⟩ : l = l' ∧ Exit.finished = exit := by simpa using hrun
      exact hlp

/-- The frame loop faults only where `action_inject` does. -/
lemma frameLoop_total {inject : Inject σ} (hinj : ∀ e d n c, ∃ r, inject e d n c = .ok r)
    (ev : ReadEvent) (buf : List UInt8) (fuel : ℕ) (l : Loop σ) :
    ∃ r, frameLoop inject ev buf fuel l = .ok r := by
  induction fuel generalizing l with
  | zero => exact ⟨_, rfl⟩
  | succ fuel ih =>
    simp only [frameLoop]
    split_ifs with hroom hzero hmore
    · exact ⟨_, rfl⟩
    · exact ⟨_, rfl⟩
    · obtain ⟨⟨response, dupCount, env⟩, hr⟩ := hinj l.env (buf.drop l.lenProcessed)
        (ofpMsgLen (buf.drop l.lenProcessed)).toNat l.dupCount
      rw [hr, Runs.ok_bind]
      simp only
      split
      · exact ⟨_, rfl⟩
      · exact ih _
    · exact ⟨_, rfl⟩

/-! ## The callback -/

/-- The bytes a stream can take in always fit once room was made for them. -/
lemma makeRoom_some {s s' : StreamT} {n : ℕ} {realloc : Option (ℕ → UInt8)}
    (h : makeRoom s n realloc = some s') :
    s'.bytes = s.bytes ∧ s'.len = s.len ∧ s'.len + n ≤ s'.cap := by
  have hle := s.len_le_cap
  unfold makeRoom at h
  split_ifs at h with hroom
  · obtain ⟨hb, hl, hc⟩ := streamExpand_some h
    exact ⟨hb, hl, by omega⟩
  · obtain rfl := Option.some.inj h
    exact ⟨rfl, rfl, by omega⟩

/-- Room can only be missing because `realloc` failed. -/
lemma makeRoom_none {s : StreamT} {n : ℕ} {realloc : Option (ℕ → UInt8)}
    (h : makeRoom s n realloc = none) : realloc = none := by
  unfold makeRoom at h
  split_ifs at h
  cases realloc with
  | none => rfl
  | some fresh => simp [streamExpand] at h

/-- What the callback does before it looks at a frame: the bytes in the `evbuffer` are appended to
the stream. -/
lemma fill_room {s s' : StreamT} {input : List UInt8} {realloc : Option (ℕ → UInt8)}
    (h : makeRoom s input.length realloc = some s') :
    ∃ m, streamFill s' input = .ok m ∧ m.bytes = s.bytes ++ input := by
  obtain ⟨hb, -, hroom⟩ := makeRoom_some h
  obtain ⟨m, hm, hbytes, -⟩ := streamFill_ok hroom
  exact ⟨m, hm, by rw [hbytes, hb]⟩

/-- Leaving the loop shifts out at most what the stream holds, so it cannot fault. Behind the two
exits that shift the stream holds what was not processed, behind the others what it held. -/
lemma leave_ok {st : Flow σ} {l : Loop σ} (exit : Exit) (hlp : l.lenProcessed ≤ st.msg.len) :
    ∃ st' r, leave st l exit = .ok (st', r) ∧ r.exit = exit ∧ r.handed = l.handed ∧
      st'.input = st.input ∧ st'.evBuf = l.evBuf ∧ st'.output = l.output ∧ st'.env = l.env ∧
      (exit = .incomplete ∨ exit = .finished →
        st'.msg.bytes = st.msg.bytes.drop l.lenProcessed) ∧
      (¬ (exit = .incomplete ∨ exit = .finished) → st'.msg = st.msg) := by
  unfold leave
  by_cases hshift : (exit = .incomplete ∨ exit = .finished) ∧ l.lenProcessed > 0
  · obtain ⟨m, hm, hb, -⟩ := streamLeftShift_ok hlp
    simp only [if_pos hshift, hm, Runs.ok_bind]
    exact ⟨_, _, rfl, rfl, rfl, rfl, rfl, rfl, rfl, fun _ => hb, fun h => absurd hshift.1 h⟩
  · simp only [if_neg hshift]
    refine ⟨_, _, rfl, rfl, rfl, rfl, rfl, rfl, rfl, fun hexit => ?_, fun _ => rfl⟩
    have hzero : l.lenProcessed = 0 := by
      by_contra h
      exact hshift ⟨hexit, by omega⟩
    simp [hzero]

/-- The callback where the allocator fails: the bytes stay in the `evbuffer`. -/
lemma onFlowRead_noMemory {inject : Inject σ} {st : Flow σ} {ev : ReadEvent}
    (h : makeRoom st.msg (st.input ++ ev.chunk).length ev.realloc = none) :
    onFlowRead inject st ev =
      .ok ({ st with input := st.input ++ ev.chunk }, ⟨.noMemory, [], none⟩) := by
  simp only [onFlowRead, h]

/-- The callback where there is room: the bytes move into the stream and are handled there. -/
lemma onFlowRead_room (inject : Inject σ) {st : Flow σ} {ev : ReadEvent} {s : StreamT}
    (h : makeRoom st.msg (st.input ++ ev.chunk).length ev.realloc = some s) :
    ∃ m, m.bytes = st.msg.bytes ++ (st.input ++ ev.chunk) ∧
      onFlowRead inject st ev = handleInput inject { st with msg := m, input := [] } ev := by
  obtain ⟨m, hm, hbytes⟩ := fill_room h
  exact ⟨m, hbytes, by simp only [onFlowRead, h, hm, Runs.ok_bind]⟩

/-- Handling the input faults only where `action_inject` does. -/
lemma handleInput_total {inject : Inject σ} (hinj : ∀ e d n c, ∃ r, inject e d n c = .ok r)
    (st : Flow σ) (ev : ReadEvent) : ∃ r, handleInput inject st ev = .ok r := by
  unfold handleInput
  split_ifs
  · exact ⟨_, rfl⟩
  · exact ⟨_, rfl⟩
  · obtain ⟨⟨l, exit⟩, hl⟩ := frameLoop_total hinj ev st.msg.bytes st.msg.len
      ⟨0, ev.dupCount, st.evBuf, st.output, st.env, [], 0⟩
    have hle := frameLoop_le hl (Nat.zero_le _)
    rw [StreamT.length_bytes] at hle
    obtain ⟨st', r, hleave, -⟩ := leave_ok exit hle
    exact ⟨(st', r), by simp only [hl, Runs.ok_bind, hleave]⟩

/-- **The callback faults only where `action_inject` does.** -/
lemma onFlowRead_total {inject : Inject σ} (hinj : ∀ e d n c, ∃ r, inject e d n c = .ok r)
    (st : Flow σ) (ev : ReadEvent) : ∃ r, onFlowRead inject st ev = .ok r := by
  cases hroom : makeRoom st.msg (st.input ++ ev.chunk).length ev.realloc with
  | none => exact ⟨_, onFlowRead_noMemory hroom⟩
  | some s =>
    obtain ⟨m, -, hrun⟩ := onFlowRead_room inject hroom
    rw [hrun]
    exact handleInput_total hinj _ ev

/-- Handling the input of a client whose pair is up: unless it meets a header of length `0`, the
stream then holds the rest of the cut of what it held. -/
lemma handleInput_cuts {inject : Inject σ} {ev : ReadEvent} (hev : ev.PeerUp) {st st' : Flow σ}
    {r : Report} (hrun : handleInput inject st ev = .ok (st', r)) :
    r.exit ≠ .noMemory ∧ st'.input = st.input ∧ (r.exit = .zeroLength ∨
      ofpFraming.Cuts st.msg.bytes r.handed st'.msg.bytes) := by
  unfold handleInput ofpHeaderBytes at hrun
  simp only [hev.1, Bool.true_eq_false, if_false] at hrun
  by_cases hshort : st.msg.len < 8
  · rw [if_pos hshort, Except.ok.injEq, Prod.mk.injEq] at hrun
    obtain ⟨rfl, rfl⟩ := hrun
    refine ⟨by simp, rfl, Or.inr (.stuck (Or.inl ?_))⟩
    rw [StreamT.length_bytes]
    exact hshort
  rw [if_neg hshort] at hrun
  obtain ⟨⟨l, exit⟩, hl, hrun⟩ := Runs.bind_eq_ok.mp hrun
  simp only at hrun
  have hle := frameLoop_le hl (Nat.zero_le _)
  rw [StreamT.length_bytes] at hle
  obtain ⟨st₂, r₂, hleave, hexit, hhanded, hinput, -, -, -, hmsg, -⟩ := leave_ok exit hle
  rw [hleave, Except.ok.injEq, Prod.mk.injEq] at hrun
  obtain ⟨rfl, rfl⟩ := hrun
  by_cases hzero : exit = .zeroLength
  · exact ⟨by rw [hexit, hzero]; simp, hinput, Or.inl (hexit.trans hzero)⟩
  obtain ⟨fs, hfs, -, hcut, hex⟩ := frameLoop_cuts hev hl (Nat.zero_le _) (by simp) hzero
  refine ⟨?_, hinput, Or.inr ?_⟩
  · rw [hexit]
    rcases hex with rfl | rfl <;> simp
  · rw [hmsg hex, hhanded, hfs]
    simpa using hcut

/-- **What one call does** on a client whose pair is up. Either the allocator failed, and the bytes
stay in the `evbuffer`; or the bytes went into the stream, and unless the call met a header of
length `0`, the stream then holds the rest of the cut of what it held and received. -/
lemma onFlowRead_cuts {inject : Inject σ} {ev : ReadEvent} (hev : ev.PeerUp) {st st' : Flow σ}
    {r : Report} (hrun : onFlowRead inject st ev = .ok (st', r)) :
    (r.exit = .noMemory ∧ r.handed = [] ∧ st' = { st with input := st.input ++ ev.chunk }) ∨
      (r.exit ≠ .noMemory ∧ st'.input = [] ∧ (r.exit = .zeroLength ∨
        ofpFraming.Cuts (st.msg.bytes ++ (st.input ++ ev.chunk)) r.handed st'.msg.bytes)) := by
  cases hroom : makeRoom st.msg (st.input ++ ev.chunk).length ev.realloc with
  | none =>
    rw [onFlowRead_noMemory hroom, Except.ok.injEq, Prod.mk.injEq] at hrun
    obtain ⟨rfl, rfl⟩ := hrun
    exact Or.inl ⟨rfl, rfl, rfl⟩
  | some s =>
    obtain ⟨m, hbytes, hm⟩ := onFlowRead_room inject hroom
    rw [hm] at hrun
    rw [← hbytes]
    exact Or.inr (handleInput_cuts hev hrun)

end Callback

end Mproxy
