import Mproxy.Flow.Delivery

set_option relaxedAutoImplicit false
set_option autoImplicit false

/-!
# What the tables prescribe

A message of version `1` to `5` and type `0` to `34` that loci accepts is delivered as often as its
own cells of the tables say, unchanged, whatever came before it and however the stream was
segmented.

## Main definitions

* `Mproxy.Tables.copies` — how often a message is delivered.
* `Mproxy.Message` — a whole message that loci accepts.
* `Mproxy.prescribed` — what the tables prescribe for a sequence of messages.

## Main results

* `Mproxy.frameOutput_message` — one message is delivered as often as its cells say.
* `Mproxy.session_prescribed` — so is every message of a session.
-/

namespace Mproxy

open Framing

/-- How often a message of version `v + 1` and type `t` is delivered, if `rand()` returns `rand`. -/
def Tables.copies (T : Tables) (v : Fin 5) (t : Fin 35) (rand : ℕ) : ℕ :=
  if T.drop v t ≠ 0 ∧ ((rand % 100 : ℕ) : ℤ) < (T.drop v t).toInt then 0
  else 1 + (T.dup v t).toNat

/-- A whole message: its version and type have cells in the tables, and loci accepts it. -/
structure Message (L : Loci) where
  version : Fin 5
  type : Fin 35
  tail : List UInt8
  accepted : (ofObjectNewFromMessage L
    (UInt8.ofNat (version + 1) :: UInt8.ofNat type :: tail) (tail.length + 2)).isSome

/-- The message on the wire. -/
def Message.bytes {L : Loci} (m : Message L) : List UInt8 :=
  UInt8.ofNat (m.version + 1) :: UInt8.ofNat m.type :: m.tail

/-- What the tables prescribe for messages in order, the first of which is handed to the call number
`n` of `action_inject`. -/
def prescribed {L : Loci} (T : Tables) (ρ : ℕ → ℕ) (n : ℕ) (ms : List (Message L)) : List UInt8 :=
  ((withRand ρ n ms).map fun p =>
    (List.replicate (T.copies p.1.version p.1.type p.2) p.1.bytes).flatten).flatten

/-! ## Cells -/

namespace Tables

variable {T : Tables} {v : Fin 5} {t : Fin 35}

/-- Where drop cells are percentages, a message is dropped exactly if no copy is prescribed. -/
lemma drops_iff (hT : T.Percent) (rand : ℕ) :
    T.drops v t rand ↔ T.drop v t ≠ 0 ∧ ((rand % 100 : ℕ) : ℤ) < (T.drop v t).toInt := by
  rw [drops, ← charToUnsigned_of_nonneg (hT v t).1, Int.ofNat_lt]

/-- A drop cell of `100` drops for every value of `rand()`. -/
lemma copies_of_hundred (h : (T.drop v t).toInt = 100) (rand : ℕ) : T.copies v t rand = 0 := by
  have hne : T.drop v t ≠ 0 := by
    intro h0
    rw [h0] at h
    exact absurd h (by decide)
  have hlt : ((rand % 100 : ℕ) : ℤ) < (T.drop v t).toInt := by omega
  exact if_pos ⟨hne, hlt⟩

/-- A drop cell of `0` never drops. -/
lemma copies_of_zero (h : T.drop v t = 0) (rand : ℕ) :
    T.copies v t rand = 1 + (T.dup v t).toNat :=
  if_neg fun hd => hd.1 h

/-- Tables of zeros let one copy of each message through. -/
lemma copies_zero (rand : ℕ) : Tables.zero.copies v t rand = 1 := copies_of_zero rfl rand

end Tables

/-! ## Messages -/

section Messages

variable {L : Loci}

/-- A message is two bytes longer than what stands behind its version and its type. -/
@[simp] lemma Message.length_bytes (m : Message L) : m.bytes.length = m.tail.length + 2 := rfl

/-- A message is a whole frame: it holds a header and is as long as it announces. -/
lemma Message.framed (m : Message L) :
    ofpFraming.hdr ≤ m.bytes.length ∧ ofpFraming.announced m.bytes = m.bytes.length := by
  obtain ⟨-, -, hlen, hann⟩ := ofObjectNewFromMessage_isSome m.accepted
  rw [announced_eq, m.length_bytes]
  exact ⟨hlen, hann.symm⟩

/-- What `action_inject` does with a message: drop it, or copy it. -/
lemma actionInject_message (T : Tables) (rand : ℕ) (m : Message L) :
    actionInject L T rand m.bytes m.bytes.length 0 =
      if T.drops m.version m.type rand then .ok (none, 0)
      else .ok (some (StreamT.full m.bytes), T.dup m.version m.type) := by
  have hv : (UInt8.ofNat (m.version + 1)).toNat = m.version + 1 := by
    rw [UInt8.toNat_ofNat']; omega
  have ht : (UInt8.ofNat (m.type : ℕ)).toNat = m.type := by
    rw [UInt8.toNat_ofNat']; omega
  have hinj := actionInject_of_valid L T rand 0 m.version m.type hv ht
    (le_refl (UInt8.ofNat (m.version + 1) :: UInt8.ofNat m.type :: m.tail).length)
  have hacc : (ofObjectNewFromMessage L m.bytes m.bytes.length).isSome := m.accepted
  rw [← Message.bytes, List.take_length, if_pos hacc, ite_self] at hinj
  exact hinj

/-- **One message is delivered as often as its cells say**, unchanged: a copy made for the duplicate
path is the same as the one that comes back from loci. -/
lemma frameOutput_message {T : Tables} (hT : T.Percent) (rand : ℕ) (m : Message L) :
    frameOutput L T rand (.whole m.bytes) =
      .ok (List.replicate (T.copies m.version m.type rand) m.bytes).flatten := by
  rw [frameOutput, Frame.whole, actionInject_message, Tables.copies]
  simp only [Tables.drops_iff hT]
  by_cases hdrop : T.drop m.version m.type ≠ 0 ∧
      ((rand % 100 : ℕ) : ℤ) < (T.drop m.version m.type).toInt
  · rw [if_pos hdrop, if_pos hdrop]
    rfl
  · rw [if_neg hdrop, if_neg hdrop, Runs.ok_bind]
    simp [sentFor]

/-- The copies of the first message, and then those of the others, with the next numbers. -/
lemma prescribed_cons (T : Tables) (ρ : ℕ → ℕ) (n : ℕ) (m : Message L) (ms : List (Message L)) :
    prescribed T ρ n (m :: ms) =
      (List.replicate (T.copies m.version m.type (ρ n)) m.bytes).flatten ++
        prescribed T ρ (n + 1) ms := rfl

/-- What is delivered for messages is what the tables prescribe for them. -/
lemma deliver_messages {T : Tables} (hT : T.Percent) (ρ : ℕ → ℕ) (n : ℕ) (ms : List (Message L)) :
    deliver L T (withRand ρ n (ms.map fun m => .whole m.bytes)) = .ok (prescribed T ρ n ms) := by
  induction ms generalizing n with
  | nil => rfl
  | cons m ms ih =>
    simp only [List.map_cons, withRand_cons, deliver, frameOutput_message hT, ih, Runs.ok_bind,
      prescribed_cons]

/-- With zeroed tables the prescription is the messages themselves. -/
lemma prescribed_zero (ρ : ℕ → ℕ) (n : ℕ) (ms : List (Message L)) :
    prescribed Tables.zero ρ n ms = (ms.map Message.bytes).flatten := by
  induction ms generalizing n with
  | nil => rfl
  | cons m ms ih =>
    rw [prescribed_cons, Tables.copies_zero, ih]
    simp

/-- Where messages are left, a client holds their bytes and the rest. -/
lemma Flow.Left.messages {σ : Type} {st : Flow σ} {ms : List (Message L)} {r : List UInt8}
    (h : st.Left (ms.map fun m => .whole m.bytes) r) :
    st.msg.bytes ++ st.input = (ms.map Message.bytes).flatten ++ r := by
  have hbody : (Frame.body ∘ fun m : Message L => Frame.whole m.bytes) = Message.bytes := by
    funext m
    exact List.take_length
  rw [← h.cuts.flatten_append, List.map_map, hbody]

/-- **Delivered bytes are exactly what the tables prescribe.** On a client whose pair is up, let the
received stream consist of messages, cut into chunks in any way. The run ends without a fault and
has written to the pair what the tables prescribe for the messages that have left the `evbuffer`, in
their order. The bytes of the others are all that is left in the stream and the `evbuffer`; there
are none if the last event finds memory, or if the `evbuffer` is empty. With zeroed tables what was
written is the stream itself; a cell of `100` prescribes no copy for any value of `rand()`, and a
cell of `0` always one copy more than the dup cell says.

**Proof sketch.** Messages are whole frames, so they are the cut of the stream; a session delivers
what `deliver` says for it (`session_deliver`), and that is the prescription. -/
theorem session_prescribed (T : Tables) (hT : T.Percent) (ρ : ℕ → ℕ) (fresh : ℕ → UInt8)
    (ms : List (Message L)) (evs : List ReadEvent) (hevs : ∀ ev ∈ evs, ev.PeerUp)
    (hms : (evs.map ReadEvent.chunk).flatten = (ms.map Message.bytes).flatten) :
    (∃ s ms₁ ms₂, Runs.run (sessionStep (tableInject L T ρ)) (.start fresh 0) evs = .ok s ∧
      ms = ms₁ ++ ms₂ ∧ s.flow.output = prescribed T ρ 0 ms₁ ∧ s.flow.evBuf = [] ∧
      (LastRead evs → ms₂ = []) ∧ (s.flow.input = [] → ms₂ = []) ∧
      ofpFraming.Stuck s.flow.msg.bytes ∧
      s.flow.msg.bytes ++ s.flow.input = (ms₂.map Message.bytes).flatten ∧
      (T = Tables.zero → s.flow.output = (ms₁.map Message.bytes).flatten)) ∧
    (∀ v t rand, (T.drop v t).toInt = 100 → T.copies v t rand = 0) ∧
    (∀ v t rand, (T.drop v t).toInt = 0 → T.copies v t rand = 1 + (T.dup v t).toNat) := by
  have hcut : ofpFraming.Cuts (evs.map ReadEvent.chunk).flatten
      (ms.map fun m => .whole m.bytes) [] := by
    have := Discipline.Cuts.of_whole (D := ofpFraming) (ms.map Message.bytes) (by
      intro f hf
      obtain ⟨m, -, rfl⟩ := List.mem_map.mp hf
      exact m.framed)
    rwa [List.map_map, ← hms] at this
  refine ⟨?_, fun v t rand h => Tables.copies_of_hundred h rand, fun v t rand h =>
    Tables.copies_of_zero (Int8.toInt_inj.mp h) rand⟩
  obtain ⟨gs₁, gs₂, hgs, hrun, hlast⟩ := session_deliver (L := L) (T := T) (ρ := ρ) hevs
    (s := .start fresh 0) rfl Discipline.stuck_nil hcut
  obtain ⟨ms₁, ms₂, rfl, rfl, rfl⟩ := List.map_eq_append_iff.mp hgs
  obtain ⟨s, hs, hout, hbuf, hleft⟩ := hrun.ok_right (deliver_messages hT ρ 0 ms₁)
  have hheld := hleft.messages
  rw [List.append_nil] at hheld
  refine ⟨s, ms₁, ms₂, hs, rfl, hout, hbuf, fun h => List.map_eq_nil_iff.mp (hlast h fun _ => rfl),
    fun h => List.map_eq_nil_iff.mp (hleft.nil h).1, hleft.stuck, hheld, ?_⟩
  rintro rfl
  rw [hout, ← prescribed_zero ρ 0]
  rfl

end Messages

/-- Two messages of version `1`: the first is of type `0` and sent twice more, the second of type
`1` and always dropped. -/
theorem session_prescribed_two :
    ∃ T : Tables, ∃ hello echo : Message Loci.lenient, ∃ s,
      Runs.run (sessionStep (tableInject Loci.lenient T fun _ => 99)) (.start (fun _ => 0) 0)
        [.plain (hello.bytes ++ echo.bytes.take 3), .plain (echo.bytes.drop 3 ++ hello.bytes)] =
        .ok s ∧
      s.flow.output = (List.replicate 6 hello.bytes).flatten := by
  let T : Tables :=
    { drop := fun v t => if v = 0 ∧ t = 1 then 100 else 0
      dup := fun v t => if v = 0 ∧ t = 0 then 2 else 0 }
  let hello : Message Loci.lenient := ⟨0, 0, [0, 8, 0, 0, 0, 1], by decide⟩
  let echo : Message Loci.lenient := ⟨0, 1, [0, 9, 0, 0, 0, 2, 7], by decide⟩
  have hT : T.Percent := by
    intro v t
    simp only [T]
    split_ifs <;> decide
  obtain ⟨⟨s, ms₁, ms₂, hrun, hms, hout, -, hlast, -⟩, -⟩ := session_prescribed T hT
    (fun _ => 99) (fun _ => 0) [hello, echo, hello]
    [.plain (hello.bytes ++ echo.bytes.take 3), .plain (echo.bytes.drop 3 ++ hello.bytes)]
    (by simp [ReadEvent.plain_peerUp]) (by decide)
  obtain rfl := hlast (by
    rintro ev h
    obtain rfl := Option.some.inj h
    rfl)
  rw [List.append_nil] at hms
  refine ⟨T, hello, echo, s, hrun, ?_⟩
  rw [hout, ← hms]
  decide +kernel

end Mproxy
