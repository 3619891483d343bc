import Mproxy.Proxy.Pairing

set_option relaxedAutoImplicit false
set_option autoImplicit false

/-!
# What a step does to pairs of clients

What the functions of `client.cpp`, the listener and the read callback can do, said once and in
terms of what is found in the map and at the pointers. Every invariant of the process is derived
from that.

A round of the listener whose `Client::init` fails deletes a client, and the deletion looks up the
other descriptor in the map and so enters a null pointer for it. If it fails before it has set
`ev_event`, the deletion frees what the memory of the client happens to hold there. A round that
gets no memory for a client or for a node of `client_map`, or no thread, ends the process.

## Main definitions

* `Mproxy.Iteration.Completes`, `Mproxy.Iteration.InitFails`, `Mproxy.Iteration.Throws` — how a
  round goes on from `new Client(in_fd, out_fd)`.
* `Mproxy.System.Deleted` — what is left behind `Client::~Client`.
* `Mproxy.System.ListenOutcome` — what a round of the listener can do.
* `Mproxy.System.ReadBy` — what is left behind `on_flow_read`.
* `Mproxy.System.Effect` — what a step can do.

## Main results

* `Mproxy.System.deleteClient_cases`, `Mproxy.System.clientInit_cases`,
  `Mproxy.System.startListen_outcome`, `Mproxy.System.flowRead_cases` — what the functions can do.
* `Mproxy.System.Paired.effect` — what a step can do.
-/

namespace Mproxy

section Steps

variable {σ : Type}

/-- The bytes that were written to the client: those in `ev_buf`, and those in the output buffer of
`ev_event`. -/
def Client.written (c : Client) : Option (List UInt8) × Option (List UInt8) :=
  (c.evBuf, match c.evEvent with
    | .buffers _ output => some output
    | _ => none)

/-- The bytes that were read from the client: those in `buf`, and those in the input buffer of
`ev_event`. -/
def Client.received (c : Client) : Option (List UInt8) × Option (List UInt8) :=
  (c.buf.map StreamT.bytes, match c.evEvent with
    | .buffers input _ => some input
    | _ => none)

/-- A client that was not read from, and not written to. -/
def Client.Fresh (c : Client) : Prop :=
  c.written = (some [], some []) ∧ c.received = (some [], some [])

/-- What the read callback of a client does to the client itself. -/
lemma Client.Established.read {c : Client} (hest : c.Established) {input output : List UInt8}
    (hev : c.evEvent = .buffers input output) (flow : Flow σ) :
    Client.Established { c with buf := some flow.msg, evEvent := .buffers flow.input output } ∧
      Client.written { c with buf := some flow.msg, evEvent := .buffers flow.input output } =
        c.written := by
  refine ⟨⟨hest.evBase, hest.evBuf, ⟨_, _, rfl⟩, ⟨_, rfl⟩⟩, ?_⟩
  rw [Client.written, Client.written, hev]

/-- Every call in `Client::init` succeeds. -/
def InitAnswers.Ok (a : InitAnswers) : Prop :=
  a.streamNew.isSome ∧ a.evbufferNew = true ∧ a.eventBaseNew = true ∧ a.buffereventNew = true ∧
    a.mapNode = true

instance (a : InitAnswers) : Decidable a.Ok := inferInstanceAs (Decidable (_ ∧ _))

/-- `Client::init` fails before it sets `ev_event`. -/
def InitAnswers.FailsEarly (a : InitAnswers) : Prop :=
  a.streamNew = none ∨ a.evbufferNew = false ∨ a.eventBaseNew = false

instance (a : InitAnswers) : Decidable a.FailsEarly :=
  decidable_of_iff (a.streamNew.isNone ∨ a.evbufferNew = false ∨ a.eventBaseNew = false)
    (by rw [Option.isNone_iff_eq_none]; rfl)

/-- `Client::init` returns `STATUS_ERR`. -/
def InitAnswers.Fails (a : InitAnswers) : Prop := a.FailsEarly ∨ a.buffereventNew = false

instance (a : InitAnswers) : Decidable a.Fails := inferInstanceAs (Decidable (_ ∨ _))

/-- `Client::init` throws: it gets as far as `client_map[fd]`, and there is no memory for a node. -/
def InitAnswers.Throws (a : InitAnswers) : Prop := ¬ a.Fails ∧ a.mapNode = false

instance (a : InitAnswers) : Decidable a.Throws := inferInstanceAs (Decidable (_ ∧ _))

/-- A call of `Client::init` that fails does not succeed. -/
lemma InitAnswers.Fails.not_ok {a : InitAnswers} (h : a.Fails) : ¬ a.Ok := by
  rintro ⟨hstream, hevbuffer, hbase, hbufferevent, -⟩
  rcases h with (h | h | h) | h
  · rw [h] at hstream
    cases hstream
  · rw [h] at hevbuffer
    cases hevbuffer
  · rw [h] at hbase
    cases hbase
  · rw [h] at hbufferevent
    cases hbufferevent

/-- A call of `Client::init` that throws does not succeed. -/
lemma InitAnswers.Throws.not_ok {a : InitAnswers} (h : a.Throws) : ¬ a.Ok := by
  rintro ⟨-, -, -, -, hnode⟩
  rw [h.2] at hnode
  cases hnode

/-- The three ways in which a call of `Client::init` ends. -/
lemma InitAnswers.ends (a : InitAnswers) : a.Ok ∨ a.Fails ∨ a.Throws := by
  by_cases hfails : a.Fails
  · exact Or.inr (Or.inl hfails)
  by_cases hnode : a.mapNode = false
  · exact Or.inr (Or.inr ⟨hfails, hnode⟩)
  simp only [Fails, FailsEarly, not_or, Bool.not_eq_false, ← ne_eq,
    ← Option.isSome_iff_ne_none] at hfails
  obtain ⟨⟨hstream, hbuf, hbase⟩, hevent⟩ := hfails
  exact Or.inl ⟨hstream, hbuf, hbase, hevent, Bool.eq_true_of_not_eq_false hnode⟩

/-! ## How a round goes on -/

namespace Iteration

variable {it : Iteration}

/-- From `new Client(in_fd, out_fd)` on everything in the round succeeds. -/
def Completes (it : Iteration) : Prop :=
  it.newIn.isSome ∧ it.initIn.Ok ∧ it.newOut.isSome ∧ it.initOut.Ok ∧
    it.threadOut = true ∧ it.threadIn = true

/-- One of the two calls of `Client::init` is made and fails. -/
def InitFails (it : Iteration) : Prop :=
  it.newIn.isSome ∧ (it.initIn.Fails ∨ it.initIn.Ok ∧ it.newOut.isSome ∧ it.initOut.Fails)

/-- One of the two calls of `Client::init` is made and fails before it sets `ev_event`. -/
def InitFailsEarly (it : Iteration) : Prop :=
  it.newIn.isSome ∧
    (it.initIn.FailsEarly ∨ it.initIn.Ok ∧ it.newOut.isSome ∧ it.initOut.FailsEarly)

/-- One of the two calls of `Client::init` is made and fails before it sets `ev_event`, the client
is deleted, and its memory does not happen to hold a null pointer there. -/
def FreesGarbage (it : Iteration) : Prop :=
  it.newIn = some false ∧ it.initIn.FailsEarly ∧ it.deleteIn = true ∨
    it.newIn.isSome ∧ it.initIn.Ok ∧ it.newOut = some false ∧ it.initOut.FailsEarly ∧
      it.deleteIn = true ∧ it.deleteOut = true

/-- The round comes to something that throws: a `new Client`, a `new std::thread`, or
`client_map[..]` in `Client::init` or in `~Client`. -/
def Throws (it : Iteration) : Prop :=
  it.newIn = none ∨ it.initIn.Throws ∨ it.initIn.Fails ∧ it.deleteIn = false ∨
    it.initIn.Ok ∧ (it.newOut = none ∨ it.initOut.Throws ∨
      it.initOut.Fails ∧ (it.deleteIn = false ∨ it.deleteOut = false) ∨
      it.initOut.Ok ∧ (it.threadOut = false ∨ it.threadIn = false))

instance (it : Iteration) : Decidable it.Completes := inferInstanceAs (Decidable (_ ∧ _))

instance (it : Iteration) : Decidable it.Throws := inferInstanceAs (Decidable (_ ∨ _))

/-- The ways in which a round goes on. -/
lemma goes_on (it : Iteration) : it.Completes ∨ it.InitFails ∨ it.Throws := by
  have hin := it.initIn.ends
  have hout := it.initOut.ends
  unfold Completes InitFails Throws
  rw [Option.isSome_iff_ne_none, Option.isSome_iff_ne_none, ← Bool.not_eq_true it.threadOut,
    ← Bool.not_eq_true it.threadIn]
  tauto

/-- A round with a call of `Client::init` that fails does not complete. -/
lemma InitFails.not_completes (h : it.InitFails) : ¬ it.Completes := by
  rintro ⟨-, hin, -, hout, -⟩
  rcases h.2 with hfail | ⟨-, -, hfail⟩
  · exact hfail.not_ok hin
  · exact hfail.not_ok hout

/-- Its clients are deleted, if it does not throw. -/
lemma InitFails.deletes (h : it.InitFails) (hno : ¬ it.Throws) :
    it.deleteIn = true ∧ (it.initIn.Ok → it.deleteOut = true) := by
  have hout : it.initIn.Ok → it.deleteIn = true ∧ it.deleteOut = true := by
    intro hok
    obtain ⟨-, -, hfails⟩ := h.2.resolve_left fun hfails => hfails.not_ok hok
    have hboth : ¬ (it.deleteIn = false ∨ it.deleteOut = false) := fun hdelete =>
      hno (Or.inr (Or.inr (Or.inr ⟨hok, Or.inr (Or.inr (Or.inl ⟨hfails, hdelete⟩))⟩)))
    simpa [not_or] using hboth
  refine ⟨?_, fun hok => (hout hok).2⟩
  rcases h.2 with hfails | ⟨hok, -⟩
  · exact Bool.eq_true_of_not_eq_false fun hdelete =>
      hno (Or.inr (Or.inr (Or.inl ⟨hfails, hdelete⟩)))
  · exact (hout hok).1

/-- A round that throws does not complete. -/
lemma Throws.not_completes (h : it.Throws) : ¬ it.Completes := by
  rintro ⟨hnew, hin, hnewOut, hout, hthreadOut, hthreadIn⟩
  rcases h with hnone | hthrows | ⟨hfails, -⟩ | ⟨-, hnone | hthrows | ⟨hfails, -⟩ |
    ⟨-, hthread | hthread⟩⟩
  · rw [hnone] at hnew
    cases hnew
  · exact hthrows.not_ok hin
  · exact hfails.not_ok hin
  · rw [hnone] at hnewOut
    cases hnewOut
  · exact hthrows.not_ok hout
  · exact hfails.not_ok hout
  · rw [hthread] at hthreadOut
    cases hthreadOut
  · rw [hthread] at hthreadIn
    cases hthreadIn

/-- A call of `Client::init` that fails early fails. -/
lemma InitFailsEarly.initFails (h : it.InitFailsEarly) : it.InitFails :=
  ⟨h.1, h.2.imp Or.inl fun h => ⟨h.1, h.2.1, Or.inl h.2.2⟩⟩

/-- Garbage is only freed where a call of `Client::init` has failed early. -/
lemma FreesGarbage.initFailsEarly (h : it.FreesGarbage) : it.InitFailsEarly := by
  rcases h with ⟨hnew, hearly, -⟩ | ⟨hnew, hok, hnewOut, hearly, -⟩
  · exact ⟨by rw [hnew]; rfl, Or.inl hearly⟩
  · exact ⟨hnew, Or.inr ⟨hok, by rw [hnewOut]; rfl, hearly⟩⟩

/-- Where `Client::init` of the first client fails and the client is deleted, what counts is the
memory of this client. -/
lemma freesGarbage_first (hin : it.initIn.Fails) (hdelete : it.deleteIn = true) :
    it.FreesGarbage ↔ it.newIn = some false ∧ it.initIn.FailsEarly := by
  rw [FreesGarbage, or_iff_left fun h => hin.not_ok h.2.1, hdelete]
  simp

/-- Where that of the second one is made and both are deleted, what counts is the memory of the
second one. -/
lemma freesGarbage_second (hnew : it.newIn.isSome) (hin : it.initIn.Ok)
    (hdelete : it.deleteIn = true ∧ it.deleteOut = true) :
    it.FreesGarbage ↔ it.newOut = some false ∧ it.initOut.FailsEarly := by
  constructor
  · rintro (⟨-, hearly, -⟩ | ⟨-, -, hnewOut, hearly, -⟩)
    · exact absurd hin (InitAnswers.Fails.not_ok (Or.inl hearly))
    · exact ⟨hnewOut, hearly⟩
  · exact fun h => Or.inr ⟨hnew, hin, h.1, h.2, hdelete⟩

end Iteration

namespace System

variable {s s' : System σ} {p q : ClientPtr} {c : Client}

/-! ## Deletion -/

/-- The clients behind a change of one of them. -/
@[simp] lemma update_clients (s : System σ) (p q : ClientPtr) (c : Client) :
    (s.update p c).clients q = if q = p then some c else s.clients q := by
  simp only [update, Function.update_apply]

/-- The clients behind the deletion of one of them. -/
@[simp] lemma free_clients (s : System σ) (p q : ClientPtr) :
    (s.free p).clients q = if q = p then none else s.clients q := by
  simp only [free, Function.update_apply]

/-- The open descriptors behind `close`. -/
@[simp] lemma close_isOpen (s : System σ) (fd f : ℤ) :
    (s.close fd).isOpen f = if f = fd then false else s.isOpen f := by
  simp only [close, Function.update_apply]

/-- A pointer that the index operator returns is in the map. -/
lemma find_of_getD {o : Option (Option ClientPtr)} (h : o.getD none = some q) :
    o = some (some q) := by
  cases o with
  | none => cases h
  | some o => exact congrArg some h

/-- What is left of a process behind the deletion of the client `c` at `p`. -/
structure Deleted (s : System σ) (p : ClientPtr) (c : Client) (s' : System σ) : Prop where
  clients : ∀ q, s'.clients q = if q = p then none
    else if s.clientMap.find c.fwFd = some (some q) then
      (s.clients q).map fun d => { d with fwFd := -1 }
    else s.clients q
  clientMap : ∀ f, s'.clientMap.find f = if f = c.fd then none
    else if f = c.fwFd then some ((s.clientMap.find f).getD none)
    else s.clientMap.find f
  isOpen : ∀ f, s'.isOpen f = if f = c.fd ∧ f ≠ -1 then false else s.isOpen f
  next : s'.next = s.next
  threads : s'.threads = s.threads
  phase : s'.phase = s.phase
  pairs : s'.pairs = s.pairs
  env : s'.env = s.env

/-- The part of `~Client` that does not depend on the pair: the index operator, `close` and `erase`.
-/
def dismiss (s : System σ) (c : Client) : System σ :=
  { s with
    clientMap := (s.clientMap.index c.fwFd none).1.erase c.fd
    isOpen := if c.fd ≠ -1 then Function.update s.isOpen c.fd false else s.isOpen }

/-- What the map has behind this. -/
lemma dismiss_find (s : System σ) (c : Client) (f : ℤ) :
    (s.dismiss c).clientMap.find f = if f = c.fd then none
      else if f = c.fwFd then some ((s.clientMap.find f).getD none) else s.clientMap.find f := by
  simp only [dismiss, IndexMap.find_erase, IndexMap.find_index]
  split_ifs with h₁ h₂
  · rfl
  · rw [h₂]
  · rfl

/-- The open descriptors behind this. -/
lemma dismiss_isOpen (s : System σ) (c : Client) (f : ℤ) :
    (s.dismiss c).isOpen f = if f = c.fd ∧ f ≠ -1 then false else s.isOpen f := by
  by_cases hfd : c.fd = -1
  · simp only [dismiss, hfd, ne_eq, not_true_eq_false, if_false, and_not_self]
  · simp only [dismiss, ne_eq, hfd, not_false_eq_true, if_true, Function.update_apply]
    split_ifs with h₁ h₂ h₂
    · rfl
    · exact absurd ⟨h₁, h₁ ▸ hfd⟩ h₂
    · exact absurd h₂.1 h₁
    · rfl

/-- The deletion of a client whose `ev_event` can be freed, by what is found under the descriptor of
its pair. -/
lemma deleteClient_eq (hc : s.clients p = some c) (hfree : c.freeEvent = .ok ()) :
    s.deleteClient p =
      match (s.clientMap.find c.fwFd).getD none with
      | none => .ok ((s.dismiss c).free p)
      | some q => s.deref q >>= fun d =>
        .ok (((s.dismiss c).update q { d with fwFd := -1 }).free p) := by
  have hderef : s.deref p = .ok c := by rw [deref, hc]
  have hopen : ∀ s₁ : System σ, (if c.fd ≠ -1 then s₁.close c.fd else s₁) =
      { s₁ with
        isOpen := if c.fd ≠ -1 then Function.update s₁.isOpen c.fd false else s₁.isOpen } := by
    intro s₁
    split_ifs <;> rfl
  rw [deleteClient, hderef, Runs.ok_bind]
  simp only [index, IndexMap.index_snd, hopen, hfree, Runs.ok_bind]
  rfl

/-- **What `~Client` can do**, if a client in the place of the pair is there: it frees what was in
the memory in the place of `ev_event`, or deletes the client. -/
lemma deleteClient_cases (hc : s.clients p = some c)
    (hpair : ∀ q, s.clientMap.find c.fwFd = some (some q) → ∃ d, s.clients q = some d) :
    s.deleteClient p = .error .unsetMember ∧ c.evEvent = .unset false ∨
      c.evEvent ≠ .unset false ∧ ∃ s', s.deleteClient p = .ok s' ∧ s.Deleted p c s' := by
  by_cases hset : c.evEvent = .unset false
  · left
    refine ⟨?_, hset⟩
    have hderef : s.deref p = .ok c := by rw [deref, hc]
    rw [deleteClient, hderef, Runs.ok_bind, Client.freeEvent, hset]
    rfl
  right
  refine ⟨hset, ?_⟩
  have hfree : c.freeEvent = .ok () := by
    unfold Client.freeEvent
    split
    · exact absurd ‹_› hset
    · rfl
  rw [deleteClient_eq hc hfree]
  cases hfind : (s.clientMap.find c.fwFd).getD none with
  | none =>
    have hnone : ∀ q, s.clientMap.find c.fwFd ≠ some (some q) := by
      intro q hq
      rw [hq] at hfind
      cases hfind
    refine ⟨_, rfl, ⟨fun q => ?_, dismiss_find s c, dismiss_isOpen s c, rfl, rfl, rfl, rfl, rfl⟩⟩
    rw [free_clients, if_neg (hnone q)]
    rfl
  | some q =>
    have hq := find_of_getD hfind
    obtain ⟨d, hd⟩ := hpair q hq
    have hderef : s.deref q = .ok d := by rw [deref, hd]
    simp only [hderef, Runs.ok_bind]
    refine ⟨_, rfl, ⟨fun r => ?_, dismiss_find s c, dismiss_isOpen s c, rfl, rfl, rfl, rfl, rfl⟩⟩
    rw [free_clients, update_clients, hq]
    by_cases hr : r = q
    · subst hr
      rw [if_pos rfl, if_pos rfl, hd]
      rfl
    · have hne : ¬ some (some q) = some (some r) := fun h =>
        hr (Option.some.inj (Option.some.inj h)).symm
      rw [if_neg hr, if_neg hne]
      rfl

/-- The deletion of a client whose pair is not in the map concerns no other client. -/
lemma Deleted.clients_alone (h : s.Deleted p c s')
    (halone : ∀ q, s.clientMap.find c.fwFd ≠ some (some q)) (q : ClientPtr) :
    s'.clients q = if q = p then none else s.clients q := by
  rw [h.clients, if_neg (halone q)]

/-- The deletion of a client whose pair is not in the map enters a null pointer for the pair. -/
lemma Deleted.find_alone (h : s.Deleted p c s')
    (halone : ∀ q, s.clientMap.find c.fwFd ≠ some (some q)) (f : ℤ) :
    s'.clientMap.find f = if f = c.fd then none
      else if f = c.fwFd then some none else s.clientMap.find f := by
  have hnull : (s.clientMap.find c.fwFd).getD none = none := by
    cases hfind : s.clientMap.find c.fwFd with
    | none => rfl
    | some o =>
      cases o with
      | none => rfl
      | some q => exact absurd hfind (halone q)
  rw [h.clientMap]
  split_ifs with h₁ h₂
  · rfl
  · rw [h₂, hnull]
  · rfl

/-! ## Creation -/

/-- **What `Client::init` can do**: it establishes the client and enters it into the map, or leaves
it with an `ev_event` that is null, or that it has not set, or it throws. -/
lemma clientInit_cases (hc : s.clients p = some c) (a : InitAnswers) :
    (a.Ok ∧ ∃ c', s.clientInit p a =
        .ok ({ s.update p c' with clientMap := s.clientMap.set c.fd (some p) }, true) ∧
      c'.fd = c.fd ∧ c'.fwFd = c.fwFd ∧ c'.Established ∧ c'.Fresh) ∨
    (a.Fails ∧ ∃ c', s.clientInit p a = .ok (s.update p c', false) ∧
      c'.fd = c.fd ∧ c'.fwFd = c.fwFd ∧
      c'.evEvent = if a.FailsEarly then c.evEvent else .null) ∨
    (a.Throws ∧ s.clientInit p a = .error .uncaught) := by
  have hderef : s.deref p = .ok c := by rw [deref, hc]
  obtain ⟨fresh, evbuffer, base, bufferevent, node⟩ := a
  unfold clientInit
  rw [hderef, Runs.ok_bind]
  cases fresh with
  | none =>
    exact Or.inr (Or.inl ⟨Or.inl (Or.inl rfl), _, rfl, rfl, rfl, (if_pos (Or.inl rfl)).symm⟩)
  | some fresh =>
    cases evbuffer with
    | false =>
      have hearly : InitAnswers.FailsEarly ⟨some fresh, false, base, bufferevent, node⟩ :=
        Or.inr (Or.inl rfl)
      exact Or.inr (Or.inl ⟨Or.inl hearly, _, rfl, rfl, rfl, (if_pos hearly).symm⟩)
    | true =>
      cases base with
      | false =>
        have hearly : InitAnswers.FailsEarly ⟨some fresh, true, false, bufferevent, node⟩ :=
          Or.inr (Or.inr rfl)
        exact Or.inr (Or.inl ⟨Or.inl hearly, _, rfl, rfl, rfl, (if_pos hearly).symm⟩)
      | true =>
        have hlate : ¬ InitAnswers.FailsEarly ⟨some fresh, true, true, bufferevent, node⟩ := by
          simp [InitAnswers.FailsEarly]
        cases bufferevent with
        | false => exact Or.inr (Or.inl ⟨Or.inr rfl, _, rfl, rfl, rfl, (if_neg hlate).symm⟩)
        | true =>
          cases node with
          | false => exact Or.inr (Or.inr ⟨⟨by simpa [InitAnswers.Fails] using hlate, rfl⟩, rfl⟩)
          | true =>
            exact Or.inl ⟨⟨rfl, rfl, rfl, rfl, rfl⟩, _, rfl, rfl, rfl,
              ⟨rfl, ⟨_, rfl⟩, ⟨_, _, rfl⟩, ⟨_, rfl⟩⟩, rfl, rfl⟩

/-- Whether a failing `Client::init` leaves something in the place of `ev_event` that gets freed. -/
lemma unset_iff {a : InitAnswers} {null : Bool} {ev : EvEvent}
    (hev : ev = if a.FailsEarly then .unset null else .null) :
    ev = .unset false ↔ some null = some false ∧ a.FailsEarly := by
  rw [hev]
  split_ifs with hearly
  · simp [hearly]
  · simp [hearly]

/-- A new client has the next pointer. -/
@[simp] lemma newClient_snd (s : System σ) (fd fw : ℤ) (null : Bool) :
    (s.newClient fd fw null).2 = s.next := rfl

/-- The clients behind the construction of one, which has nothing but its descriptors. -/
@[simp] lemma newClient_clients (s : System σ) (fd fw : ℤ) (null : Bool) (q : ClientPtr) :
    (s.newClient fd fw null).1.clients q =
      if q = s.next then some ⟨fd, fw, false, none, .unset null, none⟩ else s.clients q := by
  simp only [newClient, Function.update_apply]

/-! ## A round of the listener -/

/-- The round gets as far as `new Client(in_fd, out_fd)`. -/
structure ReachesNew (s : System σ) (it : Iteration) : Prop where
  listening : s.phase = .listening
  in_nonneg : 0 ≤ it.inFd
  in_closed : s.isOpen it.inFd = false
  nonblockIn : it.nonblockIn = true
  out_nonneg : 0 ≤ it.outFd
  out_closed : s.isOpen it.outFd = false
  ne : it.outFd ≠ it.inFd
  connect : it.connect = true
  nonblockOut : it.nonblockOut = true

/-- The round fails in one of the two calls of `Client::init`. -/
def FailsLate (s : System σ) (it : Iteration) : Prop := s.ReachesNew it ∧ it.InitFails

/-- The round frees what the memory of a client happens to hold in the place of `ev_event`. -/
def FreesGarbage (s : System σ) (it : Iteration) : Prop := s.ReachesNew it ∧ it.FreesGarbage

/-- The round comes to something that throws, which ends the process. -/
def Throws (s : System σ) (it : Iteration) : Prop := s.ReachesNew it ∧ it.Throws

/-- What a step of the main thread that creates no pair leaves alone. -/
structure SameClients (s s' : System σ) : Prop where
  clients : ∀ q, s'.clients q = s.clients q
  isOpen : ∀ f, s'.isOpen f = s.isOpen f
  next : s.next ≤ s'.next
  threads : s'.threads = s.threads
  pairs : s'.pairs = s.pairs

/-- What a round of the listener that created a pair, on `inFd` and `outFd`, leaves behind. -/
structure Accepted (s : System σ) (inFd outFd : ℤ) (s' : System σ) : Prop where
  clients : ∃ inCd outCd : Client,
    (inCd.fd = inFd ∧ inCd.fwFd = outFd ∧ inCd.Established ∧ inCd.Fresh) ∧
    (outCd.fd = outFd ∧ outCd.fwFd = inFd ∧ outCd.Established ∧ outCd.Fresh) ∧
    ∀ q, s'.clients q = if q = s.next + 1 then some outCd
      else if q = s.next then some inCd else s.clients q
  clientMap : ∀ f, s'.clientMap.find f = if f = outFd then some (some (s.next + 1))
    else if f = inFd then some (some s.next) else s.clientMap.find f
  isOpen : ∀ f, s'.isOpen f = if f = outFd ∨ f = inFd then true else s.isOpen f
  next : s'.next = s.next + 2
  threads : s'.threads = s.threads ++ [s.next + 1, s.next]
  phase : s'.phase = s.phase
  pairs : s'.pairs = s.pairs ++ [(s.next, s.next + 1)]

/-- What a round of the listener can do. -/
inductive ListenOutcome (s : System σ) (it : Iteration) : Except Fault (System σ) → Prop
  /-- the loop has ended before -/
  | idle : s.phase ≠ .listening → ListenOutcome s it (.ok s)
  /-- the loop ends -/
  | stopped (listening : s.phase = .listening)
      (noConnection : ¬ (0 ≤ it.inFd ∧ s.isOpen it.inFd = false)) :
      ListenOutcome s it (.ok { s with phase := .housekeeping })
  /-- the descriptors are closed again -/
  | refused {s' : System σ} (early : ¬ s.ReachesNew it) (same : s.SameClients s')
      (phase : s'.phase = s.phase) (clientMap : ∀ f, s'.clientMap.find f = s.clientMap.find f) :
      ListenOutcome s it (.ok s')
  /-- what was created is deleted again, and a null pointer is left at one of the descriptors -/
  | abandoned {s' : System σ} (late : s.FailsLate it) (same : s.SameClients s')
      (phase : s'.phase = s.phase) (left erased : ℤ)
      (fds : left = it.inFd ∧ erased = it.outFd ∨ left = it.outFd ∧ erased = it.inFd)
      (clientMap : ∀ f, s'.clientMap.find f = if f = erased then none
        else if f = left then some none else s.clientMap.find f)
      (inOrder : ¬ it.FreesGarbage) : ListenOutcome s it (.ok s')
  /-- a client is deleted whose `ev_event` was never set -/
  | unset (garbage : s.FreesGarbage it) : ListenOutcome s it (.error .unsetMember)
  /-- a client, a node of the map or a thread cannot be created -/
  | uncaught (throws : s.Throws it) : ListenOutcome s it (.error .uncaught)
  /-- a pair is created -/
  | accepted {s' : System σ} (reaches : s.ReachesNew it) (completes : it.Completes)
      (pair : s.Accepted it.inFd it.outFd s') : ListenOutcome s it (.ok s')

section Listener

variable {it : Iteration} (hreach : s.ReachesNew it) (hnew : ∀ q, s.next ≤ q → s.clients q = none)
  (halone : ∀ f, f < 0 ∨ s.isOpen f = false → ∀ p, s.clientMap.find f ≠ some (some p))

include hreach hnew halone in
/-- A round that deletes the first client, before there is a second one. -/
lemma abandon_first (hfails : it.InitFails) (hunset : c.evEvent = .unset false ↔ it.FreesGarbage)
    {t : System σ}
    (hclients : ∀ q, t.clients q = if q = s.next then some c else s.clients q)
    (hfd : c.fd = it.inFd) (hfw : c.fwFd = it.outFd)
    (hmap : ∀ f, f ≠ it.inFd → t.clientMap.find f = s.clientMap.find f)
    (hopen : ∀ f, t.isOpen f = if f = it.inFd then true else s.isOpen f)
    (hnext : t.next = s.next + 1) (hthreads : t.threads = s.threads) (hphase : t.phase = s.phase)
    (hpairs : t.pairs = s.pairs) : s.ListenOutcome it (t.deleteClient s.next) := by
  have hc : t.clients s.next = some c := by rw [hclients, if_pos rfl]
  have hno : ∀ q, t.clientMap.find c.fwFd ≠ some (some q) := by
    rw [hfw, hmap _ hreach.ne]
    exact halone _ (Or.inr hreach.out_closed)
  rcases deleteClient_cases hc fun q hq => absurd hq (hno q) with ⟨h, hev⟩ | ⟨hev, s', h, hdel⟩
  · rw [h]
    exact .unset ⟨hreach, hunset.mp hev⟩
  rw [h]
  refine .abandoned ⟨hreach, hfails⟩ ⟨fun q => ?_, fun f => ?_, ?_, hdel.threads.trans hthreads,
    hdel.pairs.trans hpairs⟩ (hdel.phase.trans hphase) it.outFd it.inFd (Or.inr ⟨rfl, rfl⟩)
    (fun f => ?_) (mt hunset.mpr hev)
  · rw [hdel.clients_alone hno, hclients]
    split_ifs with hq
    · rw [hq, hnew _ le_rfl]
    · rfl
  · have hpos := hreach.in_nonneg
    rw [hdel.isOpen, hopen, hfd]
    by_cases hf : f = it.inFd
    · rw [if_pos ⟨hf, by omega⟩, hf, hreach.in_closed]
    · rw [if_neg fun h => hf h.1, if_neg hf]
  · rw [hdel.next, hnext]
    exact Nat.le_succ _
  · rw [hdel.find_alone hno, hfd, hfw]
    split_ifs with hin
    · rfl
    · rfl
    · exact hmap f hin

include hreach halone in
/-- The deletion of an established first client, whose pair is not in the map. -/
lemma delete_first {t : System σ} (hcp : t.clients s.next = some c)
    (hc : c.fd = it.inFd ∧ c.fwFd = it.outFd ∧ c.Established)
    (hmap : ∀ f, t.clientMap.find f = if f = it.inFd then some (some s.next)
      else s.clientMap.find f) :
    (∀ q, t.clientMap.find c.fwFd ≠ some (some q)) ∧
      ∃ s₁, t.deleteClient s.next = .ok s₁ ∧ t.Deleted s.next c s₁ := by
  obtain ⟨-, hcfw, hcinit⟩ := hc
  have hno : ∀ q, t.clientMap.find c.fwFd ≠ some (some q) := by
    rw [hcfw, hmap, if_neg hreach.ne]
    exact halone _ (Or.inr hreach.out_closed)
  have hset : c.evEvent ≠ .unset false := by
    obtain ⟨input, output, hev⟩ := hcinit.evEvent
    rw [hev]
    simp
  rcases deleteClient_cases hcp fun q hq => absurd hq (hno q) with ⟨-, h⟩ | ⟨-, s₁, h, hdel⟩
  · exact absurd h hset
  · exact ⟨hno, s₁, h, hdel⟩

include hreach hnew halone in
/-- A round that deletes both clients, because `Client::init` of the second one failed. -/
lemma abandon_both (hfails : it.InitFails) {t : System σ} {d : Client}
    (hclients : ∀ q, t.clients q = if q = s.next + 1 then some d
      else if q = s.next then some c else s.clients q)
    (hc : c.fd = it.inFd ∧ c.fwFd = it.outFd ∧ c.Established)
    (hd : d.fd = it.outFd ∧ d.fwFd = it.inFd) (hunset : d.evEvent = .unset false ↔ it.FreesGarbage)
    (hmap : ∀ f, t.clientMap.find f = if f = it.inFd then some (some s.next)
      else s.clientMap.find f)
    (hopen : ∀ f, t.isOpen f = if f = it.outFd ∨ f = it.inFd then true else s.isOpen f)
    (hnext : t.next = s.next + 2) (hthreads : t.threads = s.threads) (hphase : t.phase = s.phase)
    (hpairs : t.pairs = s.pairs) :
    s.ListenOutcome it (t.deleteClient s.next >>= fun t => t.deleteClient (s.next + 1)) := by
  have hcp : t.clients s.next = some c := by
    rw [hclients, if_neg (Nat.lt_succ_self _).ne, if_pos rfl]
  obtain ⟨hno, s₁, h, hdel⟩ := delete_first hreach halone hcp hc hmap
  obtain ⟨hcfd, hcfw, -⟩ := hc
  rw [h, Runs.ok_bind]
  have hdp : s₁.clients (s.next + 1) = some d := by
    rw [hdel.clients_alone hno, if_neg (Nat.lt_succ_self _).ne', hclients, if_pos rfl]
  -- the first deletion has erased the entry that the second one looks up
  have hmap₁ : ∀ f, s₁.clientMap.find f = if f = it.inFd then none
      else if f = it.outFd then some none else s.clientMap.find f := by
    intro f
    rw [hdel.find_alone hno, hcfd, hcfw, hmap]
    split_ifs <;> rfl
  have hno₁ : ∀ q, s₁.clientMap.find d.fwFd ≠ some (some q) := by
    intro q
    rw [hd.2, hmap₁, if_pos rfl]
    simp
  rcases deleteClient_cases hdp fun q hq => absurd hq (hno₁ q) with ⟨h, hev⟩ | ⟨hev, s₂, h, hdel₂⟩
  · rw [h]
    exact .unset ⟨hreach, hunset.mp hev⟩
  rw [h]
  refine .abandoned ⟨hreach, hfails⟩ ⟨fun q => ?_, fun f => ?_, ?_, ?_, ?_⟩
    (hdel₂.phase.trans (hdel.phase.trans hphase)) it.inFd it.outFd (Or.inl ⟨rfl, rfl⟩)
    (fun f => ?_) (mt hunset.mpr hev)
  · rw [hdel₂.clients_alone hno₁, hdel.clients_alone hno, hclients]
    split_ifs with h₁ h₀
    · rw [h₁, hnew _ (Nat.le_succ _)]
    · rw [h₀, hnew _ le_rfl]
    · rfl
  · have hin := hreach.in_nonneg
    have hout := hreach.out_nonneg
    rw [hdel₂.isOpen, hdel.isOpen, hopen, hd.1, hcfd]
    by_cases hfo : f = it.outFd
    · rw [if_pos ⟨hfo, by omega⟩, hfo, hreach.out_closed]
    by_cases hfi : f = it.inFd
    · rw [if_neg fun h => hfo h.1, if_pos ⟨hfi, by omega⟩, hfi, hreach.in_closed]
    · rw [if_neg fun h => hfo h.1, if_neg fun h => hfi h.1, if_neg (not_or.mpr ⟨hfo, hfi⟩)]
  · rw [hdel₂.next, hdel.next, hnext]
    exact Nat.le_add_right _ 2
  · rw [hdel₂.threads, hdel.threads, hthreads]
  · rw [hdel₂.pairs, hdel.pairs, hpairs]
  · rw [hdel₂.find_alone hno₁, hd.1, hd.2, hmap₁]
    split_ifs <;> rfl

/-- The process with both descriptors of a round open. -/
def connected (s : System σ) (it : Iteration) : System σ :=
  { s with isOpen := Function.update (Function.update s.isOpen it.inFd true) it.outFd true }

/-- The open descriptors: those of the round, and those there were. -/
lemma connected_isOpen (s : System σ) (it : Iteration) (f : ℤ) :
    (s.connected it).isOpen f = if f = it.outFd ∨ f = it.inFd then true else s.isOpen f := by
  simp only [connected, Function.update_apply]
  by_cases hfo : f = it.outFd
  · rw [if_pos hfo, if_pos (Or.inl hfo)]
  · rw [if_neg hfo]
    by_cases hfi : f = it.inFd
    · rw [if_pos hfi, if_pos (Or.inr hfi)]
    · rw [if_neg hfi, if_neg (not_or.mpr ⟨hfo, hfi⟩)]

include hreach in
/-- Behind `close(out_fd)` only the accepted descriptor is open. -/
lemma connected_close (f : ℤ) : (if f = it.outFd then false else (s.connected it).isOpen f) =
    if f = it.inFd then true else s.isOpen f := by
  rw [connected_isOpen]
  by_cases hfo : f = it.outFd
  · rw [if_pos hfo, hfo, if_neg hreach.ne, hreach.out_closed]
  · rw [if_neg hfo]
    simp only [hfo, false_or]

include hreach hnew halone in
/-- What a round of the listener can do once the first client is established. -/
lemma second_outcome {t : System σ} {null : Bool} (hnewIn : it.newIn.isSome) (hokIn : it.initIn.Ok)
    (hnull : it.newOut = some null)
    (hclients : ∀ q, t.clients q = if q = s.next then some c else s.clients q)
    (hc : c.fd = it.inFd ∧ c.fwFd = it.outFd ∧ c.Established ∧ c.Fresh)
    (hmap : ∀ f, t.clientMap.find f = if f = it.inFd then some (some s.next)
      else s.clientMap.find f)
    (hopen : ∀ f, t.isOpen f = if f = it.outFd ∨ f = it.inFd then true else s.isOpen f)
    (hnext : t.next = s.next + 1) (hthreads : t.threads = s.threads) (hphase : t.phase = s.phase)
    (hpairs : t.pairs = s.pairs) :
    s.ListenOutcome it ((t.newClient it.outFd it.inFd null).1.clientInit (s.next + 1) it.initOut >>=
      fun r => if r.2 = false then
          r.1.delete s.next it.deleteIn >>= fun t => t.delete (s.next + 1) it.deleteOut
        else if it.threadOut = false then .error .uncaught
        else if it.threadIn = false then .error .uncaught
        else .ok { r.1 with
          threads := r.1.threads ++ [s.next + 1, s.next]
          pairs := r.1.pairs ++ [(s.next, s.next + 1)] }) := by
  have hnew₂ : ∀ d q, ((t.newClient it.outFd it.inFd null).1.update (s.next + 1) d).clients q =
      if q = s.next + 1 then some d else if q = s.next then some c else s.clients q := by
    intro d q
    rw [update_clients, newClient_clients, hnext]
    by_cases hq : q = s.next + 1
    · rw [if_pos hq, if_pos hq]
    · rw [if_neg hq, if_neg hq, if_neg hq, hclients]
  have hq : (t.newClient it.outFd it.inFd null).1.clients (s.next + 1) =
      some ⟨it.outFd, it.inFd, false, none, .unset null, none⟩ := by
    rw [newClient_clients, hnext, if_pos rfl]
  have hnext₂ : (t.newClient it.outFd it.inFd null).1.next = s.next + 2 := congrArg (· + 1) hnext
  have hnewOut : it.newOut.isSome := by rw [hnull]; rfl
  -- behind the first client, what throws ends the process
  have hthrow : (it.initOut.Throws ∨
      it.initOut.Fails ∧ (it.deleteIn = false ∨ it.deleteOut = false) ∨
      it.initOut.Ok ∧ (it.threadOut = false ∨ it.threadIn = false)) →
      s.ListenOutcome it (.error .uncaught) := fun h =>
    .uncaught ⟨hreach, Or.inr (Or.inr (Or.inr ⟨hokIn, Or.inr h⟩))⟩
  rcases clientInit_cases hq it.initOut with ⟨hokOut, d, hinit, hfd, hfw, hest, hfresh⟩ |
    ⟨hnotOut, d, hinit, hfd, hfw, hev⟩ | ⟨hthrows, hinit⟩
  · rw [hinit, Runs.ok_bind, if_neg (by simp)]
    by_cases hthreadOut : it.threadOut = false
    · rw [if_pos hthreadOut]
      exact hthrow (Or.inr (Or.inr ⟨hokOut, Or.inl hthreadOut⟩))
    by_cases hthreadIn : it.threadIn = false
    · rw [if_neg hthreadOut, if_pos hthreadIn]
      exact hthrow (Or.inr (Or.inr ⟨hokOut, Or.inr hthreadIn⟩))
    rw [if_neg hthreadOut, if_neg hthreadIn]
    refine .accepted hreach ⟨hnewIn, hokIn, hnewOut, hokOut,
      Bool.eq_true_of_not_eq_false hthreadOut, Bool.eq_true_of_not_eq_false hthreadIn⟩
      ⟨⟨c, d, hc, ⟨hfd, hfw, hest, hfresh⟩, hnew₂ d⟩, fun f => ?_, hopen, hnext₂,
        congrArg (· ++ _) hthreads, hphase, congrArg (· ++ _) hpairs⟩
    rw [← hmap f]
    exact IndexMap.find_set _ _ _ _
  · rw [hinit, Runs.ok_bind, if_pos rfl]
    by_cases hdeleteIn : it.deleteIn = false
    · rw [delete, if_pos hdeleteIn]
      exact hthrow (Or.inr (Or.inl ⟨hnotOut, Or.inl hdeleteIn⟩))
    rw [delete, if_neg hdeleteIn]
    have hfirst : c.fd = it.inFd ∧ c.fwFd = it.outFd ∧ c.Established := ⟨hc.1, hc.2.1, hc.2.2.1⟩
    by_cases hdeleteOut : it.deleteOut = false
    · have hcp : ((t.newClient it.outFd it.inFd null).1.update (s.next + 1) d).clients s.next =
          some c := by
        rw [hnew₂, if_neg (Nat.lt_succ_self _).ne, if_pos rfl]
      obtain ⟨-, s₁, hdelete, -⟩ := delete_first hreach halone hcp hfirst hmap
      rw [hdelete, Runs.ok_bind, delete, if_pos hdeleteOut]
      exact hthrow (Or.inr (Or.inl ⟨hnotOut, Or.inr hdeleteOut⟩))
    simp only [delete, if_neg hdeleteOut]
    refine abandon_both hreach hnew halone ⟨hnewIn, Or.inr ⟨hokIn, hnewOut, hnotOut⟩⟩ (hnew₂ d)
      hfirst ⟨hfd, hfw⟩ ?_ hmap hopen hnext₂ hthreads hphase hpairs
    rw [Iteration.freesGarbage_second hnewIn hokIn ⟨Bool.eq_true_of_not_eq_false hdeleteIn,
      Bool.eq_true_of_not_eq_false hdeleteOut⟩, hnull]
    exact unset_iff hev
  · rw [hinit]
    exact hthrow (Or.inl hthrows)

include hreach hnew halone in
/-- What a round of the listener can do from `new Client(in_fd, out_fd)` on. -/
lemma handleRequest_outcome :
    s.ListenOutcome it ((s.connected it).handleRequest it.inFd it.outFd it) := by
  cases hnull : it.newIn with
  | none =>
    rw [handleRequest, hnull]
    exact .uncaught ⟨hreach, Or.inl hnull⟩
  | some null =>
  have hnewIn : it.newIn.isSome := by rw [hnull]; rfl
  have hp : ((s.connected it).newClient it.inFd it.outFd null).1.clients s.next =
      some ⟨it.inFd, it.outFd, false, none, .unset null, none⟩ := by
    rw [newClient_clients]
    exact if_pos rfl
  have hclients : ∀ c q,
      (((s.connected it).newClient it.inFd it.outFd null).1.update s.next c).clients q =
        if q = s.next then some c else s.clients q := by
    intro c q
    rw [update_clients, newClient_clients]
    by_cases hq : q = s.next
    · rw [if_pos hq, if_pos hq]
    · rw [if_neg hq, if_neg hq]
      exact if_neg hq
  simp only [handleRequest, hnull, newClient_snd]
  rw [show (s.connected it).next = s.next from rfl]
  rcases clientInit_cases hp it.initIn with ⟨hokIn, c, hinit, hfd, hfw, hest, hfresh⟩ |
    ⟨hnotIn, c, hinit, hfd, hfw, hev⟩ | ⟨hthrows, hinit⟩
  · rw [hinit, Runs.ok_bind]
    have hfind : ∀ f, (s.clientMap.set it.inFd (some s.next)).find f =
        if f = it.inFd then some (some s.next) else s.clientMap.find f := fun f => by
      rw [IndexMap.find_set]
    cases hnewOut : it.newOut with
    | none => exact .uncaught ⟨hreach, Or.inr (Or.inr (Or.inr ⟨hokIn, Or.inl hnewOut⟩))⟩
    | some nullOut =>
      exact second_outcome hreach hnew halone hnewIn hokIn hnewOut (hclients c)
        ⟨hfd, hfw, hest, hfresh⟩ hfind (connected_isOpen s it) rfl rfl rfl rfl
  · rw [hinit, Runs.ok_bind, if_pos rfl, delete]
    by_cases hdelete : it.deleteIn = false
    · rw [if_pos hdelete]
      exact .uncaught ⟨hreach, Or.inr (Or.inr (Or.inl ⟨hnotIn, hdelete⟩))⟩
    rw [if_neg hdelete]
    refine abandon_first hreach hnew halone ⟨hnewIn, Or.inl hnotIn⟩ ?_ (hclients c) hfd hfw
      (fun _ _ => rfl) (fun f => (close_isOpen _ _ f).trans (connected_close hreach f))
      rfl rfl rfl rfl
    rw [Iteration.freesGarbage_first hnotIn (Bool.eq_true_of_not_eq_false hdelete), hnull]
    exact unset_iff hev
  · rw [hinit]
    exact .uncaught ⟨hreach, Or.inr (Or.inl hthrows)⟩

/-- A round that leaves nothing but descriptors, and these as they were. -/
lemma ListenOutcome.refused_of_isOpen (hearly : ¬ s.ReachesNew it) {g : ℤ → Bool}
    (hg : ∀ f, g f = s.isOpen f) : s.ListenOutcome it (.ok { s with isOpen := g }) :=
  .refused hearly ⟨fun _ => rfl, hg, le_rfl, rfl, rfl⟩ rfl fun _ => rfl

include hnew halone in
/-- **What a round of the listener can do.** -/
lemma startListen_outcome : s.ListenOutcome it (s.startListen it) := by
  unfold startListen
  by_cases hphase : s.phase = .listening
  swap
  · rw [if_pos hphase]
    exact .idle hphase
  rw [if_neg (not_not.mpr hphase)]
  by_cases hin : 0 ≤ it.inFd ∧ s.isOpen it.inFd = false
  swap
  · rw [openFd, if_neg hin]
    exact .stopped hphase hin
  obtain ⟨hinPos, hinClosed⟩ := hin
  rw [openFd, if_pos ⟨hinPos, hinClosed⟩]
  simp only
  -- closing the accepted descriptor again
  have hreopen : ∀ f, Function.update (Function.update s.isOpen it.inFd true) it.inFd false f =
      s.isOpen f := by
    intro f
    rw [Function.update_idem, ← hinClosed, Function.update_eq_self]
  by_cases hnonblockIn : it.nonblockIn = false
  · rw [if_pos hnonblockIn]
    exact .refused_of_isOpen (fun h => by rw [h.nonblockIn] at hnonblockIn; cases hnonblockIn)
      hreopen
  rw [if_neg hnonblockIn, getOutflowFd, openFd]
  by_cases hout : 0 ≤ it.outFd ∧ Function.update s.isOpen it.inFd true it.outFd = false
  swap
  · rw [if_neg hout]
    refine .refused_of_isOpen (fun h => hout ⟨h.out_nonneg, ?_⟩) hreopen
    rw [Function.update_of_ne h.ne]
    exact h.out_closed
  obtain ⟨houtPos, houtClosed⟩ := hout
  rw [if_pos ⟨houtPos, houtClosed⟩]
  simp only
  have hne : it.outFd ≠ it.inFd := by
    intro heq
    rw [heq, Function.update_self] at houtClosed
    cases houtClosed
  rw [Function.update_of_ne hne] at houtClosed
  by_cases hconnect : it.connect = false
  · rw [if_pos hconnect]
    refine .refused_of_isOpen (fun h => by rw [h.connect] at hconnect; cases hconnect) fun f => ?_
    simp only [close, Function.update_apply]
    split_ifs with hfi hfo
    · rw [hfi, hinClosed]
    · rw [hfo, houtClosed]
    · rfl
  rw [if_neg hconnect]
  simp only
  -- closing both descriptors again
  have hreopen₂ : ∀ f, (((s.connected it).close it.inFd).close it.outFd).isOpen f = s.isOpen f := by
    intro f
    rw [close_isOpen, close_isOpen, connected_isOpen]
    split_ifs with hfo hfi h
    · rw [hfo, houtClosed]
    · rw [hfi, hinClosed]
    · exact absurd h (not_or.mpr ⟨hfo, hfi⟩)
    · rfl
  by_cases hnonblockOut : it.nonblockOut = false
  · rw [if_pos hnonblockOut]
    exact .refused_of_isOpen (fun h => by rw [h.nonblockOut] at hnonblockOut; cases hnonblockOut)
      hreopen₂
  rw [if_neg hnonblockOut]
  exact handleRequest_outcome ⟨hphase, hinPos, hinClosed,
    Bool.eq_true_of_not_eq_false hnonblockIn, houtPos, houtClosed, hne,
    Bool.eq_true_of_not_eq_false hconnect, Bool.eq_true_of_not_eq_false hnonblockOut⟩ hnew halone

end Listener

/-! ## The read callback -/

/-- What is left of a process behind the read callback of the client `c` at `p`. -/
structure ReadBy (s : System σ) (p : ClientPtr) (c : Client) (s' : System σ) : Prop where
  /-- only what the client receives itself, and what is written to its mate, changes -/
  kept : ∀ q d, s.clients q = some d → ∃ d', s'.clients q = some d' ∧ d'.fd = d.fd ∧
    d'.fwFd = d.fwFd ∧ d'.Established ∧ (q ≠ p → d'.received = d.received) ∧
    (¬ s.Mates p q → d'.written = d.written)
  only : ∀ q, s.clients q = none → s'.clients q = none
  clientMap : ∀ f, s'.clientMap.find f = if f = c.fwFd then some ((s.clientMap.find f).getD none)
    else s.clientMap.find f
  isOpen : s'.isOpen = s.isOpen
  next : s'.next = s.next
  threads : s'.threads = s.threads
  phase : s'.phase = s.phase
  pairs : s'.pairs = s.pairs

/-- What the read callback of the client `c` at `p` can do. -/
inductive ReadOutcome (s : System σ) (inject : Inject σ) (p : ClientPtr) (c : Client) :
    Except Fault (System σ) → Prop
  /-- `on_flow_read` faults -/
  | fault {flow : Flow σ} {ev : ReadEvent} {e : Fault}
      (run : onFlowRead inject flow ev = .error e) : ReadOutcome s inject p c (.error e)
  | read {s' : System σ} (effect : s.ReadBy p c s') : ReadOutcome s inject p c (.ok s')

section Callback

variable (hp : p ∈ s.threads) (hc : s.clients p = some c) (hest : c.Established)
  (inject : Inject σ) (ev : ReadEvent)

/-- What the map has behind the index operator. -/
lemma index_find (s : System σ) (fd f : ℤ) : (s.index fd).1.clientMap.find f =
    if f = fd then some ((s.clientMap.find f).getD none) else s.clientMap.find f := by
  simp only [index, IndexMap.find_index]
  split_ifs with hf
  · rw [hf]
  · rfl

include hp hc hest in
/-- The callback of a client whose pair is not in the map. -/
lemma flowRead_unpaired (hold : ∀ q d, s.clients q = some d → d.Established)
    (hnone : (s.clientMap.find c.fwFd).getD none = none) :
    s.ReadOutcome inject p c (s.flowRead inject p ev) := by
  obtain ⟨input, output, hev⟩ := hest.evEvent
  obtain ⟨msg, hmsg⟩ := hest.buf
  have hderef : s.deref p = .ok c := by rw [deref, hc]
  have hbuffers : c.buffers = .ok (input, output) := by rw [Client.buffers, hev]
  have hstream : c.stream = .ok msg := by rw [Client.stream, hmsg]
  have hindex : (s.index c.fwFd).2 = none := by rw [index, IndexMap.index_snd, hnone]
  rw [flowRead, if_neg (not_not.mpr hp), hderef, Runs.ok_bind, hbuffers, Runs.ok_bind]
  simp only [hstream, Runs.ok_bind, hindex]
  cases hrun : onFlowRead inject ⟨msg, input, [], [], (s.index c.fwFd).1.env⟩
      { ev with peerOpen := false } with
  | error e => exact .fault hrun
  | ok r =>
    obtain ⟨hest', hwritten⟩ := hest.read hev r.1
    refine .read ⟨fun q d hq => ?_, fun q hq => ?_, index_find s c.fwFd, rfl, rfl, rfl, rfl, rfl⟩
    · simp only [update_clients]
      by_cases hqp : q = p
      · subst hqp
        obtain rfl := Option.some.inj (hc.symm.trans hq)
        exact ⟨_, if_pos rfl, rfl, rfl, hest', fun hne => absurd rfl hne, fun _ => hwritten⟩
      · exact ⟨d, (if_neg hqp).trans hq, rfl, rfl, hold q d hq, fun _ => rfl, fun _ => rfl⟩
    · simp only [update_clients]
      rw [if_neg]
      · exact hq
      · rintro rfl
        rw [hc] at hq
        cases hq

include hp hc hest in
/-- The callback of a client whose pair is its mate `q`. -/
lemma flowRead_paired (hold : ∀ q d, s.clients q = some d → d.Established) {d : Client}
    (hfind : s.clientMap.find c.fwFd = some (some q)) (hd : s.clients q = some d)
    (hmates : s.Mates p q) : s.ReadOutcome inject p c (s.flowRead inject p ev) := by
  obtain ⟨input, output, hev⟩ := hest.evEvent
  obtain ⟨msg, hmsg⟩ := hest.buf
  have hderef : s.deref p = .ok c := by rw [deref, hc]
  have hbuffers : c.buffers = .ok (input, output) := by rw [Client.buffers, hev]
  have hstream : c.stream = .ok msg := by rw [Client.stream, hmsg]
  have hindex : (s.index c.fwFd).2 = some q := by rw [index, IndexMap.index_snd, hfind]; rfl
  have hestd := hold q d hd
  obtain ⟨dInput, dOutput, hdev⟩ := hestd.evEvent
  obtain ⟨dEvBuf, hdbuf⟩ := hestd.evBuf
  have hderefd : (s.index c.fwFd).1.deref q = .ok d := by
    rw [deref, show (s.index c.fwFd).1.clients q = some d from hd]
  have hbuffersd : d.buffers = .ok (dInput, dOutput) := by rw [Client.buffers, hdev]
  have hbytesd : d.evBufBytes = .ok dEvBuf := by rw [Client.evBufBytes, hdbuf]
  rw [flowRead, if_neg (not_not.mpr hp), hderef, Runs.ok_bind, hbuffers, Runs.ok_bind]
  simp only [hstream, Runs.ok_bind, hindex, hderefd, hbuffersd, hbytesd]
  cases hrun : onFlowRead inject ⟨msg, input, dEvBuf, dOutput, (s.index c.fwFd).1.env⟩
      { ev with peerOpen := true } with
  | error e => exact .fault hrun
  | ok r =>
    obtain ⟨hest', hwritten⟩ := hest.read hev r.1
    refine .read ⟨fun t e ht => ?_, fun t ht => ?_, index_find s c.fwFd, rfl, rfl, rfl, rfl, rfl⟩
    · simp only [update_clients]
      by_cases htq : t = q
      · subst htq
        obtain rfl := Option.some.inj (hd.symm.trans ht)
        refine ⟨_, if_pos rfl, rfl, rfl, ⟨hestd.evBase, ⟨_, rfl⟩, ⟨_, _, rfl⟩, hestd.buf⟩,
          fun _ => ?_, fun hno => absurd hmates hno⟩
        rw [Client.received, Client.received, hdev]
      rw [if_neg htq]
      by_cases htp : t = p
      · subst htp
        obtain rfl := Option.some.inj (hc.symm.trans ht)
        exact ⟨_, if_pos rfl, rfl, rfl, hest', fun hne => absurd rfl hne, fun _ => hwritten⟩
      · exact ⟨e, (if_neg htp).trans ht, rfl, rfl, hold t e ht, fun _ => rfl, fun _ => rfl⟩
    · simp only [update_clients]
      rw [if_neg, if_neg]
      · exact ht
      · rintro rfl
        rw [hc] at ht
        cases ht
      · rintro rfl
        rw [hd] at ht
        cases ht

end Callback

/-- **What the read callback can do**: it faults where `on_flow_read` does, or changes what the
client receives and what is written to its mate. -/
lemma flowRead_cases (h : s.Paired) (inject : Inject σ) (p : ClientPtr) (ev : ReadEvent) :
    (p ∉ s.threads ∧ s.flowRead inject p ev = .ok s) ∨
      ∃ c, s.clients p = some c ∧ s.ReadOutcome inject p c (s.flowRead inject p ev) := by
  by_cases hp : p ∈ s.threads
  swap
  · exact Or.inl ⟨hp, if_pos hp⟩
  right
  obtain ⟨c, hc⟩ := (h.running p).mp hp
  have hest := h.established p c hc
  refine ⟨c, hc, ?_⟩
  cases hfind : (s.clientMap.find c.fwFd).getD none with
  | none => exact flowRead_unpaired hp hc hest inject ev h.established hfind
  | some q =>
    have hq := find_of_getD hfind
    obtain ⟨d, hd, -⟩ := h.mapped _ q hq
    obtain ⟨-, -, hmates, -⟩ := h.pair_found hc hq hd
    exact flowRead_paired hp hc hest inject ev h.established hq hd hmates

/-! ## The other steps -/

/-- **What the end of a client's thread can do**: it deletes the client. -/
lemma endThread_cases (h : s.Paired) (p : ClientPtr) :
    (p ∉ s.threads ∧ s.endThread p = .ok s) ∨
    ∃ c s', s.clients p = some c ∧ s.Deleted p c s' ∧
      s.endThread p = .ok { s' with threads := s'.threads.erase p } := by
  by_cases hp : p ∈ s.threads
  swap
  · exact Or.inl ⟨hp, if_pos hp⟩
  right
  obtain ⟨c, hc⟩ := (h.running p).mp hp
  have hset : c.evEvent ≠ .unset false := by
    obtain ⟨input, output, hev⟩ := (h.established p c hc).evEvent
    rw [hev]
    exact nofun
  have hpair : ∀ q, s.clientMap.find c.fwFd = some (some q) → ∃ d, s.clients q = some d := by
    intro q hq
    obtain ⟨d, hd, -⟩ := h.mapped _ q hq
    exact ⟨d, hd⟩
  rcases deleteClient_cases hc hpair with ⟨-, hunset⟩ | ⟨-, s', hs', hdel⟩
  · exact absurd hunset hset
  · exact ⟨c, s', hc, hdel, by rw [endThread, if_neg (not_not.mpr hp), hs', Runs.ok_bind]⟩

/-- What is left of a process behind a round of housekeeping. -/
structure Housekept (s s' : System σ) : Prop extends SameClients s s' where
  clientMap : ∀ f, s'.clientMap.find f = s.clientMap.find f ∨ f = -1 ∧ s'.clientMap.find f = none
  /-- the loop ends exactly if there is no other key than `-1` -/
  phase : s.phase = .housekeeping →
    ((∀ f, f ≠ -1 → s.clientMap.find f = none) ∧ s'.phase = .ended) ∨
    ¬ (∀ f, f ≠ -1 → s.clientMap.find f = none) ∧ s'.phase = .housekeeping

/-- A round that leaves nothing but the map and the phase. -/
lemma Housekept.of_map {m : IndexMap ℤ (Option ClientPtr)} {phase : Phase}
    (hmap : ∀ f, m.find f = s.clientMap.find f ∨ f = -1 ∧ m.find f = none)
    (hphase : s.phase = .housekeeping →
      ((∀ f, f ≠ -1 → s.clientMap.find f = none) ∧ phase = .ended) ∨
      ¬ (∀ f, f ≠ -1 → s.clientMap.find f = none) ∧ phase = .housekeeping) :
    s.Housekept { s with clientMap := m, phase := phase } :=
  ⟨⟨fun _ => rfl, fun _ => rfl, le_rfl, rfl, rfl⟩, hmap, hphase⟩

/-- **What a round of housekeeping can do**: it erases the key `-1`, and ends if there is no other
one. -/
lemma housekeep_cases (h : s.Paired) (first : ℤ) :
    ∃ s', s.housekeep first = .ok s' ∧ s.Housekept s' := by
  have herase : ∀ f, (s.clientMap.erase (-1)).find f = s.clientMap.find f ∨
      f = -1 ∧ (s.clientMap.erase (-1)).find f = none := by
    intro f
    rw [IndexMap.find_erase]
    split_ifs with hf
    · exact Or.inr ⟨hf, rfl⟩
    · exact Or.inl rfl
  have hkeys : (∀ f, f ≠ -1 → s.clientMap.find f = none) ↔
      (s.clientMap.erase (-1)).isEmpty = true := by
    rw [IndexMap.isEmpty_iff]
    refine forall_congr' fun f => ?_
    rw [IndexMap.find_erase]
    by_cases hf : f = -1
    · simp [hf]
    · simp [hf]
  unfold housekeep
  by_cases hphase : s.phase = .housekeeping
  swap
  · rw [if_pos hphase]
    exact ⟨s, rfl, .of_map (fun _ => Or.inl rfl) fun h => absurd h hphase⟩
  rw [if_neg (not_not.mpr hphase)]
  by_cases hempty : s.clientMap.isEmpty = true
  · rw [if_pos hempty]
    exact ⟨_, rfl, .of_map (fun _ => Or.inl rfl)
      fun _ => Or.inl ⟨fun f _ => (IndexMap.isEmpty_iff _).mp hempty f, rfl⟩⟩
  rw [if_neg hempty]
  by_cases hone : (s.clientMap.erase (-1)).isEmpty = true
  · rw [if_pos hone]
    exact ⟨_, rfl, .of_map herase fun _ => Or.inl ⟨hkeys.mpr hone, rfl⟩⟩
  simp only [if_neg hone]
  -- the rest of the round only looks at a client in the map
  have hrest : ∀ x : Except Fault (System σ),
      x = .ok { s with clientMap := s.clientMap.erase (-1) } →
      ∃ s', x = .ok s' ∧ s.Housekept s' := by
    rintro x rfl
    exact ⟨_, rfl, .of_map herase fun _ => Or.inr ⟨fun h => hone (hkeys.mp h), hphase⟩⟩
  apply hrest
  split
  · rename_i d hfind
    obtain ⟨c, hc, -⟩ : ∃ c, s.clients d = some c ∧ c.fd = first := by
      refine h.mapped first d ?_
      rcases herase first with heq | ⟨-, hnone⟩
      · exact heq.symm.trans hfind
      · exact absurd (hnone.symm.trans hfind) (by simp)
    rw [deref, show System.clients _ d = some c from hc]
    rfl
  · rfl

/-! ## A step -/

/-- What a step can do that does not fault. -/
inductive Effect (s : System σ) : Action → System σ → Prop
  | listen {it : Iteration} {s' : System σ} (outcome : s.ListenOutcome it (.ok s')) :
      Effect s (.listen it) s'
  /-- there is no thread that could read -/
  | noRead {p : ClientPtr} {ev : ReadEvent} : Effect s (.read p ev) s
  | read {p : ClientPtr} {ev : ReadEvent} {c : Client} {s' : System σ}
      (client : s.clients p = some c) (readBy : s.ReadBy p c s') : Effect s (.read p ev) s'
  /-- there is no thread that could end -/
  | noDelete {p : ClientPtr} : Effect s (.delete p) s
  | delete {p : ClientPtr} {c : Client} {s' : System σ} (client : s.clients p = some c)
      (deleted : s.Deleted p c s') :
      Effect s (.delete p) { s' with threads := s'.threads.erase p }
  | housekeep {first : ℤ} {s' : System σ} (housekept : s.Housekept s') :
      Effect s (.housekeep first) s'

/-- What a round of the listener can do, in a state with the invariant. -/
lemma Paired.listen (h : s.Paired) (it : Iteration) : s.ListenOutcome it (s.startListen it) :=
  startListen_outcome h.new_free fun _ hf => h.find_closed hf

/-- **What a step can do.** -/
lemma Paired.effect (h : s.Paired) {inject : Inject σ} {a : Action}
    (hstep : Mproxy.systemStep inject s a = .ok s') : s.Effect a s' := by
  cases a with
  | listen it =>
    have hout := h.listen it
    rw [show s.startListen it = .ok s' from hstep] at hout
    exact .listen hout
  | read p ev =>
    rcases flowRead_cases h inject p ev with ⟨-, hread⟩ | ⟨c, hc, hout⟩
    · obtain rfl := Except.ok.inj (hread.symm.trans hstep)
      exact .noRead
    · rw [show s.flowRead inject p ev = .ok s' from hstep] at hout
      cases hout with
      | read hby => exact .read hc hby
  | delete p =>
    rcases endThread_cases h p with ⟨-, hend⟩ | ⟨c, s₁, hc, hdel, hend⟩
    · obtain rfl := Except.ok.inj (hend.symm.trans hstep)
      exact .noDelete
    · obtain rfl := Except.ok.inj (hend.symm.trans hstep)
      exact .delete hc hdel
  | housekeep first =>
    obtain ⟨s₁, hkeep, hkept⟩ := housekeep_cases h first
    obtain rfl := Except.ok.inj (hkeep.symm.trans hstep)
    exact .housekeep hkept

end System

end Steps

end Mproxy
