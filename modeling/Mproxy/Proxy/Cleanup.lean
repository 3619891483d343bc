import Mproxy.Proxy.Teardown

set_option relaxedAutoImplicit false
set_option autoImplicit false

/-!
# Rounds of the listener that fail

What a round of the listener does with descriptors, with the objects of libevent and of `stream.c`,
and with the members of the clients it creates, as a list of events. A round that fails has to close
what it opened and to free what was created.

The constructor sets neither `ev_event` nor `buf`. `Client::init` sets `buf` first and `ev_event`
last, so that `~Client` reads an `ev_event` that was never set where one of the three calls before
it fails. A `new Client`, a new node of `client_map` or a `new std::thread` that finds no memory
throws, and ends the process with at most one of the two descriptors closed.

## Main definitions

* `Mproxy.Event` — what is done with a descriptor, an object or a member.
* `Mproxy.System.listenEvents` — the events of a round of the listener.
* `Mproxy.CleanedUp` — what is asked of a round that fails.

## Main results

* `Mproxy.System.startListen_isOpen` — the events open and close what the round does.
* `Mproxy.System.handleEvents_eq` — the events of a round whose `Client::init` fails.
* `Mproxy.System.closes_of_throws` — a round that ends the process closes one descriptor at most.
* `Mproxy.listen_cleanedUp_iff` — which rounds are cleaned up.
-/

namespace Mproxy

/-- What `Client::init` creates. -/
inductive Resource
  | stream
  | evbuffer
  | eventBase
  | bufferevent
  deriving DecidableEq, Repr

/-- The members of a `Client`. -/
inductive Member
  | fd
  | fwFd
  | evBase
  | evBuf
  | evEvent
  | buf
  deriving DecidableEq, Repr

/-- What a round of the listener does. A member is set, or read to see what it holds. -/
inductive Event
  | opened (fd : ℤ)
  | closed (fd : ℤ)
  | created (p : ClientPtr) (r : Resource)
  | freed (p : ClientPtr) (r : Resource)
  /-- what was in the memory of a member is freed -/
  | freedGarbage (p : ClientPtr)
  | written (p : ClientPtr) (m : Member)
  | read (p : ClientPtr) (m : Member)
  /-- the thread of a client is created -/
  | started (p : ClientPtr)
  /-- an exception ends the process -/
  | uncaught
  deriving DecidableEq, Repr

/-! ## The events of the functions -/

/-- The events of `Client::Client`. -/
def newEvents (p : ClientPtr) : List Event :=
  [.written p .fd, .written p .fwFd, .written p .evBase, .written p .evBuf, .written p .evBuf]

/-- The events of `Client::init`. -/
def initEvents (p : ClientPtr) (a : InitAnswers) : List Event :=
  match a.streamNew with
  | none => [.written p .buf]
  | some _ =>
    [.created p .stream, .written p .buf] ++
      if a.evbufferNew = false then [.written p .evBuf]
      else [.created p .evbuffer, .written p .evBuf] ++
        if a.eventBaseNew = false then [.written p .evBase]
        else [.created p .eventBase, .written p .evBase, .read p .evBase, .read p .fd] ++
          if a.buffereventNew = false then [.written p .evEvent]
          else [.created p .bufferevent, .written p .evEvent, .read p .evEvent, .read p .evBase,
            .read p .fd] ++ if a.mapNode = false then [.uncaught] else []

/-- The events of `~Client` from `bufferevent_free` to `close`. -/
def Client.releaseEvents (c : Client) (p : ClientPtr) : List Event :=
  (match c.evEvent with
    | .buffers _ _ => [.freed p .bufferevent, .written p .evEvent]
    | _ => []) ++
  .read p .evBase :: (if c.evBase = true then [.freed p .eventBase, .written p .evBase] else []) ++
  .read p .evBuf :: (if c.evBuf.isSome then [.freed p .evbuffer, .written p .evBuf] else []) ++
  .read p .fd :: (if c.fd ≠ -1 then [.closed c.fd] else [])

/-- The events of `~Client` at its end. -/
def Client.bufEvents (c : Client) (p : ClientPtr) : List Event :=
  .read p .buf :: if c.buf.isSome then [.freed p .stream] else []

namespace System

section Functions

variable {σ : Type} (s : System σ)

/-- The events of `~Client`, up to a fault. -/
def deleteEvents (p : ClientPtr) : List Event :=
  match s.clients p with
  | none => []
  | some c =>
    [.read p .fwFd, .read p .evEvent] ++
      match c.freeEvent with
      | .error _ => [.freedGarbage p]
      | .ok _ => c.releaseEvents p ++
        match (s.index c.fwFd).2 with
        | none => c.bufEvents p
        | some q =>
          match s.clients q with
          | none => []
          | some _ => [.written q .fwFd, .read q .evBase] ++ c.bufEvents p

/-- The events of `delete p`, where `client_map[fw_fd]` may find no memory for a new node. -/
def eventsOfDelete (p : ClientPtr) (mapNode : Bool) : List Event :=
  if mapNode = false then [.read p .fwFd, .uncaught] else s.deleteEvents p

/-- The events of a round of `Proxy::start_listen` from `new Client(in_fd, out_fd)` on. -/
def handleEvents (inFd outFd : ℤ) (it : Iteration) : List Event :=
  match it.newIn with
  | none => [.uncaught]
  | some null =>
    let (s, inCd) := s.newClient inFd outFd null
    newEvents inCd ++ initEvents inCd it.initIn ++
      match s.clientInit inCd it.initIn with
      | .error _ => []
      | .ok (s, false) => .closed outFd :: (s.close outFd).eventsOfDelete inCd it.deleteIn
      | .ok (s, true) =>
        match it.newOut with
        | none => [.uncaught]
        | some null =>
          let (s, outCd) := s.newClient outFd inFd null
          newEvents outCd ++ initEvents outCd it.initOut ++
            match s.clientInit outCd it.initOut with
            | .error _ => []
            | .ok (s, false) => s.eventsOfDelete inCd it.deleteIn ++
              match s.delete inCd it.deleteIn with
              | .error _ => []
              | .ok s => s.eventsOfDelete outCd it.deleteOut
            | .ok (_, true) =>
              if it.threadOut = false then [.uncaught]
              else .started outCd ::
                if it.threadIn = false then [.uncaught] else [.started inCd]

/-- The events of `Proxy::get_outflow_fd`. -/
def outflowEvents (it : Iteration) : List Event :=
  match s.openFd it.outFd with
  | none => []
  | some _ => .opened it.outFd :: if it.connect = false then [.closed it.outFd] else []

/-- The events of a round of `Proxy::start_listen`. -/
def listenEvents (it : Iteration) : List Event :=
  if s.phase ≠ .listening then []
  else
    match s.openFd it.inFd with
    | none => []
    | some s =>
      .opened it.inFd ::
        if it.nonblockIn = false then [.closed it.inFd]
        else s.outflowEvents it ++
          match s.getOutflowFd it with
          | (_, none) => [.closed it.inFd]
          | (s, some outFd) =>
            if it.nonblockOut = false then [.closed it.inFd, .closed outFd]
            else s.handleEvents it.inFd outFd it

end Functions

end System

/-! ## The events and the process -/

/-- The open descriptors behind an event. -/
def Event.openAfter (isOpen : ℤ → Bool) : Event → ℤ → Bool
  | .opened fd => Function.update isOpen fd true
  | .closed fd => Function.update isOpen fd false
  | _ => isOpen

namespace System

section Descriptors

variable {σ : Type} {s s' : System σ} {p : ClientPtr}

/-- The constructor opens and closes nothing. -/
lemma foldl_newEvents (p : ClientPtr) (isOpen : ℤ → Bool) :
    (newEvents p).foldl Event.openAfter isOpen = isOpen := rfl

/-- `Client::init` opens and closes nothing. -/
lemma foldl_initEvents (p : ClientPtr) (a : InitAnswers) (isOpen : ℤ → Bool) :
    (initEvents p a).foldl Event.openAfter isOpen = isOpen := by
  obtain ⟨fresh, evbuffer, base, bufferevent, node⟩ := a
  cases fresh with
  | none => rfl
  | some fresh => cases evbuffer <;> cases base <;> cases bufferevent <;> cases node <;> rfl

/-- A pointer that is followed without a fault points to a client. -/
lemma clients_of_deref {c : Client} (h : s.deref p = .ok c) : s.clients p = some c := by
  unfold deref at h
  split at h
  · cases h
  · rw [‹s.clients p = some _›, Except.ok.inj h]

/-- The open descriptors and the surroundings of `action_inject` are the same behind
`Client::init`. -/
lemma clientInit_kept {a : InitAnswers} {ok : Bool} (h : s.clientInit p a = .ok (s', ok)) :
    s'.isOpen = s.isOpen ∧ s'.env = s.env := by
  obtain ⟨c, hc, -⟩ := Runs.bind_eq_ok.mp h
  rcases clientInit_cases (clients_of_deref hc) a with ⟨-, c', hinit, -⟩ | ⟨-, c', hinit, -⟩ |
    ⟨-, hinit⟩
  · rw [hinit] at h
    cases h
    exact ⟨rfl, rfl⟩
  · rw [hinit] at h
    cases h
    exact ⟨rfl, rfl⟩
  · rw [hinit] at h
    cases h

/-- `~Client` closes the descriptor of the client, if it has one. -/
lemma deleteClient_isOpen (h : s.deleteClient p = .ok s') :
    s'.isOpen = (s.deleteEvents p).foldl Event.openAfter s.isOpen := by
  obtain ⟨c, hc, h'⟩ := Runs.bind_eq_ok.mp h
  obtain ⟨⟨⟩, hfree, -⟩ := Runs.bind_eq_ok.mp h'
  have hclient := clients_of_deref hc
  have hrelease : (c.releaseEvents p).foldl Event.openAfter s.isOpen = (s.dismiss c).isOpen := by
    obtain ⟨fd, fwFd, evBase, evBuf, evEvent, buf⟩ := c
    unfold Client.releaseEvents dismiss
    by_cases hfd : fd ≠ -1
    · rw [if_pos hfd, if_pos hfd]
      cases evEvent <;> cases evBase <;> cases evBuf <;> rfl
    · rw [if_neg hfd, if_neg hfd]
      cases evEvent <;> cases evBase <;> cases evBuf <;> rfl
  have hbuf : ∀ isOpen, (c.bufEvents p).foldl Event.openAfter isOpen = isOpen := fun isOpen => by
    unfold Client.bufEvents
    split_ifs <;> rfl
  rw [deleteClient_eq hclient hfree] at h
  rw [deleteEvents, hclient]
  simp only [hfree, index, IndexMap.index_snd]
  rw [List.foldl_append, List.foldl_append,
    show [Event.read p .fwFd, .read p .evEvent].foldl Event.openAfter s.isOpen = s.isOpen from rfl,
    hrelease]
  cases hfw : (s.clientMap.find c.fwFd).getD none with
  | none =>
    rw [hfw] at h
    rw [← Except.ok.inj h]
    exact (hbuf _).symm
  | some q =>
    rw [hfw] at h
    obtain ⟨d, hd, h⟩ := Runs.bind_eq_ok.mp h
    simp only [clients_of_deref hd]
    rw [← Except.ok.inj h, List.foldl_append, hbuf]
    rfl

/-- So does `delete` in a round of the listener. -/
lemma delete_isOpen {mapNode : Bool} (h : s.delete p mapNode = .ok s') :
    s'.isOpen = (s.eventsOfDelete p mapNode).foldl Event.openAfter s.isOpen := by
  unfold delete at h
  unfold eventsOfDelete
  by_cases hnode : mapNode = false
  · rw [if_pos hnode] at h
    cases h
  · rw [if_neg hnode] at h ⊢
    exact deleteClient_isOpen h

/-- The same from `new Client(in_fd, out_fd)` on. -/
lemma handleRequest_isOpen {inFd outFd : ℤ} {it : Iteration}
    (h : s.handleRequest inFd outFd it = .ok s') :
    s'.isOpen = (s.handleEvents inFd outFd it).foldl Event.openAfter s.isOpen := by
  unfold handleRequest at h
  unfold handleEvents
  cases hnew : it.newIn with
  | none =>
    rw [hnew] at h
    cases h
  | some null =>
    rw [hnew] at h
    obtain ⟨⟨t, ok⟩, hinit, h⟩ := Runs.bind_eq_ok.mp h
    replace hinit : (s.newClient inFd outFd null).1.clientInit s.next it.initIn = .ok (t, ok) :=
      hinit
    have hopen := (clientInit_kept hinit).1
    simp only [newClient_snd, hinit, List.foldl_append, foldl_newEvents, foldl_initEvents]
    rw [show s.isOpen = t.isOpen from hopen.symm]
    cases ok with
    | false => exact delete_isOpen h
    | true =>
      cases hnewOut : it.newOut with
      | none =>
        simp only [hnewOut] at h
        cases h
      | some nullOut =>
        simp only [hnewOut] at h
        obtain ⟨⟨t₂, ok₂⟩, hinitOut, h⟩ := Runs.bind_eq_ok.mp h
        replace hinitOut : (t.newClient outFd inFd nullOut).1.clientInit t.next it.initOut =
          .ok (t₂, ok₂) := hinitOut
        have hopen₂ := (clientInit_kept hinitOut).1
        simp only [hinitOut, List.foldl_append, foldl_newEvents, foldl_initEvents]
        rw [show t.isOpen = t₂.isOpen from hopen₂.symm]
        cases ok₂ with
        | false =>
          obtain ⟨t₃, hdelete, h⟩ := Runs.bind_eq_ok.mp h
          replace hdelete : t₂.delete s.next it.deleteIn = .ok t₃ := hdelete
          simp only [hdelete, List.foldl_append]
          rw [← delete_isOpen hdelete]
          exact delete_isOpen h
        | true =>
          simp only [Bool.true_eq_false, if_false] at h
          by_cases hthreadOut : it.threadOut = false
          · rw [if_pos hthreadOut] at h
            cases h
          by_cases hthreadIn : it.threadIn = false
          · rw [if_neg hthreadOut, if_pos hthreadIn] at h
            cases h
          rw [if_neg hthreadOut, if_neg hthreadIn] at h ⊢
          exact (congrArg isOpen (Except.ok.inj h)).symm

/-- **The events of a round open and close what the round does.** -/
lemma startListen_isOpen {it : Iteration} (h : s.startListen it = .ok s') :
    s'.isOpen = (s.listenEvents it).foldl Event.openAfter s.isOpen := by
  have hopened : ∀ {s t : System σ} {fd : ℤ}, s.openFd fd = some t →
      t.isOpen = Function.update s.isOpen fd true := by
    intro s t fd h
    unfold openFd at h
    split_ifs at h
    rw [← Option.some.inj h]
  unfold startListen at h
  unfold listenEvents
  by_cases hphase : s.phase ≠ .listening
  · rw [if_pos hphase] at h ⊢
    rw [← Except.ok.inj h]
    rfl
  rw [if_neg hphase] at h ⊢
  cases hin : s.openFd it.inFd with
  | none =>
    rw [hin] at h
    rw [← Except.ok.inj h]
    rfl
  | some t =>
    rw [hin] at h
    simp only [List.foldl_cons, Event.openAfter, ← hopened hin] at h ⊢
    by_cases hnonblock : it.nonblockIn = false
    · rw [if_pos hnonblock] at h ⊢
      rw [← Except.ok.inj h]
      rfl
    rw [if_neg hnonblock] at h ⊢
    rw [getOutflowFd] at h ⊢
    rw [outflowEvents]
    cases hout : t.openFd it.outFd with
    | none =>
      rw [hout] at h
      rw [← Except.ok.inj h]
      rfl
    | some u =>
      rw [hout] at h
      simp only [List.cons_append, List.foldl_cons, Event.openAfter, ← hopened hout] at h ⊢
      by_cases hconnect : it.connect = false
      · rw [if_pos hconnect] at h
        rw [if_pos hconnect, if_pos hconnect, ← Except.ok.inj h]
        rfl
      rw [if_neg hconnect] at h
      rw [if_neg hconnect, if_neg hconnect]
      by_cases hnonblockOut : it.nonblockOut = false
      · simp only [if_pos hnonblockOut] at h ⊢
        rw [← Except.ok.inj h]
        rfl
      · simp only [if_neg hnonblockOut] at h ⊢
        exact handleRequest_isOpen h

end Descriptors

end System

/-! ## What is asked of the events -/

/-- The descriptor that is opened. -/
@[simp] def Event.opens? : Event → Option ℤ
  | .opened fd => some fd
  | _ => none

/-- The descriptor that is closed. -/
@[simp] def Event.closes? : Event → Option ℤ
  | .closed fd => some fd
  | _ => none

/-- The object that is created. -/
@[simp] def Event.creates? : Event → Option (ClientPtr × Resource)
  | .created p r => some (p, r)
  | _ => none

/-- The object that is freed. -/
@[simp] def Event.frees? : Event → Option (ClientPtr × Resource)
  | .freed p r => some (p, r)
  | _ => none

/-- No member is read that was not set before, neither by the events nor already. -/
def ReadsSet : List (ClientPtr × Member) → List Event → Prop
  | _, [] => True
  | known, .written p m :: es => ReadsSet ((p, m) :: known) es
  | known, .read p m :: es => (p, m) ∈ known ∧ ReadsSet known es
  | _, .freedGarbage _ :: _ => False
  | known, _ :: es => ReadsSet known es

/-- What is asked of a round that fails: each descriptor that was opened is closed once, each object
that was created is freed once, and nothing else; no member is read or freed that was never set. -/
structure CleanedUp (es : List Event) : Prop where
  closed : (es.filterMap Event.closes?).Perm (es.filterMap Event.opens?)
  closedOnce : (es.filterMap Event.closes?).Nodup
  freed : (es.filterMap Event.frees?).Perm (es.filterMap Event.creates?)
  freedOnce : (es.filterMap Event.frees?).Nodup
  set : ReadsSet [] es

/-- `Client::init` of one of the clients fails before it sets `ev_event`. -/
def System.FailsEarly {σ : Type} (s : System σ) (it : Iteration) : Prop :=
  s.ReachesNew it ∧ it.InitFailsEarly

/-! ## Clients that are created and deleted -/

/-- What `Client::init` makes of a client. -/
def Client.inited (c : Client) (a : InitAnswers) : Client :=
  match a.streamNew with
  | none => { c with buf := none }
  | some fresh =>
    let c : Client := { c with buf := some (streamNew defaultStreamLen fresh) }
    if a.evbufferNew = false then { c with evBuf := none }
    else
      let c : Client := { c with evBuf := some [] }
      if a.eventBaseNew = false then { c with evBase := false }
      else
        let c : Client := { c with evBase := true }
        if a.buffereventNew = false then { c with evEvent := .null }
        else { c with evEvent := .buffers [] [] }

/-- The client as the constructor leaves it. -/
def Client.raw (fd fwFd : ℤ) (null : Bool) : Client := ⟨fd, fwFd, false, none, .unset null, none⟩

/-- The events of `~Client`, where no pair is in the map. -/
def Client.aloneEvents (c : Client) (p : ClientPtr) : List Event :=
  [.read p .fwFd, .read p .evEvent] ++
    match c.freeEvent with
    | .error _ => [.freedGarbage p]
    | .ok _ => c.releaseEvents p ++ c.bufEvents p

section Clients

variable {σ : Type} {s : System σ} {p : ClientPtr} {c : Client}

/-- `Client::init` leaves the descriptor of the client. -/
lemma Client.inited_fd (c : Client) (a : InitAnswers) : (c.inited a).fd = c.fd := by
  unfold Client.inited
  split
  · rfl
  · simp only
    split_ifs <;> rfl

/-- It leaves the descriptor of its pair. -/
lemma Client.inited_fwFd (c : Client) (a : InitAnswers) : (c.inited a).fwFd = c.fwFd := by
  unfold Client.inited
  split
  · rfl
  · simp only
    split_ifs <;> rfl

/-- The constructor leaves its client at the next pointer. -/
lemma System.newClient_raw (s : System σ) (fd fwFd : ℤ) (null : Bool) (hnext : s.next = p) :
    (s.newClient fd fwFd null).1.clients p = some (Client.raw fd fwFd null) := by
  rw [newClient_clients, hnext]
  exact if_pos rfl

/-- `Client::init` where all calls succeed. -/
lemma System.clientInit_ok (hc : s.clients p = some c) {a : InitAnswers} (ha : a.Ok) :
    ∃ t, s.clientInit p a = .ok (t, true) ∧
      (∀ q, t.clients q = if q = p then some (c.inited a) else s.clients q) ∧
      (∀ f, t.clientMap.find f = if f = c.fd then some (some p) else s.clientMap.find f) ∧
      t.next = s.next := by
  have hderef : s.deref p = .ok c := by rw [System.deref, hc]
  obtain ⟨fresh, evbuffer, base, bufferevent, node⟩ := a
  obtain ⟨hfresh, rfl, rfl, rfl, rfl⟩ := ha
  obtain ⟨fresh, rfl⟩ := Option.isSome_iff_exists.mp hfresh
  rw [System.clientInit, hderef]
  exact ⟨_, rfl, fun q => System.update_clients _ _ _ _, fun f => IndexMap.find_set _ _ _ _, rfl⟩

/-- `Client::init` where one of the calls fails. -/
lemma System.clientInit_fails (hc : s.clients p = some c) {a : InitAnswers} (ha : a.Fails) :
    ∃ t, s.clientInit p a = .ok (t, false) ∧
      (∀ q, t.clients q = if q = p then some (c.inited a) else s.clients q) ∧
      t.clientMap = s.clientMap ∧ t.next = s.next := by
  have hderef : s.deref p = .ok c := by rw [System.deref, hc]
  refine ⟨s.update p (c.inited a), ?_, fun q => System.update_clients _ _ _ _, rfl, rfl⟩
  obtain ⟨fresh, evbuffer, base, bufferevent, node⟩ := a
  rw [System.clientInit, hderef]
  cases fresh with
  | none => rfl
  | some fresh =>
    cases evbuffer <;> cases base <;> cases bufferevent <;>
      first | rfl | exact absurd ha (by simp [InitAnswers.Fails, InitAnswers.FailsEarly])

/-- `Client::init` where `client_map[fd]` finds no memory. -/
lemma System.clientInit_throws (hc : s.clients p = some c) {a : InitAnswers} (ha : a.Throws) :
    s.clientInit p a = .error .uncaught := by
  rcases System.clientInit_cases hc a with ⟨hok, -⟩ | ⟨hfails, -⟩ | ⟨-, h⟩
  · exact absurd hok ha.not_ok
  · exact absurd hfails ha.1
  · exact h

/-- The events of `delete`, where no pair is in the map. -/
lemma System.deleteEvents_alone (hc : s.clients p = some c)
    (halone : ∀ q, s.clientMap.find c.fwFd ≠ some (some q)) :
    s.deleteEvents p = c.aloneEvents p := by
  have hindex : (s.index c.fwFd).2 = none := by
    rw [System.index, IndexMap.index_snd]
    cases hfind : (s.clientMap.find c.fwFd).getD none with
    | none => rfl
    | some q => exact absurd (System.find_of_getD hfind) (halone q)
  rw [System.deleteEvents, hc, Client.aloneEvents]
  simp only [hindex]

/-! ### What a client does to the lists of events -/

variable {known : List (ClientPtr × Member)} {a : InitAnswers}

/-- The members that the events set, the last one first. -/
def writtenBy (es : List Event) : List (ClientPtr × Member) :=
  (es.filterMap fun e => match e with
    | .written p m => some (p, m)
    | _ => none).reverse

/-- Events behind others may read what those have set. -/
lemma readsSet_append (es fs : List Event) :
    ReadsSet known (es ++ fs) ↔ ReadsSet known es ∧ ReadsSet (writtenBy es ++ known) fs := by
  induction es generalizing known with
  | nil => simp [ReadsSet, writtenBy]
  | cons e es ih =>
    cases e with
    | written p m =>
      rw [List.cons_append, ReadsSet, ih, ReadsSet]
      simp [writtenBy]
    | read p m =>
      rw [List.cons_append, ReadsSet, ih, ReadsSet, and_assoc]
      rfl
    | freedGarbage p => simp [ReadsSet]
    | opened fd => exact ih
    | closed fd => exact ih
    | created p r => exact ih
    | freed p r => exact ih
    | started p => exact ih
    | uncaught => exact ih

/-- What two lists of events set, the last one first. -/
lemma writtenBy_append (es fs : List Event) :
    writtenBy (es ++ fs) = writtenBy fs ++ writtenBy es := by
  simp [writtenBy]

/-- The constructor and `Client::init` read what they have set. -/
lemma readsSet_init (p : ClientPtr) (a : InitAnswers) :
    ReadsSet known (newEvents p ++ initEvents p a) := by
  obtain ⟨fresh, evbuffer, base, bufferevent, node⟩ := a
  cases fresh with
  | none => simp [newEvents, initEvents, ReadsSet]
  | some fresh =>
    cases evbuffer <;> cases base <;> cases bufferevent <;> cases node <;>
      simp [newEvents, initEvents, ReadsSet]

/-- The members that the constructor and `Client::init` set, the last one first. -/
def InitAnswers.sets (a : InitAnswers) : List Member :=
  let constructed : List Member := [.evBuf, .evBuf, .evBase, .fwFd, .fd]
  if a.streamNew = none then .buf :: constructed
  else if a.evbufferNew = false then .evBuf :: .buf :: constructed
  else if a.eventBaseNew = false then .evBase :: .evBuf :: .buf :: constructed
  else .evEvent :: .evBase :: .evBuf :: .buf :: constructed

/-- The constructor and `Client::init` set the members that `InitAnswers.sets` says. -/
lemma writtenBy_init (p : ClientPtr) (a : InitAnswers) :
    writtenBy (newEvents p ++ initEvents p a) = a.sets.map (p, ·) := by
  obtain ⟨fresh, evbuffer, base, bufferevent, node⟩ := a
  cases fresh with
  | none => rfl
  | some fresh => cases evbuffer <;> cases base <;> cases bufferevent <;> cases node <;> rfl

/-- Unless `Client::init` fails early, all members are set behind it. -/
lemma mem_writtenBy_init (ha : ¬ a.FailsEarly) (p : ClientPtr) (m : Member) :
    (p, m) ∈ writtenBy (newEvents p ++ initEvents p a) := by
  simp only [InitAnswers.FailsEarly, not_or] at ha
  rw [writtenBy_init, InitAnswers.sets, if_neg ha.1, if_neg ha.2.1, if_neg ha.2.2]
  exact List.mem_map_of_mem (by cases m <;> decide)

/-- Where it fails early, `ev_event` is not set. -/
lemma notMem_writtenBy_init (ha : a.FailsEarly) (p : ClientPtr) :
    (p, .evEvent) ∉ writtenBy (newEvents p ++ initEvents p a) := by
  rw [writtenBy_init]
  intro h
  obtain ⟨m, hm, heq⟩ := List.mem_map.mp h
  obtain rfl : m = .evEvent := (Prod.mk.inj heq).2
  unfold InitAnswers.sets at hm
  split_ifs at hm with hstream hevbuffer hbase
  · exact absurd hm (by decide)
  · exact absurd hm (by decide)
  · exact absurd hm (by decide)
  · exact (not_or.mpr ⟨hstream, not_or.mpr ⟨hevbuffer, hbase⟩⟩) ha

/-- These are members of the one client. -/
lemma writtenBy_init_of (p : ClientPtr) (a : InitAnswers) :
    ∀ k ∈ writtenBy (newEvents p ++ initEvents p a), k.1 = p := by
  rw [writtenBy_init]
  intro k hk
  obtain ⟨m, -, rfl⟩ := List.mem_map.mp hk
  rfl

/-- `~Client` sets members of the one client only, where no pair is in the map. -/
lemma writtenBy_alone_of (c : Client) (p : ClientPtr) :
    ∀ k ∈ writtenBy (c.aloneEvents p), k.1 = p := by
  have hrelease : ∀ k ∈ writtenBy (c.releaseEvents p), k.1 = p := by
    unfold Client.releaseEvents
    simp only [writtenBy_append, List.mem_append]
    rintro k (hk | hk | hk | hk) <;>
      split at hk <;> simp [writtenBy] at hk <;> rw [hk]
  have hbuf : writtenBy (c.bufEvents p) = [] := by
    unfold Client.bufEvents
    split_ifs <;> rfl
  unfold Client.aloneEvents
  rw [writtenBy_append]
  split
  · simp [writtenBy]
  · rw [writtenBy_append, hbuf, List.nil_append]
    exact fun k hk => hrelease k ((List.mem_append.mp hk).resolve_right (by simp [writtenBy]))

/-- `~Client` reads all members, so it is in order exactly if they were set. -/
lemma readsSet_alone (c : Client) (p : ClientPtr) (hall : ∀ m, (p, m) ∈ known)
    (hset : c.freeEvent = .ok ()) : ReadsSet known (c.aloneEvents p) := by
  have hrelease : ∀ known' : List (ClientPtr × Member), (∀ m, (p, m) ∈ known') →
      ReadsSet known' (c.releaseEvents p ++ c.bufEvents p) := by
    intro known' hall
    have hbuf : ∀ known', (p, Member.buf) ∈ known' → ReadsSet known' (c.bufEvents p) := by
      intro known' hmem
      unfold Client.bufEvents
      split_ifs <;> simp [ReadsSet, hmem]
    refine (readsSet_append _ _).mpr ⟨?_, hbuf _ (List.mem_append_right _ (hall _))⟩
    refine (readsSet_append _ _).mpr ⟨(readsSet_append _ _).mpr ⟨(readsSet_append _ _).mpr
      ⟨?_, ?_⟩, ?_⟩, ?_⟩
    · split <;> exact trivial
    · refine ⟨List.mem_append_right _ (hall _), ?_⟩
      split_ifs <;> exact trivial
    · refine ⟨List.mem_append_right _ (hall _), ?_⟩
      split_ifs <;> exact trivial
    · refine ⟨List.mem_append_right _ (hall _), ?_⟩
      split_ifs <;> exact trivial
  unfold Client.aloneEvents
  rw [hset]
  exact ⟨hall _, hall _, hrelease _ hall⟩

/-- It reads `ev_event`. -/
lemma not_readsSet_alone (c : Client) (p : ClientPtr) (hnot : (p, .evEvent) ∉ known) :
    ¬ ReadsSet known (c.aloneEvents p) := fun h => hnot h.2.1

/-- What the events open, close, create and free, each in this order. -/
structure Tally (es : List Event) (opened closed : List ℤ)
    (created freed : List (ClientPtr × Resource)) : Prop where
  opens : es.filterMap Event.opens? = opened
  closes : es.filterMap Event.closes? = closed
  creates : es.filterMap Event.creates? = created
  frees : es.filterMap Event.frees? = freed

/-- The tallies of events behind each other. -/
lemma Tally.append {es es' : List Event} {o o' c c' : List ℤ}
    {m m' f f' : List (ClientPtr × Resource)} (h : Tally es o c m f) (h' : Tally es' o' c' m' f') :
    Tally (es ++ es') (o ++ o') (c ++ c') (m ++ m') (f ++ f') := by
  refine ⟨?_, ?_, ?_, ?_⟩
  · rw [List.filterMap_append, h.opens, h'.opens]
  · rw [List.filterMap_append, h.closes, h'.closes]
  · rw [List.filterMap_append, h.creates, h'.creates]
  · rw [List.filterMap_append, h.frees, h'.frees]

/-- A round is cleaned up if what it closes and frees is what it opened and created. -/
lemma Tally.cleanedUp {es : List Event} {o c : List ℤ} {m f : List (ClientPtr × Resource)}
    (h : Tally es o c m f) (hclosed : c.Perm o) (ho : o.Nodup) (hfreed : f.Perm m) (hm : m.Nodup)
    (hset : ReadsSet [] es) : CleanedUp es := by
  refine ⟨?_, ?_, ?_, ?_, hset⟩
  · rwa [h.closes, h.opens]
  · rw [h.closes]
    exact hclosed.nodup_iff.mpr ho
  · rwa [h.frees, h.creates]
  · rw [h.frees]
    exact hfreed.nodup_iff.mpr hm

/-- The constructor only sets members. -/
lemma tally_new (p : ClientPtr) : Tally (newEvents p) [] [] [] [] := ⟨rfl, rfl, rfl, rfl⟩

/-- A call of `Client::init` that succeeds does not fail early. -/
lemma not_failsEarly (ha : a.Ok) : ¬ a.FailsEarly :=
  fun h => InitAnswers.Fails.not_ok (Or.inl h) ha

/-- What `Client::init` creates, in this order. -/
def InitAnswers.made (a : InitAnswers) : List Resource :=
  if a.streamNew = none then []
  else .stream ::
    if a.evbufferNew = false then []
    else .evbuffer ::
      if a.eventBaseNew = false then []
      else .eventBase :: if a.buffereventNew = false then [] else [.bufferevent]

/-- `Client::init` creates nothing twice. -/
lemma InitAnswers.made_nodup (a : InitAnswers) : a.made.Nodup := by
  unfold InitAnswers.made
  split_ifs <;> decide

/-- `Client::init` neither opens nor closes a descriptor, and frees nothing. -/
lemma tally_init (p : ClientPtr) (a : InitAnswers) :
    Tally (initEvents p a) [] [] (a.made.map (p, ·)) [] := by
  obtain ⟨fresh, evbuffer, base, bufferevent, node⟩ := a
  cases fresh with
  | none => exact ⟨rfl, rfl, rfl, rfl⟩
  | some fresh =>
    cases evbuffer <;> cases base <;> cases bufferevent <;> cases node <;>
      exact ⟨rfl, rfl, rfl, rfl⟩

/-- **`~Client` frees what `Client::init` has created**, in the opposite order, and closes the
descriptor, unless `Client::init` failed early. -/
lemma tally_alone (ha : ¬ a.FailsEarly) (p : ClientPtr) {fd fwFd : ℤ} (hfd : fd ≠ -1)
    {null : Bool} (hc : c = (Client.raw fd fwFd null).inited a) :
    c.freeEvent = .ok () ∧ Tally (c.aloneEvents p) [] [fd] [] (a.made.reverse.map (p, ·)) := by
  obtain ⟨fresh, evbuffer, base, bufferevent, node⟩ := a
  simp only [InitAnswers.FailsEarly, not_or, Bool.not_eq_false] at ha
  obtain ⟨hfresh, rfl, rfl⟩ := ha
  subst hc
  cases fresh with
  | none => exact absurd rfl hfresh
  | some fresh =>
    cases bufferevent <;>
      · simp only [Client.inited, Client.raw, Client.aloneEvents, Client.freeEvent,
          Client.releaseEvents, Client.bufEvents, Bool.true_eq_false, if_true, if_false, ne_eq, hfd,
          not_false_eq_true, Option.isSome_some, true_and]
        exact ⟨rfl, rfl, rfl, rfl⟩

/-- The objects of two clients are apart. -/
lemma InitAnswers.made_apart (a b : InitAnswers) {p q : ClientPtr} (hpq : p ≠ q) :
    (a.made.map (p, ·) ++ b.made.map (q, ·)).Nodup := by
  have hdisjoint : (a.made.map (p, ·)).Disjoint (b.made.map (q, ·)) := by
    intro k hk hk'
    obtain ⟨r, -, rfl⟩ := List.mem_map.mp hk
    obtain ⟨r', -, h⟩ := List.mem_map.mp hk'
    exact hpq (Prod.mk.inj h).1.symm
  exact (a.made_nodup.map (Prod.mk_right_injective p)).append
    (b.made_nodup.map (Prod.mk_right_injective q)) hdisjoint

end Clients

/-! ## Rounds -/

namespace System

section Rounds

variable {σ : Type} {s : System σ} {it : Iteration}

/-- A round whose second `Client::init` fails deletes both clients, and finds neither of them in the
place of the other's pair. -/
lemma second_deletes {t : System σ} {c d : Client} {p : ClientPtr} {inFd outFd : ℤ} {nullOut : Bool}
    {a : InitAnswers} (hc : t.clients p = some c) (hcfd : c.fd = inFd) (hcfw : c.fwFd = outFd)
    (hset : c.freeEvent = .ok ()) (hnext : t.next = p + 1)
    (hmap : ∀ q, t.clientMap.find outFd ≠ some (some q)) (ha : a.Fails)
    (hd : d = (Client.raw outFd inFd nullOut).inited a) :
    ∃ t₂ t₃, (t.newClient outFd inFd nullOut).1.clientInit (p + 1) a = .ok (t₂, false) ∧
      t₂.deleteEvents p = c.aloneEvents p ∧ t₂.deleteClient p = .ok t₃ ∧
      t₃.deleteEvents (p + 1) = d.aloneEvents (p + 1) := by
  have hne : p ≠ p + 1 := (Nat.lt_succ_self p).ne
  obtain ⟨t₂, hinit, hclients, hmap₂, -⟩ :=
    clientInit_fails (newClient_raw t outFd inFd nullOut hnext) ha
  have hcp : t₂.clients p = some c := by
    rw [hclients, if_neg hne, newClient_clients, hnext, if_neg hne, hc]
  have hno : ∀ q, t₂.clientMap.find c.fwFd ≠ some (some q) := fun q => by
    rw [hcfw]
    exact fun h => hmap q (hmap₂ ▸ h)
  have hunset : c.evEvent ≠ .unset false := by
    intro h
    rw [Client.freeEvent, h] at hset
    cases hset
  rcases deleteClient_cases hcp fun q hq => absurd hq (hno q) with ⟨-, h⟩ | ⟨-, t₃, hdelete, hdel⟩
  · exact absurd h hunset
  refine ⟨t₂, t₃, hinit, deleteEvents_alone hcp hno, hdelete, deleteEvents_alone ?_ fun q => ?_⟩
  · rw [hdel.clients_alone hno, if_neg hne.symm, hclients, if_pos rfl, hd]
  · have hdfw : d.fwFd = c.fd := by
      rw [hd, Client.inited_fwFd, hcfd]
      rfl
    rw [hdfw, hdel.clientMap, if_pos rfl]
    simp

/-- **The events of a round whose `Client::init` fails**, if nothing throws. -/
lemma handleEvents_eq (hreach : s.ReachesNew it) (hfails : it.InitFails) (hno : ¬ it.Throws)
    (halone : ∀ f, f < 0 ∨ s.isOpen f = false → ∀ p, s.clientMap.find f ≠ some (some p))
    {c d : Client} (hc : c = (Client.raw it.inFd it.outFd (it.newIn.getD true)).inited it.initIn)
    (hd : d = (Client.raw it.outFd it.inFd (it.newOut.getD true)).inited it.initOut) :
    (s.connected it).handleEvents it.inFd it.outFd it =
      newEvents s.next ++ initEvents s.next it.initIn ++
        if it.initIn.Ok then
          newEvents (s.next + 1) ++ initEvents (s.next + 1) it.initOut ++
            (c.aloneEvents s.next ++ d.aloneEvents (s.next + 1))
        else .closed it.outFd :: c.aloneEvents s.next := by
  obtain ⟨null, hnull⟩ := Option.isSome_iff_exists.mp hfails.1
  rw [hnull, Option.getD_some] at hc
  have hp : ((s.connected it).newClient it.inFd it.outFd null).1.clients s.next =
      some (Client.raw it.inFd it.outFd null) := newClient_raw _ _ _ _ rfl
  have hcfw : c.fwFd = it.outFd := by rw [hc, Client.inited_fwFd]; rfl
  have hcfd : c.fd = it.inFd := by rw [hc, Client.inited_fd]; rfl
  have hout := halone it.outFd (Or.inr hreach.out_closed)
  obtain ⟨hdeleteIn, hdeleteOut⟩ := hfails.deletes hno
  have hevents : ∀ (t : System σ) p, t.eventsOfDelete p true = t.deleteEvents p := fun _ _ => rfl
  have hdeleted : ∀ (t : System σ) p, t.delete p true = t.deleteClient p := fun _ _ => rfl
  rcases hfails.2 with hfailsIn | ⟨hokIn, hnewOut, hfailsOut⟩
  · -- `Client::init` of the first client fails
    obtain ⟨t, hinit, hclients, hmap, -⟩ := clientInit_fails hp hfailsIn
    have hdelete : (t.close it.outFd).deleteEvents s.next = c.aloneEvents s.next := by
      refine deleteEvents_alone ((hclients _).trans ?_) fun q => ?_
      · rw [if_pos rfl, hc]
      · rw [hcfw]
        exact fun h => hout q (hmap ▸ h)
    unfold handleEvents
    simp only [hnull, newClient_snd, show (s.connected it).next = s.next from rfl, hinit,
      hdeleteIn, hevents, hdelete, hfailsIn.not_ok, if_false]
  -- that of the second one does
  obtain ⟨nullOut, hnullOut⟩ := Option.isSome_iff_exists.mp hnewOut
  rw [hnullOut, Option.getD_some] at hd
  obtain ⟨t, hinit, hclients, hmap, hnext⟩ := clientInit_ok hp hokIn
  have hcp : t.clients s.next = some c := (hclients _).trans (by rw [if_pos rfl, hc])
  replace hnext : t.next = s.next + 1 := hnext
  have hmapOut : ∀ q, t.clientMap.find it.outFd ≠ some (some q) := fun q => by
    rw [hmap, if_neg (show it.outFd ≠ (Client.raw it.inFd it.outFd null).fd from hreach.ne)]
    exact hout q
  have hset : c.freeEvent = .ok () :=
    (tally_alone (not_failsEarly hokIn) s.next (by have := hreach.in_nonneg; omega) hc).1
  obtain ⟨t₂, t₃, hinitOut, hfirst, hdelete, hsecond⟩ :=
    second_deletes hcp hcfd hcfw hset hnext hmapOut hfailsOut hd
  unfold handleEvents
  simp only [hnull, newClient_snd, show (s.connected it).next = s.next from rfl, hinit, hnullOut,
    hnext, hinitOut, hdeleteIn, hdeleteOut hokIn, hevents, hdeleted, hfirst, hdelete, hsecond,
    hokIn, if_true]

/-- `~Client` closes one descriptor at most. -/
lemma closes_deleteEvents (s : System σ) (p : ClientPtr) :
    ((s.deleteEvents p).filterMap Event.closes?).length ≤ 1 := by
  have hrelease : ∀ c : Client, ((c.releaseEvents p).filterMap Event.closes?).length ≤ 1 := by
    rintro ⟨fd, fwFd, evBase, evBuf, evEvent, buf⟩
    unfold Client.releaseEvents
    by_cases hfd : fd ≠ -1
    · simp only [if_pos hfd]
      cases evEvent <;> cases evBase <;> cases evBuf <;> exact le_rfl
    · simp only [if_neg hfd]
      cases evEvent <;> cases evBase <;> cases evBuf <;> exact Nat.zero_le _
  have hbuf : ∀ c : Client, (c.bufEvents p).filterMap Event.closes? = [] := by
    intro c
    unfold Client.bufEvents
    split_ifs <;> rfl
  unfold deleteEvents
  split
  · exact Nat.zero_le _
  rename_i c _
  split
  · exact Nat.zero_le _
  split
  · simpa [List.filterMap_cons, hbuf] using hrelease c
  split
  · simpa [List.filterMap_cons] using hrelease c
  · simpa [List.filterMap_cons, hbuf] using hrelease c

/-- **A round that ends the process closes one descriptor at most**: `out_fd` in front of
`delete in_cd`, or `in_fd` in it. -/
lemma closes_of_throws (s : System σ) (hthrows : it.Throws) (inFd outFd : ℤ) :
    ((s.handleEvents inFd outFd it).filterMap Event.closes?).length ≤ 1 := by
  unfold handleEvents
  cases hnull : it.newIn with
  | none => exact Nat.zero_le _
  | some null =>
    have hp := newClient_raw s inFd outFd null rfl
    simp only [newClient_snd, List.filterMap_append, (tally_new _).closes, (tally_init _ _).closes,
      List.nil_append]
    rcases hthrows.resolve_left (by rw [hnull]; simp) with hthrowsIn | ⟨hfailsIn, hdelete⟩ |
      ⟨hokIn, hthrowsOut⟩
    · rw [clientInit_throws hp hthrowsIn]
      exact Nat.zero_le _
    · obtain ⟨t, hinit, -⟩ := clientInit_fails hp hfailsIn
      simp only [hinit, eventsOfDelete, if_pos hdelete]
      exact le_rfl
    obtain ⟨t, hinit, -⟩ := clientInit_ok hp hokIn
    simp only [hinit]
    cases hnullOut : it.newOut with
    | none => exact Nat.zero_le _
    | some nullOut =>
      have hq := newClient_raw t outFd inFd nullOut rfl
      simp only [List.filterMap_append, (tally_new _).closes, (tally_init _ _).closes,
        List.nil_append]
      rcases hthrowsOut.resolve_left (by rw [hnullOut]; simp) with hthrowsOut |
        ⟨hfailsOut, hdelete⟩ | ⟨hokOut, hthread⟩
      · rw [clientInit_throws hq hthrowsOut]
        exact Nat.zero_le _
      · obtain ⟨t₂, hinitOut, -⟩ := clientInit_fails hq hfailsOut
        simp only [hinitOut, eventsOfDelete, delete]
        by_cases hdeleteIn : it.deleteIn = false
        · simp only [if_pos hdeleteIn]
          exact Nat.zero_le _
        have hfirst := t₂.closes_deleteEvents s.next
        simp only [if_neg hdeleteIn, if_pos (hdelete.resolve_left hdeleteIn)]
        rw [List.filterMap_append, List.length_append]
        cases t₂.deleteClient s.next with
        | error e => exact hfirst
        | ok t₃ => exact hfirst
      · obtain ⟨t₂, hinitOut, -⟩ := clientInit_ok hq hokOut
        simp only [hinitOut]
        split_ifs
        · exact Nat.zero_le _
        · exact Nat.zero_le _
        · exact Nat.zero_le _

/-- The process behind a call that has returned the descriptor `fd`. -/
def withOpen (s : System σ) (fd : ℤ) : System σ :=
  { s with isOpen := Function.update s.isOpen fd true }

/-- A descriptor is opened exactly if it is one that the system can give. -/
lemma openFd_cases (s : System σ) (fd : ℤ) :
    s.openFd fd = none ∧ ¬ (0 ≤ fd ∧ s.isOpen fd = false) ∨
      s.openFd fd = some (s.withOpen fd) ∧ 0 ≤ fd ∧ s.isOpen fd = false := by
  by_cases h : 0 ≤ fd ∧ s.isOpen fd = false
  · exact Or.inr ⟨if_pos h, h⟩
  · exact Or.inl ⟨if_neg h, h⟩

/-- The open descriptors behind this. -/
lemma withOpen_isOpen (s : System σ) (fd f : ℤ) :
    (s.withOpen fd).isOpen f = if f = fd then true else s.isOpen f := by
  simp only [withOpen, Function.update_apply]

/-- The events of a round that gets as far as the first `new Client`. -/
lemma listenEvents_of_reaches (hreach : s.ReachesNew it) :
    s.listenEvents it = [.opened it.inFd, .opened it.outFd] ++
      (s.connected it).handleEvents it.inFd it.outFd it := by
  have hin : s.openFd it.inFd = some (s.withOpen it.inFd) :=
    if_pos ⟨hreach.in_nonneg, hreach.in_closed⟩
  have hout : (s.withOpen it.inFd).openFd it.outFd = some (s.connected it) := by
    refine if_pos ⟨hreach.out_nonneg, ?_⟩
    rw [withOpen_isOpen, if_neg hreach.ne]
    exact hreach.out_closed
  simp [listenEvents, hreach.listening, hin, hreach.nonblockIn, outflowEvents, hout, getOutflowFd,
    hreach.connect, hreach.nonblockOut]

/-- One descriptor is opened and closed: this is what is asked for. -/
lemma cleanedUp_one (f : ℤ) : CleanedUp [.opened f, .closed f] :=
  ⟨.refl _, List.nodup_singleton f, .nil, .nil, trivial⟩

/-- Two descriptors are opened, and closed in either order. -/
lemma cleanedUp_two {f g : ℤ} (hne : g ≠ f) :
    CleanedUp [.opened f, .opened g, .closed f, .closed g] ∧
      CleanedUp [.opened f, .opened g, .closed g, .closed f] := by
  have hfg : [f, g].Nodup := by simpa using hne.symm
  have hgf : [g, f].Nodup := by simpa using hne
  exact ⟨⟨.refl _, hfg, .nil, .nil, trivial⟩, ⟨.swap _ _ _, hgf, .nil, .nil, trivial⟩⟩

/-- A round that fails before it creates clients closes the descriptors it has opened. -/
lemma cleanedUp_of_not_reaches (hnot : ¬ s.ReachesNew it) : CleanedUp (s.listenEvents it) := by
  have hnone : CleanedUp [] := ⟨.nil, .nil, .nil, .nil, trivial⟩
  unfold listenEvents
  by_cases hphase : s.phase = .listening
  swap
  · rwa [if_pos hphase]
  rw [if_neg (not_not.mpr hphase)]
  rcases s.openFd_cases it.inFd with ⟨hopen, -⟩ | ⟨hopen, hin, hin'⟩
  · rw [hopen]
    exact hnone
  rw [hopen]
  simp only
  by_cases hnonblock : it.nonblockIn = false
  · rw [if_pos hnonblock]
    exact cleanedUp_one _
  rw [if_neg hnonblock, outflowEvents, getOutflowFd]
  rcases (s.withOpen it.inFd).openFd_cases it.outFd with ⟨hopen', -⟩ | ⟨hopen', hout, hout'⟩
  · rw [hopen']
    exact cleanedUp_one _
  rw [withOpen_isOpen] at hout'
  have hne : it.outFd ≠ it.inFd := by
    intro h
    rw [if_pos h] at hout'
    cases hout'
  rw [if_neg hne] at hout'
  rw [hopen']
  simp only
  by_cases hconnect : it.connect = false
  · rw [if_pos hconnect, if_pos hconnect]
    exact (cleanedUp_two hne).2
  rw [if_neg hconnect, if_neg hconnect]
  simp only
  by_cases hnonblockOut : it.nonblockOut = false
  · rw [if_pos hnonblockOut]
    exact (cleanedUp_two hne).1
  exact absurd ⟨hphase, hin, hin', by simpa using hnonblock, hout, hout', hne,
    by simpa using hconnect, by simpa using hnonblockOut⟩ hnot

/-! ### Which rounds are cleaned up -/

/-- A first client that is deleted alone. -/
lemma cleanedUp_first_iff {f g : ℤ} (hf : f ≠ -1) (hne : g ≠ f) (p : ClientPtr) {null : Bool}
    {a : InitAnswers} {c : Client} (hc : c = (Client.raw f g null).inited a) :
    CleanedUp ([.opened f, .opened g] ++ (newEvents p ++ initEvents p a ++
      .closed g :: c.aloneEvents p)) ↔ ¬ a.FailsEarly := by
  constructor
  · intro hclean ha
    obtain ⟨-, hset⟩ := (readsSet_append _ _).mp hclean.set
    obtain ⟨-, hset⟩ := (readsSet_append _ _).mp hset
    exact not_readsSet_alone c p (by simpa [writtenBy] using notMem_writtenBy_init ha p) hset
  · intro ha
    obtain ⟨hfree, halone⟩ := tally_alone ha p hf hc
    have hopened : Tally [.opened f, .opened g] [f, g] [] [] [] := ⟨rfl, rfl, rfl, rfl⟩
    have hclosed : Tally [.closed g] [] [g] [] [] := ⟨rfl, rfl, rfl, rfl⟩
    have htally := hopened.append (((tally_new p).append (tally_init p a)).append
      (hclosed.append halone))
    simp only [List.nil_append, List.append_nil, List.singleton_append] at htally
    refine htally.cleanedUp (.swap f g []) (by simpa using hne.symm) ?_
      (a.made_nodup.map (Prod.mk_right_injective p)) ?_
    · exact (List.reverse_perm _).map _
    · refine (readsSet_append _ _).mpr ⟨by simp [ReadsSet], ?_⟩
      refine (readsSet_append _ _).mpr ⟨readsSet_init p a, ?_⟩
      exact readsSet_alone c p (fun m => List.mem_append_left _ (mem_writtenBy_init ha p m)) hfree

/-- Two clients that are both deleted. -/
lemma cleanedUp_both_iff {f g : ℤ} (hf : f ≠ -1) (hg : g ≠ -1) (hne : g ≠ f) {p q : ClientPtr}
    (hpq : p ≠ q) {null nullOut : Bool} {a b : InitAnswers} (ha : a.Ok) {c d : Client}
    (hc : c = (Client.raw f g null).inited a) (hd : d = (Client.raw g f nullOut).inited b) :
    CleanedUp ([.opened f, .opened g] ++ (newEvents p ++ initEvents p a ++
      (newEvents q ++ initEvents q b ++ (c.aloneEvents p ++ d.aloneEvents q)))) ↔
      ¬ b.FailsEarly := by
  obtain ⟨hfree, halone⟩ := tally_alone (not_failsEarly ha) p hf hc
  have hall := mem_writtenBy_init (not_failsEarly ha) p
  constructor
  · intro hclean hb
    obtain ⟨-, hset⟩ := (readsSet_append _ _).mp hclean.set
    obtain ⟨-, hset⟩ := (readsSet_append _ _).mp hset
    obtain ⟨-, hset⟩ := (readsSet_append _ _).mp hset
    obtain ⟨-, hset⟩ := (readsSet_append _ _).mp hset
    refine not_readsSet_alone d q ?_ hset
    simp only [List.mem_append, not_or]
    exact ⟨fun h => hpq (writtenBy_alone_of c p _ h).symm, notMem_writtenBy_init hb q,
      fun h => hpq (writtenBy_init_of p a _ h).symm, by simp [writtenBy], List.not_mem_nil⟩
  · intro hb
    obtain ⟨hfree', halone'⟩ := tally_alone hb q hg hd
    have hopened : Tally [.opened f, .opened g] [f, g] [] [] [] := ⟨rfl, rfl, rfl, rfl⟩
    have htally := hopened.append (((tally_new p).append (tally_init p a)).append
      (((tally_new q).append (tally_init q b)).append (halone.append halone')))
    simp only [List.nil_append, List.append_nil, List.singleton_append] at htally
    refine htally.cleanedUp (.refl _) (by simpa using hne.symm) ?_ (a.made_apart b hpq) ?_
    · exact ((List.reverse_perm _).map _).append ((List.reverse_perm _).map _)
    · refine (readsSet_append _ _).mpr ⟨by simp [ReadsSet], ?_⟩
      refine (readsSet_append _ _).mpr ⟨readsSet_init p a, ?_⟩
      refine (readsSet_append _ _).mpr ⟨readsSet_init q b, ?_⟩
      refine (readsSet_append _ _).mpr ⟨readsSet_alone c p (fun m => ?_) hfree,
        readsSet_alone d q (fun m => ?_) hfree'⟩
      · exact List.mem_append_right _ (List.mem_append_left _ (hall m))
      · exact List.mem_append_right _ (List.mem_append_left _ (mem_writtenBy_init hb q m))

end Rounds

end System

section Cleanup

variable {σ : Type}

/-- A round that ends the process leaves a descriptor open. -/
lemma not_cleanedUp_of_throws {s : System σ} {it : Iteration} (hthrows : s.Throws it) :
    ¬ CleanedUp (s.listenEvents it) := by
  intro hclean
  have hclosed := hclean.closed.length_eq
  rw [System.listenEvents_of_reaches hthrows.1, List.filterMap_append, List.filterMap_append,
    List.length_append, List.length_append] at hclosed
  have hone := System.closes_of_throws (s.connected it) hthrows.2 it.inFd it.outFd
  have hopened : ([.opened it.inFd, .opened it.outFd] : List Event).filterMap Event.opens? =
    [it.inFd, it.outFd] := rfl
  rw [hopened, List.length_cons, List.length_singleton] at hclosed
  simp only [List.filterMap_cons, List.filterMap_nil, Event.closes?, List.length_nil] at hclosed
  omega

/-- **Which rounds are cleaned up.** Take any run of the process, and behind it a round of the
listener that does not end with a pair: wherever it fails, whatever the memory of the new clients
holds, it is cleaned up exactly if no `Client::init` fails before it sets `ev_event` and nothing
throws that the round comes to: no `new Client`, no `new std::thread`, and no `client_map[..]` in
`Client::init` or `~Client`.

**Proof sketch.** A round that fails before it creates clients only has descriptors to close
(`System.cleanedUp_of_not_reaches`), and one that ends the process closes one of two at most
(`System.closes_of_throws`). Of the others the events are known (`System.handleEvents_eq`);
`~Client` frees what `Client::init` has created (`tally_alone`), and reads all members. -/
theorem listen_cleanedUp_iff (inject : Inject σ) (env : σ) (as : List Action) (s : System σ)
    (hrun : Runs.run (systemStep inject) (System.start env) as = .ok s) (it : Iteration)
    (hfail : ¬ (s.ReachesNew it ∧ it.Completes)) :
    CleanedUp (s.listenEvents it) ↔ ¬ s.FailsEarly it ∧ ¬ s.Throws it := by
  have h := System.run_paired hrun
  by_cases hreach : s.ReachesNew it
  swap
  · exact iff_of_true (System.cleanedUp_of_not_reaches hreach)
      ⟨fun hearly => hreach hearly.1, fun hthrows => hreach hthrows.1⟩
  by_cases hthrows : it.Throws
  · exact iff_of_false (not_cleanedUp_of_throws ⟨hreach, hthrows⟩)
      fun hno => hno.2 ⟨hreach, hthrows⟩
  have hfails := (it.goes_on.resolve_left fun h => hfail ⟨hreach, h⟩).resolve_right hthrows
  have hin : it.inFd ≠ -1 := by
    have := hreach.in_nonneg
    omega
  have hout : it.outFd ≠ -1 := by
    have := hreach.out_nonneg
    omega
  rw [and_iff_left fun h : s.Throws it => hthrows h.2, System.FailsEarly,
    and_iff_right hreach, System.listenEvents_of_reaches hreach,
    System.handleEvents_eq hreach hfails hthrows (fun f hf => h.find_closed hf) rfl rfl]
  by_cases hok : it.initIn.Ok
  · rw [if_pos hok,
      System.cleanedUp_both_iff hin hout hreach.ne (Nat.lt_succ_self _).ne hok rfl rfl, not_iff_not]
    obtain ⟨-, hnewOut, -⟩ := hfails.2.resolve_left fun hfails => hfails.not_ok hok
    constructor
    · exact fun hearly => ⟨hfails.1, Or.inr ⟨hok, hnewOut, hearly⟩⟩
    · rintro ⟨-, hearly | hearly⟩
      · exact absurd hearly (not_failsEarly hok)
      · exact hearly.2.2
  · rw [if_neg hok, System.cleanedUp_first_iff hin hreach.ne _ rfl, not_iff_not]
    constructor
    · exact fun hearly => ⟨hfails.1, Or.inl hearly⟩
    · rintro ⟨-, hearly | hearly⟩
      · exact hearly
      · exact absurd hearly.1 hok

/-- A round whose first `bufferevent_socket_new` fails. -/
theorem listen_cleanedUp_bufferevent :
    CleanedUp ((System.start 0 : System ℕ).listenEvents { Iteration.plain 4 5 with
      initIn := { InitAnswers.plain with buffereventNew := false } }) := by
  have hok : ¬ (InitAnswers.Ok { InitAnswers.plain with buffereventNew := false }) := by decide
  have hearly : ¬ (InitAnswers.FailsEarly { InitAnswers.plain with buffereventNew := false }) := by
    decide
  refine (listen_cleanedUp_iff (tableInject Loci.lenient Tables.zero fun _ => 0) 0 [] _ rfl _
    ?_).mpr ⟨?_, ?_⟩
  · exact fun h => hok h.2.2.1
  · rintro ⟨-, -, h | h⟩
    · exact hearly h
    · exact hok h.1
  · exact fun h => absurd h.2 (by decide)

/-- A round whose first `stream_new` fails, where the memory of the client does not happen to hold a
null pointer: `~Client` reads `ev_event`, and frees what it finds there. -/
theorem listen_cleanedUp_garbage :
    ¬ CleanedUp ((System.start 0 : System ℕ).listenEvents
      { Iteration.plain 4 5 with
        newIn := some false
        initIn := { InitAnswers.plain with streamNew := none } }) := by
  have hevents : (System.start 0 : System ℕ).listenEvents
      { Iteration.plain 4 5 with
        newIn := some false
        initIn := { InitAnswers.plain with streamNew := none } } =
      [.opened 4, .opened 5] ++ newEvents 0 ++ [.written 0 .buf, .closed 5, .read 0 .fwFd,
        .read 0 .evEvent, .freedGarbage 0] := by decide
  intro h
  have hset := h.set
  rw [hevents] at hset
  simp [newEvents, ReadsSet] at hset

end Cleanup

end Mproxy
