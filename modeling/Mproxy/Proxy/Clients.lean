import Mproxy.Lib.IndexMap
import Mproxy.Flow.OnFlowRead

set_option relaxedAutoImplicit false
set_option autoImplicit false

/-!
# Clients

The objects of `client.cpp`, the global map from descriptors to them, and what `proxy.cpp` and
`main.cpp` do with them: a round of the listener, a read callback, the end of a client's thread, and
a round of the housekeeping loop of `main`. Each of these is one step.

Every client has an identity of its own, which no later client gets, so that a pointer to a client
that was deleted is never a pointer to another one. The descriptors are numbers that the system
hands out again once they are closed.

Plain `new`, a new node of `client_map` or of `handler_pool`, and the constructor of `std::thread`
report a failure by an exception. Nobody catches one, so it ends the process: it is a fault, behind
which nothing is closed or freed. In the threads of the clients a new node of `client_map` is taken
to find memory.

Left out are the mutex that nothing uses, what libevent does besides keeping buffers, and when the
event loops end, which is whenever a thread's step is taken.

## Main definitions

* `Mproxy.Client`, `Mproxy.System` — a client, and all that the steps work on.
* `Mproxy.System.clientInit`, `Mproxy.System.deleteClient` — `Client::init` and `Client::~Client`.
* `Mproxy.System.startListen`, `Mproxy.System.flowRead`, `Mproxy.System.endThread`,
  `Mproxy.System.housekeep` — the steps.
* `Mproxy.systemStep` — the steps as a machine.
-/

namespace Mproxy

/-- A pointer to a client. -/
abbrev ClientPtr : Type := ℕ

/-- `ev_event`. The constructor leaves it as it is, so that it holds what was in the memory of the
object. -/
inductive EvEvent
  /-- never set; whether the memory happens to hold a null pointer -/
  | unset (null : Bool)
  | null
  /-- a bufferevent, with the bytes in its input and output buffer -/
  | buffers (input output : List UInt8)

/-- A `Client`. Of `ev_base` it matters only whether it is set. -/
structure Client where
  fd : ℤ
  fwFd : ℤ
  evBase : Bool
  evBuf : Option (List UInt8)
  evEvent : EvEvent
  buf : Option StreamT

namespace Client

/-- The buffers of `ev_event`, where it is used without a look at it. -/
def buffers (c : Client) : Except Fault (List UInt8 × List UInt8) :=
  match c.evEvent with
  | .unset _ => .error .unsetMember
  | .null => .error .nullDeref
  | .buffers input output => .ok (input, output)

/-- The bytes in `ev_buf`, where it is used without a look at it. -/
def evBufBytes (c : Client) : Except Fault (List UInt8) :=
  match c.evBuf with
  | none => .error .nullDeref
  | some bytes => .ok bytes

/-- `if (ev_event) bufferevent_free(ev_event)`: where `ev_event` was never set, and the memory does
not happen to hold a null pointer, what it holds is freed. -/
def freeEvent (c : Client) : Except Fault Unit :=
  match c.evEvent with
  | .unset false => .error .unsetMember
  | _ => .ok ()

/-- `*buf`, where it is used without a look at it. -/
def stream (c : Client) : Except Fault StreamT :=
  match c.buf with
  | none => .error .nullDeref
  | some s => .ok s

end Client

/-- Where the main thread is: in `Proxy::start_listen`, in the loop behind it, or behind that. -/
inductive Phase
  | listening
  | housekeeping
  | ended
  deriving DecidableEq, Repr

/-- What the steps work on. -/
structure System (σ : Type) where
  /-- `client_map` -/
  clientMap : IndexMap ℤ (Option ClientPtr)
  /-- the clients that were not deleted -/
  clients : ClientPtr → Option Client
  /-- the identity of the next client -/
  next : ClientPtr
  /-- the open descriptors -/
  isOpen : ℤ → Bool
  /-- the clients whose threads run -/
  threads : List ClientPtr
  phase : Phase
  /-- the clients that were created in one round of the listener, since the start -/
  pairs : List (ClientPtr × ClientPtr)
  /-- the state of `action_inject` -/
  env : σ

/-- The answers that `Client::init` gets: what the block of `stream_new` happens to hold, with
`none` for `NULL`, whether the calls of libevent succeed, and whether `client_map[fd]` finds memory
for a new node, or throws. -/
structure InitAnswers where
  streamNew : Option (ℕ → UInt8)
  evbufferNew : Bool
  eventBaseNew : Bool
  buffereventNew : Bool
  mapNode : Bool

/-- What a round of the listener gets from its surroundings. -/
structure Iteration where
  /-- what `accept` returns -/
  inFd : ℤ
  /-- whether `set_nonblock(in_fd)` succeeds -/
  nonblockIn : Bool
  /-- what `socket` returns in `get_outflow_fd` -/
  outFd : ℤ
  /-- whether `connect` succeeds in `get_outflow_fd` -/
  connect : Bool
  /-- whether `set_nonblock(out_fd)` succeeds -/
  nonblockOut : Bool
  /-- `new Client(in_fd, out_fd)`: `none` if it throws, or whether its `ev_event` happens to be null
  -/
  newIn : Option Bool
  initIn : InitAnswers
  /-- `delete in_cd`: whether `client_map[fw_fd]` finds memory for a new node, or throws -/
  deleteIn : Bool
  /-- `new Client(out_fd, in_fd)` -/
  newOut : Option Bool
  initOut : InitAnswers
  /-- `delete out_cd` -/
  deleteOut : Bool
  /-- whether `handler_pool.push_back(new std::thread(..))` for `out_cd` succeeds, or throws -/
  threadOut : Bool
  /-- the same for `in_cd` -/
  threadIn : Bool

section Functions

variable {σ : Type}

namespace System

variable (s : System σ)

/-- The process at its start. -/
def start (env : σ) : System σ where
  clientMap := ∅
  clients := fun _ => none
  next := 0
  isOpen := fun _ => false
  threads := []
  phase := .listening
  pairs := []
  env := env

/-! ## Pointers, descriptors and the map -/

/-- `*p` -/
def deref (p : ClientPtr) : Except Fault Client :=
  match s.clients p with
  | none => .error .useAfterFree
  | some c => .ok c

/-- Writing to `*p`. -/
def update (p : ClientPtr) (c : Client) : System σ :=
  { s with clients := Function.update s.clients p (some c) }

/-- The end of `delete p`. -/
def free (p : ClientPtr) : System σ := { s with clients := Function.update s.clients p none }

/-- `new Client(cli_fd, forward_fd)`; `null` says what the memory holds in the place of `ev_event`.
-/
def newClient (cliFd forwardFd : ℤ) (null : Bool) : System σ × ClientPtr :=
  ({ s with
      clients := Function.update s.clients s.next
        (some ⟨cliFd, forwardFd, false, none, .unset null, none⟩)
      next := s.next + 1 }, s.next)

/-- A call that returns the descriptor `fd`. An answer that is no descriptor, or one that is open
already, stands for a call that fails. -/
def openFd (fd : ℤ) : Option (System σ) :=
  if 0 ≤ fd ∧ s.isOpen fd = false then
    some { s with isOpen := Function.update s.isOpen fd true }
  else none

/-- `close(fd)` -/
def close (fd : ℤ) : System σ := { s with isOpen := Function.update s.isOpen fd false }

/-- `client_map[fd]` -/
def index (fd : ℤ) : System σ × Option ClientPtr :=
  ({ s with clientMap := (s.clientMap.index fd none).1 }, (s.clientMap.index fd none).2)

/-! ## client.cpp -/

/-- `Client::init`, and whether it returns `STATUS_OK`. -/
def clientInit (p : ClientPtr) (a : InitAnswers) : Except Fault (System σ × Bool) := do
  let c ← s.deref p
  match a.streamNew with
  | none => .ok (s.update p { c with buf := none }, false)
  | some fresh =>
    let c : Client := { c with buf := some (Mproxy.streamNew defaultStreamLen fresh) }
    if a.evbufferNew = false then .ok (s.update p { c with evBuf := none }, false)
    else
      let c : Client := { c with evBuf := some [] }
      if a.eventBaseNew = false then .ok (s.update p { c with evBase := false }, false)
      else
        let c : Client := { c with evBase := true }
        if a.buffereventNew = false then .ok (s.update p { c with evEvent := .null }, false)
        else if a.mapNode = false then .error .uncaught
        else
          let s := s.update p { c with evEvent := .buffers [] [] }
          .ok ({ s with clientMap := s.clientMap.set c.fd (some p) }, true)

/-- `Client::~Client` and the end of `delete`. -/
def deleteClient (p : ClientPtr) : Except Fault (System σ) := do
  let c ← s.deref p
  let (s, fwCli) := s.index c.fwFd
  let _ ← c.freeEvent
  let s := if c.fd ≠ -1 then s.close c.fd else s
  let s : System σ := { s with clientMap := s.clientMap.erase c.fd }
  match fwCli with
  | none => .ok (s.free p)
  | some q => do
    -- `event_base_loopbreak(fw_cli->ev_base)` only asks the loop of the pair to end
    let d ← s.deref q
    .ok ((s.update q { d with fwFd := -1 }).free p)

/-- `delete p`, where `client_map[fw_fd]` may find no memory for a new node. `~Client` begins with
it, and no exception leaves a destructor. -/
def delete (p : ClientPtr) (mapNode : Bool) : Except Fault (System σ) :=
  if mapNode = false then .error .uncaught else s.deleteClient p

/-! ## The listener -/

/-- `Proxy::get_outflow_fd`, with `none` for `STATUS_ERR`. -/
def getOutflowFd (it : Iteration) : System σ × Option ℤ :=
  match s.openFd it.outFd with
  | none => (s, none)
  | some s => if it.connect = false then (s.close it.outFd, none) else (s, some it.outFd)

/-- A round of `Proxy::start_listen` from `new Client(in_fd, out_fd)` on. The branches behind
`if (!in_cd)` and `if (!out_cd)` are never taken, since plain `new` throws instead. -/
def handleRequest (inFd outFd : ℤ) (it : Iteration) : Except Fault (System σ) :=
  match it.newIn with
  | none => .error .uncaught
  | some null => do
    let (s, inCd) := s.newClient inFd outFd null
    let (s, ok) ← s.clientInit inCd it.initIn
    if ok = false then (s.close outFd).delete inCd it.deleteIn
    else
      match it.newOut with
      | none => .error .uncaught
      | some null => do
        let (s, outCd) := s.newClient outFd inFd null
        let (s, ok) ← s.clientInit outCd it.initOut
        if ok = false then do
          let s ← s.delete inCd it.deleteIn
          s.delete outCd it.deleteOut
        else if it.threadOut = false then .error .uncaught
        else if it.threadIn = false then .error .uncaught
        else
          .ok
            { s with
              threads := s.threads ++ [outCd, inCd]
              pairs := s.pairs ++ [(inCd, outCd)] }

/-- A round of `Proxy::start_listen`. Where `accept` fails, or the socket is closed, the loop ends.
-/
def startListen (it : Iteration) : Except Fault (System σ) :=
  if s.phase ≠ .listening then .ok s
  else
    match s.openFd it.inFd with
    | none => .ok { s with phase := .housekeeping }
    | some s =>
      if it.nonblockIn = false then .ok (s.close it.inFd)
      else
        match s.getOutflowFd it with
        | (s, none) => .ok (s.close it.inFd)
        | (s, some outFd) =>
          if it.nonblockOut = false then .ok ((s.close it.inFd).close outFd)
          else s.handleRequest it.inFd outFd it

/-! ## The threads of the clients, and the housekeeping -/

/-- `on_flow_read` in the thread of the client `p`. Its pair's buffers are those of the client that
`client_map[fw_fd]` points to, which is looked at here even where no response is written to it. -/
def flowRead (inject : Inject σ) (p : ClientPtr) (ev : ReadEvent) : Except Fault (System σ) :=
  if p ∉ s.threads then .ok s
  else do
    let c ← s.deref p
    let (input, output) ← c.buffers
    let msg ← c.stream
    let (s, fwCli) := s.index c.fwFd
    match fwCli with
    | none => do
      let (flow, _) ← onFlowRead inject ⟨msg, input, [], [], s.env⟩ { ev with peerOpen := false }
      let s := s.update p { c with buf := some flow.msg, evEvent := .buffers flow.input output }
      .ok { s with env := flow.env }
    | some q => do
      let d ← s.deref q
      let (dInput, dOutput) ← d.buffers
      let dEvBuf ← d.evBufBytes
      let (flow, _) ← onFlowRead inject ⟨msg, input, dEvBuf, dOutput, s.env⟩
        { ev with peerOpen := true }
      let s := s.update p { c with buf := some flow.msg, evEvent := .buffers flow.input output }
      let s := s.update q
        { d with evBuf := some flow.evBuf, evEvent := .buffers dInput flow.output }
      .ok { s with env := flow.env }

/-- The end of `start_client_thread`, behind the event loop of the client `p`. -/
def endThread (p : ClientPtr) : Except Fault (System σ) :=
  if p ∉ s.threads then .ok s
  else do
    let s ← s.deleteClient p
    .ok { s with threads := s.threads.erase p }

/-- A round of the housekeeping loop of `main`; `first` is the key that `client_map.begin()` points
to. -/
def housekeep (first : ℤ) : Except Fault (System σ) :=
  if s.phase ≠ .housekeeping then .ok s
  else if s.clientMap.isEmpty = true then .ok { s with phase := .ended }
  else
    let s : System σ := { s with clientMap := s.clientMap.erase (-1) }
    if s.clientMap.isEmpty = true then .ok { s with phase := .ended }
    else
      match s.clientMap.find first with
      | some (some d) => do
        let _ ← s.deref d
        .ok s
      | _ => .ok s

end System

/-- A step of the process: which thread takes it, and what it gets from its surroundings. -/
inductive Action
  | listen (it : Iteration)
  | read (p : ClientPtr) (ev : ReadEvent)
  | delete (p : ClientPtr)
  | housekeep (first : ℤ)

/-- One step. -/
def systemStep (inject : Inject σ) (s : System σ) : Action → Except Fault (System σ)
  | .listen it => s.startListen it
  | .read p ev => s.flowRead inject p ev
  | .delete p => s.endThread p
  | .housekeep first => s.housekeep first

end Functions

end Mproxy
