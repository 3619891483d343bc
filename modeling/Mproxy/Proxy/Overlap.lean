import Mproxy.Proxy.Sessions
import Mproxy.Proxy.Teardown

set_option relaxedAutoImplicit false
set_option autoImplicit false

/-!
# Overlapping callbacks

`on_flow_read` and `~Client` look up the pair of their client in `client_map` and use what they
found later on, and so does the housekeeping loop of `main` with a client that it finds. No lock is
held from the one to the other, and what another thread does meanwhile can make the pointer invalid.

Here each of these calls takes two steps, with steps of other threads in between: the look-up, and
what is behind it. In front of the look-up a call only reads the client whose thread it is in. Not
every call that holds a pointer to a client that was deleted uses it: `on_flow_read` comes to
`fw_cli` at the first response that it forwards, and at a frame of length `0`.

Left out is what could happen between two frames of the same call, or within `~Client` behind the
look-up.

## Main definitions

* `Mproxy.Overlap` — the process, with the calls that its threads are in.
* `Mproxy.System.finishRead`, `Mproxy.System.destroy` — the calls behind their look-ups.
* `Mproxy.overlapStep` — the steps as a machine.
* `Mproxy.System.Alike` — processes that differ in the key `-1` of the map only.

## Main results

* `Mproxy.System.Alike.startListen`, `Mproxy.System.Alike.housekeep` and so on — the functions do
  the same to processes that are alike.
* `Mproxy.System.flowRead_eq_finishRead`, `Mproxy.System.deleteClient_eq_destroy` — the halves of a
  call, put together.
-/

namespace Mproxy

/-- The call that a thread is in, behind its look-up. -/
inductive Inside
  /-- `on_flow_read`, with its `fw_fd` and `fw_cli` -/
  | reading (fwFd : ℤ) (fwCli : Option ClientPtr)
  /-- `~Client`, with its `fw_cli` -/
  | deleting (fwCli : Option ClientPtr)

/-- `fw_cli` -/
def Inside.fwCli : Inside → Option ClientPtr
  | .reading _ fwCli => fwCli
  | .deleting fwCli => fwCli

/-- The process, with the calls that its threads are in. -/
structure Overlap (σ : Type) where
  sys : System σ
  /-- the call that the thread of a client is in -/
  inside : ClientPtr → Option Inside
  /-- `d`, where `main` is in a round of its housekeeping loop -/
  main : Option ClientPtr

/-- A step of a thread: a round of the listener, or a half of a call. -/
inductive OverlapAction
  | listen (it : Iteration)
  | startRead (p : ClientPtr)
  | finishRead (p : ClientPtr) (ev : ReadEvent)
  | startDelete (p : ClientPtr)
  | finishDelete (p : ClientPtr)
  | startHousekeep (first : ℤ)
  | finishHousekeep

/-- A thread that looks up clients. -/
inductive Thread
  | main
  | client (p : ClientPtr)

section Overlap

variable {σ : Type}

namespace System

variable (s : System σ)

/-- `on_flow_read` in the thread of the client `p`, behind the look-up of `fw_cli`. The answers of
`is_valid_fd(fw_fd)` are those of the process.

Where `fw_cli` was deleted, it is used at the first response, if `fw_fd` is open again, and for the
log line about a frame of length `0`. -/
def finishRead (inject : Inject σ) (p : ClientPtr) (fwFd : ℤ) (fwCli : Option ClientPtr)
    (ev : ReadEvent) : Except Fault (System σ) := do
  let c ← s.deref p
  let (input, output) ← c.buffers
  let msg ← c.stream
  let ev := { ev with fdValid := fun _ => s.isOpen fwFd }
  match fwCli with
  | none => do
    let (flow, _) ← onFlowRead inject ⟨msg, input, [], [], s.env⟩ { ev with peerOpen := false }
    .ok { s.update p (c.afterRead flow output) with env := flow.env }
  | some q =>
    match s.clients q with
    | some d => do
      let (dInput, dOutput) ← d.buffers
      let dEvBuf ← d.evBufBytes
      let (flow, _) ← onFlowRead inject ⟨msg, input, dEvBuf, dOutput, s.env⟩
        { ev with peerOpen := true }
      .ok { (s.update p (c.afterRead flow output)).update q (d.afterWrite flow dInput) with
        env := flow.env }
    | none => do
      -- without an open `fw_fd` the call returns at the first response
      let (flow, report) ← onFlowRead inject ⟨msg, input, [], [], s.env⟩
        { ev with peerOpen := true, fdValid := fun _ => false }
      if report.exit = .zeroLength ∨ report.exit = .fdClosed ∧ s.isOpen fwFd = true then
        .error .useAfterFree
      else .ok { s.update p (c.afterRead flow output) with env := flow.env }

/-- `Client::~Client` and the end of `delete`, behind the look-up of `fw_cli`. -/
def destroy (p : ClientPtr) (fwCli : Option ClientPtr) : Except Fault (System σ) := do
  let c ← s.deref p
  let _ ← c.freeEvent
  let s := if c.fd ≠ -1 then s.close c.fd else s
  let s : System σ := { s with clientMap := s.clientMap.erase c.fd }
  match fwCli with
  | none => .ok (s.free p)
  | some q => do
    let d ← s.deref q
    .ok ((s.update q { d with fwFd := -1 }).free p)

end System

namespace Overlap

variable (t : Overlap σ)

/-- The process at its start. -/
def start (env : σ) : Overlap σ := ⟨System.start env, fun _ => none, none⟩

/-- The thread of `p` begins a call. -/
def enter (p : ClientPtr) (i : Inside) : Overlap σ :=
  { t with inside := Function.update t.inside p (some i) }

/-- The thread of `p` is behind its call. -/
def exit (p : ClientPtr) : Overlap σ := { t with inside := Function.update t.inside p none }

/-- The call in which each client is behind the beginning of one. -/
@[simp] lemma enter_inside (t : Overlap σ) (p r : ClientPtr) (i : Inside) :
    (t.enter p i).inside r = if r = p then some i else t.inside r := by
  simp only [enter, Function.update_apply]

/-- The call in which each client is behind the end of one. -/
@[simp] lemma exit_inside (t : Overlap σ) (p r : ClientPtr) :
    (t.exit p).inside r = if r = p then none else t.inside r := by
  simp only [exit, Function.update_apply]

/-- The thread of the client `p` runs, and is in no call. -/
def Idle (p : ClientPtr) : Prop := p ∈ t.sys.threads ∧ (t.inside p).isNone

instance (p : ClientPtr) : Decidable (t.Idle p) := inferInstanceAs (Decidable (_ ∧ _))

/-- The beginning of `on_flow_read`. -/
def startRead (p : ClientPtr) : Except Fault (Overlap σ) :=
  if t.Idle p then do
    let c ← t.sys.deref p
    let (s, fwCli) := t.sys.index c.fwFd
    .ok ({ t with sys := s }.enter p (.reading c.fwFd fwCli))
  else .ok t

/-- The rest of `on_flow_read`. -/
def finishRead (inject : Inject σ) (p : ClientPtr) (ev : ReadEvent) :
    Except Fault (Overlap σ) :=
  match t.inside p with
  | some (.reading fwFd fwCli) => do
    let s ← t.sys.finishRead inject p fwFd fwCli ev
    .ok ({ t with sys := s }.exit p)
  | _ => .ok t

/-- The end of the event loop of the client `p`, and the beginning of `~Client`. -/
def startDelete (p : ClientPtr) : Except Fault (Overlap σ) :=
  if t.Idle p then do
    let c ← t.sys.deref p
    let (s, fwCli) := t.sys.index c.fwFd
    .ok ({ t with sys := s }.enter p (.deleting fwCli))
  else .ok t

/-- The rest of `~Client`, and the end of the thread. -/
def finishDelete (p : ClientPtr) : Except Fault (Overlap σ) :=
  match t.inside p with
  | some (.deleting fwCli) => do
    let s ← t.sys.destroy p fwCli
    .ok ({ t with sys := { s with threads := s.threads.erase p } }.exit p)
  | _ => .ok t

/-- A round of the housekeeping loop of `main`, up to `it->second`. -/
def startHousekeep (first : ℤ) : Overlap σ :=
  if t.main.isSome then t
  else if t.sys.phase ≠ .housekeeping then t
  else if t.sys.clientMap.isEmpty = true then { t with sys := { t.sys with phase := .ended } }
  else
    let s : System σ := { t.sys with clientMap := t.sys.clientMap.erase (-1) }
    if s.clientMap.isEmpty = true then { t with sys := { s with phase := .ended } }
    else { t with sys := s, main := (s.clientMap.find first).getD none }

/-- The rest of the round, which looks at the client. -/
def finishHousekeep : Except Fault (Overlap σ) :=
  match t.main with
  | none => .ok t
  | some d => do
    let _ ← t.sys.deref d
    .ok { t with main := none }

end Overlap

/-- One step. -/
def overlapStep (inject : Inject σ) (t : Overlap σ) : OverlapAction → Except Fault (Overlap σ)
  | .listen it => do
    let s ← t.sys.startListen it
    .ok { t with sys := s }
  | .startRead p => t.startRead p
  | .finishRead p ev => t.finishRead inject p ev
  | .startDelete p => t.startDelete p
  | .finishDelete p => t.finishDelete p
  | .startHousekeep first => .ok (t.startHousekeep first)
  | .finishHousekeep => t.finishHousekeep

/-- What `on_flow_read` does to a client that was set up, and to its pair. -/
lemma Client.Established.afterRead {c : Client} (h : c.Established) (flow : Flow σ)
    (output : List UInt8) : (c.afterRead flow output).Established :=
  ⟨h.evBase, h.evBuf, ⟨_, _, rfl⟩, ⟨_, rfl⟩⟩

/-- An established client is established behind a write to its pair. -/
lemma Client.Established.afterWrite {d : Client} (h : d.Established) (flow : Flow σ)
    (input : List UInt8) : (d.afterWrite flow input).Established :=
  ⟨h.evBase, ⟨_, rfl⟩, ⟨_, _, rfl⟩, h.buf⟩

/-! ## Processes that are alike -/

namespace System

variable {a b s s' : System σ} {p q : ClientPtr} {c : Client} {fwCli : Option ClientPtr}

/-- Two processes that are the same, except that only one of their maps may have the key `-1`, with
a null pointer. -/
inductive Alike (a : System σ) : System σ → Prop
  | intro (m : IndexMap ℤ (Option ClientPtr)) (agree : IndexMap.Agree (-1) none a.clientMap m) :
      Alike a { a with clientMap := m }

/-- A process is like itself. -/
lemma Alike.refl (a : System σ) : a.Alike a := .intro _ (.refl _)

/-- The maps of two processes that are alike. -/
lemma Alike.agree (h : a.Alike b) : IndexMap.Agree (-1) none a.clientMap b.clientMap := by
  obtain ⟨m, hm⟩ := h
  exact hm

/-- The processes may be exchanged. -/
lemma Alike.symm (h : a.Alike b) : b.Alike a := by
  obtain ⟨m, hm⟩ := h
  exact .intro a.clientMap hm.symm

/-- What is done to the other parts of two processes that are alike leaves them alike. -/
lemma Alike.map (h : a.Alike b) {f : System σ → System σ}
    (hf : ∀ s m, f { s with clientMap := m } = { f s with clientMap := m })
    (hmap : (f a).clientMap = a.clientMap) : (f a).Alike (f b) := by
  obtain ⟨m, hm⟩ := h
  rw [← hmap] at hm
  rw [hf a m]
  exact .intro m hm

/-- The clients of the one are those of the other, and so on. -/
lemma Alike.similar (h : a.Alike b) (hb : b.Paired) : b.Similar a := by
  obtain ⟨m, hm⟩ := h
  exact ⟨fun q d hq => ⟨d, hq, rfl, rfl, hb.established q d hq⟩, fun q hq => hq,
    fun f q => hm.find_iff (by simp), fun _ => rfl, le_rfl, rfl, rfl⟩

/-- The invariant of one process holds of the other one. -/
lemma Alike.paired (h : a.Alike b) (hb : b.Paired) : a.Paired := hb.of_similar (h.similar hb)

/-- The outcomes of the same function on processes that are alike. -/
abbrev Outcomes (x y : Except Fault (System σ)) : Prop := Runs.Follows x y Alike

/-- The deletion of a client is alike in processes that are alike. -/
lemma Alike.deleteClient (h : a.Alike b) (p : ClientPtr) :
    Outcomes (a.deleteClient p) (b.deleteClient p) := by
  obtain ⟨m, hm⟩ := h
  cases hc : a.clients p with
  | none =>
    have hderef : ∀ s : System σ, s.clients p = none → s.deleteClient p = .error .useAfterFree := by
      intro s hs
      rw [System.deleteClient, deref, hs]
      rfl
    rw [hderef a hc, hderef { a with clientMap := m } hc]
    exact .error _
  | some c =>
    cases hfree : c.freeEvent with
    | error e =>
      have hderef : ∀ s : System σ, s.clients p = some c → s.deleteClient p = .error e := by
        intro s hs
        rw [System.deleteClient, deref, hs, Runs.ok_bind, hfree]
        rfl
      rw [hderef a hc, hderef { a with clientMap := m } hc]
      exact .error _
    | ok u =>
      rw [deleteClient_eq hc hfree, deleteClient_eq (s := { a with clientMap := m }) hc hfree,
        ← show _ = (m.find c.fwFd).getD none from hm.getD c.fwFd]
      have hdismiss : IndexMap.Agree (-1) none (a.dismiss c).clientMap
          (dismiss { a with clientMap := m } c).clientMap := (hm.index c.fwFd).erase c.fd
      cases (a.clientMap.find c.fwFd).getD none with
      | none => exact .ok (.intro _ hdismiss)
      | some q =>
        refine Runs.Follows.bind (R := Eq) ?_ fun d d' hd => ?_
        · unfold deref
          cases a.clients q with
          | none => exact .error _
          | some d => exact .ok rfl
        · subst hd
          exact .ok (.intro _ hdismiss)

/-- So is `Client::init`, with the same answer. -/
lemma Alike.clientInit (h : a.Alike b) (p : ClientPtr) (x : InitAnswers) :
    Runs.Follows (a.clientInit p x) (b.clientInit p x) fun r r' => r.1.Alike r'.1 ∧ r.2 = r'.2 := by
  obtain ⟨m, hm⟩ := h
  cases hc : a.clients p with
  | none =>
    have hderef : ∀ s : System σ, s.clients p = none → s.clientInit p x = .error .useAfterFree := by
      intro s hs
      rw [System.clientInit, deref, hs]
      rfl
    rw [hderef a hc, hderef { a with clientMap := m } hc]
    exact .error _
  | some c =>
    have hderef : ∀ s : System σ, s.clients p = some c → s.deref p = .ok c := by
      intro s hs
      rw [deref, hs]
    rw [System.clientInit, System.clientInit, hderef a hc, hderef { a with clientMap := m } hc]
    obtain ⟨fresh, evbuffer, base, bufferevent, node⟩ := x
    cases fresh with
    | none => exact .ok ⟨.intro m hm, rfl⟩
    | some fresh =>
      cases evbuffer with
      | false => exact .ok ⟨.intro m hm, rfl⟩
      | true =>
        cases base with
        | false => exact .ok ⟨.intro m hm, rfl⟩
        | true =>
          cases bufferevent with
          | false => exact .ok ⟨.intro m hm, rfl⟩
          | true =>
            cases node with
            | false => exact .error _
            | true => exact .ok ⟨.intro _ (hm.set c.fd (some p)), rfl⟩

/-- So is `delete` in a round of the listener. -/
lemma Alike.delete (h : a.Alike b) (p : ClientPtr) (mapNode : Bool) :
    Outcomes (a.delete p mapNode) (b.delete p mapNode) := by
  unfold System.delete
  split_ifs
  · exact .error _
  · exact h.deleteClient p

/-- So is a round from the first `new Client` on. -/
lemma Alike.handleRequest (h : a.Alike b) (inFd outFd : ℤ) (it : Iteration) :
    Outcomes (a.handleRequest inFd outFd it) (b.handleRequest inFd outFd it) := by
  have hclose : ∀ {a b : System σ}, a.Alike b → ∀ fd, (a.close fd).Alike (b.close fd) := fun h fd =>
    h.map (f := fun s => s.close fd) (fun _ _ => rfl) rfl
  have hnew : ∀ {a b : System σ}, a.Alike b → ∀ fd fw null,
      (a.newClient fd fw null).1.Alike (b.newClient fd fw null).1 := fun h fd fw null =>
    h.map (f := fun s => (s.newClient fd fw null).1) (fun _ _ => rfl) rfl
  have hnext : ∀ {a b : System σ}, a.Alike b → a.next = b.next := by
    rintro a b ⟨m, -⟩
    rfl
  unfold System.handleRequest
  cases it.newIn with
  | none => exact .error _
  | some null =>
    simp only [newClient_snd]
    rw [← hnext h]
    refine ((hnew h inFd outFd null).clientInit a.next it.initIn).bind ?_
    rintro ⟨s, ok⟩ ⟨s', ok'⟩ ⟨hs, hok⟩
    obtain rfl : ok = ok' := hok
    cases ok with
    | false => exact (hclose hs outFd).delete a.next it.deleteIn
    | true =>
      cases it.newOut with
      | none => exact .error _
      | some null =>
        simp only
        rw [← hnext hs]
        refine ((hnew hs outFd inFd null).clientInit s.next it.initOut).bind ?_
        rintro ⟨s₂, ok⟩ ⟨s₂', ok'⟩ ⟨hs₂, hok⟩
        obtain rfl : ok = ok' := hok
        cases ok with
        | false =>
          exact (hs₂.delete a.next it.deleteIn).bind fun x y hxy => hxy.delete s.next it.deleteOut
        | true =>
          simp only [Bool.true_eq_false, if_false]
          split_ifs
          · exact .error _
          · exact .error _
          · exact .ok (hs₂.map (f := fun t : System σ =>
              { t with
                threads := t.threads ++ [s.next, a.next]
                pairs := t.pairs ++ [(a.next, s.next)] }) (fun _ _ => rfl) rfl)

/-- So is a round of the listener. -/
lemma Alike.startListen (h : a.Alike b) (it : Iteration) :
    Outcomes (a.startListen it) (b.startListen it) := by
  have hclose : ∀ {a b : System σ}, a.Alike b → ∀ fd, (a.close fd).Alike (b.close fd) := fun h fd =>
    h.map (f := fun s => s.close fd) (fun _ _ => rfl) rfl
  have hopen : ∀ {a b : System σ}, a.Alike b → ∀ fd, a.openFd fd = none ∧ b.openFd fd = none ∨
      ∃ s s', a.openFd fd = some s ∧ b.openFd fd = some s' ∧ s.Alike s' := by
    rintro a b ⟨m, hm⟩ fd
    by_cases hfd : 0 ≤ fd ∧ a.isOpen fd = false
    · exact Or.inr ⟨_, _, if_pos hfd, if_pos hfd, .intro m hm⟩
    · exact Or.inl ⟨if_neg hfd, if_neg hfd⟩
  have hphase : b.phase = a.phase := by
    obtain ⟨m, -⟩ := h
    rfl
  unfold System.startListen
  rw [hphase]
  by_cases hlisten : a.phase ≠ .listening
  · rw [if_pos hlisten, if_pos hlisten]
    exact .ok h
  rw [if_neg hlisten, if_neg hlisten]
  rcases hopen h it.inFd with ⟨hin, hin'⟩ | ⟨s, s', hin, hin', hs⟩
  · rw [hin, hin']
    exact .ok (h.map (f := fun s => { s with phase := .housekeeping }) (fun _ _ => rfl) rfl)
  rw [hin, hin']
  simp only
  by_cases hnonblockIn : it.nonblockIn = false
  · rw [if_pos hnonblockIn, if_pos hnonblockIn]
    exact .ok (hclose hs it.inFd)
  rw [if_neg hnonblockIn, if_neg hnonblockIn]
  unfold getOutflowFd
  rcases hopen hs it.outFd with ⟨hout, hout'⟩ | ⟨t, t', hout, hout', ht⟩
  · rw [hout, hout']
    exact .ok (hclose hs it.inFd)
  rw [hout, hout']
  simp only
  by_cases hconnect : it.connect = false
  · rw [if_pos hconnect, if_pos hconnect]
    exact .ok (hclose (hclose ht it.outFd) it.inFd)
  rw [if_neg hconnect, if_neg hconnect]
  simp only
  by_cases hnonblockOut : it.nonblockOut = false
  · rw [if_pos hnonblockOut, if_pos hnonblockOut]
    exact .ok (hclose (hclose ht it.inFd) it.outFd)
  · rw [if_neg hnonblockOut, if_neg hnonblockOut]
    exact ht.handleRequest it.inFd it.outFd it

/-- A round of housekeeping that finds no key but `-1`. -/
lemma housekeep_ends (hphase : s.phase = .housekeeping)
    (hempty : (s.clientMap.erase (-1)).isEmpty = true) (first : ℤ) :
    ∃ m, s.housekeep first = .ok { s with clientMap := m, phase := .ended } ∧
      ∀ f, m.find f = none := by
  rw [housekeep, if_neg (not_not.mpr hphase)]
  split_ifs with hall
  · exact ⟨s.clientMap, rfl, (IndexMap.isEmpty_iff _).mp hall⟩
  · exact ⟨s.clientMap.erase (-1), if_pos hempty, (IndexMap.isEmpty_iff _).mp hempty⟩

/-- A round of housekeeping that finds another key. -/
lemma housekeep_goes (hphase : s.phase = .housekeeping)
    (hsome : ¬ (s.clientMap.erase (-1)).isEmpty = true) (first : ℤ) :
    s.housekeep first =
      match (s.clientMap.erase (-1)).find first with
      | some (some d) =>
        s.deref d >>= fun _ => .ok { s with clientMap := s.clientMap.erase (-1) }
      | _ => .ok { s with clientMap := s.clientMap.erase (-1) } := by
  have hall : ¬ s.clientMap.isEmpty = true := by
    intro hall
    refine hsome ((IndexMap.isEmpty_iff _).mpr fun f => ?_)
    rw [IndexMap.find_erase, (IndexMap.isEmpty_iff _).mp hall f, ite_self]
  rw [housekeep, if_neg (not_not.mpr hphase), if_neg hall]
  exact if_neg hsome

/-- So is a round of the housekeeping. -/
lemma Alike.housekeep (h : a.Alike b) (first : ℤ) :
    Outcomes (a.housekeep first) (b.housekeep first) := by
  obtain ⟨m, hm⟩ := h
  by_cases hphase : a.phase = .housekeeping
  swap
  · rw [System.housekeep, System.housekeep, if_pos hphase, if_pos hphase]
    exact .ok (.intro m hm)
  have hkeys := hm.isEmpty_erase
  by_cases hempty : (a.clientMap.erase (-1)).isEmpty = true
  · obtain ⟨n, hn, hnone⟩ := housekeep_ends hphase hempty first
    obtain ⟨n', hn', hnone'⟩ := housekeep_ends (s := { a with clientMap := m }) hphase
      (hkeys.symm.trans hempty) first
    rw [hn, hn']
    exact .ok (.intro n' ⟨by rw [hnone, hnone'], fun f _ => by rw [hnone, hnone']⟩)
  · have hm' := hm.erase (-1)
    rw [housekeep_goes hphase hempty, housekeep_goes (s := { a with clientMap := m }) hphase
      fun h => hempty (hkeys.trans h)]
    have hfind : (a.clientMap.erase (-1)).find first = (m.erase (-1)).find first := by
      by_cases hfirst : first = -1
      · rw [IndexMap.find_erase, IndexMap.find_erase, if_pos hfirst, if_pos hfirst]
      · exact hm'.other first hfirst
    simp only [← hfind]
    split
    · refine Runs.Follows.bind (R := Eq) ?_ fun _ _ _ => .ok (.intro _ hm')
      unfold deref
      simp only
      split
      · exact .error _
      · exact .ok rfl
    · exact .ok (.intro _ hm')

/-! ## The two halves of a call -/

/-- A computation follows itself. -/
private lemma follows_self {α : Type} (x : Except Fault α) : Runs.Follows x x Eq := by
  cases x with
  | error e => exact .error e
  | ok v => exact .ok rfl

/-- So is a read callback behind its look-up, if both have found the same. -/
lemma Alike.finishRead (h : a.Alike b) (inject : Inject σ) (p : ClientPtr) (fwFd : ℤ)
    (fwCli : Option ClientPtr) (ev : ReadEvent) :
    Outcomes (a.finishRead inject p fwFd fwCli ev) (b.finishRead inject p fwFd fwCli ev) := by
  obtain ⟨m, hm⟩ := h
  unfold System.finishRead
  refine (follows_self (a.deref p)).bind ?_
  rintro c _ rfl
  refine (follows_self c.buffers).bind ?_
  rintro ⟨input, output⟩ _ rfl
  refine (follows_self c.stream).bind ?_
  rintro msg _ rfl
  cases fwCli with
  | none =>
    refine (follows_self _).bind ?_
    rintro ⟨flow, report⟩ _ rfl
    exact .ok (.intro m hm)
  | some q =>
    simp only
    cases a.clients q with
    | some d =>
      refine (follows_self d.buffers).bind ?_
      rintro ⟨dInput, dOutput⟩ _ rfl
      refine (follows_self d.evBufBytes).bind ?_
      rintro dEvBuf _ rfl
      refine (follows_self _).bind ?_
      rintro ⟨flow, report⟩ _ rfl
      exact .ok (.intro m hm)
    | none =>
      refine (follows_self _).bind ?_
      rintro ⟨flow, report⟩ _ rfl
      simp only
      split_ifs with huse
      · exact .error _
      · exact .ok (.intro m hm)

/-- So is `~Client` behind its look-up. -/
lemma Alike.destroy (h : a.Alike b) (p : ClientPtr) (fwCli : Option ClientPtr) :
    Outcomes (a.destroy p fwCli) (b.destroy p fwCli) := by
  obtain ⟨m, hm⟩ := h
  unfold System.destroy
  refine (follows_self (a.deref p)).bind ?_
  rintro c _ rfl
  refine (follows_self c.freeEvent).bind ?_
  rintro _ _ -
  have hopen : ∀ s : System σ, (if c.fd ≠ -1 then s.close c.fd else s) =
      { s with
        isOpen := if c.fd ≠ -1 then Function.update s.isOpen c.fd false else s.isOpen } := by
    intro s
    split_ifs <;> rfl
  simp only [hopen]
  cases fwCli with
  | none => exact .ok (.intro _ (hm.erase c.fd))
  | some q =>
    refine (follows_self (a.deref q)).bind ?_
    rintro d _ rfl
    exact .ok (.intro _ (hm.erase c.fd))

/-- `on_flow_read`, from the look-up on. -/
lemma flowRead_eq_finishRead (hp : p ∈ s.threads) (hc : s.clients p = some c)
    (hlive : ∀ q, s.clientMap.find c.fwFd = some (some q) → ∃ d, s.clients q = some d)
    (inject : Inject σ) (fwFd : ℤ) (ev : ReadEvent) :
    s.flowRead inject p { ev with fdValid := fun _ => s.isOpen fwFd } =
      (s.index c.fwFd).1.finishRead inject p fwFd (s.index c.fwFd).2 ev := by
  have hderef : s.deref p = .ok c := by rw [deref, hc]
  have hderef' : (s.index c.fwFd).1.deref p = .ok c := hderef
  rw [flowRead, if_neg (not_not.mpr hp), System.finishRead, hderef, hderef', Runs.ok_bind,
    Runs.ok_bind]
  cases c.buffers with
  | error e => rfl
  | ok r =>
    obtain ⟨input, output⟩ := r
    cases c.stream with
    | error e => rfl
    | ok msg =>
      simp only [Runs.ok_bind, index, IndexMap.index_snd]
      cases hfind : (s.clientMap.find c.fwFd).getD none with
      | none => rfl
      | some q =>
        obtain ⟨d, hd⟩ := hlive q (find_of_getD hfind)
        simp only [deref, hd, Runs.ok_bind]
        rfl

/-- `~Client`, from the look-up on. -/
lemma deleteClient_eq_destroy (hc : s.clients p = some c) :
    s.deleteClient p = (s.index c.fwFd).1.destroy p (s.index c.fwFd).2 := by
  have hderef : s.deref p = .ok c := by rw [deref, hc]
  have hderef' : (s.index c.fwFd).1.deref p = .ok c := hderef
  rw [deleteClient, destroy, hderef, hderef']
  rfl

end System

end Overlap

end Mproxy
