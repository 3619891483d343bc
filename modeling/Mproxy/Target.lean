import Mproxy.Lib.Memory
import Mproxy.Lib.Runs
import Mproxy.Rules.ArgsLayout
import Mproxy.Stream

set_option relaxedAutoImplicit false
set_option autoImplicit false

/-!
# The options of the program

`main` reads its arguments one after the other into variables, from which the proxy is made. The
host of the forward address is copied over what the buffer holds, without a terminator, and the port
is what `atoi` makes of the text behind the colon. So the host that the proxy is given may end with
what stood there before, and a text that is no number may be taken for one.

An argument is looked at with `memcmp`, which compares the terminator as well where the length says
so: `"-t"` has to be the whole argument, `"-h"` and `"--target="` only its start.

## Main definitions

* `Mproxy.parsePortNum`, `Mproxy.parseFwHost` — the values of the options.
* `Mproxy.argLoop`, `Mproxy.main` — the program up to the construction of the proxy.
* `Mproxy.Target` — an option that names a forward address.
* `Mproxy.TargetRight` — the proxy is given what the last one says.

## Main results

* `Mproxy.argLoop_targets` — a sequence of options is a run.
* `Mproxy.main_target_iff` — for which options the proxy is given what the last one says.
-/

namespace Mproxy

/-! ## The arguments of `main` -/

/-- `HOST_NAME_MAX` -/
def hostNameMax : ℕ := 64

/-- `DEFAULT_PORT` -/
def defaultPort : ℕ := 6633

/-- `DEFAULT_FW_HOST` -/
def defaultFwHost : List UInt8 := cstr "127.0.0.1"

/-- `DEFAULT_FW_PORT` -/
def defaultFwPort : ℕ := 6635

/-- `':'` -/
def colon : UInt8 := 58

/-- What the program dies of, with status 1. -/
inductive Death
  | attackerInit
  | invalidPort (val : ℕ)
  | portMissing (arg : List UInt8)
  | libevent
  | signalHandler
  deriving DecidableEq, Repr

/-- What `die` prints. -/
def Death.text : Death → List UInt8
  | .attackerInit => cstr "main: failed to attacker list data structure.\n"
  | .invalidPort val => cstr "Invalid port number \"" ++ cstr (toString val) ++ cstr "\".\n"
  | .portMissing arg => cstr "Invalid forward address \"" ++ arg ++ cstr "\": port is missing.\n"
  | .libevent => cstr "main: failed to initialize libevent.\n"
  | .signalHandler => cstr "main: failed to register signal handler.\n"

/-- How the program stops in front of the proxy: it prints the usage and returns, it dies, or what
it does is not defined by C. -/
inductive Stop
  | usage
  | die (d : Death)
  | fault (f : Fault)
  deriving DecidableEq, Repr

/-- The program ends by itself. -/
def Stop.Exits : Stop → Prop
  | .fault _ => False
  | _ => True

/-- `fw_host` -/
structure HostBuffer where
  bytes : List UInt8
  length_bytes : bytes.length = hostNameMax + 1
  deriving DecidableEq

/-- `fw_host` with its default: the bytes that it does not fill are zero. -/
def HostBuffer.default : HostBuffer :=
  ⟨defaultFwHost ++ List.replicate (hostNameMax + 1 - defaultFwHost.length) nul, by decide⟩

/-- `memcpy(hostname, s, n)` -/
def HostBuffer.copy (b : HostBuffer) (s : List UInt8) : Option HostBuffer :=
  match h : Memory.copy b.bytes 0 s with
  | none => none
  | some m => some ⟨m, (Memory.length_copy h).trans b.length_bytes⟩

/-- The string that a reader of `fw_host` meets, if it ends inside. -/
def HostBuffer.string (b : HostBuffer) : Option (List UInt8) := Memory.cstring b.bytes 0

/-- `is_valid_port`, for an unsigned number. -/
def isValidPort (x : ℕ) : Bool := decide (0 ≤ x) && decide (x ≤ 65535)

/-- `atoi`, assigned to an `unsigned int`. -/
def atoiUnsigned (arg : List UInt8) : ℕ := (atoi arg % 4294967296).toNat

/-- `parse_port_num` -/
def parsePortNum (arg : List UInt8) : Except Stop ℕ :=
  let val := atoiUnsigned arg
  if isValidPort val then .ok val else .error (.die (.invalidPort val))

/-- `parse_fw_host`. The `'\0'` that it writes over the colon is not read again. -/
def parseFwHost (arg : List UInt8) (hostname : HostBuffer) : Except Stop (HostBuffer × ℕ) :=
  match arg.findIdx? (· == colon) with
  | none => .error (.die (.portMissing arg))
  | some delim =>
    match hostname.copy (arg.take delim) with
    | none => .error (.fault .outOfBounds)
    | some hostname => do
      let port ← parsePortNum (arg.drop (delim + 1))
      .ok (hostname, port)

/-- The variables of `main`, with the paths that were passed to `attacker_read_rows`. -/
structure MainVars where
  port : ℕ
  fwHost : HostBuffer
  fwPort : ℕ
  profiles : List (List UInt8)
  deriving DecidableEq

/-- The variables in front of the loop. -/
def MainVars.start : MainVars := ⟨defaultPort, .default, defaultFwPort, []⟩

/-- `!memcmp(arg, pat, n)`, for the `n` bytes of `pat`. -/
def memcmpEq (arg pat : List UInt8) : Bool := (arg ++ [nul]).take pat.length == pat

/-- `main`, the loop over the arguments. Behind the last one stands `NULL`, which is the value of an
option that ends the arguments. -/
def argLoop (v : MainVars) : List (List UInt8) → Except Stop MainVars
  | [] => .ok v
  | arg :: rest =>
    if memcmpEq arg (cstr "-h") then .error .usage
    else if memcmpEq arg (cstr "-p" ++ [nul]) || memcmpEq arg (cstr "--port" ++ [nul]) then
      match rest with
      | [] => .error (.fault .nullDeref)
      | arg :: rest => do
        let port ← parsePortNum arg
        argLoop { v with port := port } rest
    else if memcmpEq arg (cstr "--port=") then do
      let port ← parsePortNum (arg.drop 7)
      argLoop { v with port := port } rest
    else if memcmpEq arg (cstr "-t" ++ [nul]) || memcmpEq arg (cstr "--target" ++ [nul]) then
      match rest with
      | [] => .error (.fault .nullDeref)
      | arg :: rest => do
        let (host, port) ← parseFwHost arg v.fwHost
        argLoop { v with fwHost := host, fwPort := port } rest
    else if memcmpEq arg (cstr "--target=") then do
      let (host, port) ← parseFwHost (arg.drop 9) v.fwHost
      argLoop { v with fwHost := host, fwPort := port } rest
    else if memcmpEq arg (cstr "-f" ++ [nul]) || memcmpEq arg (cstr "--profile" ++ [nul]) then
      match rest with
      | [] => .error (.fault .nullDeref)
      | arg :: rest => argLoop { v with profiles := v.profiles ++ [arg] } rest
    else if memcmpEq arg (cstr "--profile=") then
      argLoop { v with profiles := v.profiles ++ [arg.drop 10] } rest
    else argLoop v rest

/-- Which of the calls that `main` makes besides succeed. -/
structure Startup where
  attackerInit : Bool
  threadInit : Bool
  sigterm : Bool
  sigint : Bool

/-- All of them succeed. -/
def Startup.Succeeds (st : Startup) : Prop :=
  st.attackerInit = true ∧ st.threadInit = true ∧ st.sigterm = true ∧ st.sigint = true

/-- `main`, up to `new Proxy(port, fw_host, fw_port)`: the variables at that call. -/
def main (st : Startup) (argv : List (List UInt8)) : Except Stop MainVars :=
  if st.attackerInit = false then .error (.die .attackerInit)
  else do
    let v ← argLoop .start argv
    if st.threadInit = false then .error (.die .libevent)
    else if st.sigterm = false ∨ st.sigint = false then .error (.die .signalHandler)
    else .ok v

/-! ## Forward addresses -/

/-- How an option is written: `-t X`, `--target X` or `--target=X`. -/
inductive TargetForm
  | short
  | long
  | joined
  deriving DecidableEq, Repr

/-- An option that names a forward address `HOST:PORT`. -/
structure Target where
  form : TargetForm
  host : List UInt8
  port : List UInt8
  host_ne_nil : host ≠ []
  no_colon : colon ∉ host
  no_nul : nul ∉ host
  host_le : host.length ≤ hostNameMax

namespace Target

/-- `HOST:PORT` -/
def text (t : Target) : List UInt8 := t.host ++ colon :: t.port

/-- The arguments of the option. -/
def args (t : Target) : List (List UInt8) :=
  match t.form with
  | .short => [cstr "-t", t.text]
  | .long => [cstr "--target", t.text]
  | .joined => [cstr "--target=" ++ t.text]

/-- PORT is a decimal numeral in 0..65535. -/
def PortNumeral (t : Target) : Prop := Digits t.port ∧ digitsValue t.port ≤ 65535

/-- PORT is refused by the range check. -/
def PortRefused (t : Target) : Prop := 65535 < atoiUnsigned t.port

instance (t : Target) : Decidable t.PortNumeral := inferInstanceAs (Decidable (_ ∧ _))

instance (t : Target) : Decidable t.PortRefused := Nat.decLt _ _

end Target

/-- The argument is none of the options. -/
def NoOption (arg : List UInt8) : Prop :=
  ∀ pat ∈ [cstr "-h", cstr "-p" ++ [nul], cstr "--port" ++ [nul], cstr "--port=",
    cstr "-t" ++ [nul], cstr "--target" ++ [nul], cstr "--target=",
    cstr "-f" ++ [nul], cstr "--profile" ++ [nul], cstr "--profile="], memcmpEq arg pat = false

instance (arg : List UInt8) : Decidable (NoOption arg) := List.decidableBAll _ _

/-- The arguments of the program: its name and the options. -/
def targetArgv (prog : List UInt8) (ts : List Target) : List (List UInt8) :=
  prog :: ts.flatMap Target.args

/-- What is asked of the program: if every PORT is a numeral, the proxy is given HOST and PORT of
the last option; and it is over with a PORT that is not. -/
structure TargetRight (prog : List UInt8) (ts : List Target) : Prop where
  passed : (∀ t ∈ ts, t.PortNumeral) → ∀ last ∈ ts.getLast?, ∀ st : Startup, st.Succeeds →
    ∃ v, main st (targetArgv prog ts) = .ok v ∧ v.fwHost.string = some last.host ∧
      v.fwPort = digitsValue last.port
  refused : ∀ before t after, ts = before ++ t :: after → ¬ t.PortNumeral →
    ∃ stop, argLoop .start (targetArgv prog (before ++ [t])) = .error stop ∧ stop.Exits

/-- HOST of the last option covers the default and HOST of every other option. -/
def LastCovers (ts : List Target) : Prop :=
  ∀ last ∈ ts.getLast?, defaultFwHost.length ≤ last.host.length ∧
    ∀ t ∈ ts, t.host.length ≤ last.host.length

instance (ts : List Target) : Decidable (LastCovers ts) :=
  inferInstanceAs (Decidable (∀ last ∈ ts.getLast?, _ ∧ ∀ t ∈ ts, _ ≤ _))

/-! ## The buffer -/

namespace HostBuffer

/-- What a host leaves in the buffer: its bytes, and behind them what was there. -/
lemma copy_spec (b : HostBuffer) {s : List UInt8} (hs : s.length ≤ hostNameMax) :
    ∃ b', b.copy s = some b' ∧
      ∀ i, b'.bytes[i]? = if i < s.length then s[i]? else b.bytes[i]? := by
  have hle : 0 + s.length ≤ b.bytes.length := by
    rw [b.length_bytes]
    omega
  obtain ⟨m, hm⟩ : ∃ m, Memory.copy b.bytes 0 s = some m := ⟨_, if_pos hle⟩
  refine ⟨⟨m, (Memory.length_copy hm).trans b.length_bytes⟩, ?_, fun i => ?_⟩
  · unfold copy
    split
    · rw [hm] at *
      contradiction
    · rename_i m' hm'
      obtain rfl := Option.some.inj (hm.symm.trans hm')
      rfl
  · simpa using Memory.getElem?_copy hm i

/-- The zero bytes of the default. -/
lemma default_zero_iff {i : ℕ} (hi : i ≤ hostNameMax) :
    default.bytes[i]? = some 0 ↔ defaultFwHost.length ≤ i := by
  have hall : ∀ j : Fin (hostNameMax + 1),
      default.bytes[(j : ℕ)]? = some 0 ↔ defaultFwHost.length ≤ (j : ℕ) := by decide
  exact hall ⟨i, Nat.lt_succ_of_le hi⟩

end HostBuffer

/-! ## One option -/

section Step

variable {v : MainVars} {t : Target} {rest : List (List UInt8)}

/-- The loop over the arguments, at an option that names a forward address. -/
def targetStep (v : MainVars) (t : Target) : Except Stop MainVars := do
  let (host, port) ← parseFwHost t.text v.fwHost
  .ok { v with fwHost := host, fwPort := port }

/-- However the option is written, the loop reads its forward address. -/
lemma argLoop_target :
    argLoop v (t.args ++ rest) = (targetStep v t >>= fun v' => argLoop v' rest) := by
  have hstep : ∀ (x : Except Stop (HostBuffer × ℕ)),
      (x >>= fun a => argLoop { v with fwHost := a.1, fwPort := a.2 } rest) =
      ((x >>= fun a => Except.ok { v with fwHost := a.1, fwPort := a.2 }) >>=
        fun v' => argLoop v' rest) := by
    rintro (e | a) <;> rfl
  unfold targetStep Target.args
  cases t.form with
  | short => exact hstep _
  | long => exact hstep _
  | joined =>
    rw [List.singleton_append, argLoop.eq_def]
    exact hstep _

/-- `parse_fw_host` of a host and a port: the host is in the buffer, over what was there, and the
port is what the digits give. -/
lemma parseFwHost_text (b : HostBuffer) :
    ∃ b', (∀ i, b'.bytes[i]? = if i < t.host.length then t.host[i]? else b.bytes[i]?) ∧
      parseFwHost t.text b = (parsePortNum t.port >>= fun port => .ok (b', port)) := by
  obtain ⟨b', hcopy, hbytes⟩ := b.copy_spec t.host_le
  have hfind : t.text.findIdx? (· == colon) = some t.host.length := by
    unfold Target.text
    rw [List.findIdx?_append]
    have hnone : t.host.findIdx? (· == colon) = none := by
      rw [List.findIdx?_eq_none_iff]
      intro c hc
      have : c ≠ colon := fun h => t.no_colon (h ▸ hc)
      simpa using this
    simp [hnone, List.findIdx?_cons]
  refine ⟨b', hbytes, ?_⟩
  unfold parseFwHost
  rw [hfind]
  simp only
  rw [show t.text.take t.host.length = t.host by simp [Target.text], hcopy]
  simp [Target.text]

/-- A value that the range check accepts is given on. -/
lemma parsePortNum_accepted {arg : List UInt8} (h : ¬ 65535 < atoiUnsigned arg) :
    parsePortNum arg = .ok (atoiUnsigned arg) := by
  have hvalid : isValidPort (atoiUnsigned arg) = true := by simpa [isValidPort] using h
  simp [parsePortNum, hvalid]

/-- Every other value ends the program. -/
lemma parsePortNum_refused {arg : List UInt8} (h : 65535 < atoiUnsigned arg) :
    parsePortNum arg = .error (.die (.invalidPort (atoiUnsigned arg))) := by
  have hvalid : isValidPort (atoiUnsigned arg) = false := by simpa [isValidPort] using h
  simp [parsePortNum, hvalid]

/-- A numeral in the range gives its value. -/
lemma Target.PortNumeral.value (h : t.PortNumeral) : atoiUnsigned t.port = digitsValue t.port := by
  obtain ⟨hdigits, hle⟩ := h
  rw [atoiUnsigned, atoi_digits hdigits (by omega)]
  omega

/-- **One option.** It dies of a PORT that the range check refuses. Otherwise it sets the port, and
the bytes of the buffer that its HOST covers. -/
lemma targetStep_spec (v : MainVars) (t : Target) :
    (t.PortRefused → targetStep v t = .error (.die (.invalidPort (atoiUnsigned t.port)))) ∧
    (¬ t.PortRefused → ∃ v', targetStep v t = .ok v' ∧ v'.fwPort = atoiUnsigned t.port ∧
      ∀ i, v'.fwHost.bytes[i]? =
        if i < t.host.length then t.host[i]? else v.fwHost.bytes[i]?) := by
  obtain ⟨b', hbytes, hparse⟩ := @parseFwHost_text t v.fwHost
  unfold targetStep
  rw [hparse]
  constructor
  · intro h
    rw [parsePortNum_refused h]
    rfl
  · intro h
    rw [parsePortNum_accepted h]
    exact ⟨{ v with fwHost := b', fwPort := atoiUnsigned t.port }, rfl, rfl, hbytes⟩

end Step

/-! ## A sequence of options -/

section Run

variable {v v' : MainVars} {ts : List Target}

/-- **A sequence of options is a run** of the steps for its elements. -/
lemma argLoop_targets (v : MainVars) (ts : List Target) :
    argLoop v (ts.flatMap Target.args) = Runs.run targetStep v ts := by
  induction ts generalizing v with
  | nil => rfl
  | cons t ts ih =>
    rw [List.flatMap_cons, argLoop_target, Runs.run_cons]
    congr 1
    funext v'
    exact ih v'

/-- The name of the program is passed over. -/
lemma argLoop_prog {prog : List UInt8} (hprog : NoOption prog) (v : MainVars)
    (rest : List (List UInt8)) : argLoop v (prog :: rest) = argLoop v rest := by
  unfold NoOption at hprog
  simp only [List.forall_mem_cons] at hprog
  obtain ⟨h₁, h₂, h₃, h₄, h₅, h₆, h₇, h₈, h₉, h₁₀, -⟩ := hprog
  rw [argLoop.eq_def]
  simp [h₁, h₂, h₃, h₄, h₅, h₆, h₇, h₈, h₉, h₁₀]

/-- A byte of the buffer is zero behind the options if it was before, and no HOST reached it. -/
lemma run_zero_iff (hrun : Runs.run targetStep v ts = .ok v') (i : ℕ) :
    v'.fwHost.bytes[i]? = some 0 ↔
      v.fwHost.bytes[i]? = some 0 ∧ ∀ t ∈ ts, t.host.length ≤ i := by
  induction ts generalizing v with
  | nil =>
    obtain rfl : v = v' := by simpa using hrun
    simp
  | cons t ts ih =>
    obtain ⟨v₁, hstep, hrest⟩ := Runs.bind_eq_ok.mp hrun
    have href : ¬ t.PortRefused := by
      intro h
      rw [(targetStep_spec v t).1 h] at hstep
      cases hstep
    obtain ⟨v₂, hstep', -, hbytes⟩ := (targetStep_spec v t).2 href
    obtain rfl := Except.ok.inj (hstep.symm.trans hstep')
    rw [ih hrest, hbytes, List.forall_mem_cons]
    by_cases hi : i < t.host.length
    · -- a byte of the HOST, which is not zero
      have hne : t.host[i]? ≠ some 0 := fun h => t.no_nul (List.mem_of_getElem? h)
      rw [if_pos hi]
      constructor
      · rintro ⟨h, -⟩
        exact absurd h hne
      · rintro ⟨-, h, -⟩
        omega
    · rw [if_neg hi]
      constructor
      · rintro ⟨h, hts⟩
        exact ⟨h, by omega, hts⟩
      · rintro ⟨h, -, hts⟩
        exact ⟨h, hts⟩

/-- The options are read to their end exactly if the range check refuses no PORT. -/
lemma run_ok_iff (v : MainVars) (ts : List Target) :
    (∃ v', Runs.run targetStep v ts = .ok v') ↔ ∀ t ∈ ts, ¬ t.PortRefused := by
  induction ts generalizing v with
  | nil => simp
  | cons t ts ih =>
    rw [List.forall_mem_cons, Runs.run_cons]
    by_cases href : t.PortRefused
    · rw [(targetStep_spec v t).1 href]
      simp [href]
    · obtain ⟨v₁, hstep, -⟩ := (targetStep_spec v t).2 href
      rw [hstep, Runs.ok_bind, ih v₁]
      simp [href]

/-- A PORT that ends the program is the only thing that does. -/
lemma run_error {stop : Stop} (h : Runs.run targetStep v ts = .error stop) : stop.Exits := by
  induction ts generalizing v with
  | nil => cases h
  | cons t ts ih =>
    rcases Runs.bind_eq_error.mp h with hstep | ⟨v₁, -, hrest⟩
    · by_cases href : t.PortRefused
      · rw [(targetStep_spec v t).1 href] at hstep
        obtain rfl := Except.error.inj hstep
        trivial
      · obtain ⟨v₁, hstep', -⟩ := (targetStep_spec v t).2 href
        rw [hstep'] at hstep
        cases hstep
    · exact ih hrest

/-- The last option sets the port, and the start of the buffer. -/
lemma run_last {last : Target} (hrun : Runs.run targetStep v (ts ++ [last]) = .ok v') :
    v'.fwPort = atoiUnsigned last.port ∧
      ∀ i < last.host.length, v'.fwHost.bytes[i]? = last.host[i]? := by
  rw [Runs.run_append] at hrun
  obtain ⟨v₁, -, hlast⟩ := Runs.bind_eq_ok.mp hrun
  obtain ⟨v₂, hstep, hnil⟩ := Runs.bind_eq_ok.mp hlast
  obtain rfl : v₂ = v' := by simpa using hnil
  have href : ¬ last.PortRefused := by
    intro h
    rw [(targetStep_spec v₁ last).1 h] at hstep
    cases hstep
  obtain ⟨v₃, hstep', hport, hbytes⟩ := (targetStep_spec v₁ last).2 href
  obtain rfl := Except.ok.inj (hstep.symm.trans hstep')
  exact ⟨hport, fun i hi => by rw [hbytes, if_pos hi]⟩

/-- **The host behind the options** is the last HOST exactly if that covers all others and the
default: its bytes are there, so the question is whether a zero byte follows. -/
lemma run_string_iff {last : Target}
    (hrun : Runs.run targetStep .start (ts ++ [last]) = .ok v') :
    v'.fwHost.string = some last.host ↔ LastCovers (ts ++ [last]) := by
  have hcovers : LastCovers (ts ++ [last]) ↔ defaultFwHost.length ≤ last.host.length ∧
      ∀ t ∈ ts ++ [last], t.host.length ≤ last.host.length := by
    simp [LastCovers]
  unfold HostBuffer.string
  rw [Memory.cstring_eq_some_iff last.no_nul, hcovers, ← HostBuffer.default_zero_iff last.host_le,
    Nat.zero_add, run_zero_iff hrun]
  refine and_iff_right fun i hi => ?_
  rw [Nat.zero_add]
  exact (run_last hrun).2 i hi

end Run

/-! ## What the proxy is given -/

section Main

variable {prog : List UInt8}

/-- A numeral that is a port is not refused. -/
lemma Target.PortNumeral.accepted {t : Target} (h : t.PortNumeral) : ¬ t.PortRefused := by
  unfold Target.PortRefused
  rw [h.value]
  exact Nat.not_lt.mpr h.2

/-- The arguments are read as a run over the options. -/
lemma argLoop_targetArgv (hprog : NoOption prog) (ts : List Target) :
    argLoop .start (targetArgv prog ts) = Runs.run targetStep .start ts := by
  rw [targetArgv, argLoop_prog hprog, argLoop_targets]

/-- In a startup where nothing fails, `main` is the loop over the options. -/
lemma main_succeeds {st : Startup} (hst : st.Succeeds) (argv : List (List UInt8)) :
    main st argv = argLoop .start argv := by
  obtain ⟨h₁, h₂, h₃, h₄⟩ := hst
  unfold main
  cases argLoop .start argv <;> simp [h₁, h₂, h₃, h₄]

/-- The proxy is given the last HOST and PORT, where every PORT is a numeral. -/
lemma passed_iff (hprog : NoOption prog) {ts : List Target} (hnum : ∀ t ∈ ts, t.PortNumeral) :
    (∀ last ∈ ts.getLast?, ∀ st : Startup, st.Succeeds →
      ∃ v, main st (targetArgv prog ts) = .ok v ∧ v.fwHost.string = some last.host ∧
        v.fwPort = digitsValue last.port) ↔ LastCovers ts := by
  obtain ⟨v, hrun⟩ := (run_ok_iff .start ts).mpr fun t ht => (hnum t ht).accepted
  have hmain : ∀ st : Startup, st.Succeeds → main st (targetArgv prog ts) = .ok v := by
    intro st hst
    rw [main_succeeds hst, argLoop_targetArgv hprog, hrun]
  rcases List.eq_nil_or_concat ts with rfl | ⟨before, last, hts⟩
  · simp [LastCovers]
  · rw [List.concat_eq_append] at hts
    subst hts
    have hlast : ∀ t, t ∈ (before ++ [last]).getLast? ↔ last = t := by simp
    rw [← run_string_iff hrun]
    constructor
    · intro h
      obtain ⟨v', hv', hstring, -⟩ := h last ((hlast last).mpr rfl) ⟨true, true, true, true⟩
        ⟨rfl, rfl, rfl, rfl⟩
      rw [hmain _ ⟨rfl, rfl, rfl, rfl⟩] at hv'
      obtain rfl := Except.ok.inj hv'
      exact hstring
    · intro hstring t ht st hst
      obtain rfl := (hlast t).mp ht
      refine ⟨v, hmain st hst, hstring, ?_⟩
      rw [(run_last hrun).1, (hnum last (by simp)).value]

/-- A PORT that is no numeral ends the program, where the range check refuses the first such PORT.
The PORTs in front of it are accepted. -/
lemma refused_iff (hprog : NoOption prog) (ts : List Target) :
    (∀ before t after, ts = before ++ t :: after → ¬ t.PortNumeral →
      ∃ stop, argLoop .start (targetArgv prog (before ++ [t])) = .error stop ∧ stop.Exits) ↔
    ∀ t ∈ ts.find? (fun t => decide (¬ t.PortNumeral)), t.PortRefused := by
  have hends : ∀ us, (∃ stop, argLoop .start (targetArgv prog us) = .error stop ∧ stop.Exits) ↔
      ∃ u ∈ us, u.PortRefused := by
    intro us
    rw [argLoop_targetArgv hprog]
    constructor
    · rintro ⟨stop, hstop, -⟩
      by_contra hno
      obtain ⟨v, hv⟩ := (run_ok_iff .start us).mpr fun u hu href => hno ⟨u, hu, href⟩
      rw [hv] at hstop
      cases hstop
    · rintro ⟨u, hu, href⟩
      cases hrun : Runs.run targetStep .start us with
      | error stop => exact ⟨stop, rfl, run_error hrun⟩
      | ok v => exact absurd href ((run_ok_iff .start us).mp ⟨v, hrun⟩ u hu)
  simp only [hends]
  constructor
  · intro h t ht
    obtain ⟨hnum, before, after, rfl, hbefore⟩ := List.find?_eq_some_iff_append.mp ht
    obtain ⟨u, hu, href⟩ := h before t after rfl (by simpa using hnum)
    rcases List.mem_append.mp hu with hu | hu
    · have hnum' : u.PortNumeral := by simpa using hbefore u hu
      exact absurd href hnum'.accepted
    · exact List.mem_singleton.mp hu ▸ href
  · rintro h before t after rfl hnum
    rw [List.find?_append, List.find?_cons_of_pos (by simpa using hnum)] at h
    cases hfind : before.find? (fun t => decide (¬ t.PortNumeral)) with
    | none =>
      rw [hfind] at h
      exact ⟨t, by simp, h t rfl⟩
    | some u =>
      rw [hfind] at h
      exact ⟨u, List.mem_append_left _ (List.mem_of_find?_eq_some hfind), h u rfl⟩

/-- **For which options the proxy is given what the last one says.** For every sequence of options:
where every PORT is a numeral, if the last HOST is not shorter than the default nor than another
HOST; and where one is not, if the range check refuses the first such PORT.

**Proof sketch.** The arguments are read as a run (`argLoop_targetArgv`). Its last step writes the
last HOST, without a terminator, so the byte behind it has to be zero (`run_string_iff`); it was in
the default, and stays so until a HOST reaches it (`run_zero_iff`). A run ends the program exactly
with a PORT that is refused (`run_ok_iff`). -/
theorem main_target_iff (hprog : NoOption prog) (ts : List Target) :
    TargetRight prog ts ↔
      ((∀ t ∈ ts, t.PortNumeral) → LastCovers ts) ∧
      ∀ t ∈ ts.find? (fun t => decide (¬ t.PortNumeral)), t.PortRefused := by
  rw [← refused_iff hprog ts]
  constructor
  · rintro ⟨hpassed, hrefused⟩
    exact ⟨fun hnum => (passed_iff hprog hnum).mp (hpassed hnum), hrefused⟩
  · rintro ⟨hcovers, hrefused⟩
    exact ⟨fun hnum => (passed_iff hprog hnum).mpr (hcovers hnum), hrefused⟩

/-- The option `-t 192.168.0.1:80`. -/
def targetAddress : Target :=
  ⟨.short, cstr "192.168.0.1", cstr "80", by decide, by decide, by decide, by decide⟩

/-- A HOST that is longer than the default. -/
theorem main_target_longer : TargetRight (cstr "mproxy") [targetAddress] :=
  (main_target_iff (by decide +kernel) [targetAddress]).mpr (by decide +kernel)

/-- The option `-t a:80`. -/
def targetName : Target := ⟨.short, cstr "a", cstr "80", by decide, by decide, by decide, by decide⟩

/-- A HOST that is shorter than the default: the proxy is given `"a27.0.0.1"`. -/
theorem main_target_shorter : ¬ TargetRight (cstr "mproxy") [targetName] := by
  intro h
  obtain ⟨v, hmain, hhost, -⟩ := h.passed (by decide +kernel) targetName rfl
    ⟨true, true, true, true⟩ ⟨rfl, rfl, rfl, rfl⟩
  have hv : (main ⟨true, true, true, true⟩ (targetArgv (cstr "mproxy") [targetName])).map
      (fun v => v.fwHost.string) = .ok (some (cstr "a27.0.0.1")) := by decide +kernel
  rw [hmain] at hv
  have heq : v.fwHost.string = some (cstr "a27.0.0.1") := Except.ok.inj hv
  rw [hhost] at heq
  exact absurd heq (by decide +kernel)

end Main

end Mproxy
