import Redp2p.HttpClient
import Redp2p.Lib.Transition

/-! The runner: commands that open, watch, stop and close operations that run in threads of their own,
and the slot table that they share. The table is a block of memory that moves when it grows, while each
thread keeps the reference to its slot that it was started with. -/

namespace Redp2p

open ByteString

/-! ### Contexts that the runner configures -/

def sweepMax : Nat := 1024
def stateDirMax : Nat := 511
def stunUrlSize : Nat := 512
def portDefault : UInt16 := 9876

/-- The part of a context that the runner sets before it starts an operation. -/
structure RunnerContext where
  index : Context
  proto : Nat
  bindPort : UInt16
  sweep : Nat
  stunUrl : Bytes
  stateDir : Bytes
  stopRequested : Bool

def RunnerContext.opened (etimeoutSec : UInt64) : RunnerContext :=
  ⟨.opened etimeoutSec, protoTcp, 0, 0, [], [], false⟩

/-- `redp2p_set_state_dir`, whose result the runner ignores. -/
def RunnerContext.setStateDir (ctx : RunnerContext) (dir : Bytes) : RunnerContext :=
  if dir.length > stateDirMax then ctx else { ctx with stateDir := dir }

/-- `redp2p_stop`. -/
def RunnerContext.stop (ctx : RunnerContext) : RunnerContext := { ctx with stopRequested := true }

inductive RunnerOp where
  | pub | con | idx
  deriving DecidableEq

def RunnerOp.ofText (text : Bytes) : Option RunnerOp :=
  if text = ascii "pub" then some .pub
  else if text = ascii "con" then some .con
  else if text = ascii "idx" then some .idx
  else none

/-! ### The slot table -/

inductive SlotState where
  | free | running | finished
  deriving DecidableEq

/-- A slot: its context, its thread while that has not been joined, and the arguments of its operation. -/
structure RunnerSlot where
  ctx : Option RunnerContext
  thread : Option Nat
  state : SlotState
  result : Int
  op : Option RunnerOp
  indexHost : Bytes
  indexPort : UInt16
  selfId : Bytes
  targetId : Bytes
  bindPort : UInt16
  host : Bytes
  port : UInt16

/-- A slot whose memory is cleared. -/
def RunnerSlot.zero : RunnerSlot := ⟨none, none, .free, 0, none, [], 0, [], [], 0, [], 0⟩

/-- The context of a slot is asked to stop while its operation runs. -/
def RunnerSlot.requestStop (slot : RunnerSlot) : RunnerSlot :=
  if slot.state = .running then { slot with ctx := slot.ctx.map RunnerContext.stop } else slot

/-- A thread, with the reference that it was started with: a block of memory and a place in it. It has
the result of its operation once that has completed. -/
structure RunnerThread where
  block : Nat
  index : Nat
  result : Option Int

/-- The slots in use, the block of memory that holds them, its capacity, and every thread that was ever
started. A block that the table has left is freed: what is written to it is lost. -/
structure Runner where
  slots : List RunnerSlot
  block : Nat
  cap : Nat
  threads : List RunnerThread

/-- What `realloc` does when the table grows. -/
inductive Growth where
  | failed | inPlace | moved
  deriving DecidableEq

namespace Runner

def start : Runner := ⟨[], 0, 0, []⟩

/-- Whether the next slot that is allocated is a new one behind the capacity of the table. -/
def grows (s : Runner) : Bool := s.slots.all (·.state != .free) && s.slots.length ≥ s.cap

/-- `kc_redp2p_runner_slot_alloc`: the first free slot, else a new one. The handle is one more than the
place. -/
def slotAlloc (s : Runner) (growth : Growth) : Option (Runner × Nat) :=
  match s.slots.findIdx? (·.state == .free) with
  | some index =>
    some ({ s with slots := s.slots.modify index fun slot =>
      { slot with state := .running, result := 0, thread := none } }, index + 1)
  | none =>
    let slots := s.slots ++ [{ RunnerSlot.zero with state := .running }]
    if s.slots.length ≥ s.cap then
      let cap := if s.cap = 0 then 8 else s.cap * 2
      match growth with
      | .failed => none
      | .inPlace => some ({ s with slots, cap }, s.slots.length + 1)
      | .moved => some ({ s with slots, cap, block := s.block + 1 }, s.slots.length + 1)
    else some ({ s with slots }, s.slots.length + 1)

/-- `kc_redp2p_runner_slot_get`: the place of a handle in range. -/
def slotGet (s : Runner) (handle : Int) : Option Nat :=
  if handle < 1 ∨ handle > s.slots.length then none else some (handle.toNat - 1)

/-- The end of `redp2p_runner_thread`: the result and then the state are stored through the reference
of the thread. -/
def complete (s : Runner) (thread : Nat) (result : Int) : Runner :=
  match s.threads[thread]? with
  | none => s
  | some t =>
    if t.result.isSome then s
    else
      let s := { s with threads := s.threads.set thread { t with result := some result } }
      if t.block = s.block then
        { s with slots := s.slots.modify t.index fun slot => { slot with result, state := .finished } }
      else s

/-- `redp2p_runner_thread_join`: it waits until the thread has completed. -/
def join (s : Runner) (index : Nat) (result : Int) : Runner :=
  match (s.slots[index]?).bind RunnerSlot.thread with
  | none => s
  | some thread =>
    let s := s.complete thread result
    { s with slots := s.slots.modify index fun slot => { slot with thread := none } }

end Runner

/-! ### Arguments of commands -/

/-- `runner_port`: an integer from 1 to 65535. -/
def runnerPort (args : JsonObject Rat) (key : String) : Option UInt16 :=
  match args.getNumber (ascii key) with
  | none => none
  | some value =>
    if value < 1 ∨ value > 65535 ∨ value.den ≠ 1 then none else some (UInt16.ofNat value.num.toNat)

/-- The conversion of a double to an integer, towards zero. -/
def truncate (value : Rat) : Int := if value < 0 then value.ceil else value.floor

/-- The text behind the last occurrence of a byte, with the text before it. -/
def splitLast (sep : UInt8) (text : Bytes) : Option (Bytes × Bytes) :=
  if text.contains sep then
    let after := (text.reverse.takeWhile (· != sep)).reverse
    some (text.take (text.length - after.length - 1), after)
  else none

/-- The name, and the host and port of an index, in an address `name@index[:port]`. -/
def runnerParseAddr (text : Bytes) : Option (Bytes × Bytes × UInt16) :=
  match splitLast 0x40 text with
  | none => none
  | some (hostname, addr) =>
    if hostname.length = 0 ∨ hostname.length ≥ idMax + 1 then none
    else
      match splitLast 0x3a addr with
      | some (host, port) =>
        if host.contains 0x3a then
          if addr.length ≥ 256 then none else some (hostname, addr, portDefault)
        else if host.length = 0 ∨ host.length ≥ 256 then none
        else (parseU port 1 65535).map fun value => (hostname, host, UInt16.ofNat value)
      | none =>
        if addr.length = 0 ∨ addr.length ≥ 256 then none else some (hostname, addr, portDefault)

/-- A password is optional, and is refused when it is invalid. -/
def runnerSetPass (ctx : RunnerContext) (args : JsonObject Rat) : Option RunnerContext :=
  match args.getString (ascii "pass") with
  | none => some ctx
  | some pass =>
    match ctx.index.setPass pass with
    | (index, .ok) => some { ctx with index }
    | _ => none

/-- `redp2p_runner_setup_client`. -/
def runnerSetupClient (ctx : RunnerContext) (args : JsonObject Rat) : Option RunnerContext := do
  let ctx ← runnerSetPass ctx args
  let ctx ←
    match runnerPort args "tcp", runnerPort args "udp" with
    | some port, _ => some { ctx with proto := protoTcp, bindPort := port }
    | none, some port => some { ctx with proto := protoUdp, bindPort := port }
    | none, none => none
  let sweep ←
    match args.getValue (ascii "sweep") with
    | none => some 0
    | some (.num value) =>
      if value < 0 ∨ value > sweepMax ∨ value.den ≠ 1 then none else some value.num.toNat
    | some _ => none
  let ctx := { ctx with sweep }
  match args.getString (ascii "stun") with
  | none => some ctx
  | some url => some (if url = [] then ctx else { ctx with stunUrl := boundedCopy stunUrlSize url })

/-- An optional count: zero when it is missing, and no count when it is no number or negative. -/
def runnerCount (args : JsonObject Rat) (key : String) : Option (Option Nat) :=
  match args.getValue (ascii key) with
  | none => some none
  | some (.num value) => if truncate value < 0 then none else some (some (truncate value).toNat)
  | some _ => none

/-- The settings of an index. -/
def runnerSetupIndex (ctx : RunnerContext) (mem : Context.VipMemory) (args : JsonObject Rat) :
    Option RunnerContext := do
  let ctx ← runnerSetPass ctx args
  let index ←
    match ← runnerCount args "seats" with
    | none => some ctx.index
    | some seats =>
      match ctx.index.setSeats seats with
      | (index, .ok) => some index
      | _ => none
  let index ←
    match ← runnerCount args "pow" with
    | none => some index
    | some bits => if (bits : Int) > powMax then none else some (index.setPow bits).1
  match index.setVip mem ((args.getString (ascii "vip")).getD []) with
  | (index, .ok _) => some { ctx with index }
  | (_, .error _) => none

/-- The text `c` with the handle, which names a consumer. -/
def consumerId (handle : Nat) : Bytes := boundedCopy (idMax + 1) (ascii "c" ++ decimal handle)

/-- The slot that `redp2p_runner_open` fills for an operation when its arguments are valid. -/
def runnerConfigure (ctx : RunnerContext) (mem : Context.VipMemory) (handle : Nat)
    (args : JsonObject Rat) : RunnerOp → Option RunnerSlot
  | .pub => do
    let (selfId, indexHost, indexPort) ← runnerParseAddr (← args.getString (ascii "addr"))
    guard (isValidId selfId)
    let ctx ← runnerSetupClient ctx args
    return { RunnerSlot.zero with ctx := ctx, selfId, indexHost, indexPort, bindPort := ctx.bindPort,
                                  op := some .pub, state := .running }
  | .con => do
    let (targetId, indexHost, indexPort) ← runnerParseAddr (← args.getString (ascii "addr"))
    guard (isValidId targetId)
    let ctx ← runnerSetupClient ctx args
    return { RunnerSlot.zero with ctx := ctx, selfId := consumerId handle, targetId, indexHost, indexPort,
                                  bindPort := ctx.bindPort, op := some .con, state := .running }
  | .idx => do
    let host := boundedCopy 256 ((args.getString (ascii "host")).getD [])
    let port ← runnerPort args "port"
    let ctx ← runnerSetupIndex ctx mem args
    return { RunnerSlot.zero with ctx := ctx, host, port, op := some .idx, state := .running }

/-! ### Commands -/

/-- What an open reads from outside: what `realloc` does, whether a context can be allocated, the record
timeout of the environment, the memory for a VIP map, whether the thread starts, and whether the reply
can be built. -/
structure OpenEnv where
  growth : Growth
  allocated : Bool
  etimeoutSec : UInt64
  vips : Context.VipMemory
  started : Bool
  replied : Bool

inductive RunnerReply where
  | none
  | opened (handle : Nat) (replied : Bool)
  | running
  | finished (result : Int)
  | stopped (handle : Int)
  | closed (handle : Int)
  deriving DecidableEq

/-- A command, with the result of the thread that it joins if that has not completed, or the completion
of a thread. -/
inductive RunnerEvent where
  | opens (env : OpenEnv) (args : JsonObject Rat)
  | status (args : JsonObject Rat)
  | stop (args : JsonObject Rat) (result : Int)
  | close (args : JsonObject Rat) (result : Int)
  | complete (thread : Nat) (result : Int)

/-- The handle of a command, as an `int`. -/
def handleOf (args : JsonObject Rat) : Option Int :=
  (args.getNumber (ascii "handle")).map fun value => (truncate value).bmod (2 ^ 32)

namespace Runner

/-- The place that a command names. -/
def target (s : Runner) (args : JsonObject Rat) : Option (Int × Nat) :=
  (handleOf args).bind fun handle => (s.slotGet handle).map fun index => (handle, index)

def setSlot (s : Runner) (index : Nat) (slot : RunnerSlot) : Runner :=
  { s with slots := s.slots.set index slot }

/-- The context that an open configures. -/
def openContext (env : OpenEnv) (args : JsonObject Rat) : Option RunnerContext :=
  if !env.allocated then none
  else
    let ctx := RunnerContext.opened env.etimeoutSec
    match args.getString (ascii "state_dir") with
    | none => some ctx
    | some dir => some (if dir = [] then ctx else ctx.setStateDir dir)

/-- `redp2p_runner_open`. An open that fails leaves its slot free and without a context. -/
def runnerOpen (s : Runner) (env : OpenEnv) (args : JsonObject Rat) : Runner × RunnerReply :=
  match (args.getString (ascii "op")).bind RunnerOp.ofText with
  | none => (s, .none)
  | some op =>
    match s.slotAlloc env.growth with
    | none => (s, .none)
    | some (s, handle) =>
      match (openContext env args).bind fun ctx => runnerConfigure ctx env.vips handle args op with
      | none => (s.setSlot (handle - 1) .zero, .none)
      | some slot =>
        if !env.started then (s.setSlot (handle - 1) .zero, .none)
        else
          ({ s.setSlot (handle - 1) { slot with thread := some s.threads.length } with
            threads := s.threads ++ [⟨s.block, handle - 1, none⟩] }, .opened handle env.replied)

def runnerStatus (s : Runner) (args : JsonObject Rat) : RunnerReply :=
  match (s.target args).bind fun target => s.slots[target.2]? with
  | none => .none
  | some slot => if slot.state = .running then .running else .finished slot.result

/-- A slot that is running is asked to stop, and its thread is joined. -/
def halt (s : Runner) (index : Nat) (result : Int) : Runner :=
  { s with slots := s.slots.modify index RunnerSlot.requestStop }.join index result

def runnerStop (s : Runner) (args : JsonObject Rat) (result : Int) : Runner × RunnerReply :=
  match s.target args with
  | none => (s, .none)
  | some (handle, index) =>
    let s := s.halt index result
    ({ s with slots := s.slots.modify index fun slot => { slot with state := .finished } },
      .stopped handle)

def runnerClose (s : Runner) (args : JsonObject Rat) (result : Int) : Runner × RunnerReply :=
  match s.target args with
  | none => (s, .none)
  | some (handle, index) =>
    let s := s.halt index result
    ({ s with slots := s.slots.modify index fun slot => { slot with ctx := none, state := .free } },
      .closed handle)

def step (s : Runner) : RunnerEvent → Runner × RunnerReply
  | .opens env args => s.runnerOpen env args
  | .status args => (s, s.runnerStatus args)
  | .stop args result => s.runnerStop args result
  | .close args result => s.runnerClose args result
  | .complete thread result => (s.complete thread result, .none)

end Runner

end Redp2p
