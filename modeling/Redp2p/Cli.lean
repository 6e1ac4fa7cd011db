import Redp2p.Environment
import Redp2p.Runner
import Redp2p.Lib.Arguments

/-! The command line program: how it reads its arguments and its environment, and the request that it then
makes to the runner of the library. -/

namespace Redp2p.Cli

open ByteString

/-! ### Texts -/

/-- `parse_decimal` and `parse_int`, whose loop is that of `redp2p_parse_u`. -/
def parseDecimal (text : Bytes) (min max : Nat) : Option Nat := parseU text min max

def parsePort (text : Bytes) : Option UInt16 := (parseDecimal text 1 65535).map UInt16.ofNat

/-- What follows the bracket that closes a host. -/
def parseBracketTail (host : Bytes) : Bytes → Option (Bytes × UInt16)
  | [] => some (host, portDefault)
  | 0x3a :: port =>
    if port = [] then none else (parseDecimal port 1 65535).map fun value => (host, UInt16.ofNat value)
  | _ => none

/-- `parse_addr`: a host with a port, as `host`, `host:port`, `[host]` or `[host]:port`. -/
def parseAddr (text : Bytes) (hostSz : Nat) : Option (Bytes × UInt16) :=
  match text with
  | [] => none
  | 0x5b :: rest =>
    if !rest.contains 0x5d then none
    else
      let host := rest.takeWhile (· != 0x5d)
      if host.length = 0 ∨ host.length ≥ hostSz then none
      else parseBracketTail host (rest.drop (host.length + 1))
  | text =>
    match splitLast 0x3a text with
    | some (host, port) =>
      if host.contains 0x3a then if text.length ≥ hostSz then none else some (text, portDefault)
      else if host = [] ∨ port = [] then none
      else if host.length ≥ hostSz then none
      else (parseDecimal port 1 65535).map fun value => (host, UInt16.ofNat value)
    | none => if text.length ≥ hostSz then none else some (text, portDefault)

/-- `parse_hostspec`: the name, and the host and port of the index. -/
def parseHostspec (spec : Bytes) (hnSz iaSz : Nat) : Option (Bytes × Bytes × UInt16) :=
  if spec = [] then none
  else
    match splitLast 0x40 spec with
    | none => none
    | some (hostname, addr) =>
      if hostname.length = 0 ∨ hostname.length ≥ hnSz then none
      else (parseAddr addr iaSz).map fun idx => (hostname, idx)

/-! ### Options -/

/-- `redp2p_options_t`. -/
structure Options where
  seats : Nat
  pow : Nat
  pass : Bytes
  vip : Option Bytes
  sweep : Nat
  stunUrl : Bytes

def stunUrlSz : Nat := 256

/-- `redp2p_options_default`. -/
def optionsDefault : Options := ⟨0, 0, [], none, 20, []⟩

/-- What a command reads from outside: its environment, and whether the copy of a VIP map and the request
can be allocated. -/
structure Host where
  getenv : Environment
  copied : Bool
  built : Bool

/-- A valid number of seats. -/
def envSeats (text : Bytes) : Option Nat :=
  (parseSize text).bind fun seats => if seats ≤ sizeMax / peerSize then some seats else none

/-- `redp2p_options_load_env`. -/
def optionsLoadEnv (host : Host) (opts : Options) : Options where
  seats := ((host.getenv "REDP2P_SEATS").bind envSeats).getD opts.seats
  pow := ((host.getenv "REDP2P_POW").bind fun val => parseEnv val 0 powMax.toNat).getD opts.pow
  sweep := ((host.getenv "REDP2P_SWEEP").bind fun val => parseEnv val 0 sweepMax).getD opts.sweep
  pass := ((host.getenv "REDP2P_PASS").map fun val => val.take passMax).getD opts.pass
  vip :=
    match host.getenv "REDP2P_VIP" with
    | none => opts.vip
    | some val => if host.copied then some val else none
  stunUrl := ((host.getenv "REDP2P_STUN").map fun val => boundedCopy stunUrlSz val).getD opts.stunUrl

/-- `load_index_options`: the options, and whether seats were set. -/
def loadIndexOptions (host : Host) (opts : Options) (seatsSet : Bool) : Option (Options × Bool) :=
  let loaded :=
    match host.getenv "REDP2P_SEATS" with
    | none => some (opts.seats, seatsSet)
    | some value => (envSeats value).map fun seats => (seats, true)
  loaded.bind fun (seats, seatsSet) =>
    let opts := { opts with
      seats
      pow := ((host.getenv "REDP2P_POW").bind fun value => parseDecimal value 0 32).getD opts.pow
      pass := ((host.getenv "REDP2P_PASS").map fun value => value.take passMax).getD opts.pass }
    match host.getenv "REDP2P_VIP" with
    | none => some (opts, seatsSet)
    | some value => if host.copied then some ({ opts with vip := some value }, seatsSet) else none

/-! ### Files -/

def stateDirSz : Nat := 1024
def pidPathSz : Nat := 1280

/-- `cli_sanitize_addr`. -/
def sanitizeAddr (addr : Bytes) (outSz : Nat) : Option Bytes :=
  if addr.length ≥ outSz then none
  else some (addr.map fun c => if c = 0x2e ∨ c = 0x3a ∨ c = 0x40 then 0x5f else c)

/-- `cli_state_dir` for a program without an option for the directory. -/
def cliStateDir (getenv : Environment) : Option Bytes :=
  match getenv "REDP2P_STATE_DIR", getenv "HOME" with
  | some (b :: base), _ => some (boundedCopy stateDirSz (b :: base))
  | _, some (b :: base) => some (boundedCopy stateDirSz (b :: base ++ ascii "/.local/share/redp2p"))
  | _, _ => none

/-- `cli_pid_path`. -/
def pidPath (stateDir cmd addr : Bytes) : Option Bytes :=
  let path (name : Bytes) :=
    boundedCopy pidPathSz (stateDir ++ ascii "/pids/" ++ cmd ++ ascii "_" ++ name ++ ascii ".pid")
  if cmd = ascii "idx" then some (path addr) else (sanitizeAddr addr 256).map path

/-! ### What a command comes to -/

/-- What a command comes to before it waits for anything: a line of text on the error stream and exit
status 1, the note on pruning, a listing of the index at a port, the stop of the process that a file names,
or a request to open an operation, with the path of the file for its process. -/
inductive Outcome where
  | fails (message : Bytes)
  | prunes
  | lists (port : UInt16)
  | stops (pidPath : Bytes)
  | opens (args : JsonObject Rat) (pidPath : Option Bytes)

/-- `json_object_set_number` for an integer, which becomes a double. The request is written as text, with
as many digits as a double needs, and is read back as it was. -/
def setNumber (obj : JsonObject Rat) (name : String) (n : Nat) : JsonObject Rat :=
  obj.setValue (ascii name) (.num (toDouble n : Nat))

/-- A number that is added to a request when it was set. -/
def setCount (obj : JsonObject Rat) (name : String) (set : Bool) (n : Nat) : JsonObject Rat :=
  if set then setNumber obj name n else obj

/-- A text that is added to a request unless it is empty. -/
def setText (obj : JsonObject Rat) (name : String) (text : Bytes) : JsonObject Rat :=
  if text = [] then obj else obj.setString (ascii name) text

/-- A text that is added to a request when there is one. -/
def setOptional (obj : JsonObject Rat) (name : String) : Option Bytes → JsonObject Rat
  | none => obj
  | some text => obj.setString (ascii name) text

/-- The text that a command is refused with when an option lacks its value. -/
def requires (option what : String) : Bytes := ascii option ++ ascii " requires " ++ ascii what

def invalid (what : String) (text : Bytes) : Bytes :=
  ascii "invalid " ++ ascii what ++ ascii " '" ++ text ++ ascii "'"

def unknownOption (option : Bytes) : Bytes := ascii "unknown option '" ++ option ++ ascii "'"

/-! ### The index -/

/-- What the options of `idx` set. The port is 0 until it is given. -/
structure IdxArgs where
  port : UInt16
  seats : Nat
  powBits : Nat
  seatsSet : Bool
  seatsOptionSet : Bool
  powOptionSet : Bool
  listMode : Bool
  pruneMode : Bool
  downMode : Bool

def IdxArgs.initial (opts : Options) : IdxArgs :=
  ⟨0, opts.seats, opts.pow, false, false, false, false, false, false⟩

def isDown (option : Bytes) : Bool := option == ascii "--down" || option == ascii "-d"
def isSeats (option : Bytes) : Bool := option == ascii "--seats"
def isPow (option : Bytes) : Bool := option == ascii "--pow"

/-- One turn of the option loop of `idx`. -/
def takeIdx (a : IdxArgs) : Bytes × Option Bytes → Except Bytes IdxArgs
  | (option, value) =>
    if option = ascii "--list" ∨ option = ascii "-l" then .ok { a with listMode := true }
    else if option = ascii "--prune" ∨ option = ascii "-p" then .ok { a with pruneMode := true }
    else if isDown option then .ok { a with downMode := true }
    else if isSeats option then
      match value with
      | none => .error (requires "--seats" "an argument")
      | some text =>
        match parseSize text with
        | none => .error (invalid "--seats" text)
        | some seats => .ok { a with seats, seatsSet := true, seatsOptionSet := true }
    else if isPow option then
      match value with
      | none => .error (requires "--pow" "an argument")
      | some text =>
        match parseDecimal text 0 32 with
        | none => .error (invalid "--pow" text)
        | some powBits => .ok { a with powBits, powOptionSet := true }
    else
      match if a.port = 0 then parsePort option else none with
      | some port => .ok { a with port }
      | none => .error (unknownOption option)

/-- The request that opens an index. -/
def idxRequest (opts : Options) (a : IdxArgs) (stateDir : Bytes) : JsonObject Rat :=
  let args := setNumber (JsonObject.setString [] (ascii "op") (ascii "idx")) "port" a.port.toNat
  let args := setCount args "seats" a.seatsSet a.seats
  let args := setCount args "pow" a.powOptionSet a.powBits
  let args := setText args "pass" opts.pass
  let args := setOptional args "vip" opts.vip
  setText args "state_dir" stateDir

def idxPidPath (stateDir : Bytes) (port : UInt16) : Option Bytes :=
  pidPath stateDir (ascii "idx") (decimal port.toNat)

/-- What `idx` does with its options once they are read. -/
def idxRun (host : Host) (opts : Options) (a : IdxArgs) : Outcome :=
  if a.listMode && (a.seatsOptionSet || a.powOptionSet) then
    .fails (ascii "--list cannot be combined with --seats or --pow")
  else if a.pruneMode && (a.listMode || a.seatsOptionSet || a.powOptionSet) then
    .fails (ascii "--prune cannot be combined with --list, --seats, or --pow")
  else if a.downMode && (a.listMode || a.pruneMode || a.seatsOptionSet || a.powOptionSet) then
    .fails (ascii "--down cannot be combined with --list, --prune, --seats, or --pow")
  else if a.downMode then
    match cliStateDir host.getenv with
    | none => .fails (ascii "cannot resolve state directory")
    | some sdir =>
      match idxPidPath sdir a.port with
      | none => .fails (ascii "path too long")
      | some pidfile => .stops pidfile
  else if a.listMode then .lists a.port
  else if a.pruneMode then .prunes
  else if !host.built then .fails (ascii "allocation failed")
  else
    let sdir := cliStateDir host.getenv
    .opens (idxRequest opts a (sdir.getD [])) (sdir.bind fun sdir => idxPidPath sdir a.port)

/-- `main` for `idx`, with the name of the program and the arguments behind the command. -/
def idxMain (host : Host) (name : Bytes) (argv : List Bytes) : Outcome :=
  let opts := optionsDefault
  match Arguments.read (fun option => isSeats option || isPow option) takeIdx (IdxArgs.initial opts) argv with
  | .error message => .fails message
  | .ok a =>
    if a.port = 0 then
      .fails (ascii "usage: " ++ name ++ ascii " idx <port> [--list|-l] [--prune|-p] [--seats N] [--pow N]")
    else
      match loadIndexOptions host opts a.seatsSet with
      | none => .fails (ascii "failed to load index options")
      | some (opts, seatsSet) => idxRun host opts { a with seatsSet }

/-! ### Publishers and consumers -/

inductive Client where
  | pub | con
  deriving DecidableEq

def Client.cmd : Client → String
  | .pub => "pub"
  | .con => "con"

/-- What the options of `pub` and `con` set. The protocol and the port are 0 until they are given. -/
structure ClientArgs where
  opts : Options
  proto : Nat
  port : UInt16
  downMode : Bool

def isTcp (option : Bytes) : Bool := option == ascii "--tcp"
def isUdp (option : Bytes) : Bool := option == ascii "--udp"
def isSweep (option : Bytes) : Bool := option == ascii "--sweep"
def isStun (option : Bytes) : Bool := option == ascii "--stun"

/-- The options that take a value. -/
def isSetting (option : Bytes) : Bool := isTcp option || isUdp option || isSweep option || isStun option

/-- `--tcp` or `--udp` with its value. -/
def takePort (a : ClientArgs) (option : String) (proto : Nat) (value : Option Bytes) :
    Except Bytes ClientArgs :=
  if a.proto ≠ 0 then .error (ascii "choose only one of --tcp or --udp")
  else
    match value with
    | none => .error (requires option "a port")
    | some text =>
      match parsePort text with
      | none => .error (invalid (option ++ " port") text)
      | some port => .ok { a with port, proto }

/-- One turn of the option loop of `pub` and `con`. -/
def takeClient (a : ClientArgs) : Bytes × Option Bytes → Except Bytes ClientArgs
  | (option, value) =>
    if isDown option then .ok { a with downMode := true }
    else if isTcp option then takePort a "--tcp" protoTcp value
    else if isUdp option then takePort a "--udp" protoUdp value
    else if isSweep option then
      match value with
      | none => .error (requires "--sweep" "a number")
      | some text =>
        match parseDecimal text 0 1024 with
        | none => .error (invalid "--sweep" text)
        | some sweep => .ok { a with opts := { a.opts with sweep } }
    else if isStun option then
      match value with
      | none => .error (requires "--stun" "a URL")
      | some text => .ok { a with opts := { a.opts with stunUrl := boundedCopy stunUrlSz text } }
    else .error (unknownOption option)

/-- The loop over the options of `pub` and `con`. -/
def readClient (opts : Options) (argv : List Bytes) : Except Bytes ClientArgs :=
  Arguments.read isSetting takeClient ⟨opts, 0, 0, false⟩ argv

/-- The request that opens a publisher or a consumer. A consumer sends no password. -/
def clientRequest (client : Client) (spec : Bytes) (a : ClientArgs) (stateDir : Bytes) : JsonObject Rat :=
  let args := JsonObject.setString [] (ascii "op") (ascii client.cmd)
  let args := args.setString (ascii "addr") spec
  let args := setNumber args (if a.proto = protoTcp then "tcp" else "udp") a.port.toNat
  let args := setNumber args "sweep" a.opts.sweep
  let args := setText args "stun" a.opts.stunUrl
  let args :=
    match client with
    | .pub => setText args "pass" a.opts.pass
    | .con => args
  setText args "state_dir" stateDir

/-- The text that refuses `--down` beside another option. -/
def downConflict : Bytes := ascii "--down cannot be combined with --tcp, --udp, --sweep, or --stun"

/-- What `pub` and `con` do with their options once they are read. -/
def clientRun (client : Client) (host : Host) (spec : Bytes) (a : ClientArgs) : Outcome :=
  if a.downMode ∧ (a.proto ≠ 0 ∨ a.port ≠ 0 ∨ a.opts.sweep ≠ 0 ∨ a.opts.stunUrl ≠ []) then
    .fails downConflict
  else if a.downMode then
    match cliStateDir host.getenv with
    | none => .fails (ascii "cannot resolve state directory")
    | some sdir =>
      match pidPath sdir (ascii client.cmd) spec with
      | none => .fails (ascii "path too long")
      | some pidfile => .stops pidfile
  else if a.proto = 0 ∨ a.port = 0 then
    .fails (ascii client.cmd ++ ascii " requires --tcp <port> or --udp <port>")
  else if !host.built then .fails (ascii "allocation failed")
  else
    let sdir := cliStateDir host.getenv
    .opens (clientRequest client spec a (sdir.getD []))
      (sdir.bind fun sdir => pidPath sdir (ascii client.cmd) spec)

/-- `main` for `pub` and `con`, with the name of the program and the arguments behind the command. -/
def clientMain (client : Client) (host : Host) (name : Bytes) : List Bytes → Outcome
  | [] => .fails (ascii "usage: " ++ name ++ ascii " " ++ ascii client.cmd ++ ascii " <host>@<index[:port]>")
  | spec :: argv =>
    match parseHostspec spec (idMax + 1) 256 with
    | none => .fails (ascii "invalid spec '" ++ spec ++ ascii "' (expected host@index:port)")
    | some (id, _) =>
      if !isValidId id then .fails (ascii "invalid host id '" ++ id ++ ascii "'")
      else
        match readClient (optionsLoadEnv host optionsDefault) argv with
        | .error message => .fails message
        | .ok a => clientRun client host spec a

def pubMain : Host → Bytes → List Bytes → Outcome := clientMain .pub

def conMain : Host → Bytes → List Bytes → Outcome := clientMain .con

end Redp2p.Cli
