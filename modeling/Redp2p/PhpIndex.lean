import Redp2p.Index
import Redp2p.Lib.Program

/-! The index in PHP: the protocol of the index over two SQL tables. A request is a program of SQL
statements, each of them atomic, that requests in other processes may come between. -/

namespace Redp2p

open ByteString Program

/-! ### Tables -/

/-- A candidate as a row holds it, between its `json_encode` and its `json_decode`. -/
structure PhpCandidate where
  type : Bytes
  addr : Bytes
  port : Int
  deriving DecidableEq

/-- A row of `redp2p_publishers`. Candidates that are `NULL` read as none. -/
structure PublisherRow where
  id : Bytes
  key : Bytes
  proto : Int
  udpPort : Int
  candidates : List PhpCandidate
  lastSeen : Int
  deriving DecidableEq

/-- A row of `redp2p_pending_calls`. -/
structure PendingRow where
  id : Bytes
  selfId : Bytes
  targetId : Bytes
  session : Bytes
  candidates : List PhpCandidate
  ts : Int
  deriving DecidableEq

/-- A row and the number of its insertion. The number tells apart all rows that the table ever held; the
table has no such column. -/
structure StoredRow where
  number : Nat
  row : PendingRow
  deriving DecidableEq

/-- The database and the clock. -/
structure PhpWorld where
  publishers : List PublisherRow
  pending : List StoredRow
  inserted : Nat
  clock : Int
  deriving DecidableEq

/-- A database without rows. -/
def PhpWorld.empty (clock : Int) : PhpWorld := ⟨[], [], 0, clock⟩

/-! ### Statements -/

/-- A reading of the clock, or one SQL statement. -/
inductive PhpStatement where
  | time
  | deleteStale (cutoff : Int)
  | selectOne (id : Bytes)
  | countPublishers
  | countNotIn (ids : List Bytes)
  | insertPublisher (row : PublisherRow)
  | selectKey (id : Bytes)
  | updatePublisher (id : Bytes) (proto udpPort : Int) (candidates : List PhpCandidate) (lastSeen : Int)
  | selectPublisher (id : Bytes)
  | selectIds (cutoff : Int)
  | deletePublisher (id : Bytes)
  | deleteExpired (cutoff : Int)
  | countPending
  | insertPending (row : PendingRow)
  | selectPending (targetId : Bytes)
  | deletePending (targetId : Bytes)
  deriving DecidableEq

/-- What a statement returns. An insertion says whether the primary key was free; PDO throws when it was
not. -/
@[reducible] def PhpStatement.Result : PhpStatement → Type
  | .time => Int
  | .selectOne _ => Bool
  | .countPublishers => Nat
  | .countNotIn _ => Nat
  | .insertPublisher _ => Bool
  | .selectKey _ => Option Bytes
  | .selectPublisher _ => Option PublisherRow
  | .selectIds _ => List Bytes
  | .countPending => Nat
  | .insertPending _ => Bool
  | .selectPending _ => List StoredRow
  | _ => Unit

def PhpStatement.exec : (s : PhpStatement) → PhpWorld → PhpWorld × s.Result
  | .time, w => (w, w.clock)
  | .deleteStale cutoff, w =>
    ({ w with publishers := w.publishers.filter fun row => !decide (row.lastSeen < cutoff) }, ())
  | .selectOne id, w => (w, w.publishers.any fun row => row.id == id)
  | .countPublishers, w => (w, w.publishers.length)
  | .countNotIn ids, w => (w, w.publishers.countP fun row => !ids.contains row.id)
  | .insertPublisher row, w =>
    if w.publishers.any fun other => other.id == row.id then (w, false)
    else ({ w with publishers := w.publishers ++ [row] }, true)
  | .selectKey id, w => (w, (w.publishers.find? fun row => row.id == id).map PublisherRow.key)
  | .updatePublisher id proto udpPort candidates lastSeen, w =>
    ({ w with
      publishers := w.publishers.map fun row =>
        if row.id == id then { row with proto, udpPort, candidates, lastSeen } else row }, ())
  | .selectPublisher id, w => (w, w.publishers.find? fun row => row.id == id)
  | .selectIds cutoff, w =>
    (w, (w.publishers.filter fun row => decide (row.lastSeen ≥ cutoff)).map PublisherRow.id)
  | .deletePublisher id, w =>
    ({ w with publishers := w.publishers.filter fun row => row.id != id }, ())
  | .deleteExpired cutoff, w =>
    ({ w with pending := w.pending.filter fun stored => !decide (stored.row.ts < cutoff) }, ())
  | .countPending, w => (w, w.pending.length)
  | .insertPending row, w =>
    if w.pending.any fun other => other.row.id == row.id then (w, false)
    else ({ w with pending := w.pending ++ [⟨w.inserted, row⟩], inserted := w.inserted + 1 }, true)
  | .selectPending targetId, w => (w, w.pending.filter fun stored => stored.row.targetId == targetId)
  | .deletePending targetId, w =>
    ({ w with pending := w.pending.filter fun stored => stored.row.targetId != targetId }, ())

theorem exec_insertPublisher (row : PublisherRow) (w : PhpWorld) :
    (PhpStatement.insertPublisher row).exec w =
      if w.publishers.any fun other => other.id == row.id then (w, false)
      else ({ w with publishers := w.publishers ++ [row] }, true) := rfl

theorem exec_insertPending (row : PendingRow) (w : PhpWorld) :
    (PhpStatement.insertPending row).exec w =
      if w.pending.any fun other => other.row.id == row.id then (w, false)
      else ({ w with pending := w.pending ++ [⟨w.inserted, row⟩], inserted := w.inserted + 1 }, true) := rfl

/-- No statement sets the clock. -/
theorem exec_clock (statement : PhpStatement) (w : PhpWorld) : (statement.exec w).1.clock = w.clock := by
  cases statement with
  | insertPublisher row =>
    rw [exec_insertPublisher]
    split <;> rfl
  | insertPending row =>
    rw [exec_insertPending]
    split <;> rfl
  | _ => rfl

abbrev PhpProgram := Program PhpStatement PhpStatement.Result

def query (statement : PhpStatement) : PhpProgram statement.Result := perform statement

@[simp] theorem query_bind {α : Type} (statement : PhpStatement) (f : statement.Result → PhpProgram α) :
    query statement >>= f = act statement f := rfl

/-! ### Answers -/

inductive PhpAnswer where
  | error (status : Nat) (code : String)
  | challenge (nonce : Bytes) (bits : Int)
  | ok
  | registered (key : Bytes)
  | publisher (id : Bytes) (row : PublisherRow)
  | list (ids : List Bytes)
  | calls (rows : List StoredRow)
  deriving DecidableEq

def PhpCandidate.value (candidate : PhpCandidate) : Json Int :=
  .obj [(ascii "type", .str candidate.type), (ascii "addr", .str candidate.addr),
    (ascii "port", .num candidate.port)]

def StoredRow.value (stored : StoredRow) : Json Int :=
  .obj [(ascii "self_id", .str stored.row.selfId), (ascii "session", .str stored.row.session),
    (ascii "candidates", .arr (stored.row.candidates.map PhpCandidate.value))]

/-- `jsonOk`, which puts `ok` before the fields or behind them. -/
def jsonOk (fields : JsonObject Int) (okFirst : Bool) : Reply where
  status := 200
  reason := ascii "OK"
  value := .obj (if okFirst then (ascii "ok", .bool true) :: fields else fields ++ [(ascii "ok", .bool true)])

/-- `jsonError`. -/
def jsonError (status : Nat) (code : String) : Reply where
  status := status
  reason := Reply.reasonPhrase status
  value := .obj [(ascii "ok", .bool false), (ascii "error", .str (ascii code))]

def PhpAnswer.reply : PhpAnswer → Reply
  | .error status code => jsonError status code
  | .challenge nonce bits => jsonOk [(ascii "nonce", .str nonce), (ascii "bits", .num bits)] true
  | .ok => jsonOk [] true
  | .registered key => jsonOk [(ascii "key", .str key)] true
  | .publisher id row =>
    jsonOk [(ascii "id", .str id), (ascii "proto", .num row.proto), (ascii "udp_port", .num row.udpPort),
      (ascii "candidates", .arr (row.candidates.map PhpCandidate.value)),
      (ascii "last_seen", .num row.lastSeen)] true
  | .list ids => jsonOk [(ascii "ids", .arr (ids.map Json.str))] false
  | .calls rows => jsonOk [(ascii "calls", .arr (rows.map StoredRow.value))] false

/-! ### Request fields -/

/-- The configuration of the index, and the check of addresses that PHP brings, `filter_var`. -/
structure PhpIndex where
  pass : Bytes
  vips : List VipEntry
  seats : Option Nat
  pow : Int
  ttl : Int
  filterVar : Bytes → Bool

def pendingTtlS : Int := 30
def pendingMax : Nat := 32

def ctypeAlnum (text : Bytes) : Bool := !text.isEmpty && text.all isAlnum

def phpIsValidId (id : Bytes) : Bool := id != [] && id.length ≤ idMax && ctypeAlnum id

def phpIsSessionToken (token : Bytes) : Bool :=
  token != [] && token.length ≤ ctrlSessionMax && ctypeAlnum token

def phpIsHexToken (token : Bytes) (len : Nat) : Bool :=
  token.length == len && !token.isEmpty && token.all isHexDigit

namespace PhpIndex

/-- A string field. A PHP string may hold NULs. -/
def getString (o : JsonObject Rat) (field : String) : Option Bytes :=
  match o.getValue (ascii field) with
  | some (.str s) => some s
  | _ => none

def requireId (o : JsonObject Rat) (field : String) : IdField :=
  match getString o field with
  | none => .missing
  | some id => if phpIsValidId id then .valid id else .invalid

def requireHex (o : JsonObject Rat) (field : String) (len : Nat) : Option Bytes :=
  (getString o field).filter fun value => phpIsHexToken value len

/-- The mode and the port, converted to integers. -/
def requireProtoPort (o : JsonObject Rat) : Option (Int × Int) :=
  match o.getNumber (ascii "proto"), o.getNumber (ascii "udp_port") with
  | some proto, some udpPort =>
    if proto ≠ 1 ∧ proto ≠ 2 then none
    else if udpPort < 1 ∨ udpPort > 65535 then none
    else some (proto.floor, udpPort.floor)
  | _, _ => none

def candidateTypes : List Bytes := [ascii "host", ascii "lan", ascii "public", ascii "srflx"]

variable (php : PhpIndex)

def parseItem (item : Json Rat) : Option PhpCandidate := do
  let o ← item.getObject
  let type ← getString o "type"
  let addr ← getString o "addr"
  guard (addr.length ≤ addrMax)
  guard (type ∈ candidateTypes)
  guard (php.filterVar addr)
  let port ← o.getNumber (ascii "port")
  guard (¬ (port < 1 ∨ port > 65535))
  return ⟨type, addr, port.floor⟩

/-- A missing list, or a field that is no list, is empty. -/
def parseCandidates (o : JsonObject Rat) (field : String) : Option (List PhpCandidate) :=
  match o.getArray (ascii field) with
  | none => some []
  | some items => if items.length > peerCandidatesMax then none else items.mapM php.parseItem

/-- The shifts of a byte until its highest bit is set. -/
def shiftsToHigh : Nat → Nat → Nat
  | 0, _ => 0
  | turns + 1, byte => if byte &&& 0x80 = 0 then 1 + shiftsToHigh turns (byte <<< 1) else 0

def leadingZeroBits : Bytes → Nat
  | [] => 0
  | b :: rest => if b = 0 then 8 + leadingZeroBits rest else shiftsToHigh 8 b.toNat

def verifyPow (pass nonce id solution proof : Bytes) : Bool :=
  let digest := hmacSha256 pass (nonce ++ id ++ solution)
  hexEncode digest == proof && php.pow ≤ leadingZeroBits digest

/-- The entry of the VIP map for an identifier. -/
def vip (id : Bytes) : Option VipEntry := Keyed.lookup VipEntry.id id php.vips

def getPass (id : Bytes) : Bytes := ((php.vip id).map VipEntry.pass).getD php.pass

/-! ### Operations on the tables -/

def evictStale : PhpProgram Unit := do
  let now ← query .time
  query (.deleteStale (now - php.ttl))

def evictPending : PhpProgram Unit := do
  let now ← query .time
  query (.deleteExpired (now - pendingTtlS))

def countNonVip : PhpProgram Nat :=
  if php.vips = [] then query .countPublishers else query (.countNotIn (php.vips.map VipEntry.id))

inductive Added where
  | ok | full | thrown

/-- The insertion at the end of `addPublisher`, with the clock as it was read at its start. -/
def insertPublisher (random : Vector UInt8 8) (id : Bytes) (now : Int) : PhpProgram Added := do
  let inserted ← query (.insertPublisher ⟨id, hexEncode random.toList, 0, 0, [], now⟩)
  return if inserted then .ok else .thrown

/-- The part of `addPublisher` that follows the count of all publishers. -/
def takeNonVipSeat (random : Vector UInt8 8) (id : Bytes) (now : Int) (seats : Nat) : PhpProgram Added := do
  let nonVip ← php.countNonVip
  if nonVip ≥ seats - php.vips.length then return .full else insertPublisher random id now

/-- The part of `addPublisher` for an identifier without a row. -/
def takeSeat (random : Vector UInt8 8) (id : Bytes) (now : Int) : PhpProgram Added :=
  match php.seats with
  | none => insertPublisher random id now
  | some seats => do
    let count ← query .countPublishers
    if count ≥ seats then return .full
    else if (php.vip id).isSome then insertPublisher random id now
    else php.takeNonVipSeat random id now seats

def addPublisher (random : Vector UInt8 8) (id : Bytes) : PhpProgram Added := do
  let now ← query .time
  let found ← query (.selectOne id)
  if found then return .ok else php.takeSeat random id now

def setPublisher (id : Bytes) (proto udpPort : Int) (candidates : List PhpCandidate) :
    PhpProgram Bytes := do
  let key ← query (.selectKey id)
  let now ← query .time
  query (.updatePublisher id proto udpPort candidates now)
  return key.getD []

/-! ### Handlers -/

def badRequest : PhpAnswer := .error 400 "bad_request"

/-- A request with a valid identifier goes on. -/
def withId (req : JsonObject Rat) (next : Bytes → PhpProgram PhpAnswer) : PhpProgram PhpAnswer :=
  match requireId req "id" with
  | .missing => return badRequest
  | .invalid => return .error 400 "invalid_id"
  | .valid id => next id

def handleChallenge (random : Vector UInt8 8) (req : JsonObject Rat) : PhpProgram PhpAnswer :=
  withId req fun _ => return .challenge (hexEncode random.toList) php.pow

/-- A registration whose fields are well formed. -/
structure Registration where
  id : Bytes
  nonce : Bytes
  solution : Bytes
  proof : Bytes
  proto : Int
  udpPort : Int
  candidates : List PhpCandidate

def parseRegister (req : JsonObject Rat) (id : Bytes) : Option Registration := do
  let nonce ← requireHex req "nonce" 16
  let solution ← requireHex req "solution" 8
  let proof ← requireHex req "proof" 64
  let (proto, udpPort) ← requireProtoPort req
  let candidates ← php.parseCandidates req "candidates"
  return { id, nonce, solution, proof, proto, udpPort, candidates }

def verified (r : Registration) : Bool := php.verifyPow (php.getPass r.id) r.nonce r.id r.solution r.proof

/-- The part of `handleRegister` that follows `addPublisher`. -/
def finishRegister (r : Registration) : Added → PhpProgram PhpAnswer
  | .full => return .error 503 "table_full"
  | .thrown => return .error 500 "internal"
  | .ok => do
    let key ← setPublisher r.id r.proto r.udpPort r.candidates
    return .registered key

/-- The part of `handleRegister` that follows the proof. -/
def register (random : Vector UInt8 8) (r : Registration) : PhpProgram PhpAnswer := do
  php.evictStale
  let added ← php.addPublisher random r.id
  finishRegister r added

def handleRegister (random : Vector UInt8 8) (req : JsonObject Rat) : PhpProgram PhpAnswer :=
  withId req fun id =>
    match php.parseRegister req id with
    | none => return badRequest
    | some r => if php.verified r then php.register random r else return .error 403 "auth_failed"

def handleHeartbeat (req : JsonObject Rat) : PhpProgram PhpAnswer :=
  withId req fun id =>
    match requireHex req "key" keySz, requireProtoPort req, php.parseCandidates req "candidates" with
    | some key, some (proto, udpPort), some candidates => do
      php.evictStale
      match ← query (.selectKey id) with
      | none => return .error 404 "not_found"
      | some stored =>
        if stored = key then
          let _ ← setPublisher id proto udpPort candidates
          return .ok
        else return .error 403 "invalid_key"
    | _, _, _ => return badRequest

def handleLookup (req : JsonObject Rat) : PhpProgram PhpAnswer :=
  withId req fun id => do
    match ← query (.selectPublisher id) with
    | none => return .error 404 "not_found"
    | some row =>
      let now ← query .time
      if row.lastSeen < now - php.ttl then return .error 404 "not_found" else return .publisher id row

def handleList : PhpProgram PhpAnswer := do
  let now ← query .time
  let ids ← query (.selectIds (now - php.ttl))
  return .list ids

def handleDeregister (req : JsonObject Rat) : PhpProgram PhpAnswer :=
  withId req fun id =>
    match requireHex req "key" keySz with
    | none => return badRequest
    | some key => do
      php.evictStale
      let stored ← query (.selectKey id)
      if stored = some key then
        query (.deletePublisher id)
        return .ok
      else return .error 403 "invalid_key"

/-- The fields of a punch request. -/
def parsePunch (req : JsonObject Rat) :
    Except PhpAnswer (Bytes × Bytes × Bytes × List PhpCandidate) :=
  match requireId req "self_id", requireId req "target_id" with
  | .missing, _ => .error badRequest
  | _, .missing => .error badRequest
  | .valid selfId, .valid targetId =>
    match (getString req "session").filter phpIsSessionToken with
    | none => .error badRequest
    | some session =>
      match php.parseCandidates req "candidates" with
      | none => .error badRequest
      | some candidates => .ok (selfId, targetId, session, candidates)
  | _, _ => .error (.error 400 "invalid_id")

/-- The part of `handlePunchReq` that follows the fields. -/
def enqueue (random : Vector UInt8 8) (selfId targetId session : Bytes)
    (candidates : List PhpCandidate) : PhpProgram PhpAnswer := do
  evictPending
  let count ← query .countPending
  if count ≥ pendingMax then return .error 503 "busy"
  else
    let now ← query .time
    let inserted ← query (.insertPending
      ⟨hexEncode random.toList, selfId, targetId, session, candidates, now⟩)
    return if inserted then .ok else .error 500 "internal"

def handlePunchReq (random : Vector UInt8 8) (req : JsonObject Rat) : PhpProgram PhpAnswer :=
  match php.parsePunch req with
  | .error answer => return answer
  | .ok (selfId, targetId, session, candidates) => enqueue random selfId targetId session candidates

/-- The part of `handlePunchPoll` that follows the identifier. -/
def takeCalls (id : Bytes) : PhpProgram PhpAnswer := do
  evictPending
  let rows ← query (.selectPending id)
  query (.deletePending id)
  return .calls rows

def handlePunchPoll (req : JsonObject Rat) : PhpProgram PhpAnswer := withId req takeCalls

/-- `handle` on what `json_decode` made of the body of a `POST`. A request draws eight random bytes at
most once. -/
def handle (random : Vector UInt8 8) (body : Option (Json Rat)) : PhpProgram PhpAnswer :=
  match body.bind Json.getObject with
  | none => return badRequest
  | some req =>
    match getString req "op" with
    | none => return badRequest
    | some op =>
      if op = ascii "challenge" then php.handleChallenge random req
      else if op = ascii "register" then php.handleRegister random req
      else if op = ascii "heartbeat" then php.handleHeartbeat req
      else if op = ascii "lookup" then php.handleLookup req
      else if op = ascii "list" then php.handleList
      else if op = ascii "deregister" then php.handleDeregister req
      else if op = ascii "punch_req" then php.handlePunchReq random req
      else if op = ascii "punch_poll" then handlePunchPoll req
      else return badRequest

/-- What a request registers: the fields are well formed, and the proof is valid. -/
def registration (body : Option (Json Rat)) : Option Registration := do
  let req ← body.bind Json.getObject
  guard (getString req "op" = some (ascii "register"))
  let id ← (getString req "id").filter phpIsValidId
  (php.parseRegister req id).filter php.verified

theorem handle_registration {php : PhpIndex} {body : Option (Json Rat)} {r : Registration}
    (h : php.registration body = some r) (random : Vector UInt8 8) :
    php.handle random body = php.register random r := by
  simp only [registration, Option.bind_eq_bind, Option.bind_eq_some_iff, Option.guard_eq_some',
    Option.filter_eq_some_iff] at h
  obtain ⟨req, ⟨value, rfl, hobject⟩, -, hop, id, ⟨hid, hvalid⟩, hparse, hverified⟩ := h
  have hrequire : requireId req "id" = .valid id := by
    rw [requireId, hid]
    exact if_pos hvalid
  have hregister : php.handleRegister random req = php.register random r := by
    simp only [handleRegister, withId, hrequire, hparse, hverified, if_true]
  unfold handle
  simp only [Option.bind_some, hobject, hop]
  rw [if_neg (by decide), if_pos trivial, hregister]

/-! ### Requests in processes of their own -/

/-- A request arrives, the process of a request takes its next statement, or time passes. -/
inductive Event where
  | request (random : Vector UInt8 8) (body : Option (Json Rat))
  | advance (thread : Nat)
  | tick (seconds : Nat)

def tick (seconds : Nat) (w : PhpWorld) : PhpWorld := { w with clock := w.clock + seconds }

def Event.toPool : Event → PoolEvent PhpStatement PhpStatement.Result Nat PhpAnswer
  | .request random body => .start (php.handle random body)
  | .advance thread => .advance thread
  | .tick seconds => .outside seconds

abbrev Processes := Pool PhpStatement PhpStatement.Result PhpWorld PhpAnswer

def step (pool : Processes) (event : Event) : Processes × List Empty :=
  pool.step PhpStatement.exec tick (event.toPool php)

/-- An index that no request has reached. -/
def idle (clock : Int) : Processes := ⟨.empty clock, []⟩

/-- The answer of a request that has come to its end. -/
def answer (pool : Processes) (thread : Nat) : Option PhpAnswer :=
  (pool.threads[thread]?).bind Program.result

/-- The statement that a request takes next. -/
def upcoming (pool : Processes) (thread : Nat) : Option PhpStatement :=
  (pool.threads[thread]?).bind Program.statement

/-! ### What requests do -/

/-- A statement that puts no row into a table, takes no call out of the queue and counts no
publishers. -/
def Plain : PhpStatement → Prop
  | .countPublishers | .countNotIn _ | .insertPublisher _ => False
  | .deleteExpired _ | .insertPending _ | .selectPending _ | .deletePending _ => False
  | _ => True

/-- An answer without a key or calls. -/
def PlainAnswer : PhpAnswer → Prop
  | .registered _ | .calls _ => False
  | _ => True

/-- A request registers a publisher, puts a call into the queue, takes the calls of a publisher, or does
none of these. -/
inductive Request (php : PhpIndex) (random : Vector UInt8 8) : PhpProgram PhpAnswer → Prop
  | plain {p : PhpProgram PhpAnswer} (uses : p.Uses Plain PlainAnswer) : Request php random p
  | register (r : Registration) (verified : php.verified r = true) : Request php random (php.register random r)
  | enqueue (selfId targetId session : Bytes) (candidates : List PhpCandidate) :
      Request php random (enqueue random selfId targetId session candidates)
  | takeCalls (id : Bytes) : Request php random (takeCalls id)

variable {php} {random : Vector UInt8 8} {req : JsonObject Rat}

theorem request_withId {next : Bytes → PhpProgram PhpAnswer} (h : ∀ id, Request php random (next id)) :
    Request php random (withId req next) := by
  unfold withId
  split
  · exact .plain trivial
  · exact .plain trivial
  · exact h _

theorem heartbeat_request : Request php random (php.handleHeartbeat req) := by
  apply request_withId
  intro id
  split
  · apply Request.plain
    refine ⟨trivial, fun now => ⟨trivial, fun _ => ⟨trivial, fun stored => ?_⟩⟩⟩
    cases stored with
    | none => trivial
    | some stored =>
      dsimp only [Program.bind]
      split
      · exact ⟨trivial, fun _ => ⟨trivial, fun _ => ⟨trivial, fun _ => trivial⟩⟩⟩
      · trivial
  · exact .plain trivial

theorem lookup_request : Request php random (php.handleLookup req) := by
  apply request_withId
  intro id
  apply Request.plain
  refine ⟨trivial, fun row => ?_⟩
  cases row with
  | none => trivial
  | some row =>
    refine ⟨trivial, fun now => ?_⟩
    dsimp only [Program.bind]
    split
    · trivial
    · trivial

theorem deregister_request : Request php random (php.handleDeregister req) := by
  apply request_withId
  intro id
  split
  · exact .plain trivial
  · apply Request.plain
    refine ⟨trivial, fun now => ⟨trivial, fun _ => ⟨trivial, fun stored => ?_⟩⟩⟩
    dsimp only [Program.bind]
    split
    · exact ⟨trivial, fun _ => trivial⟩
    · trivial

theorem register_request : Request php random (php.handleRegister random req) := by
  apply request_withId
  intro id
  split
  · exact .plain trivial
  · split
    · rename_i r _ hverified
      exact .register r hverified
    · exact .plain trivial

theorem punchReq_request : Request php random (php.handlePunchReq random req) := by
  unfold handlePunchReq
  split
  · rename_i answer hparse
    apply Request.plain
    have hbad : PlainAnswer answer := by
      unfold parsePunch at hparse
      repeat' split at hparse
      all_goals cases hparse
      all_goals trivial
    exact hbad
  · exact .enqueue _ _ _ _

theorem handle_request (php : PhpIndex) (random : Vector UInt8 8) (body : Option (Json Rat)) :
    Request php random (php.handle random body) := by
  unfold handle
  split
  · exact .plain trivial
  split
  · exact .plain trivial
  split
  · exact request_withId fun _ => .plain trivial
  split
  · exact register_request
  split
  · exact heartbeat_request
  split
  · exact lookup_request
  split
  · exact .plain ⟨trivial, fun _ => ⟨trivial, fun _ => trivial⟩⟩
  split
  · exact deregister_request
  split
  · exact punchReq_request
  split
  · exact request_withId fun id => .takeCalls id
  · exact .plain trivial

end PhpIndex

end Redp2p
