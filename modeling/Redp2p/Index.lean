import Redp2p.Pending
import Redp2p.Sha256

/-! The request handlers of the index: each reads a JSON object, changes the context, and answers with
a status and a JSON value that fits, or does not fit, the reply buffer. -/

namespace Redp2p

open ByteString

/-! ### Replies -/

structure Reply where
  status : Nat
  reason : Bytes
  value : Json Int

def Reply.reasonPhrase (status : Nat) : Bytes :=
  match status with
  | 400 => ascii "Bad Request"
  | 403 => ascii "Forbidden"
  | 404 => ascii "Not Found"
  | 500 => ascii "Internal Server Error"
  | 503 => ascii "Service Unavailable"
  | _ => ascii "Error"

/-- An object without members. -/
def JsonObject.empty : JsonObject Int := []

def respondError (status : Nat) (code : String) : Reply where
  status := status
  reason := Reply.reasonPhrase status
  value := .obj ((JsonObject.empty.setValue (ascii "ok") (.bool false)).setString (ascii "error")
    (ascii code))

def respondOk (obj : JsonObject Int) : Reply where
  status := 200
  reason := ascii "OK"
  value := .obj obj

/-- The object of a reply that starts with `"ok":true`. -/
def okObject : JsonObject Int := JsonObject.empty.setValue (ascii "ok") (.bool true)

/-- What `redp2p_http_write_response` writes. -/
def httpWriteResponse (status : Nat) (reason contentType body : Bytes) : Option Bytes :=
  let head := ascii "HTTP/1.1 " ++ decimal status ++ ascii " " ++ reason ++
    ascii "\r\nContent-Type: " ++ contentType ++ ascii "\r\nContent-Length: " ++
    decimal body.length ++ ascii "\r\nConnection: close\r\n\r\n"
  if head.length ≥ 256 * 6 then none else some (head ++ body)

/-- `redp2p_index_respond`: the bytes written to the connection. A text that does not fit the
buffer with its NUL is not written at all. -/
def indexRespond (reply : Reply) : Option Bytes :=
  if serializationSize reply.value ≥ bufSize then none
  else httpWriteResponse reply.status reply.reason (ascii "application/json") (serialize reply.value)

theorem httpWriteResponse_isSome {status : Nat} {reason contentType body : Bytes}
    (hstatus : status < 1000) (hreason : reason.length ≤ 64) (htype : contentType.length ≤ 64)
    (hbody : body.length < 10000) :
    (httpWriteResponse status reason contentType body).isSome = true := by
  have h1 := decimal_length_le (by decide) (show status < 10 ^ 3 by omega)
  have h2 := decimal_length_le (by decide) (show body.length < 10 ^ 4 by omega)
  have hfixed : (ascii "HTTP/1.1 ").length + (ascii " ").length +
      (ascii "\r\nContent-Type: ").length + (ascii "\r\nContent-Length: ").length +
      (ascii "\r\nConnection: close\r\n\r\n").length = 67 := by decide
  unfold httpWriteResponse
  dsimp only
  rw [if_neg]
  · rfl
  · simp only [List.length_append]
    omega

/-! ### Request fields -/

inductive IdField where
  | missing
  | invalid
  | valid (id : Bytes)

def requireId (req : JsonObject Rat) (field : String) : IdField :=
  match req.getString (ascii field) with
  | none => .missing
  | some value =>
    if value.length ≥ idMax + 1 || !isValidId value then .invalid else .valid value

def requireIdResponse (req : JsonObject Rat) : Except Reply Bytes :=
  match requireId req "id" with
  | .missing => .error (respondError 400 "bad_request")
  | .invalid => .error (respondError 400 "invalid_id")
  | .valid id => .ok id

def requireHex (req : JsonObject Rat) (field : String) (len : Nat) : Except Reply Bytes :=
  match req.getString (ascii field) with
  | none => .error (respondError 400 "bad_request")
  | some value =>
    if isHexToken value len then .ok value else .error (respondError 400 "bad_request")

/-- The endpoint that a publisher announces. -/
structure Endpoint where
  proto : Nat
  udpPort : UInt16
  candidates : List Candidate

/-- The mode, port and candidates of a registration or a heartbeat. -/
def parseEndpoint (req : JsonObject Rat) : Except Reply Endpoint :=
  match req.getNumber (ascii "proto"), req.getNumber (ascii "udp_port") with
  | some proto, some port =>
    if proto ≠ protoTcp ∧ proto ≠ protoUdp then .error (respondError 400 "bad_request")
    else
      match parsePort port, indexParseCandidates req (ascii "candidates") with
      | some udpPort, some candidates =>
        .ok { proto := if proto = protoTcp then protoTcp else protoUdp, udpPort, candidates }
      | _, _ => .error (respondError 400 "bad_request")
  | _, _ => .error (respondError 400 "bad_request")

/-! ### Handlers -/

/-- A record after its publisher announced an endpoint. -/
def Peer.store (endpoint : Endpoint) (now : UInt64) (peer : Peer) : Peer :=
  { peer with
    proto := endpoint.proto, udpPort := endpoint.udpPort, candidates := endpoint.candidates,
    lastSeen := now }

namespace Context

def storeEndpoint (ctx : Context) (index : Nat) (endpoint : Endpoint) (now : UInt64) : Context :=
  { ctx with peers := ctx.peers.modify index (Peer.store endpoint now) }

/-- The key of the record at an index. -/
def peerKey (ctx : Context) (index : Nat) : Bytes := ((ctx.peers[index]?).map Peer.key).getD []

def handleChallenge (ctx : Context) (env : Env) (req : JsonObject Rat) : Context × Reply :=
  match requireIdResponse req with
  | .error reply => (ctx, reply)
  | .ok _ =>
    match env.random with
    | none => (ctx, respondError 500 "internal")
    | some nonce =>
      (ctx, respondOk ((okObject.setString (ascii "nonce") (hexEncode nonce.toList)).setValue
        (ascii "bits") (.num ctx.powBits)))

structure RegisterRequest where
  id : Bytes
  nonce : Bytes
  solution : Bytes
  proof : Bytes
  endpoint : Endpoint

def parseRegister (req : JsonObject Rat) : Except Reply RegisterRequest := do
  let id ← requireIdResponse req
  let nonce ← requireHex req "nonce" 16
  let solution ← requireHex req "solution" 8
  let proof ← requireHex req "proof" 64
  let endpoint ← parseEndpoint req
  return { id, nonce, solution, proof, endpoint }

/-- Whether the proof of a registration is the digest under the password of its identifier. -/
def verifyRegister (ctx : Context) (r : RegisterRequest) : Bool :=
  verifyRegisterPow (ctx.getRegisterPass r.id) r.nonce r.id r.solution r.proof ctx.powBits

/-- The part of `redp2p_index_handle_register` that follows the proof. -/
def registerPeer (ctx : Context) (env : Env) (r : RegisterRequest) : Context × Reply :=
  match (ctx.evictStale env.now).addPeer env r.id with
  | (ctx, .ok) =>
    match ctx.findPeer r.id with
    | some index =>
      (ctx.storeEndpoint index r.endpoint env.now,
        respondOk (okObject.setString (ascii "key") (ctx.peerKey index)))
    | none => ((ctx.removePeer r.id).1, respondError 500 "internal")
  | (ctx, .efull) => (ctx, respondError 503 "table_full")
  | (ctx, _) => (ctx, respondError 500 "internal")

def handleRegister (ctx : Context) (env : Env) (req : JsonObject Rat) : Context × Reply :=
  match parseRegister req with
  | .error reply => (ctx, reply)
  | .ok r =>
    if !ctx.verifyRegister r then (ctx, respondError 403 "auth_failed") else ctx.registerPeer env r

structure KeyRequest where
  id : Bytes
  key : Bytes

def parseKey (req : JsonObject Rat) : Except Reply KeyRequest := do
  let id ← requireIdResponse req
  let key ← requireHex req "key" keySz
  return { id, key }

def parseHeartbeat (req : JsonObject Rat) : Except Reply (KeyRequest × Endpoint) := do
  let r ← parseKey req
  let endpoint ← parseEndpoint req
  return (r, endpoint)

def handleHeartbeat (ctx : Context) (env : Env) (req : JsonObject Rat) : Context × Reply :=
  match parseHeartbeat req with
  | .error reply => (ctx, reply)
  | .ok (r, endpoint) =>
    let ctx := ctx.evictStale env.now
    match ctx.findPeer r.id with
    | none => (ctx, respondError 404 "not_found")
    | some index =>
      if ctx.peerKey index ≠ r.key then (ctx, respondError 403 "invalid_key")
      else (ctx.storeEndpoint index endpoint env.now, respondOk okObject)

/-- The reply to a lookup. -/
def lookupObject (peer : Peer) : JsonObject Int :=
  let obj := ((okObject.setString (ascii "id") peer.id).setValue (ascii "proto")
    (.num peer.proto)).setValue (ascii "udp_port") (.num peer.udpPort.toNat)
  (indexAppendCandidates obj (ascii "candidates") peer.candidates).setValue (ascii "last_seen")
    (.num peer.lastSeen.toInt64.toInt)

def handleLookup (ctx : Context) (env : Env) (req : JsonObject Rat) : Context × Reply :=
  match requireIdResponse req with
  | .error reply => (ctx, reply)
  | .ok id =>
    match (ctx.findPeer id).bind fun index => ctx.peers[index]? with
    | none => (ctx, respondError 404 "not_found")
    | some peer =>
      if peer.stale ctx.etimeoutSec env.now then (ctx, respondError 404 "not_found")
      else (ctx, respondOk (lookupObject peer))

/-- The identifiers of the records that have not expired, in table order. -/
def listItems (ctx : Context) (now : UInt64) : List (Json Int) :=
  ctx.peers.foldl
    (fun items peer =>
      if peer.stale ctx.etimeoutSec now then items else appendString items peer.id) []

def listObject (ctx : Context) (now : UInt64) : JsonObject Int :=
  (JsonObject.empty.setValue (ascii "ids") (.arr (ctx.listItems now))).setValue (ascii "ok")
    (.bool true)

def handleList (ctx : Context) (env : Env) : Context × Reply :=
  (ctx, respondOk (ctx.listObject env.now))

def handleDeregister (ctx : Context) (env : Env) (req : JsonObject Rat) : Context × Reply :=
  match parseKey req with
  | .error reply => (ctx, reply)
  | .ok r =>
    let ctx := ctx.evictStale env.now
    match ctx.findPeer r.id with
    | none => (ctx, respondError 403 "invalid_key")
    | some index =>
      if ctx.peerKey index ≠ r.key then (ctx, respondError 403 "invalid_key")
      else ((ctx.removePeer r.id).1, respondOk okObject)

structure PunchFields where
  selfId : Bytes
  targetId : Bytes
  session : Bytes
  candidates : List Candidate

def parsePunch (req : JsonObject Rat) : Except Reply PunchFields :=
  match requireId req "self_id", requireId req "target_id" with
  | .missing, _ => .error (respondError 400 "bad_request")
  | _, .missing => .error (respondError 400 "bad_request")
  | .valid selfId, .valid targetId =>
    match req.getString (ascii "session") with
    | none => .error (respondError 400 "bad_request")
    | some session =>
      if session.length ≥ ctrlSessionMax + 1 || !isSessionToken session then
        .error (respondError 400 "bad_request")
      else
        match indexParseCandidates req (ascii "candidates") with
        | none => .error (respondError 400 "bad_request")
        | some candidates => .ok { selfId, targetId, session, candidates }
  | _, _ => .error (respondError 400 "invalid_id")

def handlePunchReq (ctx : Context) (env : Env) (req : JsonObject Rat) : Context × Reply :=
  match parsePunch req with
  | .error reply => (ctx, reply)
  | .ok r =>
    match (ctx.pendingCallEvictStale env.now).2.pendingCallAdd env.now r.selfId r.targetId
        r.session r.candidates with
    | (ctx, false) => (ctx, respondError 503 "busy")
    | (ctx, true) => (ctx, respondOk okObject)

def callValue (call : PendingCall) : Json Int :=
  .obj (indexAppendCandidates
    ((JsonObject.empty.setString (ascii "self_id") call.callerId).setString (ascii "session")
      call.sessId)
    (ascii "candidates") call.candidates)

def pollObject (calls : List PendingCall) : JsonObject Int :=
  (JsonObject.empty.setValue (ascii "calls") (.arr (calls.map callValue))).setValue (ascii "ok")
    (.bool true)

def handlePunchPoll (ctx : Context) (env : Env) (req : JsonObject Rat) : Context × Reply :=
  match requireIdResponse req with
  | .error reply => (ctx, reply)
  | .ok id =>
    let taken := (ctx.pendingCallEvictStale env.now).2.pendingCallTakeAll id
    (taken.2, respondOk (pollObject taken.1))

/-! ### Dispatch -/

def jsonUniqueFields (req : JsonObject Rat) : Bool :=
  decide ((req.map fun m => cstr m.1).Nodup)

/-- The handler of an operation name. -/
def handleOp (ctx : Context) (env : Env) (op : Bytes) (req : JsonObject Rat) : Context × Reply :=
  if op = ascii "challenge" then ctx.handleChallenge env req
  else if op = ascii "register" then ctx.handleRegister env req
  else if op = ascii "heartbeat" then ctx.handleHeartbeat env req
  else if op = ascii "lookup" then ctx.handleLookup env req
  else if op = ascii "list" then ctx.handleList env
  else if op = ascii "deregister" then ctx.handleDeregister env req
  else if op = ascii "punch_req" then ctx.handlePunchReq env req
  else if op = ascii "punch_poll" then ctx.handlePunchPoll env req
  else (ctx, respondError 400 "bad_request")

/-- `redp2p_index_dispatch` on what the JSON parser made of the request body. -/
def dispatch (ctx : Context) (env : Env) (body : Option (Json Rat)) : Context × Reply :=
  match body.bind Json.getObject with
  | none => (ctx, respondError 400 "bad_request")
  | some req =>
    if !jsonUniqueFields req then (ctx, respondError 400 "bad_request")
    else
      match req.getString (ascii "op") with
      | none => (ctx, respondError 400 "bad_request")
      | some op => ctx.handleOp env op req

end Context

end Redp2p
