import Redp2p.Text
import Redp2p.Lib.ByteChannel

/-! The TCP stream tunnel: the envelope around each datagram, and the lifecycle of a stream beside the
byte channel that carries its bytes. The byte channel is KCP, a parameter. -/

namespace Redp2p

open ByteString

/-! ### Envelopes -/

def streamMagic : UInt32 := 0x50434b52
def streamVersion : UInt8 := 2
def streamEnvelopeSz : Nat := 24
def streamKcpMtu : Nat := 1400
def streamMaxFrame : Nat := streamEnvelopeSz + streamKcpMtu
def streamMaxWaitSend : Nat := 128
def streamHelloMs : UInt64 := 500
def streamCloseMs : UInt64 := 500
def keepaliveS : UInt64 := 3
def disconnectS : UInt64 := 10

/-- A stream session identifier. -/
abbrev SessionId := Vector UInt8 16

inductive StreamType where
  | hello | helloAck | kcp | close | closeAck | reset | keepalive
  deriving DecidableEq, Repr

inductive StreamRole where
  | initiator | responder
  deriving DecidableEq, Repr

def StreamType.code : StreamType → UInt8
  | .hello => 1
  | .helloAck => 2
  | .kcp => 3
  | .close => 4
  | .closeAck => 5
  | .reset => 6
  | .keepalive => 7

def StreamType.ofCode (code : UInt8) : Option StreamType :=
  [StreamType.hello, .helloAck, .kcp, .close, .closeAck, .reset, .keepalive].find? (·.code == code)

def StreamRole.code : StreamRole → UInt8
  | .initiator => 1
  | .responder => 2

def StreamRole.ofCode (code : UInt8) : Option StreamRole :=
  [StreamRole.initiator, .responder].find? (·.code == code)

def loadU32Le (p : Bytes) : UInt32 :=
  (p.getD 0 0).toUInt32 ||| ((p.getD 1 0).toUInt32 <<< 8) ||| ((p.getD 2 0).toUInt32 <<< 16) |||
    ((p.getD 3 0).toUInt32 <<< 24)

def storeU32Le (v : UInt32) : Bytes :=
  [(v &&& 0xff).toUInt8, ((v >>> 8) &&& 0xff).toUInt8, ((v >>> 16) &&& 0xff).toUInt8,
    ((v >>> 24) &&& 0xff).toUInt8]

structure Envelope where
  type : StreamType
  role : StreamRole
  protocol : UInt8
  sessionId : SessionId
  payload : Bytes

def streamPack (type : StreamType) (role : StreamRole) (protocol : UInt8) (sessionId : SessionId)
    (payload : Bytes) : Option Bytes :=
  if payload.length > streamKcpMtu then none
  else
    some (storeU32Le streamMagic ++ [streamVersion, type.code, role.code, protocol] ++
      sessionId.toList ++ payload)

/-- The sixteen bytes of a session identifier at the start of a text. -/
def sessionIdAt (p : Bytes) : SessionId := Vector.ofFn fun i => p.getD i 0

def streamUnpack (buf : Bytes) : Option Envelope :=
  if buf.length < streamEnvelopeSz ∨ buf.length > streamMaxFrame then none
  else if loadU32Le buf ≠ streamMagic ∨ buf.getD 4 0 ≠ streamVersion ∨
      buf.getD 7 0 ≠ UInt8.ofNat protoTcp then none
  else
    match StreamType.ofCode (buf.getD 5 0), StreamRole.ofCode (buf.getD 6 0) with
    | some type, some role =>
      let payload := buf.drop streamEnvelopeSz
      if type ≠ .kcp ∧ payload ≠ [] then none
      else some { type, role, protocol := buf.getD 7 0, sessionId := sessionIdAt (buf.drop 8), payload }
    | _, _ => none

/-! ### Streams -/

/-- A stream: its identity, its byte channel, and what it knows of both directions. -/
structure StreamState (κ : Type) where
  initiator : Bool
  sessionId : SessionId
  transportProtocol : UInt8
  kcp : κ
  ready : Bool
  helloSent : Bool
  resetSent : Bool
  resetReceived : Bool
  localEof : Bool
  closeSent : Bool
  closeAcked : Bool
  remoteClose : Bool
  sendError : Bool
  lastTxMs : UInt64
  lastHelloMs : UInt64
  lastCloseMs : UInt64
  lastKeepaliveMs : UInt64
  nextUpdateMs : UInt32

/-- What a call reads from outside: the clock, which datagrams the UDP socket takes, and how many
bytes of a chunk the local TCP socket takes before it fails. -/
structure StreamEnv where
  now : UInt64
  sendOk : Bytes → Bool
  writeCount : Bytes → Nat

/-- What a read of the local TCP socket returns: at most a buffer of bytes, the end of the stream, or
nothing for now. -/
inductive TcpRead where
  | data (bytes : Bytes)
  | eof
  | wouldBlock
  | failed

/-- The state after a call, the datagrams it sent, the bytes it wrote to the local TCP socket, whether
it shut that socket's write side down, and whether it succeeded. -/
structure Outcome (κ : Type) where
  st : StreamState κ
  sent : List Bytes
  written : Bytes
  shut : Bool
  ok : Bool

namespace Outcome

variable {κ : Type}

def done (st : StreamState κ) : Outcome κ := ⟨st, [], [], false, true⟩

def failed (st : StreamState κ) : Outcome κ := ⟨st, [], [], false, false⟩

/-- The next part of a call, which runs only if this one succeeded. -/
def andThen (o : Outcome κ) (next : StreamState κ → Outcome κ) : Outcome κ :=
  if o.ok then
    let o' := next o.st
    { o' with sent := o.sent ++ o'.sent, written := o.written ++ o'.written, shut := o.shut || o'.shut }
  else o

end Outcome

section Calls

variable {κ : Type} (kcp : ByteChannel.Ops κ) (env : StreamEnv)

def streamRole (st : StreamState κ) : StreamRole :=
  if st.initiator then .initiator else .responder

def streamExpectedRole (st : StreamState κ) : StreamRole :=
  if st.initiator then .responder else .initiator

/-- The routing value of a session for its byte channel. -/
def streamConv (sessionId : SessionId) : UInt32 :=
  let word (i : Nat) := loadU32Le (sessionId.toList.drop i)
  word 0 ^^^ word 4 ^^^ word 8 ^^^ word 12

def streamInit (initiator : Bool) (sessionId : SessionId) (now : UInt64) : StreamState κ where
  initiator := initiator
  sessionId := sessionId
  transportProtocol := UInt8.ofNat protoTcp
  kcp := kcp.create (streamConv sessionId)
  ready := false
  helloSent := false
  resetSent := false
  resetReceived := false
  localEof := false
  closeSent := false
  closeAcked := false
  remoteClose := false
  sendError := false
  lastTxMs := now
  lastHelloMs := 0
  lastCloseMs := 0
  lastKeepaliveMs := now
  nextUpdateMs := now.toUInt32

def streamCanSendData (st : StreamState κ) : Bool :=
  st.ready && !st.localEof && kcp.waitSnd st.kcp < streamMaxWaitSend

def streamSendControl (st : StreamState κ) (type : StreamType) : Outcome κ :=
  match streamPack type (streamRole st) st.transportProtocol st.sessionId [] with
  | none => .failed st
  | some frame =>
    if env.sendOk frame then ⟨{ st with lastTxMs := env.now }, [frame], [], false, true⟩ else .failed st

/-- `redp2p_stream_kcp_output`: a datagram of the byte channel goes out in an envelope, and a failure
is noted for the next tick. -/
def streamKcpOutput (o : Outcome κ) (datagram : Bytes) : Outcome κ :=
  if datagram.length = 0 then o
  else
    match streamPack .kcp (streamRole o.st) o.st.transportProtocol o.st.sessionId datagram with
    | none => o
    | some frame =>
      if env.sendOk frame then { o with sent := o.sent ++ [frame] }
      else { o with st := { o.st with sendError := true } }

/-- `redp2p_stream_fail`: the datagram that tells an established peer, once. -/
def streamFail (st : StreamState κ) : StreamState κ × List Bytes :=
  if !st.ready || st.resetSent || st.resetReceived then (st, [])
  else
    let o := streamSendControl env { st with resetSent := true } .reset
    (o.st, o.sent)

/-- `redp2p_write_all` on the local TCP socket. -/
def streamWriteAll (st : StreamState κ) (data : Bytes) : Outcome κ :=
  if data.length ≤ env.writeCount data then ⟨st, [], data, false, true⟩
  else ⟨st, [], data.take (env.writeCount data), false, false⟩

/-- The loop of `redp2p_stream_drain`, with a bound on its turns. -/
def streamDrainLoop : Nat → StreamState κ → Outcome κ
  | 0, st => .done st
  | turns + 1, st =>
    if kcp.peekSize st.kcp < 0 then .done st
    else if kcp.peekSize st.kcp > bufSize then .failed st
    else
      match kcp.recv st.kcp bufSize with
      | (state, none) => .failed { st with kcp := state }
      | (state, some data) =>
        (streamWriteAll env { st with kcp := state } data).andThen (streamDrainLoop turns)

/-- Every turn takes a message from the channel, so what it has queued bounds the turns. -/
def streamDrain (st : StreamState κ) : Outcome κ :=
  streamDrainLoop kcp env (kcp.queued st.kcp + 1) st

/-- What `redp2p_stream_process_packet` does with an envelope of the peer. -/
def streamDispatch (st : StreamState κ) (type : StreamType) (payload : Bytes) : Outcome κ :=
  if type = .hello ∧ st.initiator = false then
    (streamSendControl env st .helloAck).andThen fun st => .done { st with ready := true }
  else if type = .helloAck ∧ st.initiator = true then .done { st with ready := true }
  else if !st.ready then .done st
  else
    match type with
    | .kcp =>
      let (state, result) := kcp.input st.kcp payload
      if result ≠ 0 then .failed { st with kcp := state }
      else streamDrain kcp env { st with kcp := state, nextUpdateMs := env.now.toUInt32 }
    | .close =>
      (streamDrain kcp env st).andThen fun st =>
        { streamSendControl env { st with remoteClose := true } .closeAck with
          shut := !st.remoteClose }
    | .closeAck => .done { st with closeAcked := true }
    | .reset => .failed { st with resetReceived := true }
    | _ => .done st

def streamProcessPacket (st : StreamState κ) (buf : Bytes) : Outcome κ :=
  match streamUnpack buf with
  | none => .done st
  | some envelope =>
    if envelope.role ≠ streamExpectedRole st ∨ envelope.protocol ≠ st.transportProtocol ∨
        envelope.sessionId ≠ st.sessionId then .done st
    else streamDispatch kcp env st envelope.type envelope.payload

def streamPumpTcp (st : StreamState κ) (read : TcpRead) : Outcome κ :=
  if !streamCanSendData kcp st then .done st
  else
    match read with
    | .wouldBlock => .done st
    | .failed => .failed st
    | .eof => .done { st with localEof := true }
    | .data bytes =>
      let (state, sent) := kcp.send st.kcp bytes
      if sent ≠ bytes.length then .failed { st with kcp := state }
      else .done { st with kcp := state, nextUpdateMs := env.now.toUInt32 }

/-- The bytes that a pump read from the local TCP socket. -/
def streamPumped (st : StreamState κ) (read : TcpRead) : Bytes :=
  match read with
  | .data bytes => if streamCanSendData kcp st then bytes else []
  | _ => []

/-! The four parts of `redp2p_stream_tick`. -/

def streamTickHello (st : StreamState κ) : Outcome κ :=
  if st.initiator && !st.ready && (!st.helloSent || env.now - st.lastHelloMs ≥ streamHelloMs) then
    (streamSendControl env st .hello).andThen fun st =>
      .done { st with helloSent := true, lastHelloMs := env.now }
  else .done st

def streamTickUpdate (st : StreamState κ) : Outcome κ :=
  let current := env.now.toUInt32
  if st.ready && (current - st.nextUpdateMs).toNat < 2 ^ 31 then
    let (state, datagrams) := kcp.update st.kcp current
    datagrams.foldl (streamKcpOutput env)
      (.done { st with kcp := state, nextUpdateMs := kcp.check state current })
  else .done st

def streamTickClose (st : StreamState κ) : Outcome κ :=
  if st.ready && st.localEof && !st.closeAcked && kcp.waitSnd st.kcp == 0 &&
      (!st.closeSent || env.now - st.lastCloseMs ≥ streamCloseMs) then
    (streamSendControl env st .close).andThen fun st =>
      .done { st with closeSent := true, lastCloseMs := env.now }
  else .done st

def streamTickKeepalive (st : StreamState κ) : Outcome κ :=
  if st.ready && env.now - st.lastKeepaliveMs ≥ keepaliveS * 1000 then
    (streamSendControl env st .keepalive).andThen fun st =>
      .done { st with lastKeepaliveMs := env.now }
  else .done st

def streamTick (st : StreamState κ) : Outcome κ :=
  (streamTickHello env st).andThen fun st =>
    (streamTickUpdate kcp env st).andThen fun st =>
      if st.sendError then .failed st
      else (streamTickClose kcp env st).andThen (streamTickKeepalive env)

def streamIsDone (st : StreamState κ) : Bool :=
  st.localEof && st.closeAcked && st.remoteClose && kcp.waitSnd st.kcp == 0

end Calls

/-! ### Packing and unpacking -/

theorem StreamType.ofCode_code (type : StreamType) : StreamType.ofCode type.code = some type := by
  cases type <;> rfl

theorem StreamRole.ofCode_code (role : StreamRole) : StreamRole.ofCode role.code = some role := by
  cases role <;> rfl

/-- The bytes of an envelope. -/
def streamFrame (type : StreamType) (role : StreamRole) (sessionId : SessionId) (payload : Bytes) :
    Bytes :=
  0x52 :: 0x4b :: 0x43 :: 0x50 :: streamVersion :: type.code :: role.code :: UInt8.ofNat protoTcp ::
    (sessionId.toList ++ payload)

theorem streamPack_frame {type : StreamType} {role : StreamRole} {sessionId : SessionId}
    {payload : Bytes} (h : payload.length ≤ streamKcpMtu) :
    streamPack type role (UInt8.ofNat protoTcp) sessionId payload =
      some (streamFrame type role sessionId payload) := by
  have hmagic : storeU32Le streamMagic = [0x52, 0x4b, 0x43, 0x50] := by decide
  rw [streamPack, if_neg (Nat.not_lt.mpr h), hmagic]
  simp [streamFrame]

/-- An envelope is read back as it was written. -/
theorem streamUnpack_frame {type : StreamType} {role : StreamRole} {sessionId : SessionId}
    {payload : Bytes} (h : payload.length ≤ streamKcpMtu) (hempty : type ≠ .kcp → payload = []) :
    streamUnpack (streamFrame type role sessionId payload) =
      some ⟨type, role, UInt8.ofNat protoTcp, sessionId, payload⟩ := by
  have hlength : (streamFrame type role sessionId payload).length = 24 + payload.length := by
    simp [streamFrame]
    omega
  have hbounds : ¬ ((streamFrame type role sessionId payload).length < streamEnvelopeSz ∨
      (streamFrame type role sessionId payload).length > streamMaxFrame) := by
    rw [hlength]
    simp only [streamEnvelopeSz, streamMaxFrame, streamKcpMtu] at h ⊢
    omega
  have hmagic : ∀ rest : Bytes, loadU32Le (0x52 :: 0x4b :: 0x43 :: 0x50 :: rest) = streamMagic := by
    intro rest
    have hword : loadU32Le [0x52, 0x4b, 0x43, 0x50] = streamMagic := by decide
    rw [← hword]
    simp [loadU32Le]
  have hpayload : (streamFrame type role sessionId payload).drop streamEnvelopeSz = payload := by
    simp [streamFrame, streamEnvelopeSz]
  have hsession : sessionIdAt ((streamFrame type role sessionId payload).drop 8) = sessionId := by
    apply Vector.ext
    intro i hi
    simp [streamFrame, sessionIdAt, List.getElem?_append]
  have hkind : ¬ (type ≠ .kcp ∧ payload ≠ []) := fun hboth => hboth.2 (hempty hboth.1)
  rw [streamUnpack, if_neg hbounds, hpayload, hsession]
  simp only [streamFrame, hmagic, List.getD_cons_succ, List.getD_cons_zero, ne_eq,
    not_true_eq_false, or_self, if_false, StreamType.ofCode_code, StreamRole.ofCode_code]
  rw [if_neg hkind]

end Redp2p
