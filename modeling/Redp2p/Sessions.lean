import Redp2p.Punch
import Redp2p.Tunnel

/-! Sessions of a peer: the record that the publisher and the consumer both keep of a session, what
they do with a datagram of its peer, and how it is maintained and closed. -/

namespace Redp2p

open ByteString

inductive Proto where
  | tcp | udp
  deriving DecidableEq, Repr

/-! ### Session tokens -/

/-- `redp2p_hex_decode` of so many bytes. -/
def hexDecode : Nat → Bytes → Option Bytes
  | 0, _ => some []
  | count + 1, hi :: lo :: rest =>
    if isHexDigit hi && isHexDigit lo then
      (hexDecode count rest).map (UInt8.ofNat (hexValue hi * 16 + hexValue lo) :: ·)
    else none
  | _ + 1, _ => none

def decodeSessionId (token : Bytes) : Option SessionId := (hexDecode 16 token).map sessionIdAt

/-- The token of a stream session, `redp2p_stream_make_session_id`. -/
def streamToken (sessionId : SessionId) : Bytes := hexEncode sessionId.toList

/-! ### Control datagrams -/

def isKeepalive (data : Bytes) : Bool := data == ctrtokKa

def isPunchControl (data : Bytes) : Bool :=
  startsWith ctrtokPunch data || startsWith ctrtokPunchPing data || startsWith ctrtokPunchPong data

/-! ### Sessions -/

/-- The local end of a session that forwards datagrams, with its history: the datagrams received from
and delivered to the local application. -/
structure UdpEnd where
  active : Bool
  received : List Bytes
  delivered : List Bytes

/-- The local end of a session in either mode. -/
inductive Link (κ : Type) where
  | udp (udpEnd : UdpEnd)
  | tcp (party : Party κ)

namespace Link

variable {κ : Type}

def active : Link κ → Bool
  | .udp u => u.active
  | .tcp party => party.active

/-- The session is closed without a word to its peer. -/
def shut : Link κ → Link κ
  | .udp u => .udp { u with active := false }
  | .tcp party => .tcp { party with active := false }

/-- The identifier of a stream session. -/
def id : Link κ → Option SessionId
  | .udp _ => none
  | .tcp party => some party.st.sessionId

/-- `redp2p_publisher_session_find`: a UDP session when no stream session is asked for, else the
stream session of that identifier. -/
def serves (sessionId : Option SessionId) : Link κ → Bool
  | .udp _ => sessionId.isNone
  | .tcp party => sessionId == some party.st.sessionId

/-- The datagrams that the stream of a session sent. -/
def sent : Link κ → List Bytes
  | .udp _ => []
  | .tcp party => party.sent

/-- The datagrams that a session received from and delivered to its local application. -/
def received : Link κ → List Bytes
  | .udp u => u.received
  | .tcp _ => []

def delivered : Link κ → List Bytes
  | .udp u => u.delivered
  | .tcp _ => []

/-- A session that ends with its program. -/
def close (kcp : ByteChannel.Ops κ) (env : StreamEnv) : Link κ → Link κ
  | .udp u => .udp { u with active := false }
  | .tcp party =>
    if streamIsDone kcp party.st then .tcp { party with active := false } else .tcp (party.close env)

end Link

/-- What a peer sees of a side: its sessions, and the datagrams it sent beside those of its streams. -/
structure Side (κ : Type) where
  links : List (Link κ)
  sent : List Bytes

/-- Every datagram that the side sent. -/
def Side.emitted {κ : Type} (s : Side κ) : List Bytes := s.sent ++ s.links.flatMap Link.sent

structure Session (κ : Type) where
  peerAddr : SockAddr
  link : Link κ
  lastRx : UInt64
  lastKa : UInt64

namespace Session

variable {κ : Type} (kcp : ByteChannel.Ops κ) (env : StreamEnv)

/-- `redp2p_now_s`. -/
def nowS : UInt64 := env.now / 1000

def opened (peerAddr : SockAddr) (link : Link κ) : Session κ := ⟨peerAddr, link, nowS env, nowS env⟩

/-- What both sides do with a datagram of the peer, and whether they skip the rest of the turn. -/
def receive (s : Session κ) (data : Bytes) : Session κ × Bool :=
  match s.link with
  | .udp u =>
    if data.length > udpPayloadMax then (s, true)
    else if isKeepalive data then ({ s with lastRx := nowS env }, false)
    else if isPunchControl data then (s, true)
    else
      ({ s with
        link := .udp { u with delivered := u.delivered ++ [data] }
        lastRx := nowS env }, false)
  | .tcp party =>
    if isPunchControl data then (s, true)
    else
      ({ s with
        link := .tcp (party.absorb env (streamProcessPacket kcp env party.st data))
        lastRx := nowS env }, false)

/-- The local stream of a session is readable. -/
def pump (s : Session κ) (read : TcpRead) : Session κ :=
  match s.link with
  | .udp _ => s
  | .tcp party =>
    { s with link := .tcp ({ party with
        readBytes := party.readBytes ++ streamPumped kcp party.st read }.absorb env
          (streamPumpTcp kcp env party.st read)) }

/-- The keepalive and the expiry of a session, with the datagrams sent to its peer. -/
def expire (s : Session κ) : Session κ × List (SockAddr × Bytes) :=
  let due : Bool := nowS env - s.lastKa > keepaliveS
  let keepalive :=
    match s.link with
    | .udp _ => if due then [(s.peerAddr, ctrtokKa)] else []
    | .tcp _ => []
  let s := if due then { s with lastKa := nowS env } else s
  (if nowS env - s.lastRx > disconnectS then { s with link := s.link.shut } else s, keepalive)

/-- One turn of `redp2p_publisher_maintain_sessions` and `redp2p_consumer_session_maintain`. -/
def maintain (s : Session κ) : Session κ × List (SockAddr × Bytes) :=
  match s.link with
  | .udp _ => s.expire env
  | .tcp party =>
    let o := streamTick kcp env party.st
    let party := party.absorb env o
    if !o.ok || streamIsDone kcp o.st then
      ({ s with link := .tcp { party with active := false } }, [])
    else { s with link := .tcp party }.expire env

/-- One turn of `redp2p_publisher_session_close_all` and `redp2p_consumer_session_close_all`. -/
def close (s : Session κ) : Session κ :=
  if s.link.active then { s with link := s.link.close kcp env } else s

end Session

/-- What an event loop makes of a stage: it goes on, skips the rest of its turn, or ends. -/
inductive Stage where
  | proceed | skip
  | failed (status : Status)
  deriving DecidableEq

/-- A punch call, as a consumer posts it and a publisher polls it. -/
structure PunchCall where
  selfId : Bytes
  session : Bytes
  candidates : List Candidate

/-! ### Tokens are read back -/

theorem hexDecode_hexEncode (bytes : Bytes) : hexDecode bytes.length (hexEncode bytes) = some bytes := by
  induction bytes with
  | nil => rfl
  | cons b bytes ih =>
    have hb : b.toNat < 256 := b.toNat_lt
    have hvalue : b.toNat / 16 * 16 + b.toNat % 16 = b.toNat := by omega
    rw [hexEncode, List.length_cons, hexDecode, hexDigit_isHexDigit (by omega),
      hexDigit_isHexDigit (by omega), hexValue_hexDigit (by omega), hexValue_hexDigit (by omega), ih,
      hvalue]
    simp

theorem sessionIdAt_toList (sessionId : SessionId) : sessionIdAt sessionId.toList = sessionId := by
  apply Vector.ext
  intro i hi
  simp [sessionIdAt]

/-- A publisher reads the session identifier of a consumer back from its token. -/
theorem decodeSessionId_streamToken (sessionId : SessionId) :
    decodeSessionId (streamToken sessionId) = some sessionId := by
  have hdecode := hexDecode_hexEncode sessionId.toList
  rw [Vector.length_toList] at hdecode
  rw [decodeSessionId, streamToken, hdecode, Option.map_some, sessionIdAt_toList]

end Redp2p
