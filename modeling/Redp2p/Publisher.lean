import Redp2p.Sessions

/-! The publisher: its session table, the calls it answers by punching, and the datagrams it moves
between its peers and its backend. -/

namespace Redp2p

open ByteString

/-- A call that the publisher answers, with the identifier of the session to open. -/
structure Answering where
  punching : Punching
  sessionId : SessionId

/-- A publisher, with the datagrams it sent beside those of its streams. Sessions stay in the table
when they are closed: a slot is reused only for a session that nothing finds any more. -/
structure Publisher (κ : Type) where
  proto : Proto
  selfId : Bytes
  bindPort : UInt16
  sweep : Nat
  sessions : List (Session κ)
  answering : Option Answering
  sent : List (SockAddr × Bytes)

namespace Publisher

variable {κ : Type} (kcp : ByteChannel.Ops κ) (env : StreamEnv)

def start (proto : Proto) (selfId : Bytes) (bindPort : UInt16) (sweep : Nat) : Publisher κ :=
  ⟨proto, selfId, bindPort, sweep, [], none, []⟩

/-! ### The session table -/

def sessionFind (p : Publisher κ) (peerAddr : SockAddr) (sessionId : Option SessionId) : Option Nat :=
  p.sessions.findIdx? fun s => s.link.active && s.peerAddr == peerAddr && s.link.serves sessionId

def sessionInsert (p : Publisher κ) (session : Session κ) : Publisher κ :=
  { p with sessions := p.sessions ++ [session] }

/-- The active session at an index, in a new state, after some more datagrams. -/
def update (p : Publisher κ) (index : Nat)
    (change : Session κ → Session κ × List (SockAddr × Bytes)) : Publisher κ :=
  match p.sessions[index]? with
  | none => p
  | some s =>
    if s.link.active then
      { p with sessions := p.sessions.set index (change s).1, sent := p.sent ++ (change s).2 }
    else p

/-- The local end that a publisher in this mode opens. -/
def newLink (proto : Proto) (sessionId : SessionId) : Link κ :=
  match proto with
  | .tcp => .tcp (Party.opened kcp false sessionId env.now)
  | .udp => .udp ⟨true, [], []⟩

/-- `redp2p_publisher_open_session`. `backendOk` tells whether the local resources are there. -/
def openSession (p : Publisher κ) (backendOk : Bool) (sessionId : SessionId) (peerAddr : SockAddr) :
    Publisher κ × Bool :=
  let wanted := if p.proto = .tcp then some sessionId else none
  if (p.sessionFind peerAddr wanted).isSome then (p, true)
  else if !backendOk then (p, false)
  else (p.sessionInsert (.opened env peerAddr (newLink kcp env p.proto sessionId)), true)

/-! ### Calls -/

/-- The token and the stream identifier of a call, when a publisher in this mode takes it. -/
def callSession (proto : Proto) (token : Bytes) : Option (Bytes × SessionId) :=
  match proto with
  | .tcp =>
    if isHexToken token 32 then (decodeSessionId token).map fun sessionId => (token, sessionId)
    else none
  | .udp => some (boundedCopy 33 token, Vector.replicate 16 0)

/-- One turn of `redp2p_publisher_process_punch_calls`, until the punch begins. -/
def takeCall (p : Publisher κ) (call : PunchCall) : Publisher κ × Stage :=
  if !(isValidId call.selfId && isSessionToken call.session) then (p, .failed .eproto)
  else
    match callSession p.proto call.session with
    | none => (p, .proceed)
    | some (token, sessionId) =>
      let punching := Punching.start p.sweep token p.selfId call.selfId call.candidates
      ({ p with answering := punching.map fun punching => ⟨punching, sessionId⟩ }, .proceed)

def punchRound (p : Publisher κ) : Publisher κ :=
  match p.answering with
  | none => p
  | some call =>
    { p with
      answering := some { call with punching := call.punching.round.1 }
      sent := p.sent ++ call.punching.round.2 }

/-- A datagram that arrives while the publisher punches. The rest of the turn follows when it selects
its source. -/
def punchHear (p : Publisher κ) (backendOk : Bool) (arrival : Arrival) : Publisher κ :=
  match p.answering with
  | none => p
  | some call =>
    match call.punching.hear arrival with
    | (punching, none, sent) =>
      { p with answering := some { call with punching }, sent := p.sent ++ sent }
    | (_, some peerAddr, sent) =>
      let p := { p with answering := none, sent := p.sent ++ sent }
      let (p, ready) := p.openSession kcp env backendOk call.sessionId peerAddr
      if ready then { p with sent := p.sent ++ [(peerAddr, ctrtokPunchServer)] } else p

def punchGiveUp (p : Publisher κ) : Publisher κ := { p with answering := none }

/-! ### Datagrams -/

/-- The session that a datagram belongs to. -/
def locate (p : Publisher κ) (source : SockAddr) (data : Bytes) : Option Nat :=
  match p.proto with
  | .tcp =>
    match streamUnpack data with
    | none => none
    | some envelope => p.sessionFind source (some envelope.sessionId)
  | .udp => p.sessionFind source none

/-- The answer to a ping that belongs to no session. -/
def pingAnswer (data : Bytes) : Option Bytes :=
  if startsWith ctrtokPunchPing data then
    (parsePunchPacket (cstr data) ctrtokPunchPing).map fun ping =>
      punchText ctrtokPunchPong ping.session ping.toId ping.fromId []
  else none

def receivePeer (p : Publisher κ) (source : SockAddr) (data : Bytes) : Publisher κ × Stage :=
  if data.length > bufSize then (p, .failed .enet)
  else
    match p.locate source data with
    | none =>
      let answer := (pingAnswer data).toList.map fun pong => (source, pong)
      ({ p with sent := p.sent ++ answer }, .proceed)
    | some index =>
      match p.sessions[index]? with
      | none => (p, .proceed)
      | some s =>
        let (s, skip) := s.receive kcp env data
        ({ p with sessions := p.sessions.set index s }, if skip then .skip else .proceed)

/-- `redp2p_publisher_process_backends` for a session whose backend stream is readable. -/
def pumpBackend (p : Publisher κ) (index : Nat) (read : TcpRead) : Publisher κ :=
  p.update index fun s => (s.pump kcp env read, [])

def loopback : Bytes := [127, 0, 0, 1]

/-- `redp2p_publisher_process_backends` for a session whose backend socket has a datagram: only those
of the backend itself go to the peer, as far as they fit the buffer. -/
def receiveBackend (p : Publisher κ) (index : Nat) (source : SockAddr) (data : Bytes) : Publisher κ :=
  if source ≠ .inet loopback p.bindPort then p
  else
    p.update index fun s =>
      match s.link with
      | .tcp _ => (s, [])
      | .udp u =>
        ({ s with
          link := .udp { u with received := u.received ++ [data] }
          lastRx := Session.nowS env }, [(s.peerAddr, data.take bufSize)])

def maintain (p : Publisher κ) (index : Nat) : Publisher κ :=
  p.update index fun s => s.maintain kcp env

/-- `redp2p_publisher_session_close_all`. -/
def closeAll (p : Publisher κ) : Publisher κ :=
  { p with sessions := p.sessions.map fun s => s.close kcp env }

def side (p : Publisher κ) : Side κ := ⟨p.sessions.map fun s => s.link, p.sent.map Prod.snd⟩

end Publisher

end Redp2p
