import Redp2p.Sessions

/-! The consumer: the sessions it establishes for its local clients, and the datagrams it moves
between them and its peer. -/

namespace Redp2p

open ByteString

structure ConsumerSession (κ : Type) extends Session κ where
  clientAddr : Option SockAddr

/-- What a session is established for: an accepted stream, or a datagram of a new client. -/
inductive LocalClient where
  | stream
  | datagram (client : SockAddr) (data : Bytes)

/-- A session that the consumer establishes, with the random bytes behind its token. -/
structure Establishing where
  punching : Punching
  sessionId : SessionId
  client : LocalClient

/-- A consumer, with the datagrams it sent beside those of its streams. Closed sessions stay in the
table, as with the publisher. -/
structure Consumer (κ : Type) where
  proto : Proto
  selfId : Bytes
  targetId : Bytes
  sweep : Nat
  peerCandidates : List Candidate
  sessions : List (ConsumerSession κ)
  establishing : Option Establishing
  sent : List (SockAddr × Bytes)

namespace Consumer

variable {κ : Type} (kcp : ByteChannel.Ops κ) (env : StreamEnv)

/-- A consumer after its lookup of the target. -/
def start (proto : Proto) (selfId targetId : Bytes) (sweep : Nat) (peerCandidates : List Candidate) :
    Consumer κ :=
  ⟨proto, selfId, targetId, sweep, peerCandidates, [], none, []⟩

/-! ### The session table -/

def sessionFind (c : Consumer κ) (client : SockAddr) : Option Nat :=
  c.sessions.findIdx? fun s => s.link.active && s.clientAddr == some client

def sessionInsert (c : Consumer κ) (session : ConsumerSession κ) : Consumer κ :=
  { c with sessions := c.sessions ++ [session] }

/-- The active session at an index, in a new state, after some more datagrams. -/
def update (c : Consumer κ) (index : Nat)
    (change : Session κ → Session κ × List (SockAddr × Bytes)) : Consumer κ :=
  match c.sessions[index]? with
  | none => c
  | some s =>
    if s.link.active then
      { c with
        sessions := c.sessions.set index { s with toSession := (change s.toSession).1 }
        sent := c.sent ++ (change s.toSession).2 }
    else c

/-! ### Establishing sessions -/

/-- The session token that `redp2p_consumer_establish_peer` makes of random bytes. -/
def sessionToken (proto : Proto) (random : SessionId) : Bytes :=
  match proto with
  | .tcp => streamToken random
  | .udp => hexEncode (random.toList.take 8)

/-- `redp2p_consumer_establish_peer` until the punch begins, with the call that it posts. `accepted`
tells whether the index confirmed the call. -/
def establish (c : Consumer κ) (random : SessionId) (candidates : List Candidate) (accepted : Bool)
    (client : LocalClient) : Consumer κ × Option PunchCall :=
  let token := sessionToken c.proto random
  if candidates = [] ∨ candidates.length > peerCandidatesMax then (c, none)
  else
    let punching :=
      if accepted then Punching.start c.sweep token c.selfId c.targetId c.peerCandidates else none
    ({ c with establishing := punching.map fun punching => ⟨punching, random, client⟩ },
      some ⟨c.selfId, token, candidates⟩)

def punchRound (c : Consumer κ) : Consumer κ :=
  match c.establishing with
  | none => c
  | some session =>
    { c with
      establishing := some { session with punching := session.punching.round.1 }
      sent := c.sent ++ session.punching.round.2 }

/-- The session of a client whose peer was selected, with the datagram that waited for it. -/
def sessionInit (session : Establishing) (peerAddr : SockAddr) :
    ConsumerSession κ × List (SockAddr × Bytes) :=
  match session.client with
  | .stream =>
    ({ Session.opened env peerAddr (.tcp (Party.opened kcp true session.sessionId env.now)) with
      clientAddr := none }, [])
  | .datagram client data =>
    ({ Session.opened env peerAddr (.udp ⟨true, [data], []⟩) with clientAddr := some client },
      [(peerAddr, data)])

/-- A datagram that arrives while the consumer punches. `initOk` tells whether the local resources
of a session are there. -/
def punchHear (c : Consumer κ) (initOk : Bool) (arrival : Arrival) : Consumer κ :=
  match c.establishing with
  | none => c
  | some session =>
    match session.punching.hear arrival with
    | (punching, none, sent) =>
      { c with establishing := some { session with punching }, sent := c.sent ++ sent }
    | (_, some peerAddr, sent) =>
      let c := { c with establishing := none, sent := c.sent ++ sent }
      let (opened, first) := sessionInit kcp env session peerAddr
      if initOk then { c.sessionInsert opened with sent := c.sent ++ first } else c

def punchGiveUp (c : Consumer κ) : Consumer κ := { c with establishing := none }

/-! ### Local clients -/

def tcpAccept (c : Consumer κ) (random : SessionId) (candidates : List Candidate) (accepted : Bool) :
    Consumer κ × Option PunchCall :=
  if c.proto = .tcp then c.establish random candidates accepted .stream else (c, none)

/-- A datagram of a local client that has a session. -/
def forward (s : Session κ) (data : Bytes) : Session κ × List (SockAddr × Bytes) :=
  match s.link with
  | .tcp _ => (s, [])
  | .udp u =>
    ({ s with
      link := .udp { u with received := u.received ++ [data] }
      lastRx := Session.nowS env }, [(s.peerAddr, data)])

def udpReceive (c : Consumer κ) (client : SockAddr) (data : Bytes) (random : SessionId)
    (candidates : List Candidate) (accepted : Bool) : Consumer κ × Option PunchCall :=
  if c.proto = .tcp then (c, none)
  else if (data.take bufSize).length > udpPayloadMax then (c, none)
  else
    match c.sessionFind client with
    | some index => (c.update index fun s => forward env s data, none)
    | none => c.establish random candidates accepted (.datagram client data)

def tcpPump (c : Consumer κ) (index : Nat) (read : TcpRead) : Consumer κ :=
  c.update index fun s => (s.pump kcp env read, [])

/-! ### The peer -/

/-- One turn of `redp2p_consumer_peer_receive`. -/
def peerReceive (c : Consumer κ) (index : Nat) (source : SockAddr) (data : Bytes) : Consumer κ :=
  c.update index fun s =>
    if source = s.peerAddr then ((s.receive kcp env (data.take bufSize)).1, []) else (s, [])

def maintain (c : Consumer κ) (index : Nat) : Consumer κ :=
  c.update index fun s => s.maintain kcp env

/-- `redp2p_consumer_session_close_all`. -/
def closeAll (c : Consumer κ) : Consumer κ :=
  { c with sessions := c.sessions.map fun s => { s with toSession := s.toSession.close kcp env } }

def side (c : Consumer κ) : Side κ := ⟨c.sessions.map fun s => s.link, c.sent.map Prod.snd⟩

end Consumer

end Redp2p
