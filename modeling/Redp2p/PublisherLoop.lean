import Redp2p.PeerNet
import Redp2p.PunchAnswers

/-! The event loop of the publisher: in each turn it sends the heartbeat that is due, polls the index
and punches for the calls it finds, receives one datagram of a peer, serves its backends and maintains
its sessions. -/

namespace Redp2p

open ByteString

/-! ### The calls of a poll -/

/-- One item of the calls of a poll reply. -/
def parseCall (item : Json Rat) : Option PunchCall := do
  let obj ← item.getObject
  let selfId ← obj.getString (ascii "self_id")
  let session ← obj.getString (ascii "session")
  guard (isValidId selfId && isSessionToken session)
  let candidates ← indexParseCandidates obj (ascii "candidates")
  return { selfId, session, candidates }

/-- What happens while the publisher punches for a call, until it gives up. -/
inductive PunchEvent where
  | round
  | hear (env : StreamEnv) (backendOk : Bool) (arrival : Arrival)

namespace Publisher

variable {κ : Type} (kcp : ByteChannel.Ops κ)

def punchStep (p : Publisher κ) : PunchEvent → Publisher κ
  | .round => p.punchRound
  | .hear env backendOk arrival => p.punchHear kcp env backendOk arrival

/-- A call and the punch for it. Nothing is left to do for a call that the mode excludes. -/
def answerCall (p : Publisher κ) (call : PunchCall) (events : List PunchEvent) : Publisher κ × Stage :=
  match p.takeCall call with
  | (p, .failed status) => (p, .failed status)
  | (p, stage) => ((events.foldl (punchStep kcp) p).punchGiveUp, stage)

/-- The loop of `redp2p_publisher_process_punch_calls`, with what happens during each punch. -/
def processItems (p : Publisher κ) : List (Json Rat) → List (List PunchEvent) → Publisher κ × Status
  | [], _ => (p, .ok)
  | item :: rest, events =>
    match parseCall item with
    | none => (p, .eproto)
    | some call =>
      match p.answerCall kcp call (events.headD []) with
      | (p, .failed status) => (p, status)
      | (p, _) => p.processItems rest events.tail

def processPunchCalls (p : Publisher κ) (out : JsonObject Rat) (events : List (List PunchEvent)) :
    Publisher κ × Status :=
  match out.getArray (ascii "calls") with
  | none => (p, .eproto)
  | some items => p.processItems kcp items events

end Publisher

/-! ### Control work -/

/-- A heartbeat that is due: the datagrams that the discovery of the address takes off the peer socket,
and how the exchange with the index ends. -/
structure Heartbeat where
  discovery : List Arrival
  status : Status

/-- A poll that is due: what the index answers, and what happens during the punch for each call. -/
structure Poll where
  reply : Except Status (JsonObject Rat)
  punches : List (List PunchEvent)

namespace Publisher

variable {κ : Type} (kcp : ByteChannel.Ops κ)

/-- `redp2p_publisher_heartbeat`: a datagram that answers no binding request is dropped. -/
def heartbeat (p : Publisher κ) : Option Heartbeat → Publisher κ × Status
  | none => (p, .ok)
  | some heartbeat => (p, heartbeat.status)

/-- `redp2p_publisher_punch_poll`. -/
def punchPoll (p : Publisher κ) : Option Poll → Publisher κ × Status
  | none => (p, .ok)
  | some poll =>
    match poll.reply with
    | .error .etimeout => (p, .ok)
    | .error status => (p, status)
    | .ok out => p.processPunchCalls kcp out poll.punches

end Publisher

/-! ### The event loop -/

/-- What a readable backend delivers. -/
inductive BackendRead where
  | stream (read : TcpRead)
  | datagram (source : SockAddr) (data : Bytes)

/-- What one turn finds. The clock is read anew for every session. -/
structure Turn where
  heartbeat : Option Heartbeat
  poll : Option Poll
  received : Option (StreamEnv × Arrival)
  backends : Nat → Option (StreamEnv × BackendRead)
  maintenance : Nat → StreamEnv

/-- Why the loop ends before it is told to. -/
inductive LoopEnd where
  | control (status : Status)
  | datagram (status : Status)
  deriving DecidableEq

namespace Publisher

variable {κ : Type} (kcp : ByteChannel.Ops κ)

/-- `redp2p_publisher_process_backends`. -/
def processBackends (p : Publisher κ) (reads : Nat → Option (StreamEnv × BackendRead)) : Publisher κ :=
  (List.range p.sessions.length).foldl
    (fun p index =>
      match reads index with
      | none => p
      | some (env, .stream read) => p.pumpBackend kcp env index read
      | some (env, .datagram source data) => p.receiveBackend env index source data) p

/-- `redp2p_publisher_maintain_sessions`. -/
def maintainSessions (p : Publisher κ) (envs : Nat → StreamEnv) : Publisher κ :=
  (List.range p.sessions.length).foldl (fun p index => p.maintain kcp (envs index) index) p

/-- `redp2p_publisher_receive_peer` in a turn, when the peer socket is readable. -/
def receiveStage (p : Publisher κ) : Option (StreamEnv × Arrival) → Publisher κ × Stage
  | none => (p, .proceed)
  | some (env, arrival) => p.receivePeer kcp env arrival.source arrival.data

/-- The loop goes on after a request to the index that timed out. -/
def goesOn (status : Status) : Bool := status = .ok || status = .etimeout

/-- One turn of the loop, and why it ends there, if it does. -/
def turn (p : Publisher κ) (t : Redp2p.Turn) : Publisher κ × Option LoopEnd :=
  let (p, status) := p.heartbeat t.heartbeat
  if !goesOn status then (p, some (.control status))
  else
    let (p, status) := p.punchPoll kcp t.poll
    if !goesOn status then (p, some (.control status))
    else
      match p.receiveStage kcp t.received with
      | (p, .failed status) => (p, some (.datagram status))
      | (p, .skip) => (p.maintainSessions kcp t.maintenance, none)
      | (p, .proceed) => ((p.processBackends kcp t.backends).maintainSessions kcp t.maintenance, none)

/-- `redp2p_publisher_event_loop` over the turns before it is told to stop. It closes its sessions when
it ends. -/
def eventLoop (env : StreamEnv) (p : Publisher κ) : List Redp2p.Turn → Publisher κ × Option LoopEnd
  | [] => (p, none)
  | t :: rest =>
    match p.turn kcp t with
    | (p, some ended) => (p.closeAll kcp env, some ended)
    | (p, none) => eventLoop env p rest

/-! ### Datagrams that end the loop -/

section Survival

/-- The loop goes on after a datagram exactly when the datagram fits the buffer. -/
theorem receivePeer_continues (p : Publisher κ) (env : StreamEnv) (source : SockAddr) (data : Bytes) :
    (∀ status, (p.receivePeer kcp env source data).2 ≠ .failed status) ↔ data.length ≤ bufSize := by
  unfold receivePeer
  by_cases hlong : data.length > bufSize
  · rw [if_pos hlong]
    constructor
    · intro h
      exact absurd rfl (h .enet)
    · intro h
      omega
  · rw [if_neg hlong]
    refine ⟨fun _ => Nat.not_lt.mp hlong, fun _ status => ?_⟩
    split
    · exact nofun
    split
    · exact nofun
    · rename_i s _
      show (if (s.receive kcp env data).2 then Stage.skip else .proceed) ≠ _
      split <;> exact nofun

theorem turn_continues {p : Publisher κ} {t : Redp2p.Turn}
    (h : ∀ received ∈ t.received, received.2.data.length ≤ bufSize) (status : Status) :
    (p.turn kcp t).2 ≠ some (.datagram status) := by
  unfold turn
  dsimp only
  split
  · exact nofun
  split
  · exact nofun
  split
  · rename_i q status' hstage
    cases hreceived : t.received with
    | none =>
      rw [hreceived] at hstage
      exact nomatch hstage
    | some received =>
      rw [hreceived] at hstage
      have hfits := (receivePeer_continues kcp
        ((p.heartbeat t.heartbeat).1.punchPoll kcp t.poll).1 received.1 received.2.source
        received.2.data).mpr (h received (by rw [hreceived]; rfl))
      exact absurd (congrArg Prod.snd hstage) (hfits status')
  · exact nofun
  · exact nofun

/-- A datagram ends the loop only when it is longer than the buffer: each datagram of at most 4096
bytes lets it go on, every longer one ends it, and no run ends at a datagram in which none is
longer. -/
theorem eventLoop_survives_iff {κ : Type} (kcp : ByteChannel.Ops κ) :
    (∀ (p : Publisher κ) (env : StreamEnv) (source : SockAddr) (data : Bytes),
      (∀ status, (p.receivePeer kcp env source data).2 ≠ .failed status) ↔ data.length ≤ bufSize) ∧
    ∀ (env : StreamEnv) (p : Publisher κ) (turns : List Redp2p.Turn),
      (∀ t ∈ turns, ∀ received ∈ t.received, received.2.data.length ≤ bufSize) →
        ∀ status, (p.eventLoop kcp env turns).2 ≠ some (.datagram status) := by
  refine ⟨receivePeer_continues kcp, fun env p turns h status => ?_⟩
  induction turns generalizing p with
  | nil => exact nofun
  | cons t rest ih =>
    have hturn := turn_continues kcp (p := p) (h t (by simp)) status
    rw [eventLoop]
    split
    · rename_i q ended hended
      rw [hended] at hturn
      exact hturn
    · exact ih _ fun t' ht' => h t' (by simp [ht'])

end Survival

end Publisher

/-- The clock, the backend connection and the buffers of a quiet host, at so many seconds. -/
def quietEnv (seconds : UInt64) : StreamEnv := ⟨seconds * 1000, fun _ => true, List.length⟩

/-- A turn in which nothing is due and at most one datagram arrives. -/
def quietTurn (seconds : UInt64) (received : Option Arrival) : Turn where
  heartbeat := none
  poll := none
  received := received.map fun arrival => (quietEnv seconds, arrival)
  backends := fun _ => none
  maintenance := fun _ => quietEnv seconds

theorem eventLoop_survives_sample :
    (∀ t ∈ [quietTurn 1 (some ⟨.inet Publisher.loopback 7, [0]⟩)], ∀ received ∈ t.received,
      received.2.data.length ≤ bufSize) ∧
    ∀ status, (samplePublisher.eventLoop sampleChannel (quietEnv 1)
      [quietTurn 1 (some ⟨.inet Publisher.loopback 7, [0]⟩)]).2 ≠ some (.datagram status) := by
  have hfits : ∀ t ∈ [quietTurn 1 (some ⟨.inet Publisher.loopback 7, [0]⟩)], ∀ received ∈ t.received,
      received.2.data.length ≤ bufSize := by decide
  exact ⟨hfits, (Publisher.eventLoop_survives_iff sampleChannel).2 _ _ _ hfits⟩

/-- One datagram of 4097 bytes, of anyone, ends the loop. -/
theorem eventLoop_ended :
    (samplePublisher.eventLoop sampleChannel (quietEnv 1)
      [quietTurn 1 (some ⟨.inet Publisher.loopback 7, List.replicate 4097 0⟩)]).2 = some (.datagram .enet) ∧
    ¬ ∀ (p : Publisher Unit) (env : StreamEnv) (source : SockAddr) (data : Bytes),
      data.length ≤ 65507 → ∀ status, (p.receivePeer sampleChannel env source data).2 ≠ .failed status := by
  have hlong : (List.replicate 4097 (0 : UInt8)).length > bufSize := by
    rw [List.length_replicate]
    decide
  have hreceive : ∀ (p : Publisher Unit) (env : StreamEnv) (source : SockAddr),
      p.receivePeer sampleChannel env source (List.replicate 4097 0) = (p, .failed .enet) := by
    intro p env source
    rw [Publisher.receivePeer, if_pos hlong]
  refine ⟨?_, fun h => ?_⟩
  · have hstage : samplePublisher.receiveStage sampleChannel
        (some (quietEnv 1, ⟨.inet Publisher.loopback 7, List.replicate 4097 0⟩)) =
          (samplePublisher, .failed .enet) := hreceive samplePublisher (quietEnv 1) _
    have hturn : samplePublisher.turn sampleChannel
        (quietTurn 1 (some ⟨.inet Publisher.loopback 7, List.replicate 4097 0⟩)) =
          (samplePublisher, some (.datagram .enet)) := by
      unfold Publisher.turn
      simp only [quietTurn, Publisher.heartbeat, Publisher.punchPoll, Option.map_some, hstage]
      rfl
    rw [Publisher.eventLoop, hturn]
  · exact h samplePublisher (quietEnv 1) (.inet Publisher.loopback 7) (List.replicate 4097 0)
      (by rw [List.length_replicate]; decide) .enet (by rw [hreceive])

end Redp2p
