import Redp2p.Publisher
import Redp2p.Consumer
import Redp2p.Lib.Keyed

/-! A consumer and a publisher with the index between them: every call that the consumer posts is
polled at most once, and each side receives datagrams that the other side sent, in any order and any
number of times, or none. -/

namespace Redp2p

open ByteString

/-! ### Events at either side -/

/-- What can happen at a consumer. While it establishes a session only the punch goes on. -/
inductive ConsumerEvent where
  | accept (random : SessionId) (candidates : List Candidate) (confirmed : Bool)
  | datagram (env : StreamEnv) (client : SockAddr) (data : Bytes) (random : SessionId)
      (candidates : List Candidate) (confirmed : Bool)
  | read (env : StreamEnv) (index : Nat) (read : TcpRead)
  | round
  | hear (env : StreamEnv) (initOk : Bool) (arrival : Arrival)
  | giveUp
  | receive (env : StreamEnv) (index : Nat) (arrival : Arrival)
  | maintain (env : StreamEnv) (index : Nat)
  | close (env : StreamEnv)

namespace ConsumerEvent

/-- The datagram of the peer that arrives. -/
def arrival : ConsumerEvent → Option Arrival
  | .hear _ _ arrival => some arrival
  | .receive _ _ arrival => some arrival
  | _ => none

/-- The random bytes of a stream session. -/
def random : ConsumerEvent → Option SessionId
  | .accept random _ _ => some random
  | _ => none

/-- The event belongs to the punch. -/
def punches : ConsumerEvent → Bool
  | .round => true
  | .hear _ _ _ => true
  | .giveUp => true
  | _ => false

end ConsumerEvent

def Consumer.step {κ : Type} (kcp : ByteChannel.Ops κ) (c : Consumer κ) :
    ConsumerEvent → Consumer κ × Option PunchCall
  | .accept random candidates confirmed => c.tcpAccept random candidates confirmed
  | .datagram env client data random candidates confirmed =>
    c.udpReceive env client data random candidates confirmed
  | .read env index read => (c.tcpPump kcp env index read, none)
  | .round => (c.punchRound, none)
  | .hear env initOk arrival => (c.punchHear kcp env initOk arrival, none)
  | .giveUp => (c.punchGiveUp, none)
  | .receive env index arrival => (c.peerReceive kcp env index arrival.source arrival.data, none)
  | .maintain env index => (c.maintain kcp env index, none)
  | .close env => (c.closeAll kcp env, none)

/-- What can happen at a publisher. While it answers a call only the punch goes on. -/
inductive PublisherEvent where
  | poll (env : StreamEnv) (index : Nat)
  | round
  | hear (env : StreamEnv) (backendOk : Bool) (arrival : Arrival)
  | giveUp
  | receive (env : StreamEnv) (arrival : Arrival)
  | read (env : StreamEnv) (index : Nat) (read : TcpRead)
  | datagram (env : StreamEnv) (index : Nat) (source : SockAddr) (data : Bytes)
  | maintain (env : StreamEnv) (index : Nat)
  | close (env : StreamEnv)

namespace PublisherEvent

def arrival : PublisherEvent → Option Arrival
  | .hear _ _ arrival => some arrival
  | .receive _ arrival => some arrival
  | _ => none

def punches : PublisherEvent → Bool
  | .round => true
  | .hear _ _ _ => true
  | .giveUp => true
  | _ => false

end PublisherEvent

/-- A publisher whose event loop ends with a failure closes its sessions. -/
def Publisher.after {κ : Type} (kcp : ByteChannel.Ops κ) (env : StreamEnv) :
    Publisher κ × Stage → Publisher κ
  | (p, .failed _) => p.closeAll kcp env
  | (p, _) => p

/-- An event at a publisher, with the call that it polls, if any. -/
def Publisher.step {κ : Type} (kcp : ByteChannel.Ops κ) (p : Publisher κ) (polled : Option PunchCall) :
    PublisherEvent → Publisher κ
  | .poll env _ =>
    match polled with
    | none => p
    | some call => Publisher.after kcp env (p.takeCall call)
  | .round => p.punchRound
  | .hear env backendOk arrival => p.punchHear kcp env backendOk arrival
  | .giveUp => p.punchGiveUp
  | .receive env arrival =>
    Publisher.after kcp env (p.receivePeer kcp env arrival.source arrival.data)
  | .read env index read => p.pumpBackend kcp env index read
  | .datagram env index source data => p.receiveBackend env index source data
  | .maintain env index => p.maintain kcp env index
  | .close env => p.closeAll kcp env

/-! ### Both sides -/

/-- Both sides, the calls that wait at the index, and the random bytes drawn for streams so far: the
random source does not repeat them. -/
structure PeerNet (κ : Type) where
  consumer : Consumer κ
  publisher : Publisher κ
  calls : List PunchCall
  drawn : List SessionId

inductive PeerNetEvent where
  | consumer (event : ConsumerEvent)
  | publisher (event : PublisherEvent)
  | lose (index : Nat)

namespace PeerNet

variable {κ : Type} (kcp : ByteChannel.Ops κ)

/-- What a start is given: the modes, the identifiers, the candidates of the publisher that the lookup
returned, and the settings. -/
structure Config where
  consumerProto : Proto
  publisherProto : Proto
  selfId : Bytes
  targetId : Bytes
  bindPort : UInt16
  consumerSweep : Nat
  publisherSweep : Nat

def start (config : Config) (peerCandidates : List Candidate) : PeerNet κ where
  consumer := .start config.consumerProto config.selfId config.targetId config.consumerSweep
    peerCandidates
  publisher := .start config.publisherProto config.targetId config.bindPort config.publisherSweep
  calls := []
  drawn := []

/-- The network does not forge. -/
def delivers (emitted : List Bytes) : Option Arrival → Bool
  | none => true
  | some arrival => emitted.contains arrival.data

def consumerEnabled (net : PeerNet κ) (event : ConsumerEvent) : Bool :=
  event.punches == net.consumer.establishing.isSome &&
    delivers net.publisher.side.emitted event.arrival &&
    !(event.random.any fun random => net.drawn.contains random)

def publisherEnabled (net : PeerNet κ) (event : PublisherEvent) : Bool :=
  event.punches == net.publisher.answering.isSome && delivers net.consumer.side.emitted event.arrival

def step (net : PeerNet κ) : PeerNetEvent → PeerNet κ
  | .consumer event =>
    if net.consumerEnabled event then
      { net with
        consumer := (net.consumer.step kcp event).1
        calls := net.calls ++ (net.consumer.step kcp event).2.toList
        drawn := net.drawn ++ event.random.toList }
    else net
  | .publisher event =>
    if net.publisherEnabled event then
      match event with
      | .poll env index =>
        { net with
          publisher := net.publisher.step kcp net.calls[index]? (.poll env index)
          calls := net.calls.eraseIdx index }
      | event => { net with publisher := net.publisher.step kcp none event }
    else net
  | .lose index => { net with calls := net.calls.eraseIdx index }

def run : PeerNet κ → List PeerNetEvent → PeerNet κ := List.foldl (step kcp)

theorem run_append (net : PeerNet κ) (events events' : List PeerNetEvent) :
    net.run kcp (events ++ events') = (net.run kcp events).run kcp events' := List.foldl_append

theorem delivers_mem {emitted : List Bytes} {arrival : Option Arrival}
    (h : delivers emitted arrival = true) : ∀ a ∈ arrival, a.data ∈ emitted := by
  rintro a rfl
  simpa [delivers] using h

/-- An event of the publisher takes at most one of the calls. -/
theorem step_publisher {net : PeerNet κ} {event : PublisherEvent}
    (henabled : net.publisherEnabled event = true) :
    ∃ polled calls, net.step kcp (.publisher event) =
        { net with publisher := net.publisher.step kcp polled event, calls } ∧
      (polled.toList ++ calls).Perm net.calls := by
  simp only [step, if_pos henabled]
  split
  · rename_i env index
    refine ⟨_, _, rfl, ?_⟩
    by_cases hindex : index < net.calls.length
    · rw [List.getElem?_eq_getElem hindex]
      exact List.getElem_cons_eraseIdx_perm hindex
    · rw [List.getElem?_eq_none (Nat.not_lt.mp hindex), List.eraseIdx_of_length_le (Nat.not_lt.mp hindex)]
      exact .refl _
  · exact ⟨none, net.calls, rfl, .refl _⟩

/-- An invariant that every step keeps holds after every run. -/
theorem run_induction (inv : PeerNet κ → Prop)
    (hstep : ∀ net event, inv net → inv (net.step kcp event)) {net : PeerNet κ} (hnet : inv net)
    (events : List PeerNetEvent) : inv (net.run kcp events) := by
  induction events generalizing net with
  | nil => exact hnet
  | cons event events ih => exact ih (hstep net event hnet)

end PeerNet

namespace Link

variable {κ : Type}

/-- All that the session wrote to its local application is application data of the other side: each
datagram was received there, or the bytes are a prefix of the stream read there for that session. -/
def Clean (others : List (Link κ)) : Link κ → Prop
  | .udp u => ∀ data ∈ u.delivered, ∃ other ∈ others, data ∈ other.received
  | .tcp party => party.written = [] ∨
      ∃ other, .tcp other ∈ others ∧ other.st.sessionId = party.st.sessionId ∧
        party.written <+: other.readBytes

end Link

/-- No side writes anything to an application but what an application of the other side sent. -/
def PeerNet.Clean {κ : Type} (net : PeerNet κ) : Prop :=
  (∀ link ∈ net.publisher.side.links, link.Clean net.consumer.side.links) ∧
    ∀ link ∈ net.consumer.side.links, link.Clean net.publisher.side.links

end Redp2p
