import Redp2p.StreamNet
import Redp2p.DatagramNet
import Redp2p.MuteNet

/-! The modes of both sides: an application hears nothing but the application of the other side, unless
the consumer carries streams and the publisher datagrams. Then the publisher hands the envelopes of
the stream to its backend. -/

namespace Redp2p

open ByteString ByteChannel

section Crossed

variable {κ : Type} {kcp : Ops κ}

/-! ### A stream that meets a publisher of datagrams -/

def crossedEnv : StreamEnv := ⟨1000, fun _ => true, List.length⟩

def crossedId : SessionId := Vector.replicate 16 0

def crossedHello : Bytes := streamFrame .hello .initiator crossedId []

theorem crossed_tick (kcp : Ops κ) :
    streamTick kcp crossedEnv (streamInit kcp true crossedId 1000) =
      ⟨{ streamInit kcp true crossedId 1000 with helloSent := true, lastHelloMs := 1000 },
        [crossedHello], [], false, true⟩ := by
  have hpack : streamPack .hello .initiator (UInt8.ofNat protoTcp) crossedId [] =
      some crossedHello := streamPack_frame (Nat.zero_le _)
  have hhello : streamTickHello crossedEnv (streamInit kcp true crossedId 1000) =
      ⟨{ streamInit kcp true crossedId 1000 with helloSent := true, lastHelloMs := 1000 },
        [crossedHello], [], false, true⟩ := by
    simp [streamTickHello, streamInit, streamSendControl, streamRole, hpack, crossedEnv,
      Outcome.andThen, Outcome.done]
  unfold streamTick
  rw [hhello]
  simp [Outcome.andThen, streamTickUpdate, streamTickClose, streamTickKeepalive, Outcome.done,
    streamInit]

/-- A new stream sends its hello in its first turn. -/
theorem crossed_maintain (kcp : Ops κ) {c : Consumer κ} {x : ConsumerSession κ}
    (hsessions : c.sessions = [x]) (hx : x.link = .tcp (Party.opened kcp true crossedId 1000)) :
    crossedHello ∈ (c.maintain kcp crossedEnv 0).side.emitted ∧
      ∀ link ∈ (c.maintain kcp crossedEnv 0).side.links, link.received = [] := by
  have hdone : streamIsDone kcp { streamInit kcp true crossedId 1000 with
      helloSent := true, lastHelloMs := 1000 } = false := by
    simp [streamIsDone, streamInit]
  have hlink : ∃ party, (x.toSession.maintain kcp crossedEnv).1.link = .tcp party ∧
      party.sent = [crossedHello] := by
    unfold Session.maintain
    rw [hx]
    simp only [Party.opened, crossed_tick, Party.absorb, hdone, Bool.not_true, Bool.or_false,
      Bool.false_eq_true, if_false, if_true]
    unfold Session.expire
    dsimp only
    split <;> split <;> exact ⟨_, rfl, rfl⟩
  obtain ⟨party, hparty, hsent⟩ := hlink
  have hactive : x.link.active = true := by
    rw [hx]
    rfl
  have hsessions' : (c.maintain kcp crossedEnv 0).side.links = [.tcp party] := by
    unfold Consumer.maintain Consumer.update
    simp [hsessions, hactive, Consumer.side, hparty]
  constructor
  · rw [Side.emitted, hsessions']
    simp [Link.sent, hsent]
  · rw [hsessions']
    simp [Link.received]

/-- A publisher of datagrams delivers the hello. -/
theorem crossed_receive (kcp : Ops κ) {p : Publisher κ} {y : Session κ} {source : SockAddr}
    (hsessions : p.sessions = [y]) (hy : y.link = .udp ⟨true, [], []⟩) (haddr : y.peerAddr = source)
    (hproto : p.proto = .udp) :
    (p.step kcp none (.receive crossedEnv ⟨source, crossedHello⟩)).side.links =
      [.udp ⟨true, [], [crossedHello]⟩] := by
  have hlocate : p.locate source crossedHello = some 0 := by
    simp [Publisher.locate, hproto, Publisher.sessionFind, hsessions, hy, haddr, Link.active,
      Link.serves]
  have hlength : crossedHello.length = 24 := rfl
  have hcontrol : isKeepalive crossedHello = false ∧ isPunchControl crossedHello = false := by decide
  have hreceive : (y.receive kcp crossedEnv crossedHello).1.link = .udp ⟨true, [], [crossedHello]⟩ ∧
      (y.receive kcp crossedEnv crossedHello).2 = false := by
    simp [Session.receive, hy, hcontrol, hlength, udpPayloadMax]
  show (Publisher.after kcp crossedEnv (p.receivePeer kcp crossedEnv source crossedHello)).side.links = _
  unfold Publisher.receivePeer
  simp [hlocate, hlength, hsessions, hreceive, bufSize, Publisher.after, Publisher.side]

theorem crossed_leak (kcp : Ops κ) {net : PeerNet κ} {x : ConsumerSession κ} {y : Session κ}
    {source : SockAddr} (hconsumer : net.consumer.sessions = [x])
    (hx : x.link = .tcp (Party.opened kcp true crossedId 1000))
    (hestablishing : net.consumer.establishing = none) (hpublisher : net.publisher.sessions = [y])
    (hy : y.link = .udp ⟨true, [], []⟩) (haddr : y.peerAddr = source)
    (hproto : net.publisher.proto = .udp) (hanswering : net.publisher.answering = none) :
    ¬ (net.run kcp [.consumer (.maintain crossedEnv 0),
      .publisher (.receive crossedEnv ⟨source, crossedHello⟩)]).Clean := by
  obtain ⟨hsent, hreceived⟩ := crossed_maintain kcp hconsumer hx
  have hfirst : net.step kcp (.consumer (.maintain crossedEnv 0)) =
      { net with consumer := net.consumer.maintain kcp crossedEnv 0 } := by
    simp [PeerNet.step, PeerNet.consumerEnabled, ConsumerEvent.punches, hestablishing,
      ConsumerEvent.arrival, PeerNet.delivers, ConsumerEvent.random, Consumer.step]
  have henabled : PeerNet.publisherEnabled
      { net with consumer := net.consumer.maintain kcp crossedEnv 0 }
      (.receive crossedEnv ⟨source, crossedHello⟩) = true := by
    simp [PeerNet.publisherEnabled, PublisherEvent.punches, hanswering, PublisherEvent.arrival,
      PeerNet.delivers, hsent]
  have hlinks := crossed_receive kcp hpublisher hy haddr hproto
  simp only [PeerNet.run, List.foldl_cons, List.foldl_nil]
  rw [hfirst]
  simp only [PeerNet.step, henabled, if_true]
  intro hclean
  obtain ⟨other, hother, hdata⟩ := hclean.1 (.udp ⟨true, [], [crossedHello]⟩)
    (by rw [hlinks]; exact List.mem_singleton_self _) crossedHello (List.mem_singleton_self _)
  rw [hreceived other hother] at hdata
  cases hdata

/-! ### How the two come to a session -/

def crossedCandidate : Candidate := ⟨.candHost, ascii "127.0.0.1", 9, 0⟩

def crossedAddr : SockAddr := .inet [127, 0, 0, 1] 9

def crossedToken : Bytes := streamToken crossedId

theorem crossed_targets (sweepLimit : Nat) :
    ∃ rest, punchTargets sweepLimit [crossedCandidate] = [crossedAddr] :: rest := by
  have hdirect : ([crossedCandidate].filter (·.priority < 300)) = [crossedCandidate] := by decide
  have haddr : [crossedCandidate].filterMap candidateSockaddr = [crossedAddr] := by decide +kernel
  unfold punchTargets
  simp only [hdirect, haddr, List.cons_ne_self, if_false, punchDirectRounds, List.replicate_succ,
    List.cons_append]
  exact ⟨_, rfl⟩

/-- The punches of both sides, with the rounds that are left to each. -/
def crossedConsumer (config : PeerNet.Config) (rounds : List (List SockAddr)) : Establishing :=
  ⟨⟨crossedToken, config.selfId, config.targetId, rounds, 0, 0⟩, crossedId, .stream⟩

def crossedPublisher (config : PeerNet.Config) (rounds : List (List SockAddr)) : Answering :=
  ⟨⟨crossedToken, config.targetId, config.selfId, rounds, 0, 0⟩, Vector.replicate 16 0⟩

/-- Both sides while they punch. -/
def crossedNet (config : PeerNet.Config) (consumerRounds publisherRounds : List (List SockAddr))
    (consumerSent publisherSent : List (SockAddr × Bytes)) : PeerNet κ :=
  let net : PeerNet κ := .start config [crossedCandidate]
  { net with
    consumer := { net.consumer with
      establishing := some (crossedConsumer config consumerRounds), sent := consumerSent }
    publisher := { net.publisher with
      answering := some (crossedPublisher config publisherRounds), sent := publisherSent }
    drawn := [crossedId] }

section Net

variable (config : PeerNet.Config) (cr pr : List (List SockAddr)) (cs ps : List (SockAddr × Bytes))

theorem crossedNet_consumer_emitted :
    (crossedNet config cr pr cs ps : PeerNet κ).consumer.side.emitted = cs.map Prod.snd :=
  List.append_nil _

theorem crossedNet_publisher_emitted :
    (crossedNet config cr pr cs ps : PeerNet κ).publisher.side.emitted = ps.map Prod.snd :=
  List.append_nil _

end Net

theorem crossed_begin (kcp : Ops κ) {config : PeerNet.Config} (hself : isValidId config.selfId = true)
    (hconsumer : config.consumerProto = .tcp) (hpublisher : config.publisherProto = .udp) :
    (PeerNet.start config [crossedCandidate]).run kcp
        [.consumer (.accept crossedId [crossedCandidate] true), .publisher (.poll crossedEnv 0)] =
      crossedNet config (punchTargets config.consumerSweep [crossedCandidate])
        (punchTargets config.publisherSweep [crossedCandidate]) [] [] := by
  have htoken : isSessionToken crossedToken = true := by decide
  have hcopy : boundedCopy 33 crossedToken = crossedToken := by decide
  have haccept : (PeerNet.start config [crossedCandidate] : PeerNet κ).step kcp
      (.consumer (.accept crossedId [crossedCandidate] true)) =
        { PeerNet.start config [crossedCandidate] with
          consumer := { (PeerNet.start config [crossedCandidate] : PeerNet κ).consumer with
            establishing := some (crossedConsumer config
              (punchTargets config.consumerSweep [crossedCandidate])) }
          calls := [⟨config.selfId, crossedToken, [crossedCandidate]⟩]
          drawn := [crossedId] } := by
    simp [PeerNet.step, PeerNet.consumerEnabled, ConsumerEvent.punches, ConsumerEvent.arrival,
      PeerNet.delivers, ConsumerEvent.random, Consumer.step, PeerNet.start, Consumer.start,
      Consumer.tcpAccept, hconsumer, Consumer.establish, peerCandidatesMax, Punching.start,
      Consumer.sessionToken, crossedConsumer, crossedToken]
  simp only [PeerNet.run, List.foldl_cons, List.foldl_nil]
  rw [haccept]
  simp [PeerNet.step, PeerNet.publisherEnabled, PublisherEvent.punches, PublisherEvent.arrival,
    PeerNet.delivers, PeerNet.start, Consumer.start, Publisher.start, Publisher.step, Publisher.takeCall, hself, htoken,
    hpublisher, Publisher.callSession, hcopy, Punching.start, Publisher.after, crossedNet,
    crossedPublisher]

/-- Both sides have a session of the other, and none goes on with a punch. -/
structure Crossing (kcp : Ops κ) (net : PeerNet κ) : Prop where
  consumer : ∃ x : ConsumerSession κ, net.consumer.sessions = [x] ∧
    x.link = .tcp (Party.opened kcp true crossedId 1000)
  publisher : ∃ y : Session κ, net.publisher.sessions = [y] ∧ y.link = .udp ⟨true, [], []⟩ ∧
    y.peerAddr = crossedAddr
  mode : net.publisher.proto = .udp
  establishing : net.consumer.establishing = none
  answering : net.publisher.answering = none

theorem hear_accepted {punching : Punching} {arrival : Arrival} {pong : Option Bytes}
    (h : punchCheck punching.session punching.fromId punching.toId arrival.data = .accepted pong) :
    punching.hear arrival =
      (punching, some arrival.source, pong.toList.map fun text => (arrival.source, text)) := by
  unfold Punching.hear
  rw [h]

theorem publisher_hears (kcp : Ops κ) (net : PeerNet κ) (call : Answering) (arrival : Arrival)
    {pong : Option Bytes} (hcall : net.publisher.answering = some call)
    (hsessions : net.publisher.sessions = []) (hproto : net.publisher.proto = .udp)
    (hcheck : punchCheck call.punching.session call.punching.fromId call.punching.toId arrival.data =
      .accepted pong) (hdelivers : arrival.data ∈ net.consumer.side.emitted) :
    ∃ p', net.step kcp (.publisher (.hear crossedEnv true arrival)) = { net with publisher := p' } ∧
      (∃ y, p'.sessions = [y] ∧ y.link = .udp ⟨true, [], []⟩ ∧ y.peerAddr = arrival.source) ∧
      p'.proto = .udp ∧ p'.answering = none ∧ ∀ text ∈ pong, text ∈ p'.side.emitted := by
  have hfind : ∀ q : Publisher κ, q.sessions = [] → ∀ wanted,
      q.sessionFind arrival.source wanted = none := by
    intro q hq wanted
    rw [Publisher.sessionFind, hq, List.findIdx?_nil]
  have hheard : net.publisher.punchHear kcp crossedEnv true arrival = { net.publisher with
      answering := none
      sessions := [.opened crossedEnv arrival.source (.udp ⟨true, [], []⟩)]
      sent := net.publisher.sent ++ (pong.toList.map fun text => (arrival.source, text)) ++
        [(arrival.source, ctrtokPunchServer)] } := by
    unfold Publisher.punchHear
    simp [hcall, hear_accepted hcheck, Publisher.openSession, hfind, hsessions, hproto,
      Publisher.sessionInsert, Publisher.newLink]
  have hstep : net.step kcp (.publisher (.hear crossedEnv true arrival)) =
      { net with publisher := net.publisher.punchHear kcp crossedEnv true arrival } := by
    simp [PeerNet.step, PeerNet.publisherEnabled, PublisherEvent.punches, PublisherEvent.arrival,
      PeerNet.delivers, hcall, hdelivers, Publisher.step]
  rw [hheard] at hstep
  refine ⟨_, hstep, ⟨_, rfl, rfl, rfl⟩, hproto, rfl, ?_⟩
  intro text htext
  rw [show pong = some text from htext]
  simp [Side.emitted, Publisher.side]

theorem consumer_hears (kcp : Ops κ) (net : PeerNet κ) (session : Establishing) (arrival : Arrival)
    {pong : Option Bytes} (hsession : net.consumer.establishing = some session)
    (hsessions : net.consumer.sessions = []) (hclient : session.client = .stream)
    (hid : session.sessionId = crossedId)
    (hcheck : punchCheck session.punching.session session.punching.fromId session.punching.toId
      arrival.data = .accepted pong) (hdelivers : arrival.data ∈ net.publisher.side.emitted) :
    ∃ c', net.step kcp (.consumer (.hear crossedEnv true arrival)) = { net with consumer := c' } ∧
      (∃ x, c'.sessions = [x] ∧ x.link = .tcp (Party.opened kcp true crossedId 1000)) ∧
      c'.establishing = none ∧ ∀ text ∈ pong, text ∈ c'.side.emitted := by
  have hheard : net.consumer.punchHear kcp crossedEnv true arrival = { net.consumer with
      establishing := none
      sessions := [{ Session.opened crossedEnv arrival.source
        (.tcp (Party.opened kcp true crossedId 1000)) with clientAddr := none }]
      sent := net.consumer.sent ++ pong.toList.map fun text => (arrival.source, text) } := by
    unfold Consumer.punchHear
    simp [hsession, hear_accepted hcheck, Consumer.sessionInit, hclient, hid, hsessions,
      Consumer.sessionInsert, crossedEnv]
  have hstep : net.step kcp (.consumer (.hear crossedEnv true arrival)) =
      { net with consumer := net.consumer.punchHear kcp crossedEnv true arrival } := by
    simp [PeerNet.step, PeerNet.consumerEnabled, ConsumerEvent.punches, ConsumerEvent.arrival,
      PeerNet.delivers, ConsumerEvent.random, hsession, hdelivers, Consumer.step]
  rw [hheard] at hstep
  refine ⟨_, hstep, ⟨_, rfl, rfl⟩, rfl, ?_⟩
  intro text htext
  rw [show pong = some text from htext]
  simp [Side.emitted, Consumer.side]

variable {config : PeerNet.Config} (hself : isValidId config.selfId = true)
  (htarget : isValidId config.targetId = true) (hpublisher : config.publisherProto = .udp)

include hself htarget hpublisher

/-- The publisher hears the consumer. -/
theorem crossed_called (kcp : Ops κ) (hroom : config.targetId.length + 1 ≤ idMax)
    (rest publisherRounds : List (List SockAddr)) :
    Crossing kcp ((crossedNet config ([crossedAddr] :: rest) publisherRounds [] []).run kcp
      [.consumer .round,
        .publisher (.hear crossedEnv true
          ⟨crossedAddr, punchPing crossedToken config.selfId config.targetId⟩),
        .consumer (.hear crossedEnv true
          ⟨crossedAddr, punchText ctrtokPunchPong crossedToken config.selfId config.targetId
            (ascii "\n")⟩)]) := by
  have htoken : isSessionToken crossedToken = true := by decide
  have hping : punchCheck crossedToken config.targetId config.selfId
      (punchPing crossedToken config.selfId config.targetId) = _ :=
    punchCheck_ping htoken hself htarget (Or.inr rfl)
  have hpong : punchCheck crossedToken config.selfId config.targetId
      (punchText ctrtokPunchPong crossedToken config.selfId config.targetId (ascii "\n")) = _ :=
    punchCheck_pong htoken hself htarget (Or.inr rfl)
  have hending : (ascii "\n").length = 1 := rfl
  rw [hending, if_pos hroom, if_pos ⟨rfl, rfl, rfl⟩] at hping hpong
  have hround : (crossedNet config ([crossedAddr] :: rest) publisherRounds [] [] : PeerNet κ).step kcp
      (.consumer .round) = crossedNet config rest publisherRounds
        [(crossedAddr, punchPing crossedToken config.selfId config.targetId)] [] := by
    simp [PeerNet.step, PeerNet.consumerEnabled, ConsumerEvent.punches, ConsumerEvent.arrival,
      PeerNet.delivers, ConsumerEvent.random, Consumer.step, crossedNet, Consumer.punchRound,
      crossedConsumer, Punching.round]
  have hdelivers : punchPing crossedToken config.selfId config.targetId ∈
      (crossedNet config rest publisherRounds
        [(crossedAddr, punchPing crossedToken config.selfId config.targetId)] [] :
          PeerNet κ).consumer.side.emitted := by
    rw [crossedNet_consumer_emitted]
    exact List.mem_singleton_self _
  obtain ⟨p', hstep, hsessions, hmode, hanswering, hsent⟩ :=
    publisher_hears kcp _ (crossedPublisher config publisherRounds)
      ⟨crossedAddr, punchPing crossedToken config.selfId config.targetId⟩ rfl rfl hpublisher hping hdelivers
  obtain ⟨c', hstep', hsessions', hestablishing, _⟩ :=
    consumer_hears kcp { crossedNet config rest publisherRounds
        [(crossedAddr, punchPing crossedToken config.selfId config.targetId)] [] with publisher := p' }
      (crossedConsumer config rest)
      ⟨crossedAddr, punchText ctrtokPunchPong crossedToken config.selfId config.targetId
        (ascii "\n")⟩ rfl rfl rfl rfl hpong (hsent _ rfl)
  simp only [PeerNet.run, List.foldl_cons, List.foldl_nil]
  rw [hround, hstep, hstep']
  exact ⟨hsessions', hsessions, hmode, hestablishing, hanswering⟩

/-- The consumer hears the publisher. -/
theorem crossed_answered (kcp : Ops κ) (hroom : config.selfId.length + 1 ≤ idMax)
    (consumerRounds rest : List (List SockAddr)) :
    Crossing kcp ((crossedNet config consumerRounds ([crossedAddr] :: rest) [] []).run kcp
      [.publisher .round,
        .consumer (.hear crossedEnv true
          ⟨crossedAddr, punchPing crossedToken config.targetId config.selfId⟩),
        .publisher (.hear crossedEnv true
          ⟨crossedAddr, punchText ctrtokPunchPong crossedToken config.targetId config.selfId
            (ascii "\n")⟩)]) := by
  have htoken : isSessionToken crossedToken = true := by decide
  have hping : punchCheck crossedToken config.selfId config.targetId
      (punchPing crossedToken config.targetId config.selfId) = _ :=
    punchCheck_ping htoken htarget hself (Or.inr rfl)
  have hpong : punchCheck crossedToken config.targetId config.selfId
      (punchText ctrtokPunchPong crossedToken config.targetId config.selfId (ascii "\n")) = _ :=
    punchCheck_pong htoken htarget hself (Or.inr rfl)
  have hending : (ascii "\n").length = 1 := rfl
  rw [hending, if_pos hroom, if_pos ⟨rfl, rfl, rfl⟩] at hping hpong
  have hround : (crossedNet config consumerRounds ([crossedAddr] :: rest) [] [] : PeerNet κ).step kcp
      (.publisher .round) = crossedNet config consumerRounds rest []
        [(crossedAddr, punchPing crossedToken config.targetId config.selfId)] := by
    simp [PeerNet.step, PeerNet.publisherEnabled, PublisherEvent.punches, PublisherEvent.arrival,
      PeerNet.delivers, Publisher.step, crossedNet, Publisher.punchRound, crossedPublisher,
      Punching.round]
  have hdelivers : punchPing crossedToken config.targetId config.selfId ∈
      (crossedNet config consumerRounds rest []
        [(crossedAddr, punchPing crossedToken config.targetId config.selfId)] :
          PeerNet κ).publisher.side.emitted := by
    rw [crossedNet_publisher_emitted]
    exact List.mem_singleton_self _
  obtain ⟨c', hstep, hsessions, hestablishing, hsent⟩ :=
    consumer_hears kcp _ (crossedConsumer config consumerRounds)
      ⟨crossedAddr, punchPing crossedToken config.targetId config.selfId⟩ rfl rfl rfl rfl hping hdelivers
  obtain ⟨p', hstep', hsessions', hmode, hanswering, _⟩ :=
    publisher_hears kcp { crossedNet config consumerRounds rest []
        [(crossedAddr, punchPing crossedToken config.targetId config.selfId)] with consumer := c' }
      (crossedPublisher config rest)
      ⟨crossedAddr, punchText ctrtokPunchPong crossedToken config.targetId config.selfId
        (ascii "\n")⟩ rfl rfl hpublisher hpong (hsent _ rfl)
  simp only [PeerNet.run, List.foldl_cons, List.foldl_nil]
  rw [hround, hstep, hstep']
  exact ⟨hsessions, hsessions', hmode, hestablishing, hanswering⟩

/-- Unless both identifiers are of full length, some run ends with an envelope at the backend. -/
theorem crossed_not_clean (kcp : Ops κ) (hconsumer : config.consumerProto = .tcp)
    (hroom : ¬ (config.selfId.length = idMax ∧ config.targetId.length = idMax)) :
    ∃ events, ¬ ((PeerNet.start config [crossedCandidate]).run kcp events).Clean := by
  have hselfMax := (isValidId_iff.mp hself).2.1
  have htargetMax := (isValidId_iff.mp htarget).2.1
  have hidMax : idMax = 63 := rfl
  obtain ⟨consumerRest, hconsumerRounds⟩ := crossed_targets config.consumerSweep
  obtain ⟨publisherRest, hpublisherRounds⟩ := crossed_targets config.publisherSweep
  have hbegin := crossed_begin kcp hself hconsumer hpublisher
  rw [hconsumerRounds, hpublisherRounds] at hbegin
  have hcrossing : ∃ events, Crossing kcp ((PeerNet.start config [crossedCandidate]).run kcp events) := by
    by_cases htargetRoom : config.targetId.length + 1 ≤ idMax
    · have hrun := crossed_called hself htarget hpublisher kcp htargetRoom consumerRest
        ([crossedAddr] :: publisherRest)
      rw [← hbegin, ← PeerNet.run_append] at hrun
      exact ⟨_, hrun⟩
    · have hrun := crossed_answered hself htarget hpublisher kcp (by omega)
        ([crossedAddr] :: consumerRest) publisherRest
      rw [← hbegin, ← PeerNet.run_append] at hrun
      exact ⟨_, hrun⟩
  obtain ⟨events, ⟨x, hx, hxlink⟩, ⟨y, hy, hylink, hyaddr⟩, hmode, hestablishing, hanswering⟩ :=
    hcrossing
  have hleak := crossed_leak kcp hx hxlink hestablishing hy hylink hyaddr hmode hanswering
  rw [← PeerNet.run_append] at hleak
  exact ⟨_, hleak⟩

end Crossed

/-! ### Agreement -/

/-- In every run the applications of both sides hear nothing but each other, if and only if the modes do
not cross, or both identifiers leave no room for the end of the line in a ping. -/
theorem modes_agree_iff {κ : Type} {kcp : Ops κ} (hkcp : Reliable kcp) (config : PeerNet.Config)
    (hself : isValidId config.selfId = true) (htarget : isValidId config.targetId = true) :
    (∀ peerCandidates events, ((PeerNet.start config peerCandidates).run kcp events).Clean) ↔
      ¬ (config.consumerProto = .tcp ∧ config.publisherProto = .udp) ∨
        config.selfId.length = idMax ∧ config.targetId.length = idMax := by
  constructor
  · intro hclean
    by_cases hcross : config.consumerProto = .tcp ∧ config.publisherProto = .udp
    · right
      by_contra hroom
      obtain ⟨events, hleak⟩ := crossed_not_clean hself htarget hcross.2 kcp hcross.1 hroom
      exact hleak (hclean _ events)
    · exact Or.inl hcross
  · rintro (hmodes | ⟨hselfFull, htargetFull⟩) peerCandidates events
    · cases hconsumer : config.consumerProto with
      | udp =>
        have hnet : DatagramNet ((PeerNet.start config peerCandidates).run kcp events) :=
          PeerNet.run_induction kcp _ (fun _ event h => h.step event)
            (DatagramNet.start hconsumer peerCandidates) events
        exact hnet.clean
      | tcp =>
        have hpublisher : config.publisherProto = .tcp := by
          cases hproto : config.publisherProto with
          | tcp => rfl
          | udp => exact (hmodes ⟨hconsumer, hproto⟩).elim
        have hnet : StreamNet kcp ((PeerNet.start config peerCandidates).run kcp events) :=
          PeerNet.run_induction kcp _ (fun _ event h => h.step hkcp event)
            (StreamNet.start hconsumer hpublisher kcp peerCandidates) events
        exact hnet.clean hkcp
    · have hnet : MuteNet ((PeerNet.start config peerCandidates).run kcp events) :=
        PeerNet.run_induction kcp _ (fun _ event h => h.step event)
          (MuteNet.start hself htarget hselfFull htargetFull peerCandidates) events
      exact hnet.clean

def crossedConfig (publisherProto : Proto) : PeerNet.Config where
  consumerProto := .tcp
  publisherProto := publisherProto
  selfId := ascii "con"
  targetId := ascii "pub"
  bindPort := 9000
  consumerSweep := 0
  publisherSweep := 0

def crossedEvents : List PeerNetEvent :=
  let hear (text : Bytes) : Arrival := ⟨crossedAddr, text⟩
  let ping := punchPing crossedToken (ascii "con") (ascii "pub")
  let pong := punchText ctrtokPunchPong crossedToken (ascii "con") (ascii "pub") (ascii "\n")
  [.consumer (.accept crossedId [crossedCandidate] true), .publisher (.poll crossedEnv 0),
    .consumer .round, .publisher (.hear crossedEnv true (hear ping)),
    .consumer (.hear crossedEnv true (hear pong)), .consumer (.maintain crossedEnv 0),
    .publisher (.receive crossedEnv (hear crossedHello))]

/-- The publisher "pub" of datagrams hands the hello of the consumer "con" of streams to its backend. -/
theorem envelope_leaks :
    ¬ ((PeerNet.start (crossedConfig .udp) [crossedCandidate]).run Repeat.ops crossedEvents).Clean := by
  intro hclean
  have hdelivered : ((PeerNet.start (crossedConfig .udp) [crossedCandidate]).run Repeat.ops
      crossedEvents).publisher.side.links.map Link.delivered = [[crossedHello]] := by decide +kernel
  have hreceived : ((PeerNet.start (crossedConfig .udp) [crossedCandidate]).run Repeat.ops
      crossedEvents).consumer.side.links.map Link.received = [[]] := by decide +kernel
  obtain ⟨link, hlink, hhello⟩ := List.mem_map.mp (hdelivered ▸ List.mem_singleton_self [crossedHello])
  have hours := hclean.1 link hlink
  cases link with
  | tcp party => exact nomatch hhello
  | udp u =>
    have hmem : crossedHello ∈ u.delivered := by
      rw [show u.delivered = [crossedHello] from hhello]
      exact List.mem_singleton_self _
    obtain ⟨other, hother, hdata⟩ := hours _ hmem
    have hnil : other.received ∈ [([] : List Bytes)] := hreceived ▸ List.mem_map_of_mem hother
    rw [List.mem_singleton.mp hnil] at hdata
    exact nomatch hdata

theorem modes_agree_sample :
    ((PeerNet.start (crossedConfig .tcp) [crossedCandidate]).run Repeat.ops crossedEvents).Clean :=
  (modes_agree_iff Repeat.reliable (crossedConfig .tcp) (by decide) (by decide)).mpr
    (Or.inl fun h => nomatch h.2) _ _

end Redp2p
