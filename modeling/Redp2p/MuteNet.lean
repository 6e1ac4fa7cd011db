import Redp2p.EventSteps
import Redp2p.PunchAnswers

/-! A consumer and a publisher whose identifiers are of full length: no ping is understood, and no
session is ever opened. -/

namespace Redp2p

open ByteString

variable {κ : Type} {kcp : ByteChannel.Ops κ}

/-! ### Pings that nobody understands -/

/-- A ping whose last field has no room for the end of the line. -/
def Mute (data : Bytes) : Prop :=
  ∃ session a b, isSessionToken session = true ∧ isValidId a = true ∧ isValidId b = true ∧
    b.length = idMax ∧ data = punchPing session a b

/-- A side with no sessions that sends such pings only. -/
structure MuteSide (s : Side κ) : Prop where
  links : s.links = []
  said : ∀ data ∈ s.sent, Mute data

theorem MuteSide.emitted {s : Side κ} (h : MuteSide s) : ∀ data ∈ s.emitted, Mute data := by
  intro data hdata
  rw [Side.emitted, h.links, List.flatMap_nil, List.append_nil] at hdata
  exact h.said data hdata

/-- A punch between identifiers of full length. -/
structure MutePunch (punching : Punching) : Prop where
  session : isSessionToken punching.session = true
  fromId : isValidId punching.fromId = true
  toId : isValidId punching.toId = true
  full : punching.toId.length = idMax

theorem MutePunch.round {punching : Punching} (h : MutePunch punching) :
    ∀ data ∈ punching.round.2.map Prod.snd, Mute data := by
  intro data hdata
  unfold Punching.round at hdata
  split at hdata
  · simp at hdata
  · simp only [List.map_map, List.mem_map, Function.comp_apply] at hdata
    obtain ⟨_, _, rfl⟩ := hdata
    exact ⟨_, _, _, h.session, h.fromId, h.toId, h.full, rfl⟩

theorem hear_mute (punching : Punching) {arrival : Arrival} (h : Mute arrival.data) :
    punching.hear arrival = ({ punching with malformed := punching.malformed + 1 }, none, []) := by
  obtain ⟨session, a, b, hsession, ha, hb, hfull, hdata⟩ := h
  have hcheck : punchCheck punching.session punching.fromId punching.toId arrival.data =
      .malformed := by
    have hroom : ¬ b.length + (ascii "\n").length ≤ idMax := by
      rw [hfull]
      decide
    rw [hdata, punchPing, punchCheck_ping hsession ha hb (Or.inr rfl), if_neg hroom]
  unfold Punching.hear
  rw [hcheck]

theorem pingAnswer_mute {data : Bytes} (h : Mute data) : Publisher.pingAnswer data = none := by
  obtain ⟨session, a, b, hsession, ha, hb, hfull, rfl⟩ := h
  rw [pingAnswer_ping hsession ha hb, if_neg (by omega)]

/-- What holds when both identifiers are of full length, whatever the modes are: no session is ever
opened. -/
structure MuteNet (net : PeerNet κ) : Prop where
  selfId : isValidId net.consumer.selfId = true ∧ net.consumer.selfId.length = idMax
  targetId : isValidId net.consumer.targetId = true ∧ net.consumer.targetId.length = idMax
  publisherId : isValidId net.publisher.selfId = true
  consumerSide : MuteSide net.consumer.side
  publisherSide : MuteSide net.publisher.side
  establishes : ∀ session ∈ net.consumer.establishing, net.consumer.Establishes session
  answers : ∀ call ∈ net.publisher.answering, MutePunch call.punching
  calls : ∀ call ∈ net.calls, call.selfId = net.consumer.selfId

theorem hexEncode_isSessionToken {bytes : Bytes} (hne : bytes ≠ []) (hlength : bytes.length ≤ 31) :
    isSessionToken (hexEncode bytes) = true := by
  refine isSessionToken_iff.mpr ⟨?_, ?_, fun b hb => isAlnum_of_isHexDigit (hexEncode_isHexDigit _ b hb)⟩
  · intro hnil
    have hzero := congrArg List.length hnil
    rw [hexEncode_length, List.length_nil] at hzero
    exact hne (List.length_eq_zero_iff.mp (by omega))
  · rw [hexEncode_length]
    omega

theorem sessionToken_isSessionToken (proto : Proto) (random : SessionId) :
    isSessionToken (Consumer.sessionToken proto random) = true := by
  have hlength : random.toList.length = 16 := random.size_toArray
  cases proto with
  | tcp =>
    apply hexEncode_isSessionToken
    · intro hnil
      simp [hnil] at hlength
    · omega
  | udp =>
    apply hexEncode_isSessionToken
    · intro hnil
      have hzero := congrArg List.length hnil
      simp at hzero
    · rw [List.length_take]
      omega

theorem Consumer.update_nil {c : Consumer κ} (h : c.sessions = []) (index : Nat)
    (change : Session κ → Session κ × List (SockAddr × Bytes)) : c.update index change = c := by
  unfold Consumer.update
  rw [h, List.getElem?_nil]

theorem Publisher.update_nil {p : Publisher κ} (h : p.sessions = []) (index : Nat)
    (change : Session κ → Session κ × List (SockAddr × Bytes)) : p.update index change = p := by
  unfold Publisher.update
  rw [h, List.getElem?_nil]

theorem MuteSide.say {s : Side κ} (h : MuteSide s) {datagrams : List Bytes}
    (hmute : ∀ data ∈ datagrams, Mute data) : MuteSide { s with sent := s.sent ++ datagrams } where
  links := h.links
  said := by
    intro data hdata
    rcases List.mem_append.mp hdata with hold | hnew
    · exact h.said data hold
    · exact hmute data hnew

theorem Consumer.step_mute {c : Consumer κ} (h : MuteSide c.side)
    (hpunch : ∀ session ∈ c.establishing, MutePunch session.punching) {event : ConsumerEvent}
    (hheard : ∀ arrival ∈ event.arrival, Mute arrival.data) :
    MuteSide (c.step kcp event).1.side := by
  have hnil : c.sessions = [] := List.map_eq_nil_iff.mp h.links
  cases event with
  | accept random candidates confirmed =>
    show MuteSide (c.tcpAccept random candidates confirmed).1.side
    unfold Consumer.tcpAccept
    split
    · rw [Consumer.establish_side]
      exact h
    · exact h
  | datagram env client data random candidates confirmed =>
    show MuteSide (c.udpReceive env client data random candidates confirmed).1.side
    unfold Consumer.udpReceive
    split
    · exact h
    split
    · exact h
    split
    · rw [Consumer.update_nil hnil]
      exact h
    · rw [Consumer.establish_side]
      exact h
  | read env index read =>
    show MuteSide (c.tcpPump kcp env index read).side
    rw [Consumer.tcpPump, Consumer.update_nil hnil]
    exact h
  | round =>
    show MuteSide c.punchRound.side
    unfold Consumer.punchRound
    split
    · exact h
    · rename_i session hsession
      have hsaid := h.say (hpunch session hsession).round
      simpa [Consumer.side] using hsaid
  | hear env ok arrival =>
    show MuteSide (c.punchHear kcp env ok arrival).side
    unfold Consumer.punchHear
    split
    · exact h
    · rw [hear_mute _ (hheard arrival rfl)]
      simpa [Consumer.side] using h
  | giveUp => exact h
  | receive env index arrival =>
    show MuteSide (c.peerReceive kcp env index arrival.source arrival.data).side
    rw [Consumer.peerReceive, Consumer.update_nil hnil]
    exact h
  | maintain env index =>
    show MuteSide (c.maintain kcp env index).side
    rw [Consumer.maintain, Consumer.update_nil hnil]
    exact h
  | close env => exact ⟨by simp [Consumer.side, Consumer.step, Consumer.closeAll, hnil], h.said⟩

theorem Publisher.closeAll_mute {p : Publisher κ} (h : MuteSide p.side) (env : StreamEnv) :
    MuteSide (p.closeAll kcp env).side := by
  have hnil : p.sessions = [] := List.map_eq_nil_iff.mp h.links
  exact ⟨by simp [Publisher.side, Publisher.closeAll, hnil], h.said⟩

theorem Publisher.after_mute (env : StreamEnv) {result : Publisher κ × Stage}
    (h : MuteSide result.1.side) : MuteSide (Publisher.after kcp env result).side := by
  unfold Publisher.after
  split
  · exact Publisher.closeAll_mute h env
  · exact h

theorem Publisher.step_mute {p : Publisher κ} (h : MuteSide p.side)
    (hpunch : ∀ call ∈ p.answering, MutePunch call.punching) (polled : Option PunchCall)
    {event : PublisherEvent} (hheard : ∀ arrival ∈ event.arrival, Mute arrival.data) :
    MuteSide (p.step kcp polled event).side := by
  have hnil : p.sessions = [] := List.map_eq_nil_iff.mp h.links
  cases event with
  | poll env index =>
    cases polled with
    | none => exact h
    | some call =>
      apply Publisher.after_mute env
      rw [Publisher.takeCall_side]
      exact h
  | round =>
    show MuteSide p.punchRound.side
    unfold Publisher.punchRound
    split
    · exact h
    · rename_i call hcall
      have hsaid := h.say (hpunch call hcall).round
      simpa [Publisher.side] using hsaid
  | hear env ok arrival =>
    show MuteSide (p.punchHear kcp env ok arrival).side
    unfold Publisher.punchHear
    split
    · exact h
    · rw [hear_mute _ (hheard arrival rfl)]
      simpa [Publisher.side] using h
  | giveUp => exact h
  | receive env arrival =>
    apply Publisher.after_mute env
    unfold Publisher.receivePeer
    split
    · exact h
    have hlocate : p.locate arrival.source arrival.data = none := by
      have hfind : ∀ wanted, p.sessionFind arrival.source wanted = none := by
        intro wanted
        rw [Publisher.sessionFind, hnil, List.findIdx?_nil]
      unfold Publisher.locate
      simp only [hfind]
      split
      · split <;> rfl
      · rfl
    rw [hlocate, pingAnswer_mute (hheard arrival rfl)]
    simpa [Publisher.side] using h
  | read env index read =>
    show MuteSide (p.pumpBackend kcp env index read).side
    rw [Publisher.pumpBackend, Publisher.update_nil hnil]
    exact h
  | datagram env index source data =>
    show MuteSide (p.receiveBackend env index source data).side
    unfold Publisher.receiveBackend
    split
    · exact h
    · rw [Publisher.update_nil hnil]
      exact h
  | maintain env index =>
    show MuteSide (p.maintain kcp env index).side
    rw [Publisher.maintain, Publisher.update_nil hnil]
    exact h
  | close env => exact Publisher.closeAll_mute h env

/-- A publisher in either mode keeps a session token of the call that it takes. -/
theorem callSession_isSessionToken {proto : Proto} {token token' : Bytes} {sessionId : SessionId}
    (h : Publisher.callSession proto token = some (token', sessionId))
    (htoken : isSessionToken token = true) : isSessionToken token' = true := by
  cases proto with
  | tcp =>
    simp only [Publisher.callSession] at h
    split at h
    · obtain ⟨_, _, hpair⟩ := Option.map_eq_some_iff.mp h
      rw [← (Prod.mk.inj hpair).1]
      exact htoken
    · exact nomatch h
  | udp =>
    obtain ⟨hne, hlength, hall⟩ := isSessionToken_iff.mp htoken
    simp only [Publisher.callSession, Option.some.injEq, Prod.mk.injEq] at h
    rw [← h.1]
    refine isSessionToken_iff.mpr ⟨?_, ?_, fun b hb => hall b (List.mem_of_mem_take hb)⟩
    · simp [boundedCopy, hne]
    · simp only [boundedCopy, List.length_take]
      omega

namespace MuteNet

variable {net : PeerNet κ}

theorem establishing (h : MuteNet net) :
    ∀ session ∈ net.consumer.establishing, MutePunch session.punching := by
  intro session hsession
  obtain ⟨_, htoken, hfrom, hto⟩ := h.establishes session hsession
  refine ⟨?_, ?_, ?_, ?_⟩
  · rw [htoken]
    exact sessionToken_isSessionToken _ _
  · rw [hfrom]
    exact h.selfId.1
  · rw [hto]
    exact h.targetId.1
  · rw [hto]
    exact h.targetId.2

theorem consumer_step (h : MuteNet net) (event : ConsumerEvent) :
    MuteNet (net.step kcp (.consumer event)) := by
  unfold PeerNet.step
  dsimp only
  split
  swap
  · exact h
  rename_i henabled
  simp only [PeerNet.consumerEnabled, Bool.and_eq_true] at henabled
  have hheard : ∀ arrival ∈ event.arrival, Mute arrival.data := fun arrival harrival =>
    h.publisherSide.emitted _ (PeerNet.delivers_mem henabled.1.2 arrival harrival)
  have hside : MuteSide (net.consumer.step kcp event).1.side :=
    Consumer.step_mute h.consumerSide h.establishing hheard
  obtain ⟨sessions, establishing, sent, hstep, hsessions, hcalls⟩ :=
    Consumer.step_turn kcp net.consumer event
  refine ⟨?_, ?_, h.publisherId, hside, h.publisherSide, ?_, h.answers, ?_⟩
  · rw [hstep]
    exact h.selfId
  · rw [hstep]
    exact h.targetId
  · rw [hstep]
    exact Consumer.establishes_turn h.establishes hsessions
  · intro call hcall
    rw [hstep]
    rcases List.mem_append.mp hcall with hold | hnew
    · exact h.calls call hold
    · obtain ⟨_, hid, _⟩ := hcalls call (Option.mem_toList.mp hnew)
      exact hid

theorem publisher_step (h : MuteNet net) (event : PublisherEvent) :
    MuteNet (net.step kcp (.publisher event)) := by
  cases henabled : net.publisherEnabled event with
  | false =>
    have hsame : net.step kcp (.publisher event) = net := by simp [PeerNet.step, henabled]
    rw [hsame]
    exact h
  | true =>
    obtain ⟨polled, calls, hnet, hperm⟩ := PeerNet.step_publisher kcp henabled
    simp only [PeerNet.publisherEnabled, Bool.and_eq_true] at henabled
    have hheard : ∀ arrival ∈ event.arrival, Mute arrival.data := fun arrival harrival =>
      h.consumerSide.emitted _ (PeerNet.delivers_mem henabled.2 arrival harrival)
    have hside : MuteSide (net.publisher.step kcp polled event).side :=
      Publisher.step_mute h.publisherSide h.answers polled hheard
    obtain ⟨sessions, answering, sent, hstep, hanswers⟩ :=
      Publisher.step_turn kcp net.publisher polled event
    rw [hnet]
    refine ⟨h.selfId, h.targetId, ?_, h.consumerSide, hside, h.establishes, ?_, fun call hcall =>
      h.calls call (hperm.subset (List.mem_append_right _ hcall))⟩
    · rw [hstep]
      exact h.publisherId
    · rw [hstep]
      intro call hcall
      rcases hanswers call hcall with ⟨old, hold, hsame, _⟩ |
        ⟨posted, hposted, _, htoken, hsession, hfrom, hto⟩
      · obtain ⟨hsession, hfrom, hto, hfull⟩ := h.answers old hold
        rw [← hsame.session] at hsession
        rw [← hsame.fromId] at hfrom
        rw [← hsame.toId] at hto hfull
        exact ⟨hsession, hfrom, hto, hfull⟩
      · have hposter := h.calls posted
          (hperm.subset (List.mem_append_left _ (Option.mem_toList.mpr hposted)))
        refine ⟨callSession_isSessionToken hsession htoken, ?_, ?_, ?_⟩
        · rw [hfrom]
          exact h.publisherId
        · rw [hto, hposter]
          exact h.selfId.1
        · rw [hto, hposter]
          exact h.selfId.2

theorem step (h : MuteNet net) (event : PeerNetEvent) : MuteNet (net.step kcp event) := by
  cases event with
  | consumer event => exact h.consumer_step event
  | publisher event => exact h.publisher_step event
  | lose index =>
    exact ⟨h.selfId, h.targetId, h.publisherId, h.consumerSide, h.publisherSide, h.establishes,
      h.answers, fun call hcall => h.calls call (List.mem_of_mem_eraseIdx hcall)⟩

theorem start {config : PeerNet.Config} (hself : isValidId config.selfId = true)
    (htarget : isValidId config.targetId = true) (hselfFull : config.selfId.length = idMax)
    (htargetFull : config.targetId.length = idMax) (peerCandidates : List Candidate) :
    MuteNet (.start config peerCandidates : PeerNet κ) where
  selfId := ⟨hself, hselfFull⟩
  targetId := ⟨htarget, htargetFull⟩
  publisherId := htarget
  consumerSide := ⟨rfl, by simp [PeerNet.start, Consumer.start, Consumer.side]⟩
  publisherSide := ⟨rfl, by simp [PeerNet.start, Publisher.start, Publisher.side]⟩
  establishes := by simp [PeerNet.start, Consumer.start]
  answers := by simp [PeerNet.start, Publisher.start]
  calls := by simp [PeerNet.start]

theorem clean (h : MuteNet net) : net.Clean := by
  constructor
  · intro link hlink
    rw [h.publisherSide.links] at hlink
    exact nomatch hlink
  · intro link hlink
    rw [h.consumerSide.links] at hlink
    exact nomatch hlink

end MuteNet

end Redp2p
