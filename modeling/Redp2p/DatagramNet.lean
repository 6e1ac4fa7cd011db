import Redp2p.EventSteps

/-! A consumer that forwards datagrams, and its publisher: what a side delivers was received at the
other side, and no datagram that is delivered is too long or a control datagram. -/

namespace Redp2p

open ByteString

variable {κ : Type} {kcp : ByteChannel.Ops κ}

/-! ### Sides -/

/-- The application of a side sent the datagram. -/
def Side.Received (s : Side κ) (data : Bytes) : Prop := ∃ link ∈ s.links, data ∈ link.received

/-- What a side may send: control datagrams, and those of its application as far as they fit a
buffer. -/
def Side.Sends (s : Side κ) (data : Bytes) : Prop :=
  Control data ∨ ∃ full, s.Received full ∧ data = full.take bufSize

/-- A side that forwards datagrams between its application and a peer. -/
structure DatagramSide (s other : Side κ) : Prop where
  udp : ∀ link ∈ s.links, ∃ u, link = .udp u
  said : ∀ data ∈ s.sent, s.Sends data
  delivered : ∀ link ∈ s.links, ∀ data ∈ link.delivered,
    data.length ≤ udpPayloadMax ∧ ¬ Control data ∧ other.Received data

namespace DatagramSide

variable {s s' other other' : Side κ} {opens : Link κ → Prop} {heard : List Bytes}

theorem emitted (h : DatagramSide s other) : ∀ data ∈ s.emitted, s.Sends data := by
  intro data hdata
  rcases List.mem_append.mp hdata with hsaid | hstream
  · exact h.said data hsaid
  · obtain ⟨link, hlink, hsent⟩ := List.mem_flatMap.mp hstream
    obtain ⟨u, rfl⟩ := h.udp link hlink
    exact nomatch hsent

theorem mono (h : DatagramSide s other) (hmono : ∀ data, other.Received data → other'.Received data) :
    DatagramSide s other' where
  udp := h.udp
  said := h.said
  delivered := by
    intro link hlink data hdata
    obtain ⟨hshort, hcontrol, hreceived⟩ := h.delivered link hlink data hdata
    exact ⟨hshort, hcontrol, hmono data hreceived⟩

theorem sends_mono (hmono : ∀ data, s.Received data → s'.Received data) {data : Bytes}
    (h : s.Sends data) : s'.Sends data := by
  rcases h with hcontrol | ⟨full, hfull, htake⟩
  · exact Or.inl hcontrol
  · exact Or.inr ⟨full, hmono full hfull, htake⟩

theorem nil (other : Side κ) : DatagramSide ⟨[], []⟩ other := ⟨by simp, by simp, by simp⟩

/-- A session in another state has received at least what it had. -/
theorem received_put {i : Nat} {u u' : UdpEnd} (mine : s.links[i]? = some (.udp u))
    (hmore : ∀ data ∈ u.received, data ∈ u'.received) {data : Bytes} (h : s.Received data) :
    (s.put i (.udp u')).Received data := by
  obtain ⟨hbound, _⟩ := List.getElem?_eq_some_iff.mp mine
  obtain ⟨link, hlink, hdata⟩ := h
  obtain ⟨j, hj⟩ := List.mem_iff_getElem?.mp hlink
  by_cases hij : i = j
  · subst hij
    obtain rfl := Option.some.inj (hj.symm.trans mine)
    exact ⟨.udp u', List.mem_set hbound _, hmore data hdata⟩
  · refine ⟨link, List.mem_iff_getElem?.mpr ⟨j, ?_⟩, hdata⟩
    rw [Side.put, List.getElem?_set_ne hij, hj]

theorem put {i : Nat} {u : UdpEnd} (h : DatagramSide s other)
    (mine : s.links[i]? = some (.udp u)) (u' : UdpEnd)
    (hmore : ∀ data ∈ u.received, data ∈ u'.received)
    (hdelivered : ∀ data ∈ u'.delivered,
      data.length ≤ udpPayloadMax ∧ ¬ Control data ∧ other.Received data) :
    DatagramSide (s.put i (.udp u')) other ∧
      ∀ data, s.Received data → (s.put i (.udp u')).Received data := by
  have hmono : ∀ data, s.Received data → (s.put i (.udp u')).Received data :=
    fun _ => received_put mine hmore
  refine ⟨⟨?_, fun data hdata => sends_mono hmono (h.said data hdata), ?_⟩, hmono⟩
  · intro link hlink
    rcases List.mem_or_eq_of_mem_set hlink with hold | rfl
    · exact h.udp link hold
    · exact ⟨u', rfl⟩
  · intro link hlink
    rcases List.mem_or_eq_of_mem_set hlink with hold | rfl
    · exact h.delivered link hold
    · exact hdelivered

theorem step (h : DatagramSide s other) (hheard : ∀ data ∈ heard, other.Sends data)
    (hopens : ∀ link, opens link → link = .udp ⟨true, [], []⟩)
    (hstep : SideStep kcp opens heard s s') :
    DatagramSide s' other ∧ ∀ data, s.Received data → s'.Received data := by
  have hnot : ∀ {i : Nat} {me : Party κ}, s.links[i]? ≠ some (.tcp me) := by
    intro i me hme
    obtain ⟨u, hu⟩ := h.udp _ (List.mem_of_getElem? hme)
    cases hu
  have hmine : ∀ {i : Nat} {u : UdpEnd}, s.links[i]? = some (.udp u) → ∀ data ∈ u.delivered,
      data.length ≤ udpPayloadMax ∧ ¬ Control data ∧ other.Received data := fun hu =>
    h.delivered _ (List.mem_of_getElem? hu)
  cases hstep with
  | say data control =>
    refine ⟨⟨h.udp, fun d hd => ?_, h.delivered⟩, fun _ hreceived => hreceived⟩
    rcases List.mem_append.mp hd with hold | hnew
    · exact h.said d hold
    · rw [List.mem_singleton.mp hnew]
      exact Or.inl control
  | pump env read mine active => exact (hnot mine).elim
  | tick env mine active => exact (hnot mine).elim
  | packet env data mine active sent => exact (hnot mine).elim
  | shut mine =>
    obtain ⟨u, rfl⟩ := h.udp _ (List.mem_of_getElem? mine)
    have hdelivered := hmine mine
    exact h.put mine { u with active := false } (fun _ hdata => hdata) hdelivered
  | close env =>
    have hclose : ∀ link ∈ s.links, ∃ u : UdpEnd,
        (if link.active then link.close kcp env else link) = .udp u ∧ u.received = link.received ∧
          u.delivered = link.delivered := by
      intro link hlink
      obtain ⟨u, rfl⟩ := h.udp link hlink
      split <;> exact ⟨_, rfl, rfl, rfl⟩
    have hmono : ∀ data, s.Received data → Side.Received { s with
        links := s.links.map fun link => if link.active then link.close kcp env else link } data := by
      rintro data ⟨link, hlink, hdata⟩
      obtain ⟨u, hu, hreceived, _⟩ := hclose link hlink
      refine ⟨.udp u, List.mem_map.mpr ⟨link, hlink, hu⟩, ?_⟩
      rw [← hreceived] at hdata
      exact hdata
    refine ⟨⟨?_, fun d hd => sends_mono hmono (h.said d hd), ?_⟩, hmono⟩
    · intro link hlink
      obtain ⟨old, hold, rfl⟩ := List.mem_map.mp hlink
      obtain ⟨u, hu, _⟩ := hclose old hold
      exact ⟨u, hu⟩
    · intro link hlink
      obtain ⟨old, hold, rfl⟩ := List.mem_map.mp hlink
      obtain ⟨u, hu, _, hdelivered⟩ := hclose old hold
      rw [hu]
      show ∀ data ∈ u.delivered, _
      rw [hdelivered]
      exact h.delivered old hold
  | deliver data mine sent short notControl =>
    refine h.put mine _ (fun _ hdata => hdata) fun d hd => ?_
    rcases List.mem_append.mp hd with hold | hnew
    · exact hmine mine d hold
    · rw [List.mem_singleton.mp hnew]
      refine ⟨short, notControl, ?_⟩
      rcases hheard data sent with hcontrol | ⟨full, hfull, rfl⟩
      · exact (notControl (control_take hcontrol)).elim
      · -- A datagram that was cut would be too long.
        rw [List.take_take, Nat.min_self] at short ⊢
        have hfits : full.length ≤ bufSize := by
          simp only [List.length_take, bufSize, udpPayloadMax] at short ⊢
          omega
        rw [List.take_of_length_le hfits]
        exact hfull
  | gather data mine =>
    rename_i i u
    have hdelivered := hmine mine
    obtain ⟨hput, hmono⟩ := h.put mine { u with received := u.received ++ [data] }
      (fun d hd => List.mem_append_left _ hd) hdelivered
    obtain ⟨hbound, _⟩ := List.getElem?_eq_some_iff.mp mine
    refine ⟨⟨hput.udp, fun d hd => ?_, hput.delivered⟩, hmono⟩
    rcases List.mem_append.mp hd with hold | hnew
    · exact hput.said d hold
    · have hreceived : (s.put i (.udp { u with received := u.received ++ [data] })).Received data :=
        ⟨_, List.mem_set hbound _, List.mem_append_right _ (List.mem_singleton_self _)⟩
      rw [List.mem_singleton.mp hnew]
      exact Or.inr ⟨data, hreceived, rfl⟩
  | opened link may fresh =>
    obtain rfl := hopens link may
    have hmono : ∀ data, s.Received data →
        Side.Received { s with links := s.links ++ [.udp ⟨true, [], []⟩] } data := by
      rintro data ⟨link, hlink, hdata⟩
      exact ⟨link, List.mem_append_left _ hlink, hdata⟩
    refine ⟨⟨?_, fun d hd => sends_mono hmono (h.said d hd), ?_⟩, hmono⟩
    · intro link hlink
      rcases List.mem_append.mp hlink with hold | hnew
      · exact h.udp link hold
      · exact ⟨_, List.mem_singleton.mp hnew⟩
    · intro link hlink
      rcases List.mem_append.mp hlink with hold | hnew
      · exact h.delivered link hold
      · rw [List.mem_singleton.mp hnew]
        exact fun d hd => absurd hd List.not_mem_nil

theorem steps (h : DatagramSide s other) (hheard : ∀ data ∈ heard, other.Sends data)
    (hopens : ∀ link, opens link → link = .udp ⟨true, [], []⟩)
    (hsteps : SideSteps kcp opens heard s s') :
    DatagramSide s' other ∧ ∀ data, s.Received data → s'.Received data := by
  induction hsteps with
  | refl => exact ⟨h, fun _ hreceived => hreceived⟩
  | tail _ hstep ih =>
    obtain ⟨hside, hmono⟩ := ih
    obtain ⟨hside', hmono'⟩ := hside.step hheard hopens hstep
    exact ⟨hside', fun data hreceived => hmono' data (hmono data hreceived)⟩

theorem clean (h : DatagramSide s other) : ∀ link ∈ s.links, link.Clean other.links := by
  intro link hlink
  have hdelivered := h.delivered link hlink
  obtain ⟨u, rfl⟩ := h.udp link hlink
  intro data hdata
  exact (hdelivered data hdata).2.2

end DatagramSide

/-! ### Both sides -/

/-- What holds when the consumer forwards datagrams: a publisher of streams never takes a call of it, and
so opens no session. -/
structure DatagramNet (net : PeerNet κ) : Prop where
  consumerMode : net.consumer.proto = .udp
  publisherMode : net.publisher.proto = .udp ∨
    net.publisher.answering = none ∧ ∀ call ∈ net.calls, isHexToken call.session 32 = false
  establishes : ∀ session ∈ net.consumer.establishing, net.consumer.Establishes session
  consumerSide : DatagramSide net.consumer.side net.publisher.side
  publisherSide : DatagramSide net.publisher.side net.consumer.side

/-- The token of a session that forwards datagrams is no token of a stream. -/
theorem sessionToken_udp (random : SessionId) :
    isHexToken (Consumer.sessionToken .udp random) 32 = false := by
  rw [Bool.eq_false_iff]
  intro htoken
  have hlength := (isHexToken_iff.mp htoken).1
  simp [Consumer.sessionToken, hexEncode_length] at hlength

namespace DatagramNet

variable {net : PeerNet κ}

theorem consumer_step (h : DatagramNet net) (event : ConsumerEvent) :
    DatagramNet (net.step kcp (.consumer event)) := by
  unfold PeerNet.step
  dsimp only
  split
  swap
  · exact h
  rename_i henabled
  simp only [PeerNet.consumerEnabled, Bool.and_eq_true] at henabled
  have hheard := PeerNet.delivers_mem henabled.1.2
  have htcp : ¬ net.consumer.proto = .tcp := by simp [h.consumerMode]
  obtain ⟨sessions, establishing, sent, hstep, hsessions, hcalls⟩ :=
    Consumer.step_turn kcp net.consumer event
  have hsteps : SideSteps kcp (Opens kcp true net.consumer.proto net.consumer.pending)
      net.publisher.side.emitted net.consumer.side (net.consumer.step kcp event).1.side :=
    Consumer.step_steps event hheard h.establishes fun hmode => (htcp hmode).elim
  rw [h.consumerMode] at hsteps
  obtain ⟨hside, hmono⟩ :=
    h.consumerSide.steps h.publisherSide.emitted (fun _ hlink => hlink) hsteps
  refine ⟨?_, ?_, ?_, hside, h.publisherSide.mono hmono⟩
  · rw [hstep]
    exact h.consumerMode
  · rcases h.publisherMode with hudp | ⟨hanswering, htokens⟩
    · exact Or.inl hudp
    · refine Or.inr ⟨hanswering, fun call hcall => ?_⟩
      rcases List.mem_append.mp hcall with hold | hnew
      · exact htokens call hold
      · obtain ⟨random, _, hsession, _⟩ := hcalls call (Option.mem_toList.mp hnew)
        rw [hsession, h.consumerMode]
        exact sessionToken_udp random
  · rw [hstep]
    exact Consumer.establishes_turn h.establishes hsessions

theorem publisher_step (h : DatagramNet net) (event : PublisherEvent) :
    DatagramNet (net.step kcp (.publisher event)) := by
  cases henabled : net.publisherEnabled event with
  | false =>
    have hsame : net.step kcp (.publisher event) = net := by simp [PeerNet.step, henabled]
    rw [hsame]
    exact h
  | true =>
    obtain ⟨polled, calls, hnet, hperm⟩ := PeerNet.step_publisher kcp henabled
    simp only [PeerNet.publisherEnabled, Bool.and_eq_true] at henabled
    have hheard := PeerNet.delivers_mem henabled.2
    obtain ⟨sessions, answering, sent, hstep, hanswers⟩ :=
      Publisher.step_turn kcp net.publisher polled event
    have hopens : ∀ link, Opens kcp false net.publisher.proto net.publisher.pending link →
        link = .udp ⟨true, [], []⟩ := by
      intro link hlink
      rcases h.publisherMode with hudp | ⟨hanswering, _⟩
      · rw [hudp] at hlink
        exact hlink
      · cases hproto : net.publisher.proto with
        | udp =>
          rw [hproto] at hlink
          exact hlink
        | tcp =>
          rw [hproto] at hlink
          obtain ⟨sessionId, hpending, _⟩ := hlink
          simp [Publisher.pending, hanswering] at hpending
    have hfresh : net.publisher.proto = .tcp → ∀ sessionId ∈ net.publisher.pending,
        Keyed.lookup Link.id (some sessionId) net.publisher.side.links = none := by
      intro hproto sessionId hpending
      rcases h.publisherMode with hudp | ⟨hanswering, _⟩
      · cases hproto.symm.trans hudp
      · simp [Publisher.pending, hanswering] at hpending
    obtain ⟨hside, hmono⟩ := h.publisherSide.steps h.consumerSide.emitted hopens
      (Publisher.step_steps polled event hheard hfresh)
    rw [hnet]
    refine ⟨h.consumerMode, ?_, h.establishes, h.consumerSide.mono hmono, hside⟩
    rcases h.publisherMode with hudp | ⟨hanswering, htokens⟩
    · left
      rw [hstep]
      exact hudp
    · by_cases hproto : net.publisher.proto = .udp
      · left
        rw [hstep]
        exact hproto
      have htcp : net.publisher.proto = .tcp := by
        cases hmode : net.publisher.proto with
        | tcp => rfl
        | udp => exact (hproto hmode).elim
      refine Or.inr ⟨?_, fun call hcall => htokens call (hperm.subset (List.mem_append_right _ hcall))⟩
      rw [hstep]
      rw [Option.eq_none_iff_forall_not_mem]
      intro call hcall
      rcases hanswers call hcall with ⟨old, hold, _⟩ | ⟨posted, hposted, _, _, hsession, _⟩
      · rw [hanswering] at hold
        cases hold
      · have htoken := htokens posted
          (hperm.subset (List.mem_append_left _ (Option.mem_toList.mpr hposted)))
        rw [htcp] at hsession
        simp [Publisher.callSession, htoken] at hsession

theorem step (h : DatagramNet net) (event : PeerNetEvent) : DatagramNet (net.step kcp event) := by
  cases event with
  | consumer event => exact h.consumer_step event
  | publisher event => exact h.publisher_step event
  | lose index =>
    refine ⟨h.consumerMode, ?_, h.establishes, h.consumerSide, h.publisherSide⟩
    rcases h.publisherMode with hudp | ⟨hanswering, htokens⟩
    · exact Or.inl hudp
    · exact Or.inr ⟨hanswering, fun call hcall => htokens call (List.mem_of_mem_eraseIdx hcall)⟩

theorem start {config : PeerNet.Config} (hconsumer : config.consumerProto = .udp)
    (peerCandidates : List Candidate) : DatagramNet (.start config peerCandidates : PeerNet κ) where
  consumerMode := hconsumer
  publisherMode := by
    cases hproto : config.publisherProto with
    | udp => exact Or.inl hproto
    | tcp => exact Or.inr ⟨rfl, nofun⟩
  establishes := by simp [PeerNet.start, Consumer.start]
  consumerSide := .nil _
  publisherSide := .nil _

theorem clean (h : DatagramNet net) : net.Clean := ⟨h.publisherSide.clean, h.consumerSide.clean⟩

end DatagramNet

end Redp2p
