import Redp2p.PeerSteps

/-! Every event at a publisher and at a consumer: what it leaves of a punch in progress, and its effect
on the sessions as steps of its side. -/

namespace Redp2p

open ByteString

/-- The sessions that a peer may open: the stream that it is about to answer or establish, or one that
forwards datagrams. -/
def Opens {κ : Type} (kcp : ByteChannel.Ops κ) (initiator : Bool) (proto : Proto)
    (pending : Option SessionId) (link : Link κ) : Prop :=
  match proto with
  | .tcp => ∃ sessionId ∈ pending, ∃ now, link = .tcp (Party.opened kcp initiator sessionId now)
  | .udp => link = .udp ⟨true, [], []⟩

/-! ### Punches in progress -/

/-- The punch goes on for the same session between the same peers. -/
structure Punching.Same (punching punching' : Punching) : Prop where
  session : punching'.session = punching.session
  fromId : punching'.fromId = punching.fromId
  toId : punching'.toId = punching.toId

theorem Punching.Same.refl (punching : Punching) : Punching.Same punching punching := ⟨rfl, rfl, rfl⟩

theorem Punching.round_same (punching : Punching) : punching.Same punching.round.1 := by
  unfold Punching.round
  split <;> exact ⟨rfl, rfl, rfl⟩

theorem Punching.hear_same (punching : Punching) (arrival : Arrival) :
    punching.Same (punching.hear arrival).1 := by
  unfold Punching.hear
  split <;> exact ⟨rfl, rfl, rfl⟩

theorem Punching.start_eq {sweepLimit : Nat} {session fromId toId : Bytes} {candidates : List Candidate}
    {punching : Punching} (h : Punching.start sweepLimit session fromId toId candidates = some punching) :
    punching.session = session ∧ punching.fromId = fromId ∧ punching.toId = toId := by
  unfold Punching.start at h
  split at h
  · exact nomatch h
  · obtain rfl := Option.some.inj h
    exact ⟨rfl, rfl, rfl⟩

section Events

variable {κ : Type} {kcp : ByteChannel.Ops κ} {opens : Link κ → Prop} {heard : List Bytes}

theorem Session.close_link (kcp : ByteChannel.Ops κ) (env : StreamEnv) (x : Session κ) :
    (x.close kcp env).link = if x.link.active then x.link.close kcp env else x.link := by
  unfold Session.close
  split <;> rfl

/-! ### The publisher -/

section Publisher

variable {p : Publisher κ}

/-- The stream that a publisher is about to answer. -/
def Publisher.pending (p : Publisher κ) : Option SessionId := p.answering.map fun call => call.sessionId

theorem Publisher.side_get {index : Nat} {x : Session κ} (h : p.sessions[index]? = some x) :
    p.side.links[index]? = some x.link := by
  simp [Publisher.side, h]

theorem Publisher.update_steps {index : Nat} {change : Session κ → Session κ × List (SockAddr × Bytes)}
    (h : ∀ x : Session κ, p.side.links[index]? = some x.link → x.link.active = true →
      SideSteps kcp opens heard p.side { p.side.put index (change x).1.link with
        sent := p.side.sent ++ (change x).2.map Prod.snd }) :
    SideSteps kcp opens heard p.side (p.update index change).side := by
  unfold Publisher.update
  split
  · exact .refl
  rename_i x hx
  split
  · rename_i hactive
    have hsteps := h x (Publisher.side_get hx) hactive
    simpa [Publisher.side, Side.put, List.map_set] using hsteps
  · exact .refl

theorem Publisher.sessionFind_active {peerAddr : SockAddr} {sessionId : Option SessionId} {index : Nat}
    (h : p.sessionFind peerAddr sessionId = some index) :
    ∃ x, p.sessions[index]? = some x ∧ x.link.active = true ∧ x.link.serves sessionId = true := by
  obtain ⟨hbound, hfound, _⟩ := List.findIdx?_eq_some_iff_getElem.mp h
  simp only [Bool.and_eq_true] at hfound
  exact ⟨p.sessions[index], List.getElem?_eq_getElem hbound, hfound.1.1, hfound.2⟩

theorem Publisher.closeAll_steps (env : StreamEnv) :
    SideSteps kcp opens heard p.side (p.closeAll kcp env).side := by
  have hlinks : (p.closeAll kcp env).side = { p.side with
      links := p.side.links.map fun link => if link.active then link.close kcp env else link } := by
    simp [Publisher.closeAll, Publisher.side, Function.comp_def, Session.close_link]
  rw [hlinks]
  exact .single (.close env)

theorem Publisher.receivePeer_steps (env : StreamEnv) {source : SockAddr} {data : Bytes}
    (hdata : data ∈ heard) :
    SideSteps kcp opens heard p.side (p.receivePeer kcp env source data).1.side := by
  unfold Publisher.receivePeer
  split
  · exact .refl
  rename_i hlength
  have htake : data.take bufSize = data := List.take_of_length_le (Nat.not_lt.mp hlength)
  split
  · have hcontrol : ∀ pong ∈ (Publisher.pingAnswer data).toList, Control pong := by
      intro pong hpong
      exact pingAnswer_control (Option.mem_toList.mp hpong)
    have hsaid : SideSteps kcp opens heard p.side _ := say_steps p.side hcontrol
    simpa [Publisher.side, Function.comp_def] using hsaid
  · rename_i index hlocate
    have hfound : ∃ x, p.sessions[index]? = some x ∧ x.link.active = true := by
      unfold Publisher.locate at hlocate
      split at hlocate
      · split at hlocate
        · exact nomatch hlocate
        · obtain ⟨x, hx, hactive, _⟩ := Publisher.sessionFind_active hlocate
          exact ⟨x, hx, hactive⟩
      · obtain ⟨x, hx, hactive, _⟩ := Publisher.sessionFind_active hlocate
        exact ⟨x, hx, hactive⟩
    obtain ⟨x, hx, hactive⟩ := hfound
    rw [hx]
    have hsteps : SideSteps kcp opens heard p.side _ :=
      receive_steps env (Publisher.side_get hx) hactive hdata
    rw [htake] at hsteps
    simpa [Publisher.side, Side.put, List.map_set] using hsteps

theorem Publisher.after_steps (env : StreamEnv) {result : Publisher κ × Stage}
    (h : SideSteps kcp opens heard p.side result.1.side) :
    SideSteps kcp opens heard p.side (Publisher.after kcp env result).side := by
  unfold Publisher.after
  split
  · exact h.trans (Publisher.closeAll_steps env)
  · exact h

theorem Publisher.openSession_cases (kcp : ByteChannel.Ops κ) (env : StreamEnv) (p : Publisher κ)
    (backendOk : Bool) (sessionId : SessionId) (peerAddr : SockAddr) :
    (p.openSession kcp env backendOk sessionId peerAddr).1 = p ∨
      (p.openSession kcp env backendOk sessionId peerAddr).1 =
        p.sessionInsert (.opened env peerAddr (Publisher.newLink kcp env p.proto sessionId)) := by
  unfold Publisher.openSession
  by_cases hfound :
      (p.sessionFind peerAddr (if p.proto = .tcp then some sessionId else none)).isSome = true
  · rw [if_pos hfound]
    exact Or.inl rfl
  · rw [if_neg hfound]
    cases backendOk
    · exact Or.inl rfl
    · exact Or.inr rfl

theorem Publisher.punchHear_steps (env : StreamEnv) (backendOk : Bool) (arrival : Arrival)
    (hfresh : p.proto = .tcp → ∀ sessionId ∈ p.pending,
      Keyed.lookup Link.id (some sessionId) p.side.links = none) :
    SideSteps kcp (Opens kcp false p.proto p.pending) heard p.side
      (p.punchHear kcp env backendOk arrival).side := by
  unfold Publisher.punchHear
  split
  · exact .refl
  rename_i call hcall
  have hpending : call.sessionId ∈ p.pending := by simp [Publisher.pending, hcall]
  have hsaid : SideSteps kcp (Opens kcp false p.proto p.pending) heard p.side _ :=
    say_steps p.side (hear_control call.punching arrival)
  split
  · rename_i punching sent hhear
    rw [hhear] at hsaid
    simpa [Publisher.side] using hsaid
  · rename_i state peerAddr sent hhear
    rw [hhear] at hsaid
    have hopened : SideSteps kcp (Opens kcp false p.proto p.pending) heard p.side
        ({ p with answering := none, sent := p.sent ++ sent }.openSession kcp env backendOk
          call.sessionId peerAddr).1.side := by
      rcases Publisher.openSession_cases kcp env { p with answering := none, sent := p.sent ++ sent }
        backendOk call.sessionId peerAddr with hsame | hnew
      · rw [hsame]
        simpa [Publisher.side] using hsaid
      · rw [hnew]
        refine .tail (b := { p.side with sent := p.side.sent ++ sent.map Prod.snd }) hsaid ?_
        have hstep : SideStep kcp (Opens kcp false p.proto p.pending) heard
            { p.side with sent := p.side.sent ++ sent.map Prod.snd } _ :=
          .opened (Publisher.newLink kcp env p.proto call.sessionId) ?_ ?_
        · simpa [Publisher.side, Publisher.sessionInsert, Session.opened] using hstep
        · cases p.proto with
          | tcp => exact ⟨call.sessionId, hpending, env.now, rfl⟩
          | udp => rfl
        · intro sessionId hid
          cases hproto : p.proto with
          | tcp =>
            rw [hproto] at hid
            obtain rfl : call.sessionId = sessionId := Option.some.inj hid
            exact hfresh hproto _ hpending
          | udp =>
            rw [hproto] at hid
            exact nomatch hid
    dsimp only
    split
    · refine hopened.tail ?_
      simpa [Publisher.side] using SideStep.say (s := Publisher.side _) _ control_server
    · exact hopened

theorem Publisher.takeCall_side (call : PunchCall) : (p.takeCall call).1.side = p.side := by
  unfold Publisher.takeCall
  split
  · rfl
  · split <;> rfl

/-- A call that a publisher answers after an event: the one that it answered, or the one that it
polled. -/
def Publisher.Answers (p : Publisher κ) (polled : Option PunchCall) (call : Answering) : Prop :=
  (∃ old ∈ p.answering, old.punching.Same call.punching ∧ call.sessionId = old.sessionId) ∨
    ∃ posted ∈ polled, isValidId posted.selfId = true ∧ isSessionToken posted.session = true ∧
      Publisher.callSession p.proto posted.session = some (call.punching.session, call.sessionId) ∧
      call.punching.fromId = p.selfId ∧ call.punching.toId = posted.selfId

/-- What an event makes of a publisher: it changes the sessions, the call that it answers, and what it
sent. -/
def Publisher.Turn (p : Publisher κ) (polled : Option PunchCall) (result : Publisher κ) : Prop :=
  ∃ sessions answering sent,
    result = { p with sessions, answering, sent } ∧ ∀ call ∈ answering, p.Answers polled call

theorem Publisher.step_turn (kcp : ByteChannel.Ops κ) (p : Publisher κ) (polled : Option PunchCall)
    (event : PublisherEvent) : p.Turn polled (p.step kcp polled event) := by
  have hold : ∀ call ∈ p.answering, p.Answers polled call := fun call hcall =>
    Or.inl ⟨call, hcall, .refl _, rfl⟩
  have hupdate : ∀ index change, p.Turn polled (p.update index change) := by
    intro index change
    unfold Publisher.update
    split
    · exact ⟨_, _, _, rfl, hold⟩
    · split <;> exact ⟨_, _, _, rfl, hold⟩
  have hafter : ∀ env result, p.Turn polled result.1 → p.Turn polled (Publisher.after kcp env result) := by
    rintro env ⟨_, stage⟩ ⟨sessions, answering, sent, rfl, hcalls⟩
    cases stage <;> exact ⟨_, _, _, rfl, hcalls⟩
  cases event with
  | poll env index =>
    cases polled with
    | none => exact ⟨_, _, _, rfl, hold⟩
    | some posted =>
      apply hafter env (p.takeCall posted)
      unfold Publisher.takeCall
      split
      · exact ⟨_, _, _, rfl, hold⟩
      rename_i hvalid
      split
      · exact ⟨_, _, _, rfl, hold⟩
      rename_i token sessionId hsession
      refine ⟨_, _, _, rfl, fun call hcall => ?_⟩
      obtain ⟨punching, hstart, rfl⟩ := Option.map_eq_some_iff.mp hcall
      obtain ⟨htoken, hfrom, hto⟩ := Punching.start_eq hstart
      simp only [Bool.not_eq_true', Bool.not_eq_false, Bool.and_eq_true] at hvalid
      exact Or.inr ⟨posted, rfl, hvalid.1, hvalid.2, by rw [htoken, hsession], hfrom, hto⟩
  | round =>
    show p.Turn polled p.punchRound
    unfold Publisher.punchRound
    split
    · exact ⟨_, _, _, rfl, hold⟩
    · rename_i call hcall
      refine ⟨_, _, _, rfl, fun call' hcall' => ?_⟩
      obtain rfl := Option.some.inj hcall'
      exact Or.inl ⟨call, hcall, call.punching.round_same, rfl⟩
  | hear env ok arrival =>
    show p.Turn polled (p.punchHear kcp env ok arrival)
    unfold Publisher.punchHear
    split
    · exact ⟨_, _, _, rfl, hold⟩
    rename_i call hcall
    have hsame := call.punching.hear_same arrival
    split
    · rename_i punching sent hhear
      rw [hhear] at hsame
      refine ⟨_, _, _, rfl, fun call' hcall' => ?_⟩
      obtain rfl := Option.some.inj hcall'
      exact Or.inl ⟨call, hcall, hsame, rfl⟩
    · rename_i state peerAddr sent hhear
      have hopen := Publisher.openSession_cases kcp env
        { p with answering := none, sent := p.sent ++ sent } ok call.sessionId peerAddr
      dsimp only
      rcases hopen with hopen | hopen <;> rw [hopen] <;> split <;> exact ⟨_, none, _, rfl, nofun⟩
  | giveUp => exact ⟨_, none, _, rfl, nofun⟩
  | receive env arrival =>
    apply hafter env (p.receivePeer kcp env arrival.source arrival.data)
    unfold Publisher.receivePeer
    split
    · exact ⟨_, _, _, rfl, hold⟩
    split
    · exact ⟨_, _, _, rfl, hold⟩
    · split <;> exact ⟨_, _, _, rfl, hold⟩
  | read env index read => exact hupdate _ _
  | datagram env index source data =>
    show p.Turn polled (p.receiveBackend env index source data)
    unfold Publisher.receiveBackend
    split
    · exact ⟨_, _, _, rfl, hold⟩
    · exact hupdate _ _
  | maintain env index => exact hupdate _ _
  | close env => exact ⟨_, _, _, rfl, hold⟩

/-- An event of a publisher that does not open a session. -/
theorem Publisher.step_still {event : PublisherEvent} (polled : Option PunchCall)
    (hheard : ∀ arrival ∈ event.arrival, arrival.data ∈ heard)
    (hevent : ∀ env ok arrival, event ≠ .hear env ok arrival) :
    SideSteps kcp opens heard p.side (p.step kcp polled event).side := by
  cases event with
  | poll env index =>
    cases polled with
    | none => exact .refl
    | some call =>
      apply Publisher.after_steps env
      rw [Publisher.takeCall_side]
  | round =>
    show SideSteps kcp opens heard p.side p.punchRound.side
    unfold Publisher.punchRound
    split
    · exact .refl
    · rename_i call _
      have hsaid : SideSteps kcp opens heard p.side _ :=
        say_steps p.side (round_control call.punching)
      simpa [Publisher.side] using hsaid
  | hear env ok arrival => exact (hevent env ok arrival rfl).elim
  | giveUp => exact .refl
  | receive env arrival =>
    apply Publisher.after_steps env
    exact Publisher.receivePeer_steps env (hheard arrival rfl)
  | read env index read =>
    apply Publisher.update_steps
    intro x hx hactive
    rw [List.map_nil, List.append_nil]
    exact pump_steps env read hx hactive
  | datagram env index source data =>
    show SideSteps kcp opens heard p.side (p.receiveBackend env index source data).side
    unfold Publisher.receiveBackend
    split
    · exact .refl
    apply Publisher.update_steps
    intro x hx _
    cases hlink : x.link with
    | tcp me =>
      simp only [List.map_nil, List.append_nil]
      rw [Side.put_self hx]
    | udp u =>
      rw [hlink] at hx
      exact .single (.gather data hx)
  | maintain env index =>
    apply Publisher.update_steps
    intro x hx hactive
    exact maintain_steps env hx hactive
  | close env => exact Publisher.closeAll_steps env

theorem Publisher.step_steps (polled : Option PunchCall) (event : PublisherEvent)
    (hheard : ∀ arrival ∈ event.arrival, arrival.data ∈ heard)
    (hfresh : p.proto = .tcp → ∀ sessionId ∈ p.pending,
      Keyed.lookup Link.id (some sessionId) p.side.links = none) :
    SideSteps kcp (Opens kcp false p.proto p.pending) heard p.side (p.step kcp polled event).side := by
  by_cases hhear : ∃ env ok arrival, event = .hear env ok arrival
  · obtain ⟨env, ok, arrival, rfl⟩ := hhear
    exact Publisher.punchHear_steps env ok arrival hfresh
  · exact Publisher.step_still polled hheard fun env ok arrival h => hhear ⟨env, ok, arrival, h⟩

end Publisher

/-! ### The consumer -/

/-- A client that a consumer in this mode establishes a session for. -/
def LocalClient.Fits (proto : Proto) : LocalClient → Prop
  | .stream => proto = .tcp
  | .datagram _ data => proto = .udp ∧ data.length ≤ udpPayloadMax

/-- A session that the consumer may be about to establish. -/
structure Consumer.Establishes {κ : Type} (c : Consumer κ) (session : Establishing) : Prop where
  fits : session.client.Fits c.proto
  token : session.punching.session = Consumer.sessionToken c.proto session.sessionId
  fromId : session.punching.fromId = c.selfId
  toId : session.punching.toId = c.targetId

section Consumer

variable {c : Consumer κ}

/-- The stream that a consumer is about to establish. -/
def Consumer.pending (c : Consumer κ) : Option SessionId :=
  c.establishing.map fun session => session.sessionId

theorem Consumer.side_get {index : Nat} {x : ConsumerSession κ} (h : c.sessions[index]? = some x) :
    c.side.links[index]? = some x.link := by
  simp [Consumer.side, h]

theorem Consumer.update_steps {index : Nat} {change : Session κ → Session κ × List (SockAddr × Bytes)}
    (h : ∀ x : Session κ, c.side.links[index]? = some x.link → x.link.active = true →
      SideSteps kcp opens heard c.side { c.side.put index (change x).1.link with
        sent := c.side.sent ++ (change x).2.map Prod.snd }) :
    SideSteps kcp opens heard c.side (c.update index change).side := by
  unfold Consumer.update
  split
  · exact .refl
  rename_i x hx
  split
  · rename_i hactive
    have hsteps := h x.toSession (Consumer.side_get hx) hactive
    simpa [Consumer.side, Side.put, List.map_set] using hsteps
  · exact .refl

theorem Consumer.closeAll_steps (env : StreamEnv) :
    SideSteps kcp opens heard c.side (c.closeAll kcp env).side := by
  have hlinks : (c.closeAll kcp env).side = { c.side with
      links := c.side.links.map fun link => if link.active then link.close kcp env else link } := by
    simp [Consumer.closeAll, Consumer.side, Function.comp_def, Session.close_link]
  rw [hlinks]
  exact .single (.close env)

theorem Consumer.establish_side (random : SessionId) (candidates : List Candidate) (accepted : Bool)
    (client : LocalClient) : (c.establish random candidates accepted client).1.side = c.side := by
  unfold Consumer.establish
  dsimp only
  split <;> rfl

theorem Consumer.forward_steps (env : StreamEnv) {data : Bytes} {index : Nat} {x : Session κ}
    (hx : c.side.links[index]? = some x.link) (hshort : data.length ≤ udpPayloadMax) :
    SideSteps kcp opens heard c.side { c.side.put index (Consumer.forward env x data).1.link with
      sent := c.side.sent ++ (Consumer.forward env x data).2.map Prod.snd } := by
  have htake : data.take bufSize = data :=
    List.take_of_length_le (Nat.le_trans hshort (by decide))
  unfold Consumer.forward
  cases hlink : x.link with
  | tcp me =>
    simp only [List.map_nil, List.append_nil]
    rw [Side.put_self hx]
  | udp u =>
    rw [hlink] at hx
    have hgather : SideStep kcp opens heard c.side _ := .gather data hx
    rw [htake] at hgather
    exact .single hgather

theorem Consumer.punchHear_steps (env : StreamEnv) (initOk : Bool) (arrival : Arrival)
    (hsession : ∀ session ∈ c.establishing, c.Establishes session)
    (hfresh : c.proto = .tcp → ∀ sessionId ∈ c.pending,
      Keyed.lookup Link.id (some sessionId) c.side.links = none) :
    SideSteps kcp (Opens kcp true c.proto c.pending) heard c.side
      (c.punchHear kcp env initOk arrival).side := by
  unfold Consumer.punchHear
  split
  · exact .refl
  rename_i session hfound
  have hpending : session.sessionId ∈ c.pending := by simp [Consumer.pending, hfound]
  have hclient := (hsession session hfound).fits
  have hsaid : SideSteps kcp (Opens kcp true c.proto c.pending) heard c.side _ :=
    say_steps c.side (hear_control session.punching arrival)
  split
  · rename_i punching sent hhear
    rw [hhear] at hsaid
    simpa [Consumer.side] using hsaid
  rename_i state peerAddr sent hhear
  rw [hhear] at hsaid
  cases initOk with
  | false => simpa [Consumer.side] using hsaid
  | true =>
    refine .trans (b := { c.side with sent := c.side.sent ++ sent.map Prod.snd }) hsaid ?_
    cases hstream : session.client with
    | stream =>
      rw [hstream] at hclient
      have hstep : SideStep kcp (Opens kcp true c.proto c.pending) heard
          { c.side with sent := c.side.sent ++ sent.map Prod.snd } _ :=
        .opened (.tcp (Party.opened kcp true session.sessionId env.now)) ?_ ?_
      · simpa [Consumer.side, Consumer.sessionInsert, Consumer.sessionInit, hstream, Session.opened]
          using Relation.ReflTransGen.single hstep
      · rw [show c.proto = .tcp from hclient]
        exact ⟨session.sessionId, hpending, env.now, rfl⟩
      · intro sessionId hid
        obtain rfl : session.sessionId = sessionId := Option.some.inj hid
        exact hfresh hclient _ hpending
    | datagram client data =>
      rw [hstream] at hclient
      obtain ⟨hproto, hshort⟩ := hclient
      have htake : data.take bufSize = data :=
        List.take_of_length_le (Nat.le_trans hshort (by decide))
      -- The session is opened, and then it forwards the datagram that waited for it.
      have hopen : SideStep kcp (Opens kcp true c.proto c.pending) heard
          { c.side with sent := c.side.sent ++ sent.map Prod.snd } _ :=
        .opened (.udp ⟨true, [], []⟩) (by rw [hproto]; rfl) nofun
      have hgather : SideStep kcp (Opens kcp true c.proto c.pending) heard
          ⟨c.side.links ++ [.udp ⟨true, [], []⟩], c.side.sent ++ sent.map Prod.snd⟩ _ :=
        .gather (i := c.side.links.length) (u := ⟨true, [], []⟩) data (by simp)
      rw [htake] at hgather
      have hboth := (Relation.ReflTransGen.single hopen).tail hgather
      simpa [Consumer.side, Consumer.sessionInsert, Consumer.sessionInit, hstream, Session.opened,
        Side.put] using hboth

/-- What an event posts at the index: a call for a session with fresh random bytes. -/
def Consumer.Posts (c : Consumer κ) (event : ConsumerEvent) (call : PunchCall) : Prop :=
  ∃ random, call.selfId = c.selfId ∧ call.session = Consumer.sessionToken c.proto random ∧
    (c.proto = .tcp → event.random = some random)

/-- A session that a consumer establishes after an event: the one before, or a new one. -/
def Consumer.Continues (c : Consumer κ) (event : ConsumerEvent) (session : Establishing) : Prop :=
  (∃ old ∈ c.establishing, old.punching.Same session.punching ∧ session.sessionId = old.sessionId ∧
      session.client = old.client) ∨
    c.Establishes session ∧ (c.proto = .tcp → event.random = some session.sessionId)

/-- What an event makes of a consumer: it changes the sessions, the one that it establishes, and what
it sent, and it may post a call. -/
def Consumer.Turn (c : Consumer κ) (event : ConsumerEvent) (result : Consumer κ × Option PunchCall) :
    Prop :=
  ∃ sessions establishing sent,
    result.1 = { c with sessions, establishing, sent } ∧
      (∀ session ∈ establishing, c.Continues event session) ∧ ∀ call ∈ result.2, c.Posts event call

theorem Consumer.establishes_turn {event : ConsumerEvent} {sessions : List (ConsumerSession κ)}
    {establishing : Option Establishing} {sent : List (SockAddr × Bytes)}
    (h : ∀ session ∈ c.establishing, c.Establishes session)
    (hturn : ∀ session ∈ establishing, c.Continues event session) :
    ∀ session ∈ establishing,
      Consumer.Establishes { c with sessions, establishing, sent } session := by
  intro session hsession
  rcases hturn session hsession with ⟨old, hold, hsame, hid, hclient⟩ | ⟨hnew, _⟩
  · obtain ⟨hfits, htoken, hfrom, hto⟩ := h old hold
    refine ⟨?_, ?_, hsame.fromId.trans hfrom, hsame.toId.trans hto⟩
    · rw [hclient]
      exact hfits
    · rw [hsame.session, hid]
      exact htoken
  · exact ⟨hnew.fits, hnew.token, hnew.fromId, hnew.toId⟩

theorem Consumer.establish_turn (c : Consumer κ) {event : ConsumerEvent} {random : SessionId}
    {client : LocalClient} (candidates : List Candidate) (accepted : Bool)
    (hclient : client.Fits c.proto) (hrandom : c.proto = .tcp → event.random = some random) :
    c.Turn event (c.establish random candidates accepted client) := by
  unfold Consumer.establish
  dsimp only
  split
  · exact ⟨_, _, _, rfl, fun session hsession => Or.inl ⟨session, hsession, .refl _, rfl, rfl⟩, nofun⟩
  refine ⟨_, _, _, rfl, ?_, ?_⟩
  · intro session hsession
    obtain ⟨punching, hstart, rfl⟩ := Option.map_eq_some_iff.mp hsession
    split at hstart
    · obtain ⟨htoken, hfrom, hto⟩ := Punching.start_eq hstart
      exact Or.inr ⟨⟨hclient, htoken, hfrom, hto⟩, hrandom⟩
    · exact nomatch hstart
  · intro call hcall
    obtain rfl := Option.some.inj hcall
    exact ⟨random, rfl, rfl, hrandom⟩

theorem Consumer.step_turn (kcp : ByteChannel.Ops κ) (c : Consumer κ) (event : ConsumerEvent) :
    c.Turn event (c.step kcp event) := by
  have hold : ∀ session ∈ c.establishing, c.Continues event session := fun session hsession =>
    Or.inl ⟨session, hsession, .refl _, rfl, rfl⟩
  have hupdate : ∀ index change, c.Turn event (c.update index change, none) := by
    intro index change
    unfold Consumer.update
    split
    · exact ⟨_, _, _, rfl, hold, nofun⟩
    · split <;> exact ⟨_, _, _, rfl, hold, nofun⟩
  cases event with
  | accept random candidates confirmed =>
    simp only [Consumer.step]
    unfold Consumer.tcpAccept
    split
    · rename_i hproto
      exact Consumer.establish_turn c candidates confirmed hproto fun _ => rfl
    · exact ⟨_, _, _, rfl, hold, nofun⟩
  | datagram env client data random candidates confirmed =>
    simp only [Consumer.step]
    unfold Consumer.udpReceive
    split
    · exact ⟨_, _, _, rfl, hold, nofun⟩
    rename_i hproto
    split
    · exact ⟨_, _, _, rfl, hold, nofun⟩
    rename_i hlength
    have hudp : c.proto = .udp := by
      cases hmode : c.proto with
      | tcp => exact (hproto hmode).elim
      | udp => rfl
    have hshort : data.length ≤ udpPayloadMax := by
      simp only [List.length_take, bufSize, udpPayloadMax] at hlength ⊢
      omega
    split
    · exact hupdate _ _
    · exact Consumer.establish_turn c candidates confirmed ⟨hudp, hshort⟩ fun htcp =>
        (hproto htcp).elim
  | read env index read => exact hupdate _ _
  | round =>
    simp only [Consumer.step]
    unfold Consumer.punchRound
    split
    · exact ⟨_, _, _, rfl, hold, nofun⟩
    · rename_i session hsession
      refine ⟨_, _, _, rfl, fun session' hsession' => ?_, nofun⟩
      obtain rfl := Option.some.inj hsession'
      exact Or.inl ⟨session, hsession, session.punching.round_same, rfl, rfl⟩
  | hear env ok arrival =>
    simp only [Consumer.step]
    unfold Consumer.punchHear
    split
    · exact ⟨_, _, _, rfl, hold, nofun⟩
    rename_i session hsession
    have hsame := session.punching.hear_same arrival
    split
    · rename_i punching sent hhear
      rw [hhear] at hsame
      refine ⟨_, _, _, rfl, fun session' hsession' => ?_, nofun⟩
      obtain rfl := Option.some.inj hsession'
      exact Or.inl ⟨session, hsession, hsame, rfl, rfl⟩
    · dsimp only
      split <;> exact ⟨_, none, _, rfl, nofun, nofun⟩
  | giveUp => exact ⟨_, none, _, rfl, nofun, nofun⟩
  | receive env index arrival => exact hupdate _ _
  | maintain env index => exact hupdate _ _
  | close env => exact ⟨_, _, _, rfl, hold, nofun⟩

/-- An event of a consumer that does not open a session. -/
theorem Consumer.step_still {event : ConsumerEvent}
    (hheard : ∀ arrival ∈ event.arrival, arrival.data ∈ heard)
    (hevent : ∀ env ok arrival, event ≠ .hear env ok arrival) :
    SideSteps kcp opens heard c.side (c.step kcp event).1.side := by
  cases event with
  | accept random candidates confirmed =>
    show SideSteps kcp opens heard c.side (c.tcpAccept random candidates confirmed).1.side
    unfold Consumer.tcpAccept
    split
    · rw [Consumer.establish_side]
    · exact .refl
  | datagram env client data random candidates confirmed =>
    show SideSteps kcp opens heard c.side
      (c.udpReceive env client data random candidates confirmed).1.side
    unfold Consumer.udpReceive
    split
    · exact .refl
    split
    · exact .refl
    rename_i hlength
    split
    · apply Consumer.update_steps
      intro x hx _
      apply Consumer.forward_steps env hx
      simp only [List.length_take, bufSize, udpPayloadMax] at hlength ⊢
      omega
    · rw [Consumer.establish_side]
  | read env index read =>
    apply Consumer.update_steps
    intro x hx hactive
    rw [List.map_nil, List.append_nil]
    exact pump_steps env read hx hactive
  | round =>
    show SideSteps kcp opens heard c.side c.punchRound.side
    unfold Consumer.punchRound
    split
    · exact .refl
    · rename_i session _
      have hsaid : SideSteps kcp opens heard c.side _ :=
        say_steps c.side (round_control session.punching)
      simpa [Consumer.side] using hsaid
  | hear env ok arrival => exact (hevent env ok arrival rfl).elim
  | giveUp => exact .refl
  | receive env index arrival =>
    apply Consumer.update_steps
    intro x hx hactive
    split
    · rw [List.map_nil, List.append_nil]
      exact receive_steps env hx hactive (hheard arrival rfl)
    · rw [List.map_nil, List.append_nil, Side.put_self hx]
  | maintain env index =>
    apply Consumer.update_steps
    intro x hx hactive
    exact maintain_steps env hx hactive
  | close env => exact Consumer.closeAll_steps env

theorem Consumer.step_steps (event : ConsumerEvent)
    (hheard : ∀ arrival ∈ event.arrival, arrival.data ∈ heard)
    (hsession : ∀ session ∈ c.establishing, c.Establishes session)
    (hfresh : c.proto = .tcp → ∀ sessionId ∈ c.pending,
      Keyed.lookup Link.id (some sessionId) c.side.links = none) :
    SideSteps kcp (Opens kcp true c.proto c.pending) heard c.side (c.step kcp event).1.side := by
  by_cases hhear : ∃ env ok arrival, event = .hear env ok arrival
  · obtain ⟨env, ok, arrival, rfl⟩ := hhear
    exact Consumer.punchHear_steps env ok arrival hsession hfresh
  · exact Consumer.step_still hheard fun env ok arrival h => hhear ⟨env, ok, arrival, h⟩

end Consumer

end Events

end Redp2p
