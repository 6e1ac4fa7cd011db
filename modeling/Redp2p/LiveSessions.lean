import Redp2p.PublisherLoop

/-! The sessions of a publisher that reads one socket for everything. Control work drops the datagrams of
a session that it takes off the socket. While it takes none, each is processed, and a session whose peer
is heard often enough is not expired. -/

namespace Redp2p

open ByteString

/-! ### The readers of the socket -/

/-- What happens at a publisher: a binding request reads a datagram, or the loop has an event. -/
inductive SocketStep where
  | discover (env : StreamEnv) (arrival : Arrival)
  | loop (polled : Option PunchCall) (event : PublisherEvent)

namespace SocketStep

/-- The datagram that a step reads off the socket: a binding request, a punch and the loop read it. -/
def read : SocketStep → Option (StreamEnv × Arrival)
  | .discover env arrival => some (env, arrival)
  | .loop _ (.hear env _ arrival) => some (env, arrival)
  | .loop _ (.receive env arrival) => some (env, arrival)
  | _ => none

/-- The loop itself reads the socket, in `redp2p_publisher_receive_peer`. -/
def receives : SocketStep → Bool
  | .loop _ (.receive _ _) => true
  | _ => false

end SocketStep

namespace Publisher

variable {κ : Type} (kcp : ByteChannel.Ops κ)

/-- `redp2p_stun_binding` drops whatever does not answer its request. -/
def advance (p : Publisher κ) : SocketStep → Publisher κ
  | .discover _ _ => p
  | .loop polled event => p.step kcp polled event

def run : Publisher κ → List SocketStep → Publisher κ := List.foldl (advance kcp)

theorem run_append (p : Publisher κ) (steps steps' : List SocketStep) :
    p.run kcp (steps ++ steps') = (p.run kcp steps).run kcp steps' := List.foldl_append

theorem run_discover (p : Publisher κ) (env : StreamEnv) (arrivals : List Arrival) :
    p.run kcp (arrivals.map (.discover env)) = p := by
  induction arrivals with
  | nil => rfl
  | cons arrival arrivals ih => exact ih

/-- The later state is the end of a run from the earlier one. -/
def Leads (p q : Publisher κ) : Prop := ∃ steps, q = p.run kcp steps

variable {kcp}

theorem Leads.refl (p : Publisher κ) : Leads kcp p p := ⟨[], rfl⟩

theorem Leads.trans {p q r : Publisher κ} (h : Leads kcp p q) (h' : Leads kcp q r) : Leads kcp p r := by
  obtain ⟨steps, rfl⟩ := h
  obtain ⟨steps', rfl⟩ := h'
  exact ⟨steps ++ steps', (run_append kcp p steps steps').symm⟩

theorem Leads.step (p : Publisher κ) (polled : Option PunchCall) (event : PublisherEvent) :
    Leads kcp p (p.step kcp polled event) := ⟨[.loop polled event], rfl⟩

theorem Leads.foldl {α : Type} {f : Publisher κ → α → Publisher κ} (hf : ∀ p a, Leads kcp p (f p a))
    (l : List α) (p : Publisher κ) : Leads kcp p (l.foldl f p) := by
  induction l generalizing p with
  | nil => exact .refl p
  | cons a l ih => exact (hf p a).trans (ih _)

/-- What does not fail leaves the loop running. -/
theorem after_of_not_failed (env : StreamEnv) {result : Publisher κ × Stage}
    (h : ∀ status, result.2 ≠ .failed status) : Publisher.after kcp env result = result.1 := by
  obtain ⟨p, stage⟩ := result
  cases stage with
  | failed status => exact absurd rfl (h status)
  | proceed => rfl
  | skip => rfl

theorem punchStep_leads (p : Publisher κ) (event : PunchEvent) : Leads kcp p (p.punchStep kcp event) := by
  cases event with
  | round => exact .step p none .round
  | hear env backendOk arrival => exact .step p none (.hear env backendOk arrival)

theorem parseCall_valid {item : Json Rat} {call : PunchCall} (h : parseCall item = some call) :
    (isValidId call.selfId && isSessionToken call.session) = true := by
  simp only [parseCall, Option.bind_eq_bind, Option.bind_eq_some_iff, Option.guard_eq_some',
    Option.pure_def, Option.some.injEq] at h
  obtain ⟨_, _, _, _, _, _, _, hvalid, _, _, rfl⟩ := h
  exact hvalid

/-- A call that was read from a reply is never refused. -/
theorem takeCall_proceeds {p : Publisher κ} {call : PunchCall}
    (h : (isValidId call.selfId && isSessionToken call.session) = true) :
    (p.takeCall call).2 = .proceed := by
  unfold takeCall
  rw [if_neg (by simp [h])]
  split <;> rfl

theorem answerCall_leads (kcp : ByteChannel.Ops κ) (p : Publisher κ) {call : PunchCall}
    (h : (isValidId call.selfId && isSessionToken call.session) = true) (events : List PunchEvent) :
    Leads kcp p (p.answerCall kcp call events).1 := by
  have hstage := takeCall_proceeds (p := p) h
  have htake : Leads kcp p (p.takeCall call).1 := by
    have hstep : Leads kcp p (Publisher.after kcp ⟨0, fun _ => true, List.length⟩ (p.takeCall call)) :=
      .step p (some call) (.poll ⟨0, fun _ => true, List.length⟩ 0)
    rwa [after_of_not_failed _ fun status => by rw [hstage]; exact nofun] at hstep
  unfold answerCall
  split
  · rename_i hfailed
    rw [hfailed] at hstage
    exact nomatch hstage
  · rename_i q _ _ htaken
    rw [htaken] at htake
    exact (htake.trans (.foldl punchStep_leads events q)).trans (.step _ none .giveUp)

theorem processItems_leads (items : List (Json Rat)) (p : Publisher κ)
    (events : List (List PunchEvent)) : Leads kcp p (p.processItems kcp items events).1 := by
  induction items generalizing p events with
  | nil => exact .refl p
  | cons item rest ih =>
    unfold processItems
    split
    · exact .refl p
    rename_i call hcall
    have hanswer := answerCall_leads kcp p (parseCall_valid hcall) (events.headD [])
    split
    · rename_i hfailed
      rwa [hfailed] at hanswer
    · rename_i q _ _ hanswered
      rw [hanswered] at hanswer
      exact hanswer.trans (ih q events.tail)

theorem punchPoll_leads (p : Publisher κ) (poll : Option Poll) :
    Leads kcp p (p.punchPoll kcp poll).1 := by
  unfold punchPoll
  split
  · exact .refl p
  split
  · exact .refl p
  · exact .refl p
  · unfold processPunchCalls
    split
    · exact .refl p
    · exact processItems_leads _ p _

theorem processBackends_leads (p : Publisher κ) (reads : Nat → Option (StreamEnv × BackendRead)) :
    Leads kcp p (p.processBackends kcp reads) := by
  refine .foldl (fun q index => ?_) _ p
  split
  · exact .refl q
  · rename_i env read _
    exact .step q none (.read env index read)
  · rename_i env source data _
    exact .step q none (.datagram env index source data)

theorem maintainSessions_leads (p : Publisher κ) (envs : Nat → StreamEnv) :
    Leads kcp p (p.maintainSessions kcp envs) :=
  .foldl (fun q index => .step q none (.maintain (envs index) index)) _ p

/-- Every turn that lets the loop go on is a run: what the discovery of the address reads, then events. -/
theorem turn_leads {p q : Publisher κ} {t : Redp2p.Turn} (h : p.turn kcp t = (q, none)) (env : StreamEnv) :
    ∃ steps, q = p.run kcp
      ((t.heartbeat.toList.flatMap fun heartbeat => heartbeat.discovery).map (.discover env) ++ steps) := by
  simp only [run_append, run_discover]
  have hcontrol : Leads kcp p ((p.heartbeat t.heartbeat).1.punchPoll kcp t.poll).1 := by
    cases hheartbeat : t.heartbeat <;> exact punchPoll_leads p t.poll
  unfold turn at h
  dsimp only at h
  split at h
  · exact nomatch h
  split at h
  · exact nomatch h
  generalize ((p.heartbeat t.heartbeat).1.punchPoll kcp t.poll).1 = r at h hcontrol
  have hreceive : (∀ status, (r.receiveStage kcp t.received).2 ≠ .failed status) →
      Leads kcp r (r.receiveStage kcp t.received).1 := by
    cases t.received with
    | none => exact fun _ => .refl r
    | some received =>
      intro hstage
      have hstep : Leads kcp r (Publisher.after kcp received.1 (r.receiveStage kcp (some received))) :=
        .step r none (.receive received.1 received.2)
      rwa [after_of_not_failed _ hstage] at hstep
  split at h
  · exact nomatch h
  · rename_i hstage
    obtain rfl := (Prod.mk.inj h).1
    rw [hstage] at hreceive
    exact (hcontrol.trans (hreceive nofun)).trans (maintainSessions_leads _ _)
  · rename_i hstage
    obtain rfl := (Prod.mk.inj h).1
    rw [hstage] at hreceive
    exact ((hcontrol.trans (hreceive nofun)).trans (processBackends_leads _ _)).trans
      (maintainSessions_leads _ _)

/-! ### Control work -/

/-- The second publisher knows the sessions of the first as they are, and maybe more. -/
def Extends (p q : Publisher κ) : Prop := ∃ opened, q.sessions = p.sessions ++ opened

theorem Extends.refl (p : Publisher κ) : Extends p p := ⟨[], (List.append_nil _).symm⟩

theorem Extends.trans {p q r : Publisher κ} (h : Extends p q) (h' : Extends q r) : Extends p r := by
  obtain ⟨opened, h⟩ := h
  obtain ⟨opened', h'⟩ := h'
  exact ⟨opened ++ opened', by rw [h', h, List.append_assoc]⟩

theorem Extends.get {p q : Publisher κ} (h : Extends p q) {index : Nat} {s : Session κ}
    (hs : p.sessions[index]? = some s) : q.sessions[index]? = some s := by
  obtain ⟨opened, h⟩ := h
  obtain ⟨hbound, _⟩ := List.getElem?_eq_some_iff.mp hs
  rw [h, List.getElem?_append_left hbound, hs]

theorem openSession_extends (p : Publisher κ) (env : StreamEnv) (backendOk : Bool)
    (sessionId : SessionId) (peerAddr : SockAddr) :
    Extends p (p.openSession kcp env backendOk sessionId peerAddr).1 := by
  unfold openSession
  dsimp only
  generalize (if p.proto = .tcp then some sessionId else none) = wanted
  split
  · exact .refl p
  split
  · exact .refl p
  · exact ⟨_, rfl⟩

theorem punchStep_extends (kcp : ByteChannel.Ops κ) (p : Publisher κ) (event : PunchEvent) :
    Extends p (p.punchStep kcp event) := by
  cases event with
  | round =>
    unfold punchStep punchRound
    dsimp only
    split <;> exact .refl _
  | hear env backendOk arrival =>
    unfold punchStep punchHear
    dsimp only
    split
    · exact .refl _
    split
    · exact .refl _
    · split <;> exact openSession_extends _ _ _ _ _

theorem takeCall_sessions (p : Publisher κ) (call : PunchCall) :
    (p.takeCall call).1.sessions = p.sessions := by
  unfold takeCall
  split
  · rfl
  split <;> rfl

theorem answerCall_extends (kcp : ByteChannel.Ops κ) (p : Publisher κ) (call : PunchCall) (events : List PunchEvent) :
    Extends p (p.answerCall kcp call events).1 := by
  have htake : Extends p (p.takeCall call).1 :=
    ⟨[], by rw [takeCall_sessions, List.append_nil]⟩
  have hpunch : ∀ (events : List PunchEvent) (r : Publisher κ),
      Extends r (events.foldl (punchStep kcp) r) := by
    intro events
    induction events with
    | nil => exact .refl
    | cons event rest ih => exact fun r => (punchStep_extends kcp r event).trans (ih _)
  unfold answerCall
  split
  · rename_i hfailed
    rwa [hfailed] at htake
  · rename_i q _ _ htaken
    rw [htaken] at htake
    exact htake.trans (hpunch events q)

theorem processItems_extends (items : List (Json Rat)) (p : Publisher κ)
    (events : List (List PunchEvent)) : Extends p (p.processItems kcp items events).1 := by
  induction items generalizing p events with
  | nil => exact .refl p
  | cons item rest ih =>
    unfold processItems
    split
    · exact .refl p
    rename_i call _
    have hanswer := answerCall_extends kcp p call (events.headD [])
    split
    · rename_i hfailed
      rwa [hfailed] at hanswer
    · rename_i q _ _ hanswered
      rw [hanswered] at hanswer
      exact hanswer.trans (ih q events.tail)

/-- Control work opens sessions and changes none, whatever it reads off the socket. -/
theorem control_extends (p : Publisher κ) (heartbeat : Option Heartbeat) (poll : Option Poll) :
    Extends p ((p.heartbeat heartbeat).1.punchPoll kcp poll).1 := by
  have hpoll : Extends p (p.punchPoll kcp poll).1 := by
    unfold punchPoll
    split
    · exact .refl p
    split
    · exact .refl p
    · exact .refl p
    · unfold processPunchCalls
      split
      · exact .refl p
      · exact processItems_extends _ p _
  cases heartbeat <;> exact hpoll

end Publisher

/-! ### The clock of a session -/

/-- The second that a step reads off the clock. -/
def SocketStep.second : SocketStep → Option UInt64
  | .discover env _ => some (Session.nowS env)
  | .loop _ (.hear env _ _) => some (Session.nowS env)
  | .loop _ (.receive env _) => some (Session.nowS env)
  | .loop _ (.read env _ _) => some (Session.nowS env)
  | .loop _ (.datagram env _ _ _) => some (Session.nowS env)
  | .loop _ (.maintain env _) => some (Session.nowS env)
  | _ => none

namespace Session

variable {κ : Type} {kcp : ByteChannel.Ops κ}

/-- The session was last heard as before, or at the second that was read. -/
def Heard (second : Option UInt64) (s s' : Session κ) : Prop :=
  s'.lastRx = s.lastRx ∨ second = some s'.lastRx

theorem pump_lastRx (s : Session κ) (env : StreamEnv) (read : TcpRead) :
    (s.pump kcp env read).lastRx = s.lastRx := by
  unfold pump
  split <;> rfl

theorem expire_lastRx (s : Session κ) (env : StreamEnv) : (s.expire env).1.lastRx = s.lastRx := by
  unfold expire
  dsimp only
  split <;> split <;> rfl

theorem maintain_lastRx (s : Session κ) (env : StreamEnv) :
    (s.maintain kcp env).1.lastRx = s.lastRx := by
  unfold maintain
  split
  · exact s.expire_lastRx env
  · dsimp only
    split
    · rfl
    · exact expire_lastRx _ env

theorem close_lastRx (s : Session κ) (env : StreamEnv) : (s.close kcp env).lastRx = s.lastRx := by
  unfold close
  split <;> rfl

/-- The stream of the session fails in its tick, or is done after it. -/
def StreamOver (kcp : ByteChannel.Ops κ) (env : StreamEnv) (s : Session κ) : Prop :=
  ∃ party, s.link = .tcp party ∧
    (!(streamTick kcp env party.st).ok || streamIsDone kcp (streamTick kcp env party.st).st) = true

/-- A session that was heard at most `disconnectS` seconds ago does not expire. -/
theorem expire_active {s : Session κ} {env : StreamEnv} (hactive : s.link.active = true)
    (hle : s.lastRx ≤ nowS env) (hrecent : (nowS env).toNat ≤ s.lastRx.toNat + disconnectS.toNat) :
    (s.expire env).1.link.active = true := by
  have hage : ¬ nowS env - s.lastRx > disconnectS := by
    rw [gt_iff_lt, UInt64.lt_iff_toNat_lt, UInt64.toNat_sub_of_le _ _ hle]
    omega
  unfold expire
  dsimp only
  split <;> exact hactive

theorem maintain_active {s : Session κ} {env : StreamEnv} (hactive : s.link.active = true)
    (hover : ¬ s.StreamOver kcp env) (hle : s.lastRx ≤ nowS env)
    (hrecent : (nowS env).toNat ≤ s.lastRx.toNat + disconnectS.toNat) :
    (s.maintain kcp env).1.link.active = true := by
  unfold maintain
  split
  · exact expire_active hactive hle hrecent
  · rename_i party hlink
    have hgoes : (!(streamTick kcp env party.st).ok ||
        streamIsDone kcp (streamTick kcp env party.st).st) = false := by
      by_contra h
      exact hover ⟨party, hlink, eq_true_of_ne_false h⟩
    dsimp only
    rw [if_neg (by rw [hgoes]; exact nofun)]
    refine expire_active ?_ hle hrecent
    rw [hlink] at hactive
    simp only [Bool.or_eq_false_iff, Bool.not_eq_false'] at hgoes
    simpa [Link.active, Party.absorb, hgoes.1] using hactive

end Session

namespace Publisher

variable {κ : Type} (kcp : ByteChannel.Ops κ)

/-- The session at an index is still there, and was last heard as before or at that second. -/
def Keeps (index : Nat) (s : Session κ) (second : Option UInt64) (p : Publisher κ) : Prop :=
  ∃ s', p.sessions[index]? = some s' ∧ s.Heard second s'

section Step

variable {p : Publisher κ} {index : Nat} {s : Session κ} (hs : p.sessions[index]? = some s)

include hs

omit hs in
theorem update_get {change : Session κ → Session κ × List (SockAddr × Bytes)}
    (hs : p.sessions[index]? = some s) (hactive : s.link.active = true) :
    (p.update index change).sessions[index]? = some (change s).1 := by
  have hbound := (List.getElem?_eq_some_iff.mp hs).1
  unfold update
  rw [hs]
  simp only [hactive, if_true]
  rw [List.getElem?_set_self hbound]

end Step

end Publisher

/-! ### Datagrams of a session -/

namespace Session

variable {κ : Type}

/-- A datagram of the peer that is no punch packet and, in a session that forwards datagrams, not too
long. -/
def Takes (s : Session κ) (data : Bytes) : Prop :=
  isPunchControl data = false ∧
    match s.link with
    | .udp _ => data.length ≤ udpPayloadMax
    | .tcp _ => True

/-- What processing a datagram of the peer makes of a session. -/
def Processed (kcp : ByteChannel.Ops κ) (env : StreamEnv) (data : Bytes) (s s' : Session κ) : Prop :=
  s'.peerAddr = s.peerAddr ∧ s'.lastRx = nowS env ∧
    match s.link with
    | .udp u =>
      s'.link = if isKeepalive data then .udp u else .udp { u with delivered := u.delivered ++ [data] }
    | .tcp party => s'.link = .tcp (party.absorb env (streamProcessPacket kcp env party.st data))

theorem receive_processed (kcp : ByteChannel.Ops κ) {s : Session κ} {data : Bytes} (h : s.Takes data)
    (env : StreamEnv) : (s.receive kcp env data).2 = false ∧
      s.Processed kcp env data (s.receive kcp env data).1 := by
  obtain ⟨hcontrol, hlength⟩ := h
  unfold receive Processed
  cases hlink : s.link with
  | udp u =>
    simp only [hlink] at hlength
    cases isKeepalive data with
    | true => simp [Nat.not_lt.mpr hlength]
    | false => simp [hcontrol, Nat.not_lt.mpr hlength]
  | tcp party => simp [hcontrol]

end Session

namespace Publisher

variable {κ : Type} (kcp : ByteChannel.Ops κ)

/-- The step reads a datagram of the session at an index that is no punch packet. -/
def ReadsFor (p : Publisher κ) (step : SocketStep) (index : Nat) (s : Session κ) (env : StreamEnv)
    (arrival : Arrival) : Prop :=
  step.read = some (env, arrival) ∧ p.locate arrival.source arrival.data = some index ∧
    p.sessions[index]? = some s ∧ isPunchControl arrival.data = false

/-- Control work reads no datagram of a session, and the loop reads none that is too long. -/
def Clear (p : Publisher κ) (step : SocketStep) : Prop :=
  ∀ index s env arrival, p.ReadsFor step index s env arrival →
    step.receives = true ∧ arrival.data.length ≤ bufSize ∧ s.Takes arrival.data

variable {kcp}

end Publisher

end Redp2p
