import Redp2p.Tunnel

/-! The handshake of a stream over a network that loses, duplicates, reorders and reflects datagrams
and carries those of other sessions: which datagrams an end takes for its peer's, and what the
readiness of one end says of the other. -/

namespace Redp2p

open ByteString ByteChannel

/-! ### What a call says and keeps -/

section Conduct

variable {κ : Type} {kcp : Ops κ} {env : StreamEnv} {st st' st'' : StreamState κ} {o : Outcome κ}
  {greets : Prop}

/-- A datagram that a stream may have sent: an envelope of its own role and session. A greeting is one
of an initiator that has noted it, its answer one of an end that is ready. -/
def Spoken (st : StreamState κ) (data : Bytes) : Prop :=
  ∃ type payload, data = streamFrame type (streamRole st) st.sessionId payload ∧
    payload.length ≤ streamKcpMtu ∧ (type ≠ .kcp → payload = []) ∧
    (type = .hello → st.helloSent = true) ∧ (type = .helloAck → st.ready = true)

/-- How a call moves a stream. It becomes ready on a greeting only, and its channel is left alone until
then. -/
structure Keeps (greets : Prop) (st st' : StreamState κ) : Prop where
  same : SameIdentity st st'
  ready : st.ready = true → st'.ready = true
  helloSent : st.helloSent = true → st'.helloSent = true
  turned : st'.ready = true → st.ready = true ∨ greets
  idle : st'.ready = false → st'.kcp = st.kcp

theorem Keeps.refl (st : StreamState κ) : Keeps greets st st := ⟨.refl st, id, id, Or.inl, fun _ => rfl⟩

theorem Keeps.trans (h : Keeps greets st st') (h' : Keeps greets st' st'') : Keeps greets st st'' where
  same := h.same.trans h'.same
  ready := fun hready => h'.ready (h.ready hready)
  helloSent := fun hsent => h'.helloSent (h.helloSent hsent)
  turned := fun hready => (h'.turned hready).elim h.turned Or.inr
  idle := by
    intro hidle
    have hbefore : st'.ready = false := by
      cases hready : st'.ready with
      | false => rfl
      | true => exact absurd (h'.ready hready) (by simp [hidle])
    exact (h'.idle hidle).trans (h.idle hbefore)

/-- A ready stream may use its channel. -/
theorem Keeps.of_ready (hsame : SameIdentity st st') (hready : st.ready = true)
    (hready' : st'.ready = true) (hsent : st'.helloSent = st.helloSent) : Keeps greets st st' where
  same := hsame
  ready := fun _ => hready'
  helloSent := fun h => hsent.trans h
  turned := fun _ => Or.inl hready
  idle := fun hidle => by simp [hready'] at hidle

theorem Spoken.mono {data : Bytes} (h : Spoken st data) (hkeeps : Keeps greets st st') :
    Spoken st' data := by
  obtain ⟨type, payload, hframe, hlength, hempty, hhello, hack⟩ := h
  have hrole : streamRole st' = streamRole st := by simp only [streamRole, hkeeps.same.initiator]
  refine ⟨type, payload, ?_, hlength, hempty, fun h => hkeeps.helloSent (hhello h),
    fun h => hkeeps.ready (hack h)⟩
  rw [hrole, hkeeps.same.sessionId, hframe]

structure Conduct (greets : Prop) (st : StreamState κ) (o : Outcome κ) : Prop where
  keeps : Keeps greets st o.st
  spoken : ∀ data ∈ o.sent, Spoken o.st data

theorem Conduct.quiet {written : Bytes} {shut ok : Bool} (h : Keeps greets st st') :
    Conduct greets st ⟨st', [], written, shut, ok⟩ := ⟨h, by simp⟩

theorem Conduct.andThen {next : StreamState κ → Outcome κ} (h : Conduct greets st o)
    (hnext : Conduct greets o.st (next o.st)) : Conduct greets st (o.andThen next) := by
  unfold Outcome.andThen
  split
  · refine ⟨h.keeps.trans hnext.keeps, ?_⟩
    intro data hdata
    rcases List.mem_append.mp hdata with hold | hnew
    · exact (h.spoken data hold).mono hnext.keeps
    · exact hnext.spoken data hnew
  · exact h

variable (env) in
/-- A control datagram and then a note of it, which entitles the stream to the datagram. -/
theorem sendControl_note {type : StreamType} {note : StreamState κ → StreamState κ}
    (hprotocol : st.transportProtocol = UInt8.ofNat protoTcp)
    (hkeeps : ∀ st, Keeps greets st (note st))
    (hhello : type = .hello → ∀ st, (note st).helloSent = true)
    (hack : type = .helloAck → ∀ st, (note st).ready = true) :
    Conduct greets st ((streamSendControl env st type).andThen fun st => .done (note st)) := by
  have hpack : streamPack type (streamRole st) st.transportProtocol st.sessionId [] =
      some (streamFrame type (streamRole st) st.sessionId []) := by
    rw [hprotocol]
    exact streamPack_frame (Nat.zero_le _)
  unfold streamSendControl
  rw [hpack]
  dsimp only
  split
  · have hsent : Keeps greets st { st with lastTxMs := env.now } :=
      ⟨⟨rfl, rfl, rfl⟩, id, id, Or.inl, fun _ => rfl⟩
    have hnoted := hsent.trans (hkeeps _)
    refine ⟨hnoted, ?_⟩
    intro data hdata
    obtain rfl : data = streamFrame type (streamRole st) st.sessionId [] := by
      simpa [Outcome.andThen, Outcome.done] using hdata
    have hrole : streamRole (note { st with lastTxMs := env.now }) = streamRole st := by
      simp only [streamRole, hnoted.same.initiator]
    refine ⟨type, [], ?_, Nat.zero_le _, fun _ => rfl, fun h => hhello h _, fun h => hack h _⟩
    show _ = streamFrame type (streamRole (note _)) (note _).sessionId []
    rw [hrole, hnoted.same.sessionId]
  · exact .quiet (.refl st)

variable (env) in
theorem sendControl_conduct {type : StreamType}
    (hprotocol : st.transportProtocol = UInt8.ofNat protoTcp) (hhello : type ≠ .hello)
    (hack : type ≠ .helloAck) : Conduct greets st (streamSendControl env st type) := by
  have hnote : Conduct greets st ((streamSendControl env st type).andThen fun st => .done (id st)) :=
    sendControl_note env hprotocol .refl (fun h => absurd h hhello) fun h => absurd h hack
  have hplain : (streamSendControl env st type).andThen (fun st => .done (id st)) =
      streamSendControl env st type := by
    rcases streamSendControl env st type with ⟨st', sent, written, shut, ok⟩
    cases ok <;> simp [Outcome.andThen, Outcome.done]
  rwa [hplain] at hnote

variable (env) in
theorem kcpOutput_conduct {datagrams : List Bytes} (h : Conduct greets st o)
    (hprotocol : st.transportProtocol = UInt8.ofNat protoTcp) :
    Conduct greets st (datagrams.foldl (streamKcpOutput env) o) := by
  induction datagrams generalizing o with
  | nil => exact h
  | cons datagram datagrams ih =>
    rw [List.foldl_cons]
    refine ih ?_
    have hprotocol' := h.keeps.same.transportProtocol.trans hprotocol
    unfold streamKcpOutput
    split
    · exact h
    by_cases hfits : datagram.length ≤ streamKcpMtu
    · rw [hprotocol', streamPack_frame hfits]
      dsimp only
      split
      · refine ⟨h.keeps, ?_⟩
        intro data hdata
        rcases List.mem_append.mp hdata with hold | hnew
        · exact h.spoken data hold
        · obtain rfl := List.mem_singleton.mp hnew
          exact ⟨.kcp, datagram, rfl, hfits, fun hne => absurd rfl hne, nofun, nofun⟩
      · have hnoted : Keeps greets o.st { o.st with sendError := true } :=
          ⟨⟨rfl, rfl, rfl⟩, id, id, Or.inl, fun _ => rfl⟩
        exact ⟨h.keeps.trans hnoted, fun data hdata => (h.spoken data hdata).mono hnoted⟩
    · rw [streamPack, if_pos (Nat.not_le.mp hfits)]
      exact h

/-! ### The calls of a stream -/

variable (kcp env) in
theorem drain_conduct (hready : st.ready = true) : Conduct greets st (streamDrain kcp env st) := by
  unfold streamDrain
  generalize kcp.queued st.kcp + 1 = turns
  induction turns generalizing st with
  | zero => exact .quiet (.refl st)
  | succ turns ih =>
    have hchanged : ∀ state, Keeps greets st { st with kcp := state } :=
      fun state => .of_ready ⟨rfl, rfl, rfl⟩ hready hready rfl
    rw [streamDrainLoop]
    split
    · exact .quiet (.refl st)
    split
    · exact .quiet (.refl st)
    split
    · exact .quiet (hchanged _)
    · rename_i state data _
      have hwrite : Conduct greets st (streamWriteAll env { st with kcp := state } data) := by
        unfold streamWriteAll
        split
        · exact .quiet (hchanged state)
        · exact .quiet (hchanged state)
      have hst : (streamWriteAll env { st with kcp := state } data).st = { st with kcp := state } := by
        unfold streamWriteAll
        split <;> rfl
      refine hwrite.andThen ?_
      rw [hst]
      exact ih hready

variable (kcp env) in
theorem pump_conduct (read : TcpRead) : Conduct greets st (streamPumpTcp kcp env st read) := by
  unfold streamPumpTcp
  split
  · exact .quiet (.refl st)
  rename_i hcan
  have hready : st.ready = true := by
    simp only [streamCanSendData, Bool.not_eq_true', Bool.not_eq_false, Bool.and_eq_true] at hcan
    exact hcan.1.1
  cases read with
  | wouldBlock => exact .quiet (.refl st)
  | failed => exact .quiet (.refl st)
  | eof => exact .quiet ⟨⟨rfl, rfl, rfl⟩, id, id, Or.inl, fun _ => rfl⟩
  | data bytes =>
    dsimp only
    split
    · exact .quiet (.of_ready ⟨rfl, rfl, rfl⟩ hready hready rfl)
    · exact .quiet (.of_ready ⟨rfl, rfl, rfl⟩ hready hready rfl)

variable (kcp env) in
theorem tick_conduct (hprotocol : st.transportProtocol = UInt8.ofNat protoTcp) :
    Conduct greets st (streamTick kcp env st) := by
  have hhello : Conduct greets st (streamTickHello env st) := by
    unfold streamTickHello
    split
    · exact sendControl_note env hprotocol
        (fun st => ⟨⟨rfl, rfl, rfl⟩, id, fun _ => rfl, Or.inl, fun _ => rfl⟩) (fun _ _ => rfl) nofun
    · exact .quiet (.refl st)
  have hupdate : ∀ st : StreamState κ, st.transportProtocol = UInt8.ofNat protoTcp →
      Conduct greets st (streamTickUpdate kcp env st) := by
    intro st hprotocol
    unfold streamTickUpdate
    dsimp only
    split
    · rename_i hdue
      have hready : st.ready = true := (Bool.and_eq_true_iff.mp hdue).1
      exact kcpOutput_conduct env (.quiet (.of_ready ⟨rfl, rfl, rfl⟩ hready hready rfl)) hprotocol
    · exact .quiet (.refl st)
  have hclose : ∀ st : StreamState κ, st.transportProtocol = UInt8.ofNat protoTcp →
      Conduct greets st (streamTickClose kcp env st) := by
    intro st hprotocol
    unfold streamTickClose
    split
    · exact sendControl_note env hprotocol
        (fun st => ⟨⟨rfl, rfl, rfl⟩, id, id, Or.inl, fun _ => rfl⟩) nofun nofun
    · exact .quiet (.refl st)
  have hkeepalive : ∀ st : StreamState κ, st.transportProtocol = UInt8.ofNat protoTcp →
      Conduct greets st (streamTickKeepalive env st) := by
    intro st hprotocol
    unfold streamTickKeepalive
    split
    · exact sendControl_note env hprotocol
        (fun st => ⟨⟨rfl, rfl, rfl⟩, id, id, Or.inl, fun _ => rfl⟩) nofun nofun
    · exact .quiet (.refl st)
  unfold streamTick
  have hprotocol₁ := hhello.keeps.same.transportProtocol.trans hprotocol
  refine hhello.andThen ((hupdate _ hprotocol₁).andThen ?_)
  have hprotocol₂ := (hupdate _ hprotocol₁).keeps.same.transportProtocol.trans hprotocol₁
  split
  · exact .quiet (.refl _)
  · have hprotocol₃ := (hclose _ hprotocol₂).keeps.same.transportProtocol.trans hprotocol₂
    exact (hclose _ hprotocol₂).andThen (hkeepalive _ hprotocol₃)

theorem fail_conduct (env : StreamEnv) (hprotocol : st.transportProtocol = UInt8.ofNat protoTcp) :
    Keeps greets st (streamFail env st).1 ∧
      ∀ data ∈ (streamFail env st).2, Spoken (streamFail env st).1 data := by
  unfold streamFail
  split
  · exact ⟨.refl st, by simp⟩
  · have hnoted : Keeps greets st { st with resetSent := true } :=
      ⟨⟨rfl, rfl, rfl⟩, id, id, Or.inl, fun _ => rfl⟩
    have hsend : Conduct greets { st with resetSent := true } (streamSendControl env _ .reset) :=
      sendControl_conduct env hprotocol nofun nofun
    exact ⟨hnoted.trans hsend.keeps, hsend.spoken⟩

/-! ### Datagrams of the peer -/

/-- A datagram is an envelope of the peer of the stream. -/
def Addressed (st : StreamState κ) (data : Bytes) : Prop :=
  ∃ envelope, streamUnpack data = some envelope ∧ envelope.role = streamExpectedRole st ∧
    envelope.protocol = UInt8.ofNat protoTcp ∧ envelope.sessionId = st.sessionId

/-- A datagram of the peer that makes a stream ready: a greeting at a responder, its answer at an
initiator. -/
def Greets (st : StreamState κ) (data : Bytes) : Prop :=
  ∃ envelope, streamUnpack data = some envelope ∧ envelope.role = streamExpectedRole st ∧
    envelope.sessionId = st.sessionId ∧ envelope.type = if st.initiator then .helloAck else .hello

/-- Whatever is no envelope of the peer changes nothing, and nothing is sent on it. -/
theorem process_unaddressed {data : Bytes} (hprotocol : st.transportProtocol = UInt8.ofNat protoTcp)
    (h : ¬ Addressed st data) : streamProcessPacket kcp env st data = .done st := by
  unfold streamProcessPacket
  split
  · rfl
  · rename_i envelope hunpack
    by_cases hother : envelope.role ≠ streamExpectedRole st ∨
        envelope.protocol ≠ st.transportProtocol ∨ envelope.sessionId ≠ st.sessionId
    · rw [if_pos hother]
    · simp only [not_or, ne_eq, Decidable.not_not] at hother
      exact absurd ⟨envelope, hunpack, hother.1, hother.2.1.trans hprotocol, hother.2.2⟩ h

variable (kcp env) in
theorem process_conduct (hprotocol : st.transportProtocol = UInt8.ofNat protoTcp) (data : Bytes) :
    Conduct (Greets st data) st (streamProcessPacket kcp env st data) := by
  unfold streamProcessPacket
  split
  · exact .quiet (.refl st)
  rename_i envelope hunpack
  split
  · exact .quiet (.refl st)
  rename_i hours
  simp only [not_or, ne_eq, Decidable.not_not] at hours
  unfold streamDispatch
  by_cases hhello : envelope.type = .hello ∧ st.initiator = false
  · rw [if_pos hhello]
    have hgreets : Greets st data :=
      ⟨envelope, hunpack, hours.1, hours.2.2, by rw [hhello.1, hhello.2]; rfl⟩
    exact sendControl_note env hprotocol (fun st => ⟨⟨rfl, rfl, rfl⟩, fun _ => rfl, id,
      fun _ => Or.inr hgreets, nofun⟩) nofun fun _ _ => rfl
  rw [if_neg hhello]
  by_cases hack : envelope.type = .helloAck ∧ st.initiator = true
  · rw [if_pos hack]
    have hgreets : Greets st data :=
      ⟨envelope, hunpack, hours.1, hours.2.2, by rw [hack.1, hack.2]; rfl⟩
    exact .quiet ⟨⟨rfl, rfl, rfl⟩, fun _ => rfl, id, fun _ => Or.inr hgreets, nofun⟩
  rw [if_neg hack]
  by_cases hready : st.ready = true
  · rw [if_neg (by simp [hready])]
    cases envelope.type with
    | hello => exact .quiet (.refl st)
    | helloAck => exact .quiet (.refl st)
    | keepalive => exact .quiet (.refl st)
    | closeAck => exact .quiet ⟨⟨rfl, rfl, rfl⟩, id, id, Or.inl, fun _ => rfl⟩
    | reset => exact .quiet ⟨⟨rfl, rfl, rfl⟩, id, id, Or.inl, fun _ => rfl⟩
    | kcp =>
      dsimp only
      split
      · exact .quiet (.of_ready ⟨rfl, rfl, rfl⟩ hready hready rfl)
      · have hinput : ∀ kcp', Keeps (Greets st data) st
            { st with kcp := kcp', nextUpdateMs := env.now.toUInt32 } :=
          fun _ => .of_ready ⟨rfl, rfl, rfl⟩ hready hready rfl
        have hdrain : Conduct (Greets st data)
            { st with
              kcp := (kcp.input st.kcp envelope.payload).1
              nextUpdateMs := env.now.toUInt32 } (streamDrain kcp env _) := drain_conduct kcp env hready
        exact ⟨(hinput _).trans hdrain.keeps, hdrain.spoken⟩
    | close =>
      have hdrain : Conduct (Greets st data) st (streamDrain kcp env st) := drain_conduct kcp env hready
      refine hdrain.andThen ?_
      have hprotocol' := hdrain.keeps.same.transportProtocol.trans hprotocol
      have hnoted : Keeps (Greets st data) (streamDrain kcp env st).st
          { (streamDrain kcp env st).st with remoteClose := true } :=
        ⟨⟨rfl, rfl, rfl⟩, id, id, Or.inl, fun _ => rfl⟩
      have hsend : Conduct (Greets st data) { (streamDrain kcp env st).st with remoteClose := true }
          (streamSendControl env _ .closeAck) := sendControl_conduct env hprotocol' nofun nofun
      exact ⟨hnoted.trans hsend.keeps, hsend.spoken⟩
  · rw [if_pos (by simp [hready])]
    exact .quiet (.refl st)

/-- Until it is ready, a stream makes no use of the channel's input. -/
theorem process_unready (hready : st.ready = false) (input : κ → Bytes → κ × Int) (data : Bytes) :
    streamProcessPacket { kcp with input } env st data = streamProcessPacket kcp env st data := by
  unfold streamProcessPacket
  split
  · rfl
  split
  · rfl
  unfold streamDispatch
  simp only [hready, Bool.not_false, if_true]

end Conduct

/-! ### The two ends of a session -/

/-- A datagram is none of the session. -/
def isForeign (sessionId : SessionId) (data : Bytes) : Bool :=
  match streamUnpack data with
  | none => true
  | some envelope => envelope.sessionId != sessionId

/-- A datagram reaches an end. -/
def Party.hear {κ : Type} (kcp : Ops κ) (env : StreamEnv) (me : Party κ) (data : Bytes) : Party κ :=
  if me.active then me.absorb env (streamProcessPacket kcp env me.st data) else me

structure Handshake (κ : Type) where
  initiator : Party κ
  responder : Party κ

/-- What can happen to an end: an event of its own, among them any datagram of its peer, one of its own
datagrams comes back, or it gets a datagram of another session. -/
inductive HandshakeEvent where
  | act (role : StreamRole) (event : PartyEvent)
  | reflect (role : StreamRole) (env : StreamEnv) (index : Nat)
  | foreign (role : StreamRole) (env : StreamEnv) (data : Bytes)

namespace Handshake

variable {κ : Type} {kcp : Ops κ} {net : Handshake κ} {sessionId : SessionId}

def party (net : Handshake κ) : StreamRole → Party κ
  | .initiator => net.initiator
  | .responder => net.responder

def peer (net : Handshake κ) : StreamRole → Party κ
  | .initiator => net.responder
  | .responder => net.initiator

def set (net : Handshake κ) (role : StreamRole) (party : Party κ) : Handshake κ :=
  match role with
  | .initiator => { net with initiator := party }
  | .responder => { net with responder := party }

def step (kcp : Ops κ) (net : Handshake κ) : HandshakeEvent → Handshake κ
  | .act role event => net.set role ((net.party role).step kcp (net.peer role) event)
  | .reflect role env index =>
    match (net.party role).sent[index]? with
    | none => net
    | some data => net.set role ((net.party role).hear kcp env data)
  | .foreign role env data =>
    if isForeign (net.party role).st.sessionId data then
      net.set role ((net.party role).hear kcp env data)
    else net

/-- The ends as they are opened, each at its own time. -/
def start (kcp : Ops κ) (sessionId : SessionId) (now now' : UInt64) : Handshake κ :=
  ⟨.opened kcp true sessionId now, .opened kcp false sessionId now'⟩

def run (kcp : Ops κ) (sessionId : SessionId) (now now' : UInt64) (events : List HandshakeEvent) :
    Handshake κ :=
  events.foldl (step kcp) (start kcp sessionId now now')

end Handshake

/-! ### What an end does in one step -/

section Moves

variable {κ : Type} {kcp : Ops κ} {me me' : Party κ} {greets : Prop}

/-- An end that stays as it is, or moves and says more. -/
structure Moves (greets : Prop) (me me' : Party κ) : Prop where
  keeps : Keeps greets me.st me'.st
  said : ∀ data ∈ me.sent, data ∈ me'.sent
  spoken : ∀ data ∈ me'.sent, data ∈ me.sent ∨ Spoken me'.st data

theorem Moves.of_st (hst : me'.st = me.st) (hsent : me'.sent = me.sent) : Moves greets me me' where
  keeps := by rw [hst]; exact .refl me.st
  said := by simp [hsent]
  spoken := by intro data hdata; exact Or.inl (hsent ▸ hdata)

theorem close_moves (env : StreamEnv) (hprotocol : me.st.transportProtocol = UInt8.ofNat protoTcp) :
    Moves greets me (me.close env) := by
  have hfail : Keeps greets me.st (streamFail env me.st).1 ∧
      ∀ data ∈ (streamFail env me.st).2, Spoken (streamFail env me.st).1 data := fail_conduct env hprotocol
  exact ⟨hfail.1, fun _ hdata => List.mem_append_left _ hdata,
    fun data hdata => (List.mem_append.mp hdata).imp_right (hfail.2 data)⟩

theorem absorb_moves {o : Outcome κ} (env : StreamEnv) (h : Conduct greets me.st o)
    (hprotocol : me.st.transportProtocol = UInt8.ofNat protoTcp) :
    Moves greets me (me.absorb env o) := by
  have habsorbed : Moves greets me
      { me with st := o.st, written := me.written ++ o.written, sent := me.sent ++ o.sent } :=
    ⟨h.keeps, fun _ hdata => List.mem_append_left _ hdata,
      fun data hdata => (List.mem_append.mp hdata).imp_right (h.spoken data)⟩
  unfold Party.absorb
  dsimp only
  split
  · exact habsorbed
  · have hclosed : Moves greets
        { me with st := o.st, written := me.written ++ o.written, sent := me.sent ++ o.sent }
        ({ me with st := o.st, written := me.written ++ o.written, sent := me.sent ++ o.sent }.close env) :=
      close_moves env (h.keeps.same.transportProtocol.trans hprotocol)
    refine ⟨habsorbed.keeps.trans hclosed.keeps, fun data hdata => hclosed.said data
      (habsorbed.said data hdata), fun data hdata => ?_⟩
    rcases hclosed.spoken data hdata with hold | hnew
    · exact (habsorbed.spoken data hold).imp_right fun h => h.mono hclosed.keeps
    · exact Or.inr hnew

theorem hear_unaddressed (env : StreamEnv) {data : Bytes}
    (hprotocol : me.st.transportProtocol = UInt8.ofNat protoTcp) (h : ¬ Addressed me.st data) :
    me.hear kcp env data = me := by
  unfold Party.hear
  rw [process_unaddressed hprotocol h]
  simp [Party.absorb, Outcome.done]

theorem Moves.weaken {greets' : Prop} (h : Moves greets me me') (himp : greets → greets') :
    Moves greets' me me' :=
  ⟨⟨h.keeps.same, h.keeps.ready, h.keeps.helloSent, fun hready => (h.keeps.turned hready).imp_right himp,
    h.keeps.idle⟩, h.said, h.spoken⟩

theorem step_moves {peer : Party κ} (hprotocol : me.st.transportProtocol = UInt8.ofNat protoTcp)
    (event : PartyEvent) :
    Moves (∃ data ∈ peer.sent, Greets me.st data) me (me.step kcp peer event) := by
  unfold Party.step
  split
  · exact .of_st rfl rfl
  rename_i hactive
  cases event with
  | pump env read =>
    have hread : Moves (∃ data ∈ peer.sent, Greets me.st data)
        { me with readBytes := me.readBytes ++ streamPumped kcp me.st read } _ :=
      absorb_moves env (pump_conduct kcp env read) hprotocol
    exact ⟨hread.keeps, hread.said, hread.spoken⟩
  | tick env => exact absorb_moves env (tick_conduct kcp env hprotocol) hprotocol
  | packet env index =>
    dsimp only
    split
    · exact .of_st rfl rfl
    · rename_i data hdata
      have hheard := absorb_moves env (process_conduct kcp env hprotocol data) hprotocol
      exact hheard.weaken fun hgreets => ⟨data, List.mem_of_getElem? hdata, hgreets⟩
  | stop env =>
    dsimp only
    split
    · exact .of_st rfl rfl
    · exact close_moves env hprotocol
  | drop => exact .of_st rfl rfl

end Moves

/-! ### Agreement -/

section Agreement

variable {κ : Type} {kcp : Ops κ} {st : StreamState κ} {data : Bytes}

theorem Spoken.unpack (h : Spoken st data) {envelope : Envelope} (hunpack : streamUnpack data = some envelope) :
    envelope.role = streamRole st ∧
      (envelope.type = .hello → st.helloSent = true ∧ data = streamFrame .hello (streamRole st) st.sessionId []) ∧
      (envelope.type = .helloAck → st.ready = true) := by
  obtain ⟨type, payload, rfl, hlength, hempty, hhello, hack⟩ := h
  rw [streamUnpack_frame hlength hempty] at hunpack
  obtain rfl := Option.some.inj hunpack
  refine ⟨rfl, fun htype => ⟨hhello htype, ?_⟩, hack⟩
  obtain rfl : type = .hello := htype
  rw [hempty nofun]

theorem expectedRole_ne (st : StreamState κ) : streamRole st ≠ streamExpectedRole st := by
  unfold streamRole streamExpectedRole
  cases st.initiator <;> simp

/-- No end takes its own datagrams for those of its peer. -/
theorem Spoken.unaddressed (h : Spoken st data) : ¬ Addressed st data := by
  rintro ⟨envelope, hunpack, hrole, -⟩
  exact expectedRole_ne st ((h.unpack hunpack).1.symm.trans hrole)

theorem foreign_unaddressed (h : isForeign st.sessionId data = true) : ¬ Addressed st data := by
  rintro ⟨envelope, hunpack, -, -, hsession⟩
  unfold isForeign at h
  rw [hunpack] at h
  simp [hsession] at h

/-- The invariant of the handshake. -/
structure Agreed (kcp : Ops κ) (sessionId : SessionId) (net : Handshake κ) : Prop where
  initiator : net.initiator.st.initiator = true ∧ net.responder.st.initiator = false
  session : ∀ role, (net.party role).st.sessionId = sessionId
  protocol : ∀ role, (net.party role).st.transportProtocol = UInt8.ofNat protoTcp
  spoken : ∀ role, ∀ data ∈ (net.party role).sent, Spoken (net.party role).st data
  idle : ∀ role, (net.party role).st.ready = false →
    (net.party role).st.kcp = kcp.create (streamConv sessionId)
  answered : net.initiator.st.ready = true → net.responder.st.ready = true
  greeted : net.responder.st.ready = true → net.initiator.st.helloSent = true ∧
    streamFrame .hello .initiator sessionId [] ∈ net.initiator.sent

namespace Agreed

variable {sessionId : SessionId} {net : Handshake κ}

theorem start (sessionId : SessionId) (now now' : UInt64) :
    Agreed kcp sessionId (Handshake.start kcp sessionId now now') where
  initiator := ⟨rfl, rfl⟩
  session := by intro role; cases role <;> rfl
  protocol := by intro role; cases role <;> rfl
  spoken := by intro role; cases role <;> simp [Handshake.party, Handshake.start, Party.opened]
  idle := by intro role _; cases role <;> rfl
  answered := nofun
  greeted := nofun

theorem forall_party_set {P : Party κ → Prop} (h : ∀ role, P (net.party role)) (role : StreamRole)
    {me' : Party κ} (hme : P me') : ∀ role', P ((net.set role me').party role') := by
  intro role'
  cases role <;> cases role'
  · exact hme
  · exact h .responder
  · exact h .initiator
  · exact hme

/-- What one end does keeps the invariant when it greets on a datagram of its peer only. -/
theorem moved (h : Agreed kcp sessionId net) (role : StreamRole) {me' : Party κ}
    (hmoves : Moves (∃ data ∈ (net.peer role).sent, Greets (net.party role).st data)
      (net.party role) me') : Agreed kcp sessionId (net.set role me') := by
  have hspoken : ∀ data ∈ me'.sent, Spoken me'.st data := by
    intro data hdata
    rcases hmoves.spoken data hdata with hold | hnew
    · exact (h.spoken role data hold).mono hmoves.keeps
    · exact hnew
  have hsession := hmoves.keeps.same.sessionId.trans (h.session role)
  have hprotocol := hmoves.keeps.same.transportProtocol.trans (h.protocol role)
  have hidle : me'.st.ready = false → me'.st.kcp = kcp.create (streamConv sessionId) := by
    intro hunready
    have hbefore : (net.party role).st.ready = false := by
      by_contra hready
      have hready' := hmoves.keeps.ready (Bool.eq_true_of_not_eq_false hready)
      simp [hunready] at hready'
    exact (hmoves.keeps.idle hunready).trans (h.idle role hbefore)
  have hsession' := forall_party_set (P := fun party => party.st.sessionId = sessionId)
    h.session role hsession
  have hprotocol' := forall_party_set
    (P := fun party => party.st.transportProtocol = UInt8.ofNat protoTcp) h.protocol role hprotocol
  have hspoken' := forall_party_set (P := fun party => ∀ data ∈ party.sent, Spoken party.st data)
    h.spoken role hspoken
  have hidle' := forall_party_set
    (P := fun party => party.st.ready = false → party.st.kcp = kcp.create (streamConv sessionId))
    h.idle role hidle
  have hinitiator := hmoves.keeps.same.initiator
  cases role with
  | initiator =>
    refine ⟨⟨hinitiator.trans h.initiator.1, h.initiator.2⟩, hsession', hprotocol', hspoken', hidle',
      ?_, ?_⟩
    · intro hready
      rcases hmoves.keeps.turned hready with hold | ⟨data, hdata, envelope, hunpack, -, -, htype⟩
      · exact h.answered hold
      · -- The answer is one of the responder, which is ready once it has sent it.
        rw [show (net.party .initiator).st.initiator = true from h.initiator.1] at htype
        exact ((h.spoken .responder data hdata).unpack hunpack).2.2 htype
    · intro hready
      have hgreeted := h.greeted hready
      exact ⟨hmoves.keeps.helloSent hgreeted.1, hmoves.said _ hgreeted.2⟩
  | responder =>
    refine ⟨⟨h.initiator.1, hinitiator.trans h.initiator.2⟩, hsession', hprotocol', hspoken', hidle',
      ?_, ?_⟩
    · intro hready
      exact hmoves.keeps.ready (h.answered hready)
    · intro hready
      rcases hmoves.keeps.turned hready with hold | ⟨data, hdata, envelope, hunpack, -, -, htype⟩
      · exact h.greeted hold
      · -- The greeting is one of the initiator.
        rw [show (net.party .responder).st.initiator = false from h.initiator.2] at htype
        obtain ⟨hsent, rfl⟩ := ((h.spoken .initiator data hdata).unpack hunpack).2.1 htype
        have hrole : streamRole (net.party .initiator).st = .initiator := by
          rw [streamRole, show (net.party .initiator).st.initiator = true from h.initiator.1]
          rfl
        rw [hrole, h.session .initiator] at hdata
        exact ⟨hsent, hdata⟩

theorem set_party (net : Handshake κ) (role : StreamRole) : net.set role (net.party role) = net := by
  cases role <;> rfl

theorem step (h : Agreed kcp sessionId net) (event : HandshakeEvent) :
    Agreed kcp sessionId (net.step kcp event) := by
  cases event with
  | act role event => exact h.moved role (step_moves (h.protocol role) event)
  | reflect role env index =>
    unfold Handshake.step
    dsimp only
    split
    · exact h
    · rename_i data hdata
      have hown := h.spoken role data (List.mem_of_getElem? hdata)
      rwa [hear_unaddressed env (h.protocol role) hown.unaddressed, set_party]
  | foreign role env data =>
    unfold Handshake.step
    dsimp only
    split
    · rename_i hforeign
      rwa [hear_unaddressed env (h.protocol role) (foreign_unaddressed hforeign), set_party]
    · exact h

theorem run (sessionId : SessionId) (now now' : UInt64) (events : List HandshakeEvent) :
    Agreed kcp sessionId (Handshake.run kcp sessionId now now' events) := by
  unfold Handshake.run
  generalize hstart : Handshake.start kcp sessionId now now' = net
  have h : Agreed kcp sessionId net := hstart ▸ start sessionId now now'
  clear hstart
  induction events generalizing net with
  | nil => exact h
  | cons event events ih => exact ih _ (h.step event)

end Agreed

/-- In every state that two ends of a session reach, an initiator that is ready has a responder that is
ready, and a responder that is ready was greeted by the initiator. Until an end is ready its channel is
as it was created, and no datagram is put into it. A datagram that is no envelope of the peer, such as
any of the end's own, changes nothing, and nothing is sent on it. -/
theorem handshake_agreement (kcp : Ops κ) (sessionId : SessionId) (now now' : UInt64)
    (events : List HandshakeEvent) :
    let net := Handshake.run kcp sessionId now now' events
    (net.initiator.st.ready = true → net.responder.st.ready = true) ∧
      (net.responder.st.ready = true → net.initiator.st.helloSent = true ∧
        streamFrame .hello .initiator sessionId [] ∈ net.initiator.sent) ∧
      (∀ role, (net.party role).st.ready = false →
        (net.party role).st.kcp = kcp.create (streamConv sessionId) ∧
        ∀ input env data, streamProcessPacket { kcp with input } env (net.party role).st data =
          streamProcessPacket kcp env (net.party role).st data) ∧
      (∀ role env data, ¬ Addressed (net.party role).st data →
        streamProcessPacket kcp env (net.party role).st data = .done (net.party role).st ∧
        (net.party role).hear kcp env data = net.party role) ∧
      ∀ role, ∀ data ∈ (net.party role).sent, ¬ Addressed (net.party role).st data := by
  intro net
  have h : Agreed kcp sessionId net := Agreed.run sessionId now now' events
  refine ⟨h.answered, h.greeted, ?_, ?_, ?_⟩
  · intro role hready
    exact ⟨h.idle role hready, fun input _ data => process_unready hready input data⟩
  · intro role env data hother
    exact ⟨process_unaddressed (h.protocol role) hother, hear_unaddressed env (h.protocol role) hother⟩
  · intro role data hdata
    exact (h.spoken role data hdata).unaddressed

end Agreement

end Redp2p
