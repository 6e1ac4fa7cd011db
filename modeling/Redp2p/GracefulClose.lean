import Redp2p.Tunnel
import Redp2p.Lib.RepeatChannel

/-! The two ends of one stream session over a network that may lose, duplicate and reorder datagrams
but not forge them: what each end wrote follows what the other read, both agree with the histories
of the byte channel underneath, and a graceful close loses no byte. -/

namespace Redp2p

open ByteString ByteChannel

/-! ### What holds between the two ends -/

section Ends

variable {κ : Type} {kcp : Ops κ} {me peer : Party κ} {m p m' : End κ} {o : Outcome κ}

/-- What one end knows, beside its own channel end `m`, its peer and the peer's channel end `p`. -/
structure Sound (me peer : Party κ) (m p : End κ) : Prop where
  state : me.active = true → m.state = me.st.kcp
  frames : ∀ d ∈ me.sent, Genuine me.st m d
  given : m.given <+: me.readBytes
  read : me.active = true ∨ me.st.localEof = true → me.readBytes = m.given
  handed : me.written <+: m.handed
  written : me.active = true → me.written = m.handed
  closed : me.st.remoteClose = true → me.written = p.given ∧ peer.st.localEof = true
  acked : me.st.closeAcked = true → peer.st.remoteClose = true

/-- Two ends of one session: their channel ends are reachable, they are the two roles of one
identifier, and each is sound. -/
structure Linked (kcp : Ops κ) (me peer : Party κ) (m p : End κ) : Prop where
  reachable : Reachable kcp (streamConv me.st.sessionId) m p
  sessionId : peer.st.sessionId = me.st.sessionId
  initiator : peer.st.initiator = !me.st.initiator
  protocol : me.st.transportProtocol = UInt8.ofNat protoTcp
  peerProtocol : peer.st.transportProtocol = UInt8.ofNat protoTcp
  here : Sound me peer m p
  there : Sound peer me p m

theorem Linked.symm (h : Linked kcp me peer m p) : Linked kcp peer me p m where
  reachable := by
    rw [h.sessionId]
    exact h.reachable.symm
  sessionId := h.sessionId.symm
  initiator := by rw [h.initiator, Bool.not_not]
  protocol := h.peerProtocol
  peerProtocol := h.protocol
  here := h.there
  there := h.here

theorem opened_linked (kcp : Ops κ) (sessionId : SessionId) (t₁ t₂ : UInt64) :
    Linked kcp (Party.opened kcp true sessionId t₁) (Party.opened kcp false sessionId t₂)
      (End.start kcp (streamConv sessionId)) (End.start kcp (streamConv sessionId)) := by
  have hsound : ∀ (initiator initiator' : Bool) (t t' : UInt64),
      Sound (Party.opened kcp initiator sessionId t) (Party.opened kcp initiator' sessionId t')
        (End.start kcp (streamConv sessionId)) (End.start kcp (streamConv sessionId)) :=
    fun _ _ _ _ => ⟨fun _ => rfl, nofun, List.prefix_rfl, fun _ => rfl, List.prefix_rfl,
      fun _ => rfl, nofun, nofun⟩
  exact ⟨.start, rfl, rfl, rfl, rfl, hsound .., hsound ..⟩

/-- An end that is no longer active, in a state that differs in nothing that matters to its peer, after
some more datagrams. -/
theorem Linked.leave {st : StreamState κ} {frames : List Bytes} (h : Linked kcp me peer m p)
    (halike : Alike me.st st) (hframes : ∀ d ∈ frames, Genuine st m d) :
    Linked kcp { me with st, active := false, sent := me.sent ++ frames } peer m p where
  reachable := by
    rw [halike.same.sessionId]
    exact h.reachable
  sessionId := h.sessionId.trans halike.same.sessionId.symm
  initiator := by
    rw [halike.same.initiator]
    exact h.initiator
  protocol := halike.same.transportProtocol.trans h.protocol
  peerProtocol := h.peerProtocol
  here :=
    { state := nofun
      frames := by
        intro d hd
        rcases List.mem_append.mp hd with hd | hd
        · exact (h.here.frames d hd).mono halike.same (fun _ hmem => hmem)
            (fun hended hcleared => ⟨halike.localEof.trans hended, hcleared⟩)
            fun hclose => halike.remoteClose.trans hclose
        · exact hframes d hd
      given := h.here.given
      read := by
        rintro (hact | hended)
        · exact nomatch hact
        · exact h.here.read (Or.inr (halike.localEof.symm.trans hended))
      handed := h.here.handed
      written := nofun
      closed := fun hclose => h.here.closed (halike.remoteClose.symm.trans hclose)
      acked := fun hacked => h.here.acked (halike.closeAcked.symm.trans hacked) }
  there :=
    { h.there with
      closed := fun hclose =>
        ⟨(h.there.closed hclose).1, halike.localEof.trans (h.there.closed hclose).2⟩
      acked := fun hacked => halike.remoteClose.trans (h.there.acked hacked) }

/-- A session that closes tells its peer at most that it failed. -/
theorem Linked.close (h : Linked kcp me peer m p) (env : StreamEnv) :
    Linked kcp (me.close env) peer m p := by
  have hreset : ∀ d ∈ (streamFail env me.st).2, Genuine (streamFail env me.st).1 m d := by
    unfold streamFail
    split
    · nofun
    · have hpack : streamPack .reset (streamRole me.st) me.st.transportProtocol me.st.sessionId [] =
          some (streamFrame .reset (streamRole me.st) me.st.sessionId []) := by
        rw [h.protocol]
        exact streamPack_frame (Nat.zero_le _)
      have hrole : streamRole { me.st with resetSent := true } = streamRole me.st := rfl
      simp only [streamSendControl, hrole, hpack]
      split
      · intro d hd
        obtain rfl := List.mem_singleton.mp hd
        exact ⟨.reset, [], rfl, Nat.zero_le _, fun _ => rfl, nofun, nofun, nofun⟩
      · nofun
  have halike : Alike me.st (streamFail env me.st).1 := by
    unfold streamFail
    split
    · exact .refl _
    · simp only [streamSendControl]
      split
      · exact ⟨⟨rfl, rfl, rfl⟩, rfl, rfl, rfl⟩
      · split <;> exact ⟨⟨rfl, rfl, rfl⟩, rfl, rfl, rfl⟩
  exact h.leave halike hreset

/-- A call keeps the ends linked, when a close that it processed had been sent by a peer whose bytes
have all arrived, and an acknowledgement by a peer that has closed. -/
theorem Linked.call {closes acks : Prop} (h : Linked kcp me peer m p) (hkcp : Reliable kcp)
    (hactive : me.active = true) (hcall : Call kcp closes acks p m me.st o m')
    (hcloses : closes → peer.st.localEof = true ∧ p.cleared = p.given)
    (hacks : acks → peer.st.remoteClose = true) :
    Linked kcp { me with
      st := o.st, active := o.ok, written := me.written ++ o.written, sent := me.sent ++ o.sent }
      peer m' p := by
  have hreach := Quiets.reachable hcall.moves h.reachable
  have hwritten := h.here.written hactive
  obtain ⟨data, hdata, hle, hok⟩ := hcall.handed
  have horder : m'.handed <+: p.given := hkcp.inOrder hreach.symm
  refine ⟨?_, h.sessionId.trans hcall.same.sessionId.symm, ?_,
    hcall.same.transportProtocol.trans h.protocol, h.peerProtocol, ?_, ?_⟩
  · rw [hcall.same.sessionId]
    exact hreach
  · rw [hcall.same.initiator]
    exact h.initiator
  · refine ⟨hcall.state, ?_, ?_, ?_, ?_, ?_, ?_, ?_⟩
    · intro d hd
      rcases List.mem_append.mp hd with hd | hd
      · exact (h.here.frames d hd).mono hcall.same (Quiets.emitted hcall.moves)
          (fun heof hcleared => ⟨hcall.localEof.trans heof, Quiets.cleared hcall.moves hcleared⟩)
          hcall.keepsClose
      · exact hcall.frames d hd
    · rw [Quiets.given hcall.moves]
      exact h.here.given
    · intro _
      rw [Quiets.given hcall.moves]
      exact h.here.read (Or.inl hactive)
    · rw [hdata, hwritten]
      exact (List.prefix_append_right_inj _).mpr hle
    · intro hact
      rw [hdata, hwritten, hok hact]
    · intro hclose
      rcases hcall.remoteClose hclose with hold | ⟨hclosed, hpeek, hdrained⟩
      · -- Everything had been written, so nothing more can be handed out.
        obtain ⟨hall, heof⟩ := h.here.closed hold
        refine ⟨?_, heof⟩
        have hnil : data = [] := by
          rw [hdata, ← hwritten, hall] at horder
          have := horder.length_le
          rw [List.length_append] at this
          exact List.length_eq_zero_iff.mp (by omega)
        rw [hnil] at hle
        rw [List.prefix_nil.mp hle, List.append_nil, hall]
      · obtain ⟨heof, hcleared⟩ := hcloses hclosed
        refine ⟨?_, heof⟩
        have harrived := hkcp.arrives hreach.symm hpeek
        rw [hcleared] at harrived
        rw [hwritten, ← hdrained]
        exact horder.eq_of_length_le harrived.length_le
    · intro hacked
      rcases hcall.closeAcked hacked with hold | hack
      · exact h.here.acked hold
      · exact hacks hack
  · exact { h.there with
      closed := fun hold => by
        rw [Quiets.given hcall.moves]
        exact ⟨(h.there.closed hold).1, hcall.localEof.trans (h.there.closed hold).2⟩
      acked := fun hold => hcall.keepsClose (h.there.acked hold) }

theorem Linked.absorb {closes acks : Prop} (h : Linked kcp me peer m p) (hkcp : Reliable kcp)
    (env : StreamEnv) (hactive : me.active = true) (hcall : Call kcp closes acks p m me.st o m')
    (hcloses : closes → peer.st.localEof = true ∧ p.cleared = p.given)
    (hacks : acks → peer.st.remoteClose = true) :
    Linked kcp (me.absorb env o) peer m' p := by
  have hlinked := h.call hkcp hactive hcall hcloses hacks
  unfold Party.absorb
  dsimp only
  split
  · rename_i hok
    rw [hok] at hlinked
    rw [hactive]
    exact hlinked
  · exact hlinked.close env

/-- A datagram of the peer. -/
theorem Linked.packet (h : Linked kcp me peer m p) (hkcp : Reliable kcp) (env : StreamEnv)
    (hactive : me.active = true) {datagram : Bytes} (hsent : datagram ∈ peer.sent) :
    ∃ m', Linked kcp (me.absorb env (streamProcessPacket kcp env me.st datagram)) peer m' p := by
  obtain ⟨type, payload, hframe, hlength, hempty, hemitted, hcleared, hacked⟩ :=
    h.there.frames datagram hsent
  have hrole : streamRole peer.st = streamExpectedRole me.st := by
    simp only [streamRole, streamExpectedRole, h.initiator]
    cases me.st.initiator <;> rfl
  have hprocess : streamProcessPacket kcp env me.st datagram =
      streamDispatch kcp env me.st type payload := by
    rw [streamProcessPacket, hframe, streamUnpack_frame hlength hempty]
    simp [hrole, h.protocol, h.sessionId]
  obtain ⟨m', hcall⟩ := dispatch_call env hkcp (h.here.state hactive) h.protocol hemitted
  rw [hprocess]
  exact ⟨m', h.absorb hkcp env hactive hcall hcleared hacked⟩

/-- An end that knows its peer to have closed has written all that the peer read. -/
theorem Linked.complete (h : Linked kcp me peer m p) (hclose : me.st.remoteClose = true) :
    me.written = peer.readBytes ∧ peer.st.localEof = true := by
  obtain ⟨hwritten, heof⟩ := h.here.closed hclose
  exact ⟨hwritten.trans (h.there.read (Or.inr heof)).symm, heof⟩

/-- A chunk that the channel took is given to it. -/
theorem Linked.take {data : Bytes} (h : Linked kcp me peer m p) (next : UInt32)
    (hactive : me.active = true) (heof : me.st.localEof = false)
    (hsend : (kcp.send me.st.kcp data).2 = data.length) :
    Linked kcp { me with
      st := { me.st with kcp := (kcp.send me.st.kcp data).1, nextUpdateMs := next }
      readBytes := me.readBytes ++ data }
      peer ({ m with given := m.given ++ data }.settle kcp (kcp.send me.st.kcp data).1) p := by
  have hmove : Move kcp p m _ := .send data (by rw [h.here.state hactive, hsend])
  rw [h.here.state hactive] at hmove
  have hread : me.readBytes ++ data = m.given ++ data := by rw [h.here.read (Or.inl hactive)]
  have hopen : ¬ me.st.localEof = true := by simp [heof]
  refine ⟨.left h.reachable hmove, h.sessionId, h.initiator, h.protocol, h.peerProtocol, ?_, ?_⟩
  · exact {
      state := fun _ => rfl
      frames := fun d hd => (h.here.frames d hd).mono ⟨rfl, rfl, rfl⟩ (fun _ hmem => hmem)
        (fun hended => (hopen hended).elim) id
      given := by
        rw [hread]
        exact List.prefix_rfl
      read := fun _ => hread
      handed := h.here.handed
      written := h.here.written
      closed := h.here.closed
      acked := h.here.acked }
  · -- The peer cannot have seen a close, for this side has not ended.
    exact { h.there with closed := fun hclose => (hopen (h.there.closed hclose).2).elim }

/-- The end of the local stream is noted. -/
theorem Linked.ended (h : Linked kcp me peer m p) (hactive : me.active = true) :
    Linked kcp { me with st := { me.st with localEof := true } } peer m p where
  reachable := h.reachable
  sessionId := h.sessionId
  initiator := h.initiator
  protocol := h.protocol
  peerProtocol := h.peerProtocol
  here :=
    { h.here with
      frames := fun d hd => (h.here.frames d hd).mono ⟨rfl, rfl, rfl⟩ (fun _ hmem => hmem)
        (fun _ hcleared => ⟨rfl, hcleared⟩) id
      read := fun _ => h.here.read (Or.inl hactive) }
  there := { h.there with closed := fun hclose => ⟨(h.there.closed hclose).1, rfl⟩ }

/-- A chunk that the channel did not take ends the session, with the chunk read but not given. -/
theorem Linked.refuse (h : Linked kcp me peer m p) (state : κ) (data : Bytes)
    (heof : me.st.localEof = false) :
    Linked kcp { me with
      st := { me.st with kcp := state }, active := false, readBytes := me.readBytes ++ data }
      peer m p where
  reachable := h.reachable
  sessionId := h.sessionId
  initiator := h.initiator
  protocol := h.protocol
  peerProtocol := h.peerProtocol
  here :=
    { h.here with
      state := nofun
      frames := fun d hd => (h.here.frames d hd).mono ⟨rfl, rfl, rfl⟩ (fun _ hmem => hmem)
        (fun hended hcleared => ⟨hended, hcleared⟩) id
      given := h.here.given.trans (List.prefix_append _ _)
      read := by
        rintro (hact | hended)
        · exact nomatch hact
        · exact absurd (heof.symm.trans hended) (by decide)
      written := nofun }
  there := { h.there with }

/-- The local socket is readable. -/
theorem Linked.pump (h : Linked kcp me peer m p) (hkcp : Reliable kcp) (env : StreamEnv)
    (hactive : me.active = true) (read : TcpRead) :
    ∃ m', Linked kcp ({ me with readBytes := me.readBytes ++ streamPumped kcp me.st read }.absorb env
      (streamPumpTcp kcp env me.st read)) peer m' p := by
  have hnothing : { me with readBytes := me.readBytes ++ [] } = me := by simp
  have hsilent : ∀ ok, Linked kcp (me.absorb env ⟨me.st, [], [], false, ok⟩) peer m p := by
    intro ok
    have hcall : Call kcp False False p m me.st ⟨me.st, [], [], false, ok⟩ m :=
      .silent (.refl me.st) fun _ => h.here.state hactive
    exact h.absorb hkcp env hactive hcall nofun nofun
  cases hcan : streamCanSendData kcp me.st with
  | false =>
    have hpumped : streamPumped kcp me.st read = [] := by cases read <;> simp [streamPumped, hcan]
    unfold streamPumpTcp
    rw [hpumped, hnothing, if_pos (by simp [hcan])]
    exact ⟨m, hsilent true⟩
  | true =>
    have heof : me.st.localEof = false := by
      simp only [streamCanSendData, Bool.and_eq_true, Bool.not_eq_true'] at hcan
      exact hcan.1.2
    unfold streamPumpTcp
    rw [if_neg (by simp [hcan])]
    cases read with
    | wouldBlock =>
      rw [show streamPumped kcp me.st .wouldBlock = [] from rfl, hnothing]
      exact ⟨m, hsilent true⟩
    | failed =>
      rw [show streamPumped kcp me.st .failed = [] from rfl, hnothing]
      exact ⟨m, hsilent false⟩
    | eof =>
      rw [show streamPumped kcp me.st .eof = [] from rfl, hnothing]
      refine ⟨m, ?_⟩
      simpa [Party.absorb, Outcome.done] using h.ended hactive
    | data bytes =>
      rw [streamPumped, if_pos hcan]
      dsimp only
      by_cases hall : (kcp.send me.st.kcp bytes).2 = bytes.length
      · rw [if_neg (not_not_intro hall)]
        have htaken := h.take env.now.toUInt32 hactive heof hall
        exact ⟨_, by simpa [Party.absorb, Outcome.done] using htaken⟩
      · rw [if_pos hall]
        refine ⟨m, ?_⟩
        simpa [Party.absorb, Outcome.failed, Party.close] using
          (h.refuse (kcp.send me.st.kcp bytes).1 bytes heof).close env

/-- A session that is dropped without notice. -/
theorem Linked.drop (h : Linked kcp me peer m p) :
    Linked kcp { me with active := false } peer m p := by
  have hleave : Linked kcp { me with st := me.st, active := false, sent := me.sent ++ [] } peer m p :=
    h.leave (.refl me.st) nofun
  simpa using hleave

theorem Linked.step (h : Linked kcp me peer m p) (hkcp : Reliable kcp) (event : PartyEvent) :
    ∃ m', Linked kcp (me.step kcp peer event) peer m' p := by
  cases hactive : me.active with
  | false =>
    unfold Party.step
    rw [if_pos (by simp [hactive])]
    exact ⟨m, h⟩
  | true =>
    unfold Party.step
    rw [if_neg (by simp [hactive])]
    cases event with
    | pump env read => exact h.pump hkcp env hactive read
    | tick env =>
      obtain ⟨m', hcall⟩ := tick_call env h.reachable (h.here.state hactive) h.protocol
      exact ⟨m', h.absorb hkcp env hactive hcall nofun nofun⟩
    | packet env index =>
      dsimp only
      split
      · exact ⟨m, h⟩
      · rename_i datagram hsent
        exact h.packet hkcp env hactive (List.mem_of_getElem? hsent)
    | stop env =>
      dsimp only
      split
      · exact ⟨m, h.drop⟩
      · exact ⟨m, h.close env⟩
    | drop => exact ⟨m, h.drop⟩

end Ends

/-! ### Runs of a session -/

section Runs

variable {κ : Type} {kcp : Ops κ}

structure TunnelEnds (κ : Type) where
  initiator : Party κ
  responder : Party κ

namespace TunnelEnds

def opened (kcp : Ops κ) (sessionId : SessionId) (start : UInt64 × UInt64) : TunnelEnds κ :=
  ⟨.opened kcp true sessionId start.1, .opened kcp false sessionId start.2⟩

/-- The end that plays a role, and the end that faces it. -/
def here (s : TunnelEnds κ) : StreamRole → Party κ
  | .initiator => s.initiator
  | .responder => s.responder

def there (s : TunnelEnds κ) : StreamRole → Party κ
  | .initiator => s.responder
  | .responder => s.initiator

/-- An event at one of the ends. -/
def step (kcp : Ops κ) (s : TunnelEnds κ) : StreamRole × PartyEvent → TunnelEnds κ
  | (.initiator, event) => { s with initiator := s.initiator.step kcp s.responder event }
  | (.responder, event) => { s with responder := s.responder.step kcp s.initiator event }

def run (kcp : Ops κ) : TunnelEnds κ → List (StreamRole × PartyEvent) → TunnelEnds κ :=
  List.foldl (step kcp)

end TunnelEnds

/-- The invariant of a session. -/
def TunnelInv (kcp : Ops κ) (s : TunnelEnds κ) : Prop :=
  ∃ m p, Linked kcp s.initiator s.responder m p

theorem TunnelInv.step {s : TunnelEnds κ} (h : TunnelInv kcp s) (hkcp : Reliable kcp)
    (event : StreamRole × PartyEvent) : TunnelInv kcp (s.step kcp event) := by
  obtain ⟨m, p, h⟩ := h
  obtain ⟨role, event⟩ := event
  cases role with
  | initiator =>
    obtain ⟨m', h'⟩ := h.step hkcp event
    exact ⟨m', p, h'⟩
  | responder =>
    obtain ⟨p', h'⟩ := h.symm.step hkcp event
    exact ⟨m, p', h'.symm⟩

theorem TunnelInv.run {s : TunnelEnds κ} (h : TunnelInv kcp s) (hkcp : Reliable kcp)
    (events : List (StreamRole × PartyEvent)) : TunnelInv kcp (s.run kcp events) := by
  induction events generalizing s with
  | nil => exact h
  | cons event events ih => exact ih (h.step hkcp event)

theorem opened_inv (kcp : Ops κ) (sessionId : SessionId) (start : UInt64 × UInt64) :
    TunnelInv kcp (.opened kcp sessionId start) :=
  ⟨_, _, opened_linked kcp sessionId start.1 start.2⟩

/-- In every reachable state of a session: an end that knows its peer to have closed has written every
byte that the peer read, and the peer had reached the end of its stream; and when an end is done,
both directions are complete. -/
theorem graceful_close (hkcp : Reliable kcp) (sessionId : SessionId) (start : UInt64 × UInt64)
    (events : List (StreamRole × PartyEvent)) (role : StreamRole) :
    let s := (TunnelEnds.opened kcp sessionId start).run kcp events
    ((s.here role).st.remoteClose = true →
      (s.here role).written = (s.there role).readBytes ∧ (s.there role).st.localEof = true) ∧
    (streamIsDone kcp (s.here role).st = true →
      (s.here role).written = (s.there role).readBytes ∧
        (s.there role).written = (s.here role).readBytes) := by
  intro s
  obtain ⟨m, p, hlinked⟩ : ∃ m p, Linked kcp (s.here role) (s.there role) m p := by
    obtain ⟨m, p, h⟩ := (opened_inv kcp sessionId start).run hkcp events
    cases role with
    | initiator => exact ⟨m, p, h⟩
    | responder => exact ⟨p, m, h.symm⟩
  have hclosed := hlinked.complete
  refine ⟨hclosed, fun hdone => ?_⟩
  simp only [streamIsDone, Bool.and_eq_true] at hdone
  exact ⟨(hclosed hdone.1.2).1, (hlinked.symm.complete (hlinked.here.acked hdone.1.1.2)).1⟩

end Runs

def sampleTunnel : List (StreamRole × PartyEvent) :=
  let env (now : UInt64) : StreamEnv := ⟨now, fun _ => true, List.length⟩
  [(.initiator, .tick (env 1000)), (.responder, .packet (env 1001) 0),
    (.initiator, .packet (env 1002) 0), (.initiator, .pump (env 1002) (.data [104, 105])),
    (.initiator, .tick (env 1003)), (.responder, .packet (env 1004) 1),
    (.responder, .pump (env 1004) (.data [121, 111])), (.responder, .tick (env 1005)),
    (.initiator, .packet (env 1006) 1), (.initiator, .pump (env 1006) .eof),
    (.initiator, .tick (env 1007)), (.responder, .packet (env 1008) 3),
    (.responder, .packet (env 1008) 2), (.responder, .pump (env 1008) .eof),
    (.responder, .tick (env 1009)), (.initiator, .packet (env 1010) 2),
    (.initiator, .packet (env 1010) 4)]

theorem graceful_close_sample :
    let s := (TunnelEnds.opened Repeat.ops (Vector.replicate 16 7) (1000, 1000)).run Repeat.ops
      sampleTunnel
    streamIsDone Repeat.ops s.initiator.st = true ∧ s.initiator.written = s.responder.readBytes ∧
      s.responder.written = s.initiator.readBytes := by
  intro s
  have hdone : streamIsDone Repeat.ops (s.here .initiator).st = true := by decide +kernel
  exact ⟨hdone, (graceful_close Repeat.reliable _ _ sampleTunnel .initiator).2 hdone⟩

end Redp2p
