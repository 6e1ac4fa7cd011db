import Redp2p.GracefulClose
import Redp2p.KcpNumbers
import Redp2p.KcpReliable

/-! The tunnel over KCP: the updates of an end stay within its sequence numbers, so a session whose ends
have numbers left runs as over a reliable channel. -/

namespace Redp2p

open ByteString ByteChannel

/-! ### A tunnel whose updates are guarded -/

section Guarded

variable {κ : Type} {ok : κ → Prop} [DecidablePred ok] {kcp : Ops κ} {env : StreamEnv} {st : StreamState κ}

theorem kcpOutput_kcp (datagrams : List Bytes) (o : Outcome κ) :
    (datagrams.foldl (streamKcpOutput env) o).st.kcp = o.st.kcp := by
  induction datagrams generalizing o with
  | nil => rfl
  | cons d datagrams ih =>
    rw [List.foldl_cons, ih]
    unfold streamKcpOutput
    split
    · rfl
    · split
      · rfl
      · split <;> rfl

theorem andThen_kcp {o : Outcome κ} {next : StreamState κ → Outcome κ}
    (h : ∀ st, (next st).st.kcp = st.kcp) : (o.andThen next).st.kcp = o.st.kcp := by
  unfold Outcome.andThen
  split
  · exact h o.st
  · rfl

theorem andThen_st {o : Outcome κ} {next : StreamState κ → Outcome κ} (h : o.ok = true) :
    (o.andThen next).st = (next o.st).st := by
  unfold Outcome.andThen
  rw [if_pos h]

theorem andThen_congr {o : Outcome κ} {next next' : StreamState κ → Outcome κ}
    (h : o.ok = true → next o.st = next' o.st) : o.andThen next = o.andThen next' := by
  unfold Outcome.andThen
  split
  · rename_i hok
    rw [h hok]
  · rfl

theorem streamSendControl_kcp (type : StreamType) : (streamSendControl env st type).st.kcp = st.kcp := by
  unfold streamSendControl
  split
  · rfl
  · split <;> rfl

theorem streamTickClose_kcp : (streamTickClose kcp env st).st.kcp = st.kcp := by
  unfold streamTickClose
  split
  · rw [andThen_kcp fun _ => rfl, streamSendControl_kcp]
  · rfl

theorem streamTickKeepalive_kcp : (streamTickKeepalive env st).st.kcp = st.kcp := by
  unfold streamTickKeepalive
  split
  · rw [andThen_kcp fun _ => rfl, streamSendControl_kcp]
  · rfl

theorem streamTickUpdate_due (h : (st.ready && (env.now.toUInt32 - st.nextUpdateMs).toNat < 2 ^ 31) = true) :
    streamTickUpdate kcp env st = (kcp.update st.kcp env.now.toUInt32).2.foldl (streamKcpOutput env)
      (.done { st with
        kcp := (kcp.update st.kcp env.now.toUInt32).1
        nextUpdateMs := kcp.check (kcp.update st.kcp env.now.toUInt32).1 env.now.toUInt32 }) :=
  if_pos h

/-- An update that stays within the limit is not stopped. -/
theorem streamTickUpdate_guarded (h : ok (streamTickUpdate kcp env st).st.kcp) :
    streamTickUpdate (guarded ok kcp) env st = streamTickUpdate kcp env st := by
  by_cases hdue : (st.ready && (env.now.toUInt32 - st.nextUpdateMs).toNat < 2 ^ 31) = true
  · rw [streamTickUpdate_due hdue, kcpOutput_kcp] at h
    have hsame : (guarded ok kcp).update st.kcp env.now.toUInt32 = kcp.update st.kcp env.now.toUInt32 := if_pos h
    rw [streamTickUpdate_due hdue, streamTickUpdate_due hdue, hsame]
    rfl
  · unfold streamTickUpdate
    dsimp only
    rw [if_neg hdue, if_neg hdue]

/-- What follows the update in a tick leaves the channel alone. -/
theorem streamTickRest_kcp (st : StreamState κ) : (if st.sendError then Outcome.failed st
    else (streamTickClose kcp env st).andThen (streamTickKeepalive env)).st.kcp = st.kcp := by
  split
  · rfl
  · rw [andThen_kcp fun _ => streamTickKeepalive_kcp, streamTickClose_kcp]

theorem streamTick_guarded (h : ok (streamTick kcp env st).st.kcp) :
    streamTick (guarded ok kcp) env st = streamTick kcp env st := by
  unfold streamTick at h ⊢
  refine andThen_congr fun hhello => ?_
  rw [andThen_st hhello, andThen_kcp streamTickRest_kcp] at h
  rw [streamTickUpdate_guarded h]
  rfl

theorem streamDrainLoop_guarded (turns : Nat) (st : StreamState κ) :
    streamDrainLoop (guarded ok kcp) env turns st = streamDrainLoop kcp env turns st := by
  induction turns generalizing st with
  | zero => rfl
  | succ turns ih =>
    have hnext : streamDrainLoop (guarded ok kcp) env turns = streamDrainLoop kcp env turns := funext ih
    rw [streamDrainLoop, streamDrainLoop, hnext]
    rfl

theorem streamProcessPacket_guarded (buf : Bytes) :
    streamProcessPacket (guarded ok kcp) env st buf = streamProcessPacket kcp env st buf := by
  have hdrain : streamDrain (guarded ok kcp) env = streamDrain kcp env := by
    funext st
    exact streamDrainLoop_guarded _ st
  unfold streamProcessPacket streamDispatch
  rw [hdrain]
  rfl

theorem close_kcp (me : Party κ) : (me.close env).st.kcp = me.st.kcp := by
  unfold Party.close streamFail
  dsimp only
  split
  · rfl
  · exact streamSendControl_kcp _

theorem absorb_kcp (me : Party κ) (o : Outcome κ) : (me.absorb env o).st.kcp = o.st.kcp := by
  unfold Party.absorb
  dsimp only
  split
  · rfl
  · exact close_kcp _

theorem absorb_readBytes (me : Party κ) (o : Outcome κ) : (me.absorb env o).readBytes = me.readBytes := by
  unfold Party.absorb
  dsimp only
  split <;> rfl

/-- A step that stays within the limit is a step of the guarded tunnel. -/
theorem party_step_guarded {me peer : Party κ} {event : PartyEvent} (h : ok (me.step kcp peer event).st.kcp) :
    me.step (guarded ok kcp) peer event = me.step kcp peer event := by
  unfold Party.step at h ⊢
  split
  · rfl
  · rename_i hactive
    rw [if_neg hactive] at h
    cases event with
    | pump env read => rfl
    | tick env =>
      dsimp only at h ⊢
      rw [absorb_kcp] at h
      rw [streamTick_guarded h]
    | packet env index =>
      dsimp only
      split
      · rfl
      · rw [streamProcessPacket_guarded]
    | stop env => rfl
    | drop => rfl

end Guarded

namespace TunnelEnds

variable {κ : Type}

theorem run_append (kcp : Ops κ) (s : TunnelEnds κ) (events later : List (StreamRole × PartyEvent)) :
    s.run kcp (events ++ later) = (s.run kcp events).run kcp later := List.foldl_append

/-- Both ends satisfy `ok` in every state of a run. -/
def Within (ok : κ → Prop) (kcp : Ops κ) (s : TunnelEnds κ) (events : List (StreamRole × PartyEvent)) : Prop :=
  ∀ n, ok (s.run kcp (events.take n)).initiator.st.kcp ∧ ok (s.run kcp (events.take n)).responder.st.kcp

theorem step_guarded {ok : κ → Prop} [DecidablePred ok] {kcp : Ops κ} {s : TunnelEnds κ}
    {event : StreamRole × PartyEvent}
    (h : ok (s.step kcp event).initiator.st.kcp ∧ ok (s.step kcp event).responder.st.kcp) :
    s.step (guarded ok kcp) event = s.step kcp event := by
  obtain ⟨role, event⟩ := event
  cases role with
  | initiator =>
    dsimp only [TunnelEnds.step] at h ⊢
    rw [party_step_guarded h.1]
  | responder =>
    dsimp only [TunnelEnds.step] at h ⊢
    rw [party_step_guarded h.2]

/-- A run that stays within the limit is a run of the guarded tunnel. -/
theorem run_guarded {ok : κ → Prop} [DecidablePred ok] {kcp : Ops κ} {s : TunnelEnds κ}
    {events : List (StreamRole × PartyEvent)} (h : s.Within ok kcp events) :
    s.run (guarded ok kcp) events = s.run kcp events := by
  induction events generalizing s with
  | nil => rfl
  | cons event events ih =>
    have hstep := step_guarded (h 1)
    have hrest : (s.step kcp event).Within ok kcp events := fun n => h (n + 1)
    have hrun := ih hrest
    dsimp only [run, List.foldl_cons] at hrun ⊢
    rw [hstep]
    exact hrun

end TunnelEnds

/-! ### What an end does to its channel -/

section Steps

variable {κ : Type} {P : κ → Nat → Prop} {kcp : Ops κ} {env : StreamEnv} {st : StreamState κ} {n : Nat}

/-- What holds of a channel and a number of bytes, whatever is called on it: only bytes that are given
count. -/
structure Maintained (P : κ → Nat → Prop) (kcp : Ops κ) : Prop where
  create : ∀ conv, P (kcp.create conv) 0
  send : ∀ {state n}, P state n → ∀ data, P (kcp.send state data).1 (n + data.length)
  input : ∀ {state n}, P state n → ∀ datagram, P (kcp.input state datagram).1 n
  update : ∀ {state n}, P state n → ∀ current, P (kcp.update state current).1 n
  recv : ∀ {state n}, P state n → ∀ cap, P (kcp.recv state cap).1 n

theorem streamDrainLoop_maintained (hP : Maintained P kcp) (turns : Nat) {st : StreamState κ} (h : P st.kcp n) :
    P (streamDrainLoop kcp env turns st).st.kcp n := by
  induction turns generalizing st with
  | zero => exact h
  | succ turns ih =>
    rw [streamDrainLoop]
    split
    · exact h
    · split
      · exact h
      · have hrecv := hP.recv h bufSize
        split
        · rename_i state hnone
          rwa [hnone] at hrecv
        · rename_i state data hsome
          rw [hsome] at hrecv
          unfold Outcome.andThen streamWriteAll
          split
          · split
            · exact ih hrecv
            · exact hrecv
          · exact hrecv

theorem streamProcessPacket_maintained (hP : Maintained P kcp) (h : P st.kcp n) (buf : Bytes) :
    P (streamProcessPacket kcp env st buf).st.kcp n := by
  unfold streamProcessPacket
  split
  · exact h
  · split
    · exact h
    · unfold streamDispatch
      split
      · rw [andThen_kcp fun _ => rfl, streamSendControl_kcp]
        exact h
      · split
        · exact h
        · split
          · exact h
          · split
            · dsimp only
              split
              · exact hP.input h _
              · exact streamDrainLoop_maintained hP _ (hP.input h _)
            · have hack : ∀ st : StreamState κ,
                  ({ streamSendControl env { st with remoteClose := true } .closeAck with
                    shut := !st.remoteClose } : Outcome κ).st.kcp = st.kcp := fun _ => streamSendControl_kcp _
              rw [andThen_kcp hack]
              exact streamDrainLoop_maintained hP _ h
            · exact h
            · exact h
            · exact h

theorem streamTick_maintained (hP : Maintained P kcp) (h : P st.kcp n) : P (streamTick kcp env st).st.kcp n := by
  have hhello : P (streamTickHello env st).st.kcp n := by
    unfold streamTickHello
    split
    · rw [andThen_kcp fun _ => rfl, streamSendControl_kcp]
      exact h
    · exact h
  have hupdate : ∀ st : StreamState κ, P st.kcp n → P (streamTickUpdate kcp env st).st.kcp n := by
    intro st h
    unfold streamTickUpdate
    dsimp only
    split
    · rw [kcpOutput_kcp]
      exact hP.update h _
    · exact h
  unfold streamTick
  by_cases hok : (streamTickHello env st).ok = true
  · rw [andThen_st hok, andThen_kcp streamTickRest_kcp]
    exact hupdate _ hhello
  · unfold Outcome.andThen
    rw [if_neg hok]
    exact hhello

/-- Whatever happens at an end, its channel keeps what every call on it keeps. -/
theorem party_step_maintained (hP : Maintained P kcp) {me : Party κ} (h : P me.st.kcp me.readBytes.length)
    (peer : Party κ) (event : PartyEvent) :
    P (me.step kcp peer event).st.kcp (me.step kcp peer event).readBytes.length := by
  unfold Party.step
  split
  · exact h
  · cases event with
    | pump env read =>
      rw [absorb_kcp, absorb_readBytes, List.length_append]
      by_cases hcan : streamCanSendData kcp me.st = true
      · unfold streamPumpTcp streamPumped
        rw [if_neg (by simp [hcan])]
        cases read with
        | data bytes =>
          dsimp only
          rw [if_pos hcan]
          split
          · exact hP.send h bytes
          · exact hP.send h bytes
        | eof => exact h
        | wouldBlock => exact h
        | failed => exact h
      · have hpumped : streamPumped kcp me.st read = [] := by cases read <;> simp [streamPumped, hcan]
        unfold streamPumpTcp
        rw [hpumped, if_pos (by simp [hcan])]
        exact h
    | tick env =>
      rw [absorb_kcp, absorb_readBytes]
      exact streamTick_maintained hP h
    | packet env index =>
      dsimp only
      split
      · exact h
      · rw [absorb_kcp, absorb_readBytes]
        exact streamProcessPacket_maintained hP h _
    | stop env =>
      dsimp only
      split
      · exact h
      · rw [close_kcp]
        exact h
    | drop => exact h

theorem party_step_readBytes (me peer : Party κ) (event : PartyEvent) :
    me.readBytes <+: (me.step kcp peer event).readBytes := by
  unfold Party.step
  split
  · exact List.prefix_rfl
  · cases event with
    | pump env read =>
      dsimp only
      rw [absorb_readBytes]
      exact List.prefix_append _ _
    | tick env =>
      dsimp only
      rw [absorb_readBytes]
    | packet env index =>
      dsimp only
      split
      · exact List.prefix_rfl
      · rw [absorb_readBytes]
    | stop env =>
      dsimp only
      split <;> exact List.prefix_rfl
    | drop => exact List.prefix_rfl

end Steps

namespace TunnelEnds

variable {κ : Type}

/-- What every step of an end keeps holds of both ends in every run. -/
theorem run_invariant {Q : Party κ → Prop} {kcp : Ops κ}
    (hstep : ∀ me peer event, Q me → Q (Party.step kcp me peer event)) {s : TunnelEnds κ} (h : ∀ role, Q (s.here role))
    (events : List (StreamRole × PartyEvent)) (role : StreamRole) : Q ((s.run kcp events).here role) := by
  induction events generalizing s with
  | nil => exact h role
  | cons event events ih =>
    refine ih fun role => ?_
    obtain ⟨side, event⟩ := event
    cases side <;> cases role
    · exact hstep _ _ _ (h .initiator)
    · exact h .responder
    · exact h .initiator
    · exact hstep _ _ _ (h .responder)

theorem run_maintained {P : κ → Nat → Prop} {kcp : Ops κ} (hP : Maintained P kcp) (sessionId : SessionId)
    (start : UInt64 × UInt64) (events : List (StreamRole × PartyEvent)) (role : StreamRole) :
    P (((opened kcp sessionId start).run kcp events).here role).st.kcp
      (((opened kcp sessionId start).run kcp events).here role).readBytes.length := by
  refine run_invariant (Q := fun me => P me.st.kcp me.readBytes.length)
    (fun me peer event h => party_step_maintained hP h peer event) (fun role => ?_) events role
  cases role <;> exact hP.create _

theorem run_readBytes (kcp : Ops κ) (s : TunnelEnds κ) (events : List (StreamRole × PartyEvent)) (role : StreamRole) :
    (s.here role).readBytes <+: ((s.run kcp events).here role).readBytes := by
  induction events generalizing s with
  | nil => exact List.prefix_rfl
  | cons event events ih =>
    refine List.IsPrefix.trans ?_ (ih (s.step kcp event))
    obtain ⟨side, event⟩ := event
    cases side <;> cases role
    · exact party_step_readBytes _ _ _
    · exact List.prefix_rfl
    · exact List.prefix_rfl
    · exact party_step_readBytes _ _ _

end TunnelEnds

/-! ### Sessions over KCP -/

/-- An end used at most one number for each byte that it was given. -/
def Kcp.Spent (k : Kcp.Ikcpcb) (given : Nat) : Prop :=
  (∃ conv, Kcp.Operated conv k) ∧ k.sndNxt.toNat + k.sndQueue.length ≤ given

theorem Kcp.spent_maintained : Maintained Kcp.Spent Kcp.ops where
  create conv := ⟨⟨conv, .create⟩, Nat.le_refl _⟩
  send := by
    rintro k n ⟨⟨conv, hops⟩, hspent⟩ data
    have hnxt : (Kcp.ops.send k data).1.sndNxt = k.sndNxt := Kcp.send_nxt k data
    have hqueued : (Kcp.ops.send k data).1.sndQueue.length ≤ k.sndQueue.length + data.length :=
      Kcp.send_queued hops.bounded.stream_eq data
    refine ⟨⟨conv, hops.send data⟩, ?_⟩
    rw [hnxt]
    omega
  input := by
    rintro k n ⟨⟨conv, hops⟩, hspent⟩ datagram
    obtain ⟨hnxt, hqueue⟩ := Kcp.input_numbers k datagram
    refine ⟨⟨conv, hops.input datagram⟩, ?_⟩
    show (Kcp.input k datagram).1.sndNxt.toNat + (Kcp.input k datagram).1.sndQueue.length ≤ n
    rwa [hnxt, hqueue]
  update := by
    rintro k n ⟨⟨conv, hops⟩, hspent⟩ current
    exact ⟨⟨conv, hops.update current⟩, (Kcp.update_numbers k current).trans hspent⟩
  recv := by
    rintro k n ⟨⟨conv, hops⟩, hspent⟩ cap
    have hkept := (Kcp.recv_kept k cap).1.sendSide
    have hnxt : (Kcp.recv k cap).1.sndNxt = k.sndNxt := congrArg Kcp.SendSide.nxt hkept
    have hqueue : (Kcp.recv k cap).1.sndQueue = k.sndQueue := congrArg Kcp.SendSide.queue hkept
    refine ⟨⟨conv, hops.recv cap⟩, ?_⟩
    show (Kcp.recv k cap).1.sndNxt.toNat + (Kcp.recv k cap).1.sndQueue.length ≤ n
    rwa [hnxt, hqueue]

/-- A session in which no end reads more than about two gibibytes has numbers left. -/
theorem within_of_read {sessionId : SessionId} {start : UInt64 × UInt64} {events : List (StreamRole × PartyEvent)}
    (h : ∀ role, (((TunnelEnds.opened Kcp.ops sessionId start).run Kcp.ops events).here role).readBytes.length +
      128 ≤ 2 ^ 31) :
    (TunnelEnds.opened Kcp.ops sessionId start).Within Kcp.Roomy Kcp.ops events := by
  intro n
  have hroomy : ∀ role, Kcp.Roomy
      (((TunnelEnds.opened Kcp.ops sessionId start).run Kcp.ops (events.take n)).here role).st.kcp := by
    intro role
    have hspent := (TunnelEnds.run_maintained Kcp.spent_maintained sessionId start (events.take n) role).2
    have hgrown := (TunnelEnds.run_readBytes Kcp.ops
      ((TunnelEnds.opened Kcp.ops sessionId start).run Kcp.ops (events.take n)) (events.drop n) role).length_le
    rw [← TunnelEnds.run_append, List.take_append_drop] at hgrown
    have hread := h role
    unfold Kcp.Roomy
    omega
  exact ⟨hroomy .initiator, hroomy .responder⟩

theorem kcp_session_linked {sessionId : SessionId} {start : UInt64 × UInt64} {events : List (StreamRole × PartyEvent)}
    (h : (TunnelEnds.opened Kcp.ops sessionId start).Within Kcp.Roomy Kcp.ops events) (role : StreamRole) :
    ∃ m p, Linked (guarded Kcp.Roomy Kcp.ops)
      (((TunnelEnds.opened Kcp.ops sessionId start).run Kcp.ops events).here role)
      (((TunnelEnds.opened Kcp.ops sessionId start).run Kcp.ops events).there role) m p := by
  have hinv : TunnelInv (guarded Kcp.Roomy Kcp.ops)
      ((TunnelEnds.opened Kcp.ops sessionId start).run Kcp.ops events) := by
    rw [← TunnelEnds.run_guarded h]
    exact (opened_inv _ sessionId start).run (Kcp.kcp_reliable.guarded Kcp.confined) events
  obtain ⟨m, p, hlinked⟩ := hinv
  cases role with
  | initiator => exact ⟨m, p, hlinked⟩
  | responder => exact ⟨p, m, hlinked.symm⟩

/-- A session over KCP whose ends have numbers left: at every moment what an end wrote is a prefix of what
the other read; an end that knows its peer to have closed has written all of it; and when an end is
done, both directions are complete. -/
theorem session_over_kcp (sessionId : SessionId) (start : UInt64 × UInt64) (events : List (StreamRole × PartyEvent))
    (h : (TunnelEnds.opened Kcp.ops sessionId start).Within Kcp.Roomy Kcp.ops events) (role : StreamRole) :
    let s := (TunnelEnds.opened Kcp.ops sessionId start).run Kcp.ops events
    (s.here role).written <+: (s.there role).readBytes ∧
    ((s.here role).st.remoteClose = true →
      (s.here role).written = (s.there role).readBytes ∧ (s.there role).st.localEof = true) ∧
    (streamIsDone Kcp.ops (s.here role).st = true →
      (s.here role).written = (s.there role).readBytes ∧
        (s.there role).written = (s.here role).readBytes) := by
  intro s
  obtain ⟨m, p, hlinked⟩ := kcp_session_linked h role
  have horder := (Kcp.kcp_reliable.guarded Kcp.confined).inOrder hlinked.reachable.symm
  have hclosed := hlinked.complete
  refine ⟨(hlinked.here.handed.trans horder).trans hlinked.there.given, hclosed, fun hdone => ?_⟩
  simp only [streamIsDone, Bool.and_eq_true] at hdone
  exact ⟨(hclosed hdone.1.2).1, (hlinked.symm.complete (hlinked.here.acked hdone.1.1.2)).1⟩

def sampleKcpSession : List (StreamRole × PartyEvent) :=
  let env (now : UInt64) : StreamEnv := ⟨now, fun _ => true, List.length⟩
  [(.initiator, .tick (env 1000)), (.responder, .packet (env 1001) 0), (.initiator, .packet (env 1002) 0),
    (.initiator, .pump (env 1002) (.data [104, 105])), (.initiator, .pump (env 1002) .eof),
    (.initiator, .tick (env 1003)), (.initiator, .tick (env 1023)), (.responder, .packet (env 1024) 1),
    (.responder, .pump (env 1024) (.data [121])), (.responder, .pump (env 1024) .eof),
    (.responder, .tick (env 1025)), (.responder, .tick (env 1045)), (.initiator, .packet (env 1046) 1),
    (.initiator, .packet (env 1046) 2), (.initiator, .tick (env 1066)), (.responder, .packet (env 1067) 2),
    (.responder, .packet (env 1067) 3), (.responder, .tick (env 1087)), (.initiator, .packet (env 1088) 3),
    (.initiator, .packet (env 1088) 4)]

theorem session_over_kcp_closed :
    let s := (TunnelEnds.opened Kcp.ops (Vector.replicate 16 7) (1000, 1000)).run Kcp.ops sampleKcpSession
    streamIsDone Kcp.ops s.initiator.st = true ∧ s.initiator.written = s.responder.readBytes ∧
      s.responder.written = s.initiator.readBytes := by
  intro s
  have hdone : streamIsDone Kcp.ops (s.here .initiator).st = true := by decide +kernel
  have hread : ∀ role, (s.here role).readBytes.length + 128 ≤ 2 ^ 31 := by
    intro role
    cases role <;> decide +kernel
  have hclosed := session_over_kcp _ _ sampleKcpSession (within_of_read hread) .initiator
  exact ⟨hdone, hclosed.2.2 hdone⟩

end Redp2p
