import Redp2p.KcpShape
import Redp2p.KcpTunnel
import Redp2p.Sessions

/-! A session over KCP fails only for a reason outside: while sockets take what they are given and nobody
stops it, no call at either end fails, and its loop closes it only when it is done or its peer is silent. -/

namespace Redp2p

open ByteString ByteChannel

/-- Both sockets take everything. -/
structure StreamEnv.Open (env : StreamEnv) : Prop where
  sends : ∀ datagram, env.sendOk datagram = true
  writes : ∀ data, data.length ≤ env.writeCount data

/-- An event in which nothing outside goes wrong. The loop may drop the session. -/
def PartyEvent.Calm : PartyEvent → Prop
  | .pump env (.data bytes) => env.Open ∧ bytes.length ≤ bufSize
  | .pump _ .failed => False
  | .pump env _ => env.Open
  | .tick env => env.Open
  | .packet env _ => env.Open
  | .stop _ => False
  | .drop => True

def IsReset (datagram : Bytes) : Prop := ∃ envelope, streamUnpack datagram = some envelope ∧ envelope.type = .reset

theorem frame_isReset {type : StreamType} {role : StreamRole} {sessionId : SessionId} {payload : Bytes}
    (hfits : payload.length ≤ streamKcpMtu) (hempty : type ≠ .kcp → payload = []) :
    IsReset (streamFrame type role sessionId payload) ↔ type = .reset := by
  rw [IsReset, streamUnpack_frame hfits hempty]
  constructor
  · rintro ⟨envelope, heq, htype⟩
    cases heq
    exact htype
  · intro htype
    exact ⟨_, rfl, htype⟩

section Calls

variable {κ : Type} {kcp : Ops κ} {env : StreamEnv} {st : StreamState κ} {o : Outcome κ}

/-- A stream of the tunnel that has not noted a failed send. -/
structure Healthy (st : StreamState κ) : Prop where
  protocol : st.transportProtocol = UInt8.ofNat protoTcp
  sendError : st.sendError = false

/-- A call that went well. -/
structure Fine (o : Outcome κ) : Prop where
  ok : o.ok = true
  healthy : Healthy o.st
  sent : ∀ d ∈ o.sent, ¬ IsReset d

theorem Healthy.done (h : Healthy st) : Fine (Outcome.done st) := ⟨rfl, h, by simp [Outcome.done]⟩

theorem Fine.andThen {next : StreamState κ → Outcome κ} (h : Fine o) (hnext : Fine (next o.st)) :
    Fine (o.andThen next) := by
  unfold Outcome.andThen
  rw [if_pos h.ok]
  refine ⟨hnext.ok, hnext.healthy, fun d hd => ?_⟩
  rcases List.mem_append.mp hd with hd | hd
  · exact h.sent d hd
  · exact hnext.sent d hd

theorem sendControl_fine (h : Healthy st) (henv : env.Open) (type : StreamType) (htype : type ≠ .reset) :
    Fine (streamSendControl env st type) := by
  have hpack : streamPack type (streamRole st) st.transportProtocol st.sessionId [] =
      some (streamFrame type (streamRole st) st.sessionId []) := by
    rw [h.protocol]
    exact streamPack_frame (Nat.zero_le _)
  unfold streamSendControl
  rw [hpack]
  dsimp only
  rw [if_pos (henv.sends _)]
  refine ⟨rfl, ⟨h.protocol, h.sendError⟩, fun d hd => ?_⟩
  rw [List.mem_singleton.mp hd, frame_isReset (Nat.zero_le _) fun _ => rfl]
  exact htype

theorem kcpOutput_fine (h : Fine o) (henv : env.Open) (datagrams : List Bytes) :
    Fine (datagrams.foldl (streamKcpOutput env) o) := by
  induction datagrams generalizing o with
  | nil => exact h
  | cons d datagrams ih =>
    apply ih
    unfold streamKcpOutput
    split
    · exact h
    · by_cases hfits : d.length ≤ streamKcpMtu
      · rw [h.healthy.protocol, streamPack_frame hfits]
        dsimp only
        rw [if_pos (henv.sends _)]
        refine ⟨h.ok, h.healthy, fun f hf => ?_⟩
        rcases List.mem_append.mp hf with hf | hf
        · exact h.sent f hf
        · rw [List.mem_singleton.mp hf, frame_isReset hfits fun hne => (hne rfl).elim]
          decide
      · rw [streamPack, if_pos (Nat.not_le.mp hfits)]
        exact h

theorem tick_fine (h : Healthy st) (henv : env.Open) : Fine (streamTick kcp env st) := by
  have hhello : Fine (streamTickHello env st) := by
    unfold streamTickHello
    split
    · have hsent := sendControl_fine h henv .hello (by decide)
      exact hsent.andThen (Healthy.done ⟨hsent.healthy.protocol, hsent.healthy.sendError⟩)
    · exact h.done
  have hupdate : ∀ {st : StreamState κ}, Healthy st → Fine (streamTickUpdate kcp env st) := by
    intro st h
    unfold streamTickUpdate
    dsimp only
    split
    · refine kcpOutput_fine (Healthy.done ?_) henv _
      exact ⟨h.protocol, h.sendError⟩
    · exact h.done
  have hclose : ∀ {st : StreamState κ}, Healthy st → Fine (streamTickClose kcp env st) := by
    intro st h
    unfold streamTickClose
    split
    · have hsent := sendControl_fine h henv .close (by decide)
      exact hsent.andThen (Healthy.done ⟨hsent.healthy.protocol, hsent.healthy.sendError⟩)
    · exact h.done
  have hkeepalive : ∀ {st : StreamState κ}, Healthy st → Fine (streamTickKeepalive env st) := by
    intro st h
    unfold streamTickKeepalive
    split
    · have hsent := sendControl_fine h henv .keepalive (by decide)
      exact hsent.andThen (Healthy.done ⟨hsent.healthy.protocol, hsent.healthy.sendError⟩)
    · exact h.done
  have hupdated := hupdate hhello.healthy
  have hclosed := hclose hupdated.healthy
  unfold streamTick
  refine hhello.andThen (hupdated.andThen ?_)
  rw [if_neg (by simp [hupdated.healthy.sendError])]
  exact hclosed.andThen (hkeepalive hclosed.healthy)

/-- The channel gives what it has, chunk by chunk. -/
structure Yields (S : κ → Prop) (kcp : Ops κ) : Prop where
  some : ∀ {state}, S state → 0 ≤ kcp.peekSize state →
    kcp.peekSize state ≤ bufSize ∧ ∃ data, (kcp.recv state bufSize).2 = some data
  kept : ∀ {state}, S state → S (kcp.recv state bufSize).1

theorem drainLoop_fine {S : κ → Prop} (hyields : Yields S kcp) (henv : env.Open) (turns : Nat)
    {st : StreamState κ} (h : Healthy st) (hstate : S st.kcp) : Fine (streamDrainLoop kcp env turns st) := by
  induction turns generalizing st with
  | zero => exact h.done
  | succ turns ih =>
    rw [streamDrainLoop]
    split
    · exact h.done
    · rename_i hpeek
      obtain ⟨hfits, data, hdata⟩ := hyields.some hstate (Int.not_lt.mp hpeek)
      have hkept := hyields.kept hstate
      rw [if_neg (Int.not_lt.mpr hfits)]
      split
      · rename_i state hnone
        rw [hnone] at hdata
        cases hdata
      · rename_i state taken hrecv
        rw [hrecv] at hkept
        have hwrite : Fine (streamWriteAll env { st with kcp := state } taken) := by
          unfold streamWriteAll
          rw [if_pos (henv.writes _)]
          exact ⟨rfl, ⟨h.protocol, h.sendError⟩, by simp⟩
        have hsame : (streamWriteAll env { st with kcp := state } taken).st = { st with kcp := state } := by
          unfold streamWriteAll
          rw [if_pos (henv.writes _)]
        refine hwrite.andThen ?_
        rw [hsame]
        exact ih ⟨h.protocol, h.sendError⟩ hkept

theorem dispatch_fine {S : κ → Prop} (hyields : Yields S kcp) (henv : env.Open) (h : Healthy st)
    (hstate : S st.kcp) {type : StreamType} {payload : Bytes} (htype : type ≠ .reset)
    (hinput : type = .kcp → (kcp.input st.kcp payload).2 = 0 ∧ S (kcp.input st.kcp payload).1) :
    Fine (streamDispatch kcp env st type payload) := by
  unfold streamDispatch
  split
  · have hsent := sendControl_fine h henv .helloAck (by decide)
    exact hsent.andThen (Healthy.done ⟨hsent.healthy.protocol, hsent.healthy.sendError⟩)
  split
  · exact Healthy.done ⟨h.protocol, h.sendError⟩
  split
  · exact h.done
  cases type with
  | kcp =>
    obtain ⟨hzero, hnext⟩ := hinput rfl
    dsimp only
    rw [if_neg (not_not_intro hzero)]
    exact drainLoop_fine hyields henv _ ⟨h.protocol, h.sendError⟩ hnext
  | close =>
    have hdrained := drainLoop_fine hyields henv (kcp.queued st.kcp + 1) h hstate
    refine hdrained.andThen ?_
    have hclosing : Healthy { (streamDrain kcp env st).st with remoteClose := true } :=
      ⟨hdrained.healthy.protocol, hdrained.healthy.sendError⟩
    have hsent := sendControl_fine hclosing henv .closeAck (by decide)
    exact ⟨hsent.ok, hsent.healthy, hsent.sent⟩
  | closeAck => exact Healthy.done ⟨h.protocol, h.sendError⟩
  | reset => exact absurd rfl htype
  | hello => exact h.done
  | helloAck => exact h.done
  | keepalive => exact h.done

theorem pump_fine (h : Healthy st) {read : TcpRead} (hread : read ≠ .failed)
    (hsend : ∀ bytes, read = .data bytes → (kcp.send st.kcp bytes).2 = bytes.length) :
    Fine (streamPumpTcp kcp env st read) := by
  unfold streamPumpTcp
  split
  · exact h.done
  · cases read with
    | wouldBlock => exact h.done
    | failed => exact absurd rfl hread
    | eof => exact Healthy.done ⟨h.protocol, h.sendError⟩
    | data bytes =>
      dsimp only
      rw [if_neg (not_not_intro (hsend bytes rfl))]
      exact Healthy.done ⟨h.protocol, h.sendError⟩

end Calls

/-! ### Sessions -/

/-- An end that runs and never told its peer of a failure. -/
structure Living {κ : Type} (me : Party κ) : Prop where
  active : me.active = true
  healthy : Healthy me.st
  sent : ∀ d ∈ me.sent, ¬ IsReset d

theorem Living.absorb {κ : Type} {me : Party κ} (h : Living me) (env : StreamEnv) {o : Outcome κ} (hfine : Fine o) :
    Living (me.absorb env o) := by
  unfold Party.absorb
  dsimp only
  rw [if_pos hfine.ok]
  refine ⟨h.active, hfine.healthy, fun d hd => ?_⟩
  rcases List.mem_append.mp hd with hd | hd
  · exact h.sent d hd
  · exact hfine.sent d hd

section Sessions

open Kcp (Ikcpcb)

abbrev Kcp.guardedOps : Ops Ikcpcb := guarded Kcp.Roomy Kcp.ops

theorem Kcp.yields : Yields Kcp.Chunked Kcp.guardedOps where
  some hstate hpeek := Kcp.recv_some hstate hpeek
  kept hstate := Kcp.recv_chunked hstate bufSize

variable {me peer : Party Ikcpcb} {m p : End Ikcpcb}

/-- A calm event leaves an end of a session running, unless the loop drops it. -/
theorem Living.step (hlinked : Linked Kcp.guardedOps me peer m p) (h : Living me)
    (hpeer : ∀ d ∈ peer.sent, ¬ IsReset d) {event : PartyEvent} (hcalm : event.Calm) (hdrop : event ≠ .drop) :
    Living (me.step Kcp.guardedOps peer event) := by
  obtain ⟨hmine, htheirs⟩ := Kcp.reachable_proper (reachableWithin_of_guarded Kcp.confined hlinked.reachable).reachable
  have hstate : m.state = me.st.kcp := hlinked.here.state h.active
  unfold Party.step
  rw [if_neg (by simp [h.active])]
  cases event with
  | pump env read =>
    have hgrown : Living { me with readBytes := me.readBytes ++ streamPumped Kcp.guardedOps me.st read } :=
      ⟨h.active, h.healthy, h.sent⟩
    have hread : read ≠ .failed := by
      rintro rfl
      exact hcalm
    apply hgrown.absorb
    apply pump_fine h.healthy hread
    rintro bytes rfl
    rw [← hstate]
    exact Kcp.send_whole hmine.bounded hcalm.2
  | tick env => exact h.absorb env (tick_fine h.healthy hcalm)
  | packet env index =>
    dsimp only
    split
    · exact h
    · rename_i datagram hsent
      have hmem : datagram ∈ peer.sent := List.mem_of_getElem? hsent
      obtain ⟨type, payload, hframe, hlength, hempty, hemitted, -, -⟩ := hlinked.there.frames datagram hmem
      have hreset : type ≠ .reset := by
        have hnot := hpeer datagram hmem
        rwa [hframe, frame_isReset hlength hempty] at hnot
      have hrole : streamRole peer.st = streamExpectedRole me.st := by
        simp only [streamRole, streamExpectedRole, hlinked.initiator]
        cases me.st.initiator <;> rfl
      have hprocess : streamProcessPacket Kcp.guardedOps env me.st datagram =
          streamDispatch Kcp.guardedOps env me.st type payload := by
        rw [streamProcessPacket, hframe, streamUnpack_frame hlength hempty]
        simp [hrole, hlinked.protocol, hlinked.sessionId]
      rw [hprocess]
      apply h.absorb env
      refine dispatch_fine Kcp.yields hcalm h.healthy (hstate ▸ hmine.chunked) hreset fun hkcp => ?_
      obtain ⟨hchunked, hzero⟩ :=
        Kcp.input_slim hmine.bounded.conv_eq hmine.chunked (htheirs.emitted payload (hemitted hkcp))
      rw [← hstate]
      exact ⟨hzero, hchunked⟩
  | stop env => exact hcalm.elim
  | drop => exact absurd rfl hdrop

/-- An end that runs, or that its loop dropped, and that never told its peer of a failure. -/
def Unfailed {κ : Type} (me : Party κ) : Prop :=
  Living me ∨ me.active = false ∧ ∀ d ∈ me.sent, ¬ IsReset d

theorem Unfailed.sent {κ : Type} {me : Party κ} (h : Unfailed me) : ∀ d ∈ me.sent, ¬ IsReset d := by
  rcases h with h | ⟨-, h⟩
  · exact h.sent
  · exact h

theorem Unfailed.step (hlinked : Linked Kcp.guardedOps me peer m p) (h : Unfailed me) (hpeer : Unfailed peer)
    {event : PartyEvent} (hcalm : event.Calm) : Unfailed (me.step Kcp.guardedOps peer event) := by
  rcases h with h | ⟨hgone, hsent⟩
  · by_cases hdrop : event = .drop
    · rw [hdrop]
      unfold Party.step
      rw [if_neg (by simp [h.active])]
      exact Or.inr ⟨rfl, h.sent⟩
    · exact Or.inl (h.step hlinked hpeer.sent hcalm hdrop)
  · unfold Party.step
    rw [if_pos (by simp [hgone])]
    exact Or.inr ⟨hgone, hsent⟩

end Sessions

end Redp2p
