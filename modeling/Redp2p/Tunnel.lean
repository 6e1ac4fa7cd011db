import Redp2p.Stream

/-! One end of a tunnel: a stream with its histories, and what each call on it does to the byte channel
underneath. -/

namespace Redp2p

open ByteString

/-- One end of a tunnel with its history: what it read from and wrote to its local TCP socket, and the
datagrams it sent. It is active until its session is closed. -/
structure Party (κ : Type) where
  st : StreamState κ
  active : Bool
  readBytes : Bytes
  written : Bytes
  sent : List Bytes

/-- What can happen at one end: its local socket is readable, time passes, a datagram of the peer
arrives, the program stops, or the session is dropped without notice. -/
inductive PartyEvent where
  | pump (env : StreamEnv) (read : TcpRead)
  | tick (env : StreamEnv)
  | packet (env : StreamEnv) (index : Nat)
  | stop (env : StreamEnv)
  | drop

namespace Party

variable {κ : Type}

def opened (kcp : ByteChannel.Ops κ) (initiator : Bool) (sessionId : SessionId) (now : UInt64) :
    Party κ :=
  ⟨streamInit kcp initiator sessionId now, true, [], [], []⟩

/-- The session notifies its peer of a failure and closes. -/
def close (env : StreamEnv) (me : Party κ) : Party κ :=
  { me with
    st := (streamFail env me.st).1
    active := false
    sent := me.sent ++ (streamFail env me.st).2 }

/-- The effects of a call, after which a failed session closes. -/
def absorb (env : StreamEnv) (me : Party κ) (o : Outcome κ) : Party κ :=
  let me := { me with st := o.st, written := me.written ++ o.written, sent := me.sent ++ o.sent }
  if o.ok then me else me.close env

def step (kcp : ByteChannel.Ops κ) (me peer : Party κ) (event : PartyEvent) : Party κ :=
  if !me.active then me
  else
    match event with
    | .pump env read =>
      { me with readBytes := me.readBytes ++ streamPumped kcp me.st read }.absorb env
        (streamPumpTcp kcp env me.st read)
    | .tick env => me.absorb env (streamTick kcp env me.st)
    | .packet env index =>
      match peer.sent[index]? with
      | none => me
      | some datagram => me.absorb env (streamProcessPacket kcp env me.st datagram)
    | .stop env => if streamIsDone kcp me.st then { me with active := false } else me.close env
    | .drop => { me with active := false }

end Party

/-! ### What a call does to the byte channel -/

open ByteChannel

section Calls

variable {κ : Type} {kcp : Ops κ} {conv : UInt32} {env : StreamEnv} {st st' : StreamState κ}
  {peer m m' m'' : End κ} {o : Outcome κ} {closes acks : Prop}

/-- The identity of a stream, which no call changes. -/
structure SameIdentity (st st' : StreamState κ) : Prop where
  initiator : st'.initiator = st.initiator
  sessionId : st'.sessionId = st.sessionId
  transportProtocol : st'.transportProtocol = st.transportProtocol

theorem SameIdentity.refl (st : StreamState κ) : SameIdentity st st := ⟨rfl, rfl, rfl⟩

theorem SameIdentity.trans {st'' : StreamState κ} (h : SameIdentity st st')
    (h' : SameIdentity st' st'') : SameIdentity st st'' :=
  ⟨h'.initiator.trans h.initiator, h'.sessionId.trans h.sessionId,
    h'.transportProtocol.trans h.transportProtocol⟩

/-- A datagram that a stream may have sent: its channel emitted the payload; a close means that the
local side has ended and everything read has arrived; an acknowledgement, that the remote side has
closed. -/
def Genuine (st : StreamState κ) (m : End κ) (datagram : Bytes) : Prop :=
  ∃ (type : StreamType) (payload : Bytes),
    datagram = streamFrame type (streamRole st) st.sessionId payload ∧
      payload.length ≤ streamKcpMtu ∧ (type ≠ .kcp → payload = []) ∧
      (type = .kcp → payload ∈ m.emitted) ∧
      (type = .close → st.localEof = true ∧ m.cleared = m.given) ∧
      (type = .closeAck → st.remoteClose = true)

theorem Genuine.mono {datagram : Bytes} (h : Genuine st m datagram) (hsame : SameIdentity st st')
    (hemitted : ∀ d ∈ m.emitted, d ∈ m'.emitted)
    (heof : st.localEof = true → m.cleared = m.given →
      st'.localEof = true ∧ m'.cleared = m'.given)
    (hclose : st.remoteClose = true → st'.remoteClose = true) : Genuine st' m' datagram := by
  obtain ⟨type, payload, hframe, hlength, hempty, hkcp, hcleared, hacked⟩ := h
  have hrole : streamRole st' = streamRole st := by simp only [streamRole, hsame.initiator]
  refine ⟨type, payload, ?_, hlength, hempty, fun h => hemitted _ (hkcp h),
    fun h => heof (hcleared h).1 (hcleared h).2, fun h => hclose (hacked h)⟩
  rw [hrole, hsame.sessionId, hframe]

/-- What a call on a stream does while its channel end moves from `m` to `m'`. `closes` and `acks` tell
what may set `remote_close` and `close_acked`. -/
structure Call (kcp : Ops κ) (closes acks : Prop) (peer m : End κ) (st : StreamState κ)
    (o : Outcome κ) (m' : End κ) : Prop where
  moves : Quiets kcp peer m m'
  state : o.ok = true → m'.state = o.st.kcp
  handed : ∃ data, m'.handed = m.handed ++ data ∧ o.written <+: data ∧
    (o.ok = true → o.written = data)
  frames : ∀ d ∈ o.sent, Genuine o.st m' d
  same : SameIdentity st o.st
  localEof : o.st.localEof = st.localEof
  keepsClose : st.remoteClose = true → o.st.remoteClose = true
  remoteClose : o.st.remoteClose = true → st.remoteClose = true ∨
    closes ∧ kcp.peekSize m'.state < 0 ∧ m'.handed = m.handed ++ o.written
  closeAcked : o.st.closeAcked = true → st.closeAcked = true ∨ acks

/-- A state that differs in nothing that a call has to account for, the channel apart. -/
structure Alike (st st' : StreamState κ) : Prop where
  same : SameIdentity st st'
  localEof : st'.localEof = st.localEof
  remoteClose : st'.remoteClose = st.remoteClose
  closeAcked : st'.closeAcked = st.closeAcked

theorem Alike.refl (st : StreamState κ) : Alike st st := ⟨.refl st, rfl, rfl, rfl⟩

theorem Call.weaken (h : Call kcp False False peer m st o m') :
    Call kcp closes acks peer m st o m' :=
  { h with
    remoteClose := fun hclose => Or.inl ((h.remoteClose hclose).resolve_right fun hf => hf.1)
    closeAcked := fun hacked => Or.inl ((h.closeAcked hacked).resolve_right id) }

/-- Nothing is sent. -/
theorem Call.quiet {data written : Bytes} {shut ok : Bool} (h : Alike st st')
    (hmoves : Quiets kcp peer m m') (hstate : ok = true → m'.state = st'.kcp)
    (hhanded : m'.handed = m.handed ++ data) (hle : written <+: data)
    (hwritten : ok = true → written = data) :
    Call kcp closes acks peer m st ⟨st', [], written, shut, ok⟩ m' where
  moves := hmoves
  state := hstate
  handed := ⟨data, hhanded, hle, hwritten⟩
  frames := by simp
  same := h.same
  localEof := h.localEof
  keepsClose := fun hclose => h.remoteClose.trans hclose
  remoteClose := fun hclose => Or.inl (h.remoteClose.symm.trans hclose)
  closeAcked := fun hacked => Or.inl (h.closeAcked.symm.trans hacked)

/-- Nothing is sent or written, and the channel is left alone. -/
theorem Call.silent {ok : Bool} (h : Alike st st') (hstate : ok = true → m.state = st'.kcp) :
    Call kcp closes acks peer m st ⟨st', [], [], false, ok⟩ m :=
  .quiet h .refl hstate (by simp) List.prefix_rfl fun _ => rfl

/-- A call that succeeds and then its next part. -/
theorem Call.next {next : StreamState κ → Outcome κ} (h : Call kcp False False peer m st o m')
    (hok : o.ok = true) (h' : Call kcp closes acks peer m' o.st (next o.st) m'') :
    Call kcp closes acks peer m st (o.andThen next) m'' := by
  obtain ⟨data, hdata, _, hwritten⟩ := h.handed
  obtain ⟨data', hdata', hle', hwritten'⟩ := h'.handed
  have hkept : o.st.remoteClose = true → st.remoteClose = true := fun hclose =>
    (h.remoteClose hclose).resolve_right fun hf => hf.1
  unfold Outcome.andThen
  rw [if_pos hok]
  dsimp only
  refine ⟨h.moves.trans h'.moves, h'.state, ?_, ?_, h.same.trans h'.same,
    h'.localEof.trans h.localEof, fun hclose => h'.keepsClose (h.keepsClose hclose), ?_, ?_⟩
  · refine ⟨data ++ data', by rw [hdata', hdata, List.append_assoc], ?_, fun hok' => ?_⟩
    · rw [hwritten hok]
      exact (List.prefix_append_right_inj data).mpr hle'
    · rw [hwritten hok, hwritten' hok']
  · intro d hd
    rcases List.mem_append.mp hd with hd | hd
    · exact (h.frames d hd).mono h'.same (Quiets.emitted h'.moves)
        (fun heof hcleared => ⟨h'.localEof.trans heof, Quiets.cleared h'.moves hcleared⟩)
        h'.keepsClose
    · exact h'.frames d hd
  · intro hclose
    rcases h'.remoteClose hclose with hold | ⟨hcloses, hpeek, hhanded⟩
    · exact Or.inl (hkept hold)
    · refine Or.inr ⟨hcloses, hpeek, ?_⟩
      rw [hhanded, hdata, hwritten hok, List.append_assoc]
  · intro hacked
    rcases h'.closeAcked hacked with hold | hacks
    · exact Or.inl ((h.closeAcked hold).resolve_right id)
    · exact Or.inr hacks

theorem Call.andThen {next : StreamState κ → Outcome κ}
    (h : Call kcp False False peer m st o m')
    (hnext : o.ok = true → ∃ m'', Call kcp closes acks peer m' o.st (next o.st) m'') :
    ∃ m'', Call kcp closes acks peer m st (o.andThen next) m'' := by
  cases hok : o.ok with
  | false =>
    refine ⟨m', ?_⟩
    unfold Outcome.andThen
    rw [if_neg (by simp [hok])]
    exact h.weaken
  | true =>
    obtain ⟨m'', h'⟩ := hnext hok
    exact ⟨m'', h.next hok h'⟩

variable (kcp env peer) in
/-- A control datagram, when the stream is entitled to it. -/
theorem sendControl_call {type : StreamType} (hstate : m.state = st.kcp)
    (hprotocol : st.transportProtocol = UInt8.ofNat protoTcp) (htype : type ≠ .kcp)
    (hclose : type = .close → st.localEof = true ∧ m.cleared = m.given)
    (hack : type = .closeAck → st.remoteClose = true) :
    Call kcp False False peer m st (streamSendControl env st type) m := by
  have hpack : streamPack type (streamRole st) st.transportProtocol st.sessionId [] =
      some (streamFrame type (streamRole st) st.sessionId []) := by
    rw [hprotocol]
    exact streamPack_frame (Nat.zero_le _)
  unfold streamSendControl
  rw [hpack]
  simp only
  split
  · exact {
      moves := .refl
      state := fun _ => hstate
      handed := ⟨[], by simp, List.prefix_rfl, fun _ => rfl⟩
      frames := by
        intro d hd
        obtain rfl := List.mem_singleton.mp hd
        exact ⟨type, [], rfl, Nat.zero_le _, fun _ => rfl, fun h => absurd h htype, hclose, hack⟩
      same := ⟨rfl, rfl, rfl⟩
      localEof := rfl
      keepsClose := id
      remoteClose := Or.inl
      closeAcked := Or.inl }
  · exact .silent (.refl st) nofun

theorem streamSendControl_written (env : StreamEnv) (st : StreamState κ) (type : StreamType) :
    (streamSendControl env st type).written = [] := by
  unfold streamSendControl
  split
  · rfl
  · split <;> rfl

/-- A control datagram and then a note of it. -/
theorem Call.note {note : StreamState κ → StreamState κ} (h : Call kcp False False peer m st o m')
    (halike : Alike o.st (note o.st)) (hkcp : (note o.st).kcp = o.st.kcp) :
    ∃ m'', Call kcp closes acks peer m st (o.andThen fun st => .done (note st)) m'' :=
  h.andThen fun hok => ⟨m', .silent halike fun _ => (h.state hok).trans hkcp.symm⟩

/-- The datagrams that the channel emits go out, as far as the socket takes them. -/
theorem kcpOutput_fold {datagrams : List Bytes} (h : Call kcp False False peer m st o m')
    (hok : o.ok = true) (hprotocol : o.st.transportProtocol = UInt8.ofNat protoTcp)
    (hemitted : ∀ d ∈ datagrams, d ∈ m'.emitted) :
    Call kcp False False peer m st (datagrams.foldl (streamKcpOutput env) o) m' := by
  induction datagrams generalizing o with
  | nil => exact h
  | cons d datagrams ih =>
    have hrest : ∀ d' ∈ datagrams, d' ∈ m'.emitted := fun d' hd' => hemitted d' (by simp [hd'])
    rw [List.foldl_cons]
    unfold streamKcpOutput
    split
    · exact ih h hok hprotocol hrest
    by_cases hfits : d.length ≤ streamKcpMtu
    · rw [hprotocol, streamPack_frame hfits]
      simp only
      split
      · refine ih ?_ hok hprotocol hrest
        refine { h with frames := ?_ }
        intro f hf
        rcases List.mem_append.mp hf with hf | hf
        · exact h.frames f hf
        · obtain rfl := List.mem_singleton.mp hf
          exact ⟨.kcp, d, rfl, hfits, fun hne => (hne rfl).elim, fun _ => hemitted d (by simp),
            nofun, nofun⟩
      · refine ih ?_ hok hprotocol hrest
        have hsame := h.same
        exact ⟨h.moves, h.state, h.handed, fun f hf => (h.frames f hf).mono ⟨rfl, rfl, rfl⟩
          (fun _ hmem => hmem) (fun heof hcleared => ⟨heof, hcleared⟩) id,
          ⟨hsame.initiator, hsame.sessionId, hsame.transportProtocol⟩, h.localEof, h.keepsClose,
          h.remoteClose, h.closeAcked⟩
    · rw [streamPack, if_pos (Nat.not_le.mp hfits)]
      exact ih h hok hprotocol hrest

variable (kcp env peer) in
theorem tickUpdate_call (hstate : m.state = st.kcp)
    (hprotocol : st.transportProtocol = UInt8.ofNat protoTcp) :
    ∃ m', Call kcp False False peer m st (streamTickUpdate kcp env st) m' := by
  unfold streamTickUpdate
  dsimp only
  split
  · rw [← hstate]
    have hmove : Quiet kcp peer m _ := .update env.now.toUInt32
    refine ⟨_, kcpOutput_fold (.quiet ?_ (.single hmove) (fun _ => rfl) (List.append_nil _).symm
      List.prefix_rfl fun _ => rfl) rfl hprotocol fun d hd => List.mem_append_right m.emitted hd⟩
    exact ⟨⟨rfl, rfl, rfl⟩, rfl, rfl, rfl⟩
  · exact ⟨m, .silent (.refl st) fun _ => hstate⟩

/-- Draining hands out all that can be received, and writes it as far as the local socket takes it. -/
theorem drainLoop_call (hkcp : Reliable kcp) (turns : Nat) {st : StreamState κ} {m : End κ}
    (hstate : m.state = st.kcp) (hturns : kcp.queued st.kcp < turns) :
    ∃ m', Call kcp False False peer m st (streamDrainLoop kcp env turns st) m' ∧
      ((streamDrainLoop kcp env turns st).ok = true → kcp.peekSize m'.state < 0) := by
  induction turns generalizing st m with
  | zero => exact (Nat.not_lt_zero _ hturns).elim
  | succ turns ih =>
    have hchanged : ∀ state, Alike st { st with kcp := state } :=
      fun state => ⟨⟨rfl, rfl, rfl⟩, rfl, rfl, rfl⟩
    rw [streamDrainLoop]
    split
    · rename_i hpeek
      exact ⟨m, .silent (.refl st) fun _ => hstate, fun _ => by rw [hstate]; exact hpeek⟩
    rename_i hpeek
    split
    · exact ⟨m, .silent (.refl st) nofun, nofun⟩
    rename_i hsize
    have hdrains := hkcp.drains st.kcp bufSize (by omega) (by omega)
    rcases hrecv : kcp.recv st.kcp bufSize with ⟨state, _ | data⟩
    · -- The channel refuses, and the session is over.
      exact ⟨m, .silent (hchanged state) nofun, nofun⟩
    rw [hrecv] at hdrains
    have hmove : Quiet kcp peer m _ := .recv bufSize data (by rw [hstate, hrecv])
    rw [hstate, hrecv] at hmove
    dsimp only
    unfold streamWriteAll
    split
    · obtain ⟨m', hcall, hdrained⟩ : ∃ m', Call kcp False False peer
          (({ m with handed := m.handed ++ data }).settle kcp state) { st with kcp := state } _ m' ∧ _ :=
        ih rfl (Nat.lt_of_lt_of_le hdrains (Nat.le_of_lt_succ hturns))
      have hwrite : Call kcp False False peer m st
          ⟨{ st with kcp := state }, [], data, false, true⟩
          (({ m with handed := m.handed ++ data }).settle kcp state) :=
        .quiet (hchanged state) (.single hmove) (fun _ => rfl) rfl List.prefix_rfl fun _ => rfl
      exact ⟨m', hwrite.next rfl hcall, hdrained⟩
    · refine ⟨_, .quiet (hchanged state) (.single hmove) nofun rfl (List.take_prefix _ _) nofun,
        nofun⟩

variable (env peer) in
theorem drain_call (hkcp : Reliable kcp) (hstate : m.state = st.kcp) :
    ∃ m', Call kcp False False peer m st (streamDrain kcp env st) m' ∧
      ((streamDrain kcp env st).ok = true → kcp.peekSize m'.state < 0) :=
  drainLoop_call hkcp _ hstate (Nat.lt_succ_self _)

theorem done_andThen (st : StreamState κ) (next : StreamState κ → Outcome κ) :
    (Outcome.done st).andThen next = next st := by
  simp [Outcome.andThen, Outcome.done]

variable (env) in
/-- An envelope of the peer: only a close sets `remote_close`, after a drain, and only an
acknowledgement sets `close_acked`. -/
theorem dispatch_call (hkcp : Reliable kcp) (hstate : m.state = st.kcp)
    (hprotocol : st.transportProtocol = UInt8.ofNat protoTcp) {type : StreamType} {payload : Bytes}
    (hemitted : type = .kcp → payload ∈ peer.emitted) :
    ∃ m', Call kcp (type = .close) (type = .closeAck) peer m st
      (streamDispatch kcp env st type payload) m' := by
  unfold streamDispatch
  split
  · refine Call.note (sendControl_call kcp env peer hstate hprotocol ?_ ?_ ?_)
      ⟨⟨rfl, rfl, rfl⟩, rfl, rfl, rfl⟩ rfl
    · decide
    · nofun
    · nofun
  split
  · exact ⟨m, .silent ⟨⟨rfl, rfl, rfl⟩, rfl, rfl, rfl⟩ fun _ => hstate⟩
  split
  · exact ⟨m, .silent (.refl st) fun _ => hstate⟩
  cases type with
  | kcp =>
    dsimp only
    split
    · exact ⟨m, .silent ⟨⟨rfl, rfl, rfl⟩, rfl, rfl, rfl⟩ nofun⟩
    rename_i hresult
    have hmove : Quiet kcp peer m _ :=
      .input payload (hemitted rfl) (by rw [hstate]; simpa using hresult)
    rw [hstate] at hmove
    have hinput : Call kcp False False peer m st
        (.done { st with kcp := (kcp.input st.kcp payload).1, nextUpdateMs := env.now.toUInt32 })
        (m.settle kcp (kcp.input st.kcp payload).1) :=
      .quiet ⟨⟨rfl, rfl, rfl⟩, rfl, rfl, rfl⟩ (.single hmove) (fun _ => rfl)
        (List.append_nil _).symm List.prefix_rfl fun _ => rfl
    obtain ⟨m', hdrain, _⟩ := drain_call env peer hkcp (hinput.state rfl)
    have hboth := hinput.next rfl hdrain
    rw [done_andThen] at hboth
    exact ⟨m', hboth.weaken⟩
  | close =>
    obtain ⟨m', hdrain, hdrained⟩ := drain_call env peer hkcp hstate
    refine hdrain.andThen fun hok => ⟨m', ?_⟩
    have hcontrol : Call kcp False False peer m' { (streamDrain kcp env st).st with remoteClose := true }
        (streamSendControl env { (streamDrain kcp env st).st with remoteClose := true } .closeAck) m' :=
      sendControl_call kcp env peer (hdrain.state hok)
        (hdrain.same.transportProtocol.trans hprotocol) (by decide) nofun (fun _ => rfl)
    have hsame := hcontrol.same
    refine ⟨hcontrol.moves, hcontrol.state, hcontrol.handed, hcontrol.frames,
      ⟨hsame.initiator, hsame.sessionId, hsame.transportProtocol⟩, hcontrol.localEof,
      fun _ => hcontrol.keepsClose rfl, fun _ => Or.inr ⟨rfl, hdrained hok, ?_⟩,
      fun hacked => Or.inl ((hcontrol.closeAcked hacked).resolve_right id)⟩
    rw [streamSendControl_written, List.append_nil]
  | closeAck =>
    exact ⟨m, .refl, fun _ => hstate, ⟨[], by simp, List.prefix_rfl, fun _ => rfl⟩,
      by simp [Outcome.done], ⟨rfl, rfl, rfl⟩, rfl, id, Or.inl, fun _ => Or.inr rfl⟩
  | reset => exact ⟨m, .silent ⟨⟨rfl, rfl, rfl⟩, rfl, rfl, rfl⟩ nofun⟩
  | hello => exact ⟨m, .silent (.refl st) fun _ => hstate⟩
  | helloAck => exact ⟨m, .silent (.refl st) fun _ => hstate⟩
  | keepalive => exact ⟨m, .silent (.refl st) fun _ => hstate⟩

variable (kcp env peer) in
theorem tickHello_call (hstate : m.state = st.kcp)
    (hprotocol : st.transportProtocol = UInt8.ofNat protoTcp) :
    ∃ m', Call kcp False False peer m st (streamTickHello env st) m' := by
  unfold streamTickHello
  split
  · refine Call.note (sendControl_call kcp env peer hstate hprotocol ?_ ?_ ?_)
      ⟨⟨rfl, rfl, rfl⟩, rfl, rfl, rfl⟩ rfl
    · decide
    · nofun
    · nofun
  · exact ⟨m, .silent (.refl st) fun _ => hstate⟩

variable (kcp env peer) in
theorem tickKeepalive_call (hstate : m.state = st.kcp)
    (hprotocol : st.transportProtocol = UInt8.ofNat protoTcp) :
    ∃ m', Call kcp False False peer m st (streamTickKeepalive env st) m' := by
  unfold streamTickKeepalive
  split
  · refine Call.note (sendControl_call kcp env peer hstate hprotocol ?_ ?_ ?_)
      ⟨⟨rfl, rfl, rfl⟩, rfl, rfl, rfl⟩ rfl
    · decide
    · nofun
    · nofun
  · exact ⟨m, .silent (.refl st) fun _ => hstate⟩

variable (env) in
/-- A close is sent only when the local side has ended and nothing waits to be sent. -/
theorem tickClose_call (hreach : Reachable kcp conv m peer) (hstate : m.state = st.kcp)
    (hprotocol : st.transportProtocol = UInt8.ofNat protoTcp) :
    ∃ m', Call kcp False False peer m st (streamTickClose kcp env st) m' := by
  unfold streamTickClose
  split
  · rename_i hdue
    simp only [Bool.and_eq_true, beq_iff_eq] at hdue
    have hcleared : m.cleared = m.given :=
      (cleared_of_waitSnd hreach).1 (by rw [hstate]; exact hdue.1.2)
    refine Call.note (sendControl_call kcp env peer hstate hprotocol ?_ ?_ ?_)
      ⟨⟨rfl, rfl, rfl⟩, rfl, rfl, rfl⟩ rfl
    · decide
    · exact fun _ => ⟨hdue.1.1.1.2, hcleared⟩
    · nofun
  · exact ⟨m, .silent (.refl st) fun _ => hstate⟩

variable (env) in
theorem tick_call (hreach : Reachable kcp conv m peer) (hstate : m.state = st.kcp)
    (hprotocol : st.transportProtocol = UInt8.ofNat protoTcp) :
    ∃ m', Call kcp False False peer m st (streamTick kcp env st) m' := by
  obtain ⟨m₁, hhello⟩ := tickHello_call kcp env peer hstate hprotocol
  refine hhello.andThen fun hok₁ => ?_
  have hprotocol₁ := hhello.same.transportProtocol.trans hprotocol
  obtain ⟨m₂, hupdate⟩ := tickUpdate_call kcp env peer (hhello.state hok₁) hprotocol₁
  refine hupdate.andThen fun hok₂ => ?_
  have hprotocol₂ := hupdate.same.transportProtocol.trans hprotocol₁
  split
  · exact ⟨m₂, .silent (.refl _) nofun⟩
  have hreach₂ := Quiets.reachable hupdate.moves (Quiets.reachable hhello.moves hreach)
  obtain ⟨m₃, hclose⟩ := tickClose_call env hreach₂ (hupdate.state hok₂) hprotocol₂
  refine hclose.andThen fun hok₃ => ?_
  exact tickKeepalive_call kcp env peer (hclose.state hok₃) (hclose.same.transportProtocol.trans hprotocol₂)

end Calls

end Redp2p
