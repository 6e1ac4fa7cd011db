import Redp2p.KcpBounds

/-! Between two ends of the tunnel every segment is a message of its own, so whatever an end has received
can be taken into a buffer of the tunnel. -/

namespace Redp2p.Kcp

open ByteString ByteChannel

/-- A segment that can be taken by itself. -/
structure Whole (seg : Segment) : Prop where
  last : seg.frg = 0
  short : seg.data.length ≤ 1376

/-- All that was received and not taken is whole. -/
def Chunked (k : Ikcpcb) : Prop := ∀ seg ∈ k.rcvQueue ++ k.rcvBuf, Whole seg

/-- A segment that an end of the tunnel sends. -/
structure Slim (conv : UInt32) (seg : Segment) : Prop where
  readable : Readable conv seg
  whole : Whole seg

/-! ### Emitting -/

/-- A segment that tells the receiving side of an end. -/
structure Tells (k : Ikcpcb) (seg : Segment) : Prop where
  una : seg.una = k.rcvNxt
  wnd : seg.wnd = wndUnused k

theorem flush_emits {conv : UInt32} {k : Ikcpcb} (h : Bounded conv k) :
    Emits (fun seg => Slim conv seg ∧ Tells k seg) k := by
  have hmtu : k.mtu.toNat = 1400 := by rw [h.mtu_eq]; rfl
  have hfilled := flushFill_bounded (flushControl_bounded h)
  have hnxt : (flushFill (flushControl k).1).rcvNxt = k.rcvNxt := congrArg RecvSide.nxt (flushFill_same k).2.1
  have hcontrol : ∀ {sn ts cmd : UInt32}, cmd = cmdAck ∨ cmd = cmdWask ∨ cmd = cmdWins →
      Slim conv { controlSegment k with sn, ts, cmd } ∧ Tells k { controlSegment k with sn, ts, cmd } := fun hcmd =>
    ⟨⟨controlSegment_readable h hcmd, rfl, Nat.zero_le _⟩, rfl, rfl⟩
  refine ⟨by rw [hmtu]; decide, fun ack _ => hcontrol (.inl rfl), fun sn ts cmd hcmd => hcontrol (.inr hcmd),
    fun seg hseg => ?_⟩
  rw [hmtu]
  refine ⟨fun out hresent => ⟨⟨resent_readable hfilled (wndUnused_le h.rcvWnd_eq) hseg
    ⟨hresent.core, hresent.wnd, hresent.una.trans hnxt.symm⟩, ?_⟩, hresent.una, hresent.wnd⟩, frame_fits hfilled hseg⟩
  have hsized := hfilled.send.sized seg (List.mem_append_left _ hseg)
  have hsame := sameCore hresent.core
  exact ⟨hsame.frg.trans hsized.1, by rw [hsame.data]; exact hsized.2⟩

theorem flush_slim {conv : UInt32} {k : Ikcpcb} (h : Bounded conv k) :
    ∀ d ∈ (flush k).2, Datagram (Slim conv) d ∧ d.length ≤ 1400 := by
  have hmtu : k.mtu.toNat = 1400 := by rw [h.mtu_eq]; rfl
  intro d hd
  obtain ⟨hdatagram, hlength⟩ := (flush_emits h).carries d hd
  exact ⟨hdatagram.mono fun _ hseg => hseg.1, hmtu ▸ hlength⟩

theorem update_slim {conv : UInt32} {k : Ikcpcb} (h : Bounded conv k) (current : UInt32) :
    ∀ d ∈ (update k current).2, Datagram (Slim conv) d ∧ d.length ≤ 1400 := by
  obtain ⟨k', hkept, hsame | hflush⟩ := update_cases k current
  · rw [hsame]
    intro d hd
    cases hd
  · rw [hflush]
    exact flush_slim (h.kept hkept)

theorem Datagram.ne_nil {P : Segment → Prop} {d : Bytes} (h : Datagram P d) : d ≠ [] := by
  obtain ⟨segs, hne, rfl, -⟩ := h
  obtain ⟨seg, segs, rfl⟩ := List.exists_cons_of_ne_nil hne
  exact fun hnil => by
    have hlength := congrArg List.length hnil
    rw [List.flatMap_cons, List.length_append, frame_length] at hlength
    simp [overhead] at hlength

/-- Whatever an end went through, each datagram that it emits fits the envelope and is read to its end
by every end of the same conversation. -/
theorem datagrams_accepted {conv : UInt32} {k peer : Ikcpcb} (h : Operated conv k) (hpeer : peer.conv = conv)
    (current : UInt32) :
    ∀ d ∈ (update k current).2, d ≠ [] ∧ d.length ≤ streamKcpMtu ∧ (input peer d).2 = 0 := by
  intro d hd
  obtain ⟨hdatagram, hlength⟩ := update_slim h.bounded current d hd
  refine ⟨hdatagram.ne_nil, hlength, ?_⟩
  obtain ⟨segs, hne, rfl, hall⟩ := hdatagram
  rw [input_frames hne fun seg hseg => hpeer ▸ (hall seg hseg).readable]

theorem datagrams_accepted_first :
    let k := (update (send (ops.create 7) [1, 2, 3]).1 0).1
    (update k 20).2.length = 1 ∧
      ∀ d ∈ (update k 20).2, d ≠ [] ∧ d.length ≤ streamKcpMtu ∧ (input (ops.create 7) d).2 = 0 := by
  intro k
  have hops : Operated 7 k := .update (.send .create [1, 2, 3]) 0
  exact ⟨by decide +kernel, datagrams_accepted hops rfl 20⟩

/-! ### Receiving -/

theorem Chunked.of_recvSide {k k' : Ikcpcb} (h : Chunked k) (hsame : k'.recvSide = k.recvSide) : Chunked k' := by
  have hqueue : k'.rcvQueue = k.rcvQueue := congrArg RecvSide.queue hsame
  have hbuf : k'.rcvBuf = k.rcvBuf := congrArg RecvSide.buf hsame
  rwa [Chunked, hqueue, hbuf]

theorem moveReady_chunked {buf : List Segment} {k : Ikcpcb} (h : ∀ seg ∈ k.rcvQueue ++ buf, Whole seg) :
    Chunked (moveReady buf k) := by
  induction buf generalizing k with
  | nil => exact h
  | cons seg buf ih =>
    rw [moveReady]
    split
    · apply ih
      intro s hs
      apply h
      simpa using hs
    · exact h

theorem inputPush_chunked {k : Ikcpcb} {seg : Segment} (h : Chunked k) (hseg : Whole seg) :
    Chunked (inputPush k seg) := by
  unfold inputPush parseData
  dsimp only
  split
  · split
    · split
      · exact h
      · apply moveReady_chunked
        intro s hs
        rcases List.mem_append.mp hs with hs | hs
        · exact h s (List.mem_append_left _ hs)
        · rcases mem_insertSegment (List.mem_reverse.mp hs) with rfl | hs
          · exact hseg
          · exact h s (List.mem_append_right _ (List.mem_reverse.mp hs))
    · exact h
  · exact h

theorem inputSegment_chunked {run : InputRun} {seg : Segment} (h : Chunked run.kcp) (hseg : Whole seg) :
    Chunked (inputSegment run seg).kcp := by
  have huna := h.of_recvSide (inputUna_kept run.kcp seg.wnd seg.una).recvSide
  unfold inputSegment
  dsimp only
  split
  · exact huna.of_recvSide (inputAck_kept _ _).recvSide
  · split
    · exact inputPush_chunked huna hseg
    · split
      · exact huna
      · exact huna

theorem inputSegments_chunked {run : InputRun} {segs : List Segment} (h : Chunked run.kcp)
    (hsegs : ∀ seg ∈ segs, Whole seg) : Chunked (inputSegments run segs).kcp := by
  induction segs generalizing run with
  | nil => exact h
  | cons seg segs ih =>
    have hseg := hsegs seg (by simp)
    exact ih (inputSegment_chunked h ⟨hseg.last, hseg.short⟩) fun s hs => hsegs s (List.mem_cons_of_mem _ hs)

/-- A datagram of the peer is read to its end. -/
theorem input_slim {conv : UInt32} {k : Ikcpcb} {d : Bytes} (hconv : k.conv = conv) (h : Chunked k)
    (hd : Datagram (Slim conv) d) : Chunked (input k d).1 ∧ (input k d).2 = 0 := by
  obtain ⟨segs, hne, rfl, hall⟩ := hd
  rw [input_frames hne fun seg hseg => hconv ▸ (hall seg hseg).readable]
  have hrun : Chunked (inputSegments ⟨k, none⟩ segs).kcp :=
    inputSegments_chunked h fun seg hseg => (hall seg hseg).whole
  exact ⟨hrun.of_recvSide (inputDone_kept _ _).recvSide, rfl⟩

theorem takeMessage_whole {seg : Segment} {queue : List Segment} (h : Whole seg) :
    takeMessage (seg :: queue) = (seg.data, queue) := by
  rw [takeMessage, if_pos h.last]

theorem recv_chunked {k : Ikcpcb} (h : Chunked k) (cap : Nat) : Chunked (recv k cap).1 := by
  unfold recv
  split
  · exact h
  · rename_i hne
    obtain ⟨seg, queue, hqueue⟩ := List.exists_cons_of_ne_nil hne
    have hseg : Whole seg := h seg (by simp [hqueue])
    split
    · exact h
    · split
      · exact h
      · have hmoved : Chunked (moveReady k.rcvBuf { k with rcvQueue := (takeMessage k.rcvQueue).2 }) := by
          apply moveReady_chunked
          intro s hs
          apply h
          rw [hqueue, takeMessage_whole hseg] at hs
          rw [hqueue]
          exact List.mem_cons_of_mem _ hs
        dsimp only
        split
        · exact hmoved
        · exact hmoved

/-- What can be received fits a buffer of the tunnel. -/
theorem recv_some {k : Ikcpcb} (h : Chunked k) (hpeek : 0 ≤ peeksize k) :
    peeksize k ≤ bufSize ∧ ∃ data, (ops.recv k bufSize).2 = some data := by
  obtain ⟨seg, queue, hqueue⟩ : ∃ seg queue, k.rcvQueue = seg :: queue := by
    refine List.exists_cons_of_ne_nil fun hnil => ?_
    simp [peeksize, hnil] at hpeek
  have hseg : Whole seg := h seg (by simp [hqueue])
  have hsize : peeksize k = seg.data.length := by
    rw [peeksize, hqueue]
    exact if_pos hseg.last
  have hfits : peeksize k ≤ bufSize := by
    have hshort := hseg.short
    rw [hsize]
    simp only [bufSize]
    omega
  refine ⟨hfits, ?_⟩
  show ∃ data, (recv k bufSize).2.toOption = some data
  have hne : k.rcvQueue ≠ [] := by simp [hqueue]
  rw [recv, if_neg hne, if_neg (Int.not_lt.mpr hpeek), if_neg (Int.not_lt.mpr hfits)]
  exact ⟨_, rfl⟩

theorem flush_recvSide (k : Ikcpcb) : (flush k).1.recvSide = k.recvSide := by
  unfold flush
  split
  · rfl
  · exact (settleCwnd_kept _ _ _).recvSide.trans
      ((fillWindow_kept _ _ _ _).1.recvSide.trans (flushControl_kept k).recvSide)

theorem update_recvSide (k : Ikcpcb) (current : UInt32) : (update k current).1.recvSide = k.recvSide := by
  obtain ⟨k', hkept, hstill | hflushed⟩ := update_cases k current
  · rw [hstill]
    exact hkept.recvSide
  · rw [hflushed]
    exact (flush_recvSide k').trans hkept.recvSide

/-! ### Both ends -/

/-- An end of the tunnel: it keeps its bounds, received whole segments and emitted such. -/
structure Proper (conv : UInt32) (e : End Ikcpcb) : Prop where
  bounded : Bounded conv e.state
  chunked : Chunked e.state
  emitted : ∀ d ∈ e.emitted, Datagram (Slim conv) d

theorem Proper.move {conv : UInt32} {me peer me' : End Ikcpcb} (h : Proper conv me) (hpeer : Proper conv peer)
    (move : Move ops peer me me') : Proper conv me' := by
  cases move with
  | send data accepted =>
    exact ⟨send_bounded h.bounded data, h.chunked.of_recvSide (send_kept me.state data).recvSide, h.emitted⟩
  | quiet move =>
    cases move with
    | update current =>
      refine ⟨update_bounded h.bounded current, h.chunked.of_recvSide (update_recvSide me.state current), ?_⟩
      intro d hd
      rcases List.mem_append.mp hd with hd | hd
      · exact h.emitted d hd
      · exact (update_slim h.bounded current d hd).1
    | input datagram emitted accepted =>
      exact ⟨input_bounded h.bounded datagram,
        (input_slim h.bounded.conv_eq h.chunked (hpeer.emitted datagram emitted)).1, h.emitted⟩
    | recv cap data returned =>
      exact ⟨recv_bounded h.bounded cap, recv_chunked h.chunked cap, h.emitted⟩

theorem reachable_proper {conv : UInt32} {a b : End Ikcpcb} (h : Reachable ops conv a b) :
    Proper conv a ∧ Proper conv b := by
  have hstart : Proper conv (End.start ops conv) := by
    have hrecv : (ops.create conv).recvSide = ⟨0, [], []⟩ := rfl
    have hqueue : (ops.create conv).rcvQueue = [] := congrArg RecvSide.queue hrecv
    have hbuf : (ops.create conv).rcvBuf = [] := congrArg RecvSide.buf hrecv
    refine ⟨create_bounded conv, fun seg hseg => ?_, fun d hd => ?_⟩
    · have hnone : seg ∈ (ops.create conv).rcvQueue ++ (ops.create conv).rcvBuf := hseg
      rw [hqueue, hbuf] at hnone
      cases hnone
    · cases hd
  induction h with
  | start => exact ⟨hstart, hstart⟩
  | left before move ih => exact ⟨ih.1.move ih.2 move, ih.2⟩
  | right before move ih => exact ⟨ih.1, ih.2.move ih.1 move⟩

end Redp2p.Kcp
