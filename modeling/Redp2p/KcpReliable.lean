import Redp2p.KcpDelivery

/-! Two KCP ends over a network that loses, repeats, delays and reorders datagrams: what holds of each
direction through any interleaving, and that the channel is reliable while numbers are left. -/

namespace Redp2p.Kcp

open ByteString ByteChannel

/-- A segment as an end of the conversation emits it: data is a numbered chunk, an acknowledgement is
of a received number, and everything below `una` was received. -/
structure Honest (conv : UInt32) (log : List Bytes) (r : RecvSide) (seg : Segment) : Prop where
  readable : Readable conv seg
  una : seg.una.toNat ≤ r.nxt.toNat
  push : seg.cmd = cmdPush → Arrived log seg
  ack : seg.cmd = cmdAck → Got r seg.sn.toNat

theorem Honest.mono {conv : UInt32} {log : List Bytes} {r r' : RecvSide} {seg : Segment}
    (h : Honest conv log r seg) (more : List Bytes) (hgains : Gains r r') :
    Honest conv (log ++ more) r' seg where
  readable := h.readable
  una := h.una.trans hgains.nxt
  push hpush := ⟨(h.push hpush).1, chunk_append (h.push hpush).2 more⟩
  ack hack := hgains.got _ (h.ack hack)

/-- One direction: the chunks that `me` numbered, and what `peer` received of them. -/
structure Half (conv : UInt32) (log : List Bytes) (me peer : End Ikcpcb) : Prop where
  bounded : Bounded conv me.state
  numbers : Numbers log me.state
  short : log.length + 128 ≤ 2 ^ 31
  given : me.given = log.flatten ++ me.state.sndQueue.flatMap (·.data)
  receives : Receives log peer.state.recvSide peer.handed
  blocked : Blocked peer.state.recvSide
  acked : ∀ n < log.length, (∃ seg ∈ me.state.sndBuf, seg.sn.toNat = n) ∨ Got peer.state.recvSide n
  acklist : ∀ ack ∈ peer.state.acklist, Got peer.state.recvSide ack.1.toNat
  cleared : ∃ m ≤ log.length, me.cleared = (log.take m).flatten ∧ ∀ n < m, Got peer.state.recvSide n
  emitted : ∀ d ∈ me.emitted, Datagram (Honest conv log me.state.recvSide) d

/-- Both directions. -/
def Linked (conv : UInt32) (a b : End Ikcpcb) : Prop :=
  ∃ logA logB, Half conv logA a b ∧ Half conv logB b a

theorem Linked.symm {conv : UInt32} {a b : End Ikcpcb} (h : Linked conv a b) : Linked conv b a := by
  obtain ⟨logA, logB, hab, hba⟩ := h
  exact ⟨logB, logA, hba, hab⟩

section Steps

variable {conv : UInt32} {log : List Bytes} {me peer : End Ikcpcb} {k : Ikcpcb}

/-- When nothing waits to be sent, everything that was given arrived. -/
theorem Half.settle (h : Half conv log { me with state := k } peer) : Half conv log (me.settle ops k) peer := by
  refine ⟨h.bounded, h.numbers, h.short, h.given, h.receives, h.blocked, h.acked, h.acklist, ?_, h.emitted⟩
  unfold End.settle
  dsimp only
  split
  · rename_i hwait
    obtain ⟨hbuf, hqueue⟩ : k.sndBuf = [] ∧ k.sndQueue = [] := by
      simpa [ops, waitsnd, List.length_eq_zero_iff] using hwait
    refine ⟨log.length, Nat.le_refl _, ?_, fun n hn => ?_⟩
    · have hgiven := h.given
      dsimp only at hgiven
      rw [hgiven, hqueue, List.take_length]
      simp
    · rcases h.acked n hn with ⟨seg, hseg, -⟩ | hgot
      · rw [hbuf] at hseg
        cases hseg
      · exact hgot
  · exact h.cleared

theorem Half.settlePeer (h : Half conv log peer { me with state := k }) : Half conv log peer (me.settle ops k) :=
  ⟨h.bounded, h.numbers, h.short, h.given, h.receives, h.blocked, h.acked, h.acklist, h.cleared, h.emitted⟩

/-- Acknowledged segments leave the send buffer of `me`. -/
theorem Half.thinned (h : Half conv log me peer) (hthin : Thinned (Got peer.state.recvSide) me.state k)
    (hbounded : Bounded conv k) : Half conv log { me with state := k } peer where
  bounded := hbounded
  numbers := by
    refine ⟨hthin.nxt ▸ h.numbers.nxt, fun seg hseg => ?_⟩
    obtain ⟨before, hbefore, hcore⟩ := hthin.old seg hseg
    rw [(sameCore hcore).sn, (sameCore hcore).data]
    exact h.numbers.buf before hbefore
  short := h.short
  given := hthin.queue ▸ h.given
  receives := h.receives
  blocked := h.blocked
  acked n hn := by
    rcases h.acked n hn with ⟨seg, hseg, rfl⟩ | hgot
    · rcases hthin.left seg hseg with ⟨after, hafter, hsn⟩ | hgone
      · exact .inl ⟨after, hafter, by rw [hsn]⟩
      · exact .inr hgone
    · exact .inr hgot
  acklist := h.acklist
  cleared := h.cleared
  emitted := hthin.kept.recvSide ▸ h.emitted

theorem Half.thinnedPeer {gone : Nat → Prop} (h : Half conv log peer me) (hthin : Thinned gone me.state k) :
    Half conv log peer { me with state := k } := by
  have hrecv := hthin.kept.recvSide
  refine ⟨h.bounded, h.numbers, h.short, h.given, ?_, ?_, ?_, ?_, ?_, h.emitted⟩ <;> dsimp only <;> rw [hrecv]
  · exact h.receives
  · exact h.blocked
  · exact h.acked
  · rw [hthin.kept.acklist]
    exact h.acklist
  · exact h.cleared

/-- `me` receives a segment. -/
theorem Half.takenPeer {sn : UInt32} (h : Half conv log peer me)
    (htaken : Taken log me.handed sn me.state k) : Half conv log peer { me with state := k } where
  bounded := h.bounded
  numbers := h.numbers
  short := h.short
  given := h.given
  receives := htaken.receives
  blocked := htaken.blocked
  acked n hn := (h.acked n hn).imp_right (htaken.gains.got n)
  acklist ack hack := (htaken.acklist ack hack).elim (fun hold => htaken.gains.got _ (h.acklist ack hold)) id
  cleared := by
    obtain ⟨m, hm, hcleared, hgot⟩ := h.cleared
    exact ⟨m, hm, hcleared, fun n hn => htaken.gains.got n (hgot n hn)⟩
  emitted := h.emitted

/-- Receiving leaves the sending of `me` alone, and what it emitted stays true. -/
theorem Half.gained (h : Half conv log me peer) (hkept : SendKept me.state k)
    (hgains : Gains me.state.recvSide k.recvSide) (hbounded : Bounded conv k) :
    Half conv log { me with state := k } peer := by
  have hbuf : k.sndBuf = me.state.sndBuf := congrArg SendSide.buf hkept.sendSide
  have hqueue : k.sndQueue = me.state.sndQueue := congrArg SendSide.queue hkept.sendSide
  have hnxt : k.sndNxt = me.state.sndNxt := congrArg SendSide.nxt hkept.sendSide
  refine ⟨hbounded, ⟨hnxt ▸ h.numbers.nxt, hbuf ▸ h.numbers.buf⟩, h.short, hqueue ▸ h.given, h.receives,
    h.blocked, hbuf ▸ h.acked, h.acklist, h.cleared, fun d hd => ?_⟩
  refine (h.emitted d hd).mono fun seg hseg => ?_
  simpa only [List.append_nil] using hseg.mono [] hgains

/-! ### Sending -/

theorem extendLast_bytes (mss : Nat) (queue : List Segment) (buffer : Bytes) :
    (extendLast mss queue buffer).1.flatMap (·.data) ++ (extendLast mss queue buffer).2.1 =
        queue.flatMap (·.data) ++ buffer ∧
      (extendLast mss queue buffer).2.1.length + (extendLast mss queue buffer).2.2 = buffer.length := by
  unfold extendLast
  split
  · exact ⟨rfl, rfl⟩
  · rename_i old hlast
    split
    · have hqueue : queue = queue.dropLast ++ [old] :=
        (List.dropLast_append_getLast? old hlast).symm
      refine ⟨?_, ?_⟩
      · conv => rhs; rw [hqueue]
        simp [segmentNew, List.take_append_drop]
      · dsimp only
        rw [List.length_drop]
        omega
    · exact ⟨rfl, rfl⟩

theorem fragments_bytes {stream : Bool} {mss count : Nat} {buffer : Bytes}
    (hcovers : buffer.length ≤ count * mss) : (fragments stream mss count buffer).flatMap (·.data) = buffer := by
  induction count generalizing buffer with
  | zero =>
    rw [Nat.zero_mul] at hcovers
    rw [List.eq_nil_of_length_eq_zero (Nat.le_zero.mp hcovers)]
    rfl
  | succ count ih =>
    have hrest : (buffer.drop mss).length ≤ count * mss := by
      rw [List.length_drop]
      rw [Nat.succ_mul] at hcovers
      omega
    rw [fragments, List.flatMap_cons, ih hrest]
    exact List.take_append_drop mss buffer

theorem fragmentCount_covers {mss : Nat} (hmss : 0 < mss) (buffer : Bytes) :
    buffer.length ≤ fragmentCount mss buffer * mss := by
  unfold fragmentCount
  split
  · omega
  · have hdiv := Nat.div_add_mod (buffer.length + mss - 1) mss
    have hmod := Nat.mod_lt (buffer.length + mss - 1) hmss
    rw [Nat.mul_comm]
    omega

/-- An accepted chunk goes to the end of the send queue. -/
theorem send_queue {k : Ikcpcb} {data : Bytes} (h : Bounded conv k) (haccepted : (Kcp.send k data).2 = data.length) :
    ∃ queue, (Kcp.send k data).1 = { k with sndQueue := queue } ∧
      queue.flatMap (·.data) = k.sndQueue.flatMap (·.data) ++ data := by
  have hmss : k.mss.toNat = 1376 := by rw [h.mss_eq]; rfl
  obtain ⟨hbytes, hlength⟩ := extendLast_bytes 1376 k.sndQueue data
  unfold Kcp.send extendStream at haccepted ⊢
  rw [h.stream_eq, if_pos rfl, hmss] at haccepted ⊢
  generalize extendLast 1376 k.sndQueue data = extended at hbytes hlength haccepted
  obtain ⟨queue, rest, sent⟩ := extended
  dsimp only at hbytes hlength haccepted ⊢
  by_cases hempty : rest.length = 0
  · rw [if_pos ⟨rfl, hempty⟩]
    refine ⟨queue, rfl, ?_⟩
    rw [← hbytes, List.eq_nil_of_length_eq_zero hempty, List.append_nil]
  · rw [if_neg fun hboth => hempty hboth.2] at haccepted ⊢
    split at haccepted
    · exfalso
      dsimp only at haccepted
      split at haccepted <;> omega
    · rename_i hcount
      rw [if_neg hcount]
      refine ⟨_, rfl, ?_⟩
      rw [List.flatMap_append, fragments_bytes (fragmentCount_covers (by decide) rest), hbytes]

theorem Half.send {data : Bytes} (h : Half conv log me peer)
    (haccepted : (Kcp.send me.state data).2 = data.length) :
    Half conv log { me with given := me.given ++ data, state := (Kcp.send me.state data).1 } peer := by
  have hbounded := send_bounded h.bounded data
  obtain ⟨queue, hstate, hbytes⟩ := send_queue h.bounded haccepted
  rw [hstate] at hbounded ⊢
  refine ⟨hbounded, ⟨h.numbers.nxt, h.numbers.buf⟩, h.short, ?_, h.receives, h.blocked, h.acked, h.acklist,
    h.cleared, h.emitted⟩
  dsimp only
  rw [h.given, hbytes, List.append_assoc]

theorem Half.sendPeer {data : Bytes} (h : Half conv log peer me) :
    Half conv log peer { me with given := me.given ++ data, state := (Kcp.send me.state data).1 } := by
  have hkept := send_kept me.state data
  refine ⟨h.bounded, h.numbers, h.short, h.given, ?_, ?_, ?_, ?_, ?_, h.emitted⟩ <;> dsimp only <;>
    rw [hkept.recvSide]
  · exact h.receives
  · exact h.blocked
  · exact h.acked
  · rw [hkept.acklist]
    exact h.acklist
  · exact h.cleared

/-! ### Receiving -/

variable {logPeer : List Bytes}

/-- One segment of a datagram of the peer. -/
theorem inputSegment_halves {run : InputRun} {seg : Segment} (hme : Half conv log { me with state := run.kcp } peer)
    (hpeer : Half conv logPeer peer { me with state := run.kcp })
    (hseg : Honest conv logPeer peer.state.recvSide seg) :
    Half conv log { me with state := (inputSegment run seg.wire).kcp } peer ∧
      Half conv logPeer peer { me with state := (inputSegment run seg.wire).kcp } := by
  have hbounded := inputSegment_bounded hme.bounded seg.wire
  have hpeerNxt := hme.receives.nxt
  have hshort := hme.short
  have huna : Thinned (Got peer.state.recvSide) run.kcp (inputUna run.kcp seg.wnd seg.una) := by
    refine inputUna_thinned ⟨?_, fun s hs => ?_⟩ fun n hn => .inl (Nat.lt_of_lt_of_le hn hseg.una)
    · have hle := hseg.una
      omega
    · have hlt := (List.getElem?_eq_some_iff.mp (hme.numbers.buf s hs)).1
      omega
  by_cases hack : seg.cmd = cmdAck
  · have hstate : inputSegment run seg.wire =
        inputAck { run with kcp := inputUna run.kcp seg.wnd seg.una } seg.wire := by
      rw [inputSegment]
      exact if_pos hack
    rw [hstate] at hbounded ⊢
    have hthin := huna.trans (inputAck_thinned { run with kcp := inputUna run.kcp seg.wnd seg.una }
      seg.wire (hseg.ack hack))
    exact ⟨hme.thinned hthin hbounded, hpeer.thinnedPeer hthin⟩
  · by_cases hpush : seg.cmd = cmdPush
    · have hstate : (inputSegment run seg.wire).kcp = inputPush (inputUna run.kcp seg.wnd seg.una) seg.wire := by
        rw [inputSegment]
        dsimp only
        rw [if_neg (by exact hack), if_pos (by exact hpush)]
        rfl
      rw [hstate] at hbounded ⊢
      have hbetween := inputUna_kept run.kcp seg.wnd seg.una
      have hmid := hme.thinned (k := inputUna run.kcp seg.wnd seg.una) huna
        (hme.bounded.recvKept hbetween (inputUna_bound _ _ hme.bounded.send))
      have hmidPeer := hpeer.thinnedPeer (k := inputUna run.kcp seg.wnd seg.una) huna
      have htaken := inputPush_taken seg.wire hmidPeer.short hmid.bounded.rcvWnd_eq hmidPeer.receives
        hmidPeer.blocked (hseg.push hpush)
      exact ⟨hmid.gained (inputPush_kept _ _) htaken.gains hbounded, hmidPeer.takenPeer htaken⟩
    · have hstate : Kept (inputUna run.kcp seg.wnd seg.una) (inputSegment run seg.wire).kcp := by
        rw [inputSegment]
        dsimp only
        rw [if_neg (by exact hack), if_neg (by exact hpush)]
        split
        · exact ⟨rfl, rfl, rfl, rfl, fun h => ⟨h.minrto, h.low, h.high⟩⟩
        · exact .refl _
      have hthin := huna.trans hstate.thinned
      exact ⟨hme.thinned hthin hbounded, hpeer.thinnedPeer hthin⟩

theorem inputSegments_halves {run : InputRun} {segs : List Segment}
    (hme : Half conv log { me with state := run.kcp } peer)
    (hpeer : Half conv logPeer peer { me with state := run.kcp })
    (hsegs : ∀ seg ∈ segs, Honest conv logPeer peer.state.recvSide seg) :
    Half conv log { me with state := (inputSegments run segs).kcp } peer ∧
      Half conv logPeer peer { me with state := (inputSegments run segs).kcp } := by
  induction segs generalizing run with
  | nil => exact ⟨hme, hpeer⟩
  | cons seg segs ih =>
    obtain ⟨hnext, hnextPeer⟩ := inputSegment_halves hme hpeer (hsegs seg (by simp))
    exact ih hnext hnextPeer fun s hs => hsegs s (List.mem_cons_of_mem _ hs)

/-- A datagram of the peer. -/
theorem input_halves {d : Bytes} (hme : Half conv log me peer) (hpeer : Half conv logPeer peer me)
    (hd : Datagram (Honest conv logPeer peer.state.recvSide) d) :
    Half conv log { me with state := (input me.state d).1 } peer ∧
      Half conv logPeer peer { me with state := (input me.state d).1 } := by
  obtain ⟨segs, hne, rfl, hsegs⟩ := hd
  have hstart : Half conv log { me with state := (⟨me.state, none⟩ : InputRun).kcp } peer := hme
  obtain ⟨hrun, hrunPeer⟩ := inputSegments_halves hstart hpeer hsegs
  rw [input_frames hne fun seg hseg => hme.bounded.conv_eq ▸ (hsegs seg hseg).readable]
  have hthin := inputDone_thinned (Got peer.state.recvSide) me.state.sndUna
    (inputSegments ⟨me.state, none⟩ segs)
  exact ⟨hrun.thinned hthin (inputDone_bounded hrun.bounded _), hrunPeer.thinnedPeer hthin⟩

theorem recv_halves {cap : Nat} {data : Bytes} (hme : Half conv log me peer) (hpeer : Half conv logPeer peer me)
    (hdata : (Kcp.recv me.state cap).2.toOption = some data) :
    Half conv log { me with handed := me.handed ++ data, state := (Kcp.recv me.state cap).1 } peer ∧
      Half conv logPeer peer { me with handed := me.handed ++ data, state := (Kcp.recv me.state cap).1 } := by
  have hshort := hpeer.short
  obtain ⟨hreceives, hblocked, hgains⟩ := recv_receives (by omega) hme.bounded.rcvWnd_eq hpeer.receives hdata
  obtain ⟨hkept, hacks⟩ := recv_kept me.state cap
  refine ⟨?_, ?_⟩
  · have hsame := hme.gained hkept hgains (recv_bounded hme.bounded cap)
    exact ⟨hsame.bounded, hsame.numbers, hsame.short, hsame.given, hsame.receives, hsame.blocked, hsame.acked,
      hsame.acklist, hsame.cleared, hsame.emitted⟩
  · refine ⟨hpeer.bounded, hpeer.numbers, hpeer.short, hpeer.given, hreceives, hblocked,
      fun n hn => (hpeer.acked n hn).imp_right (hgains.got n), fun ack hack => ?_, ?_, hpeer.emitted⟩
    · dsimp only at hack
      rw [hacks] at hack
      exact hgains.got _ (hpeer.acklist ack hack)
    · obtain ⟨m, hm, hcleared, hgot⟩ := hpeer.cleared
      exact ⟨m, hm, hcleared, fun n hn => hgains.got n (hgot n hn)⟩

/-! ### Flushing -/

/-- What a flush writes is honest: acknowledgements of what was received, and numbered chunks. -/
theorem flush_honest {more : List Bytes} (hbounded : Bounded conv k)
    (hacks : ∀ ack ∈ k.acklist, Got k.recvSide ack.1.toNat)
    (hfilled : Numbers (log ++ more) (flushFill (flushControl k).1)) :
    ∀ d ∈ (flush k).2, Datagram (Honest conv (log ++ more) k.recvSide) d := by
  have hmtu : k.mtu.toNat = 1400 := by rw [hbounded.mtu_eq]; rfl
  have hfill := flushFill_bounded (flushControl_bounded hbounded)
  have hwnd := wndUnused_le hbounded.rcvWnd_eq
  have hnxt : (flushFill (flushControl k).1).rcvNxt = k.rcvNxt :=
    congrArg RecvSide.nxt ((fillWindow_kept _ _ _ _).1.recvSide.trans (flushControl_kept k).recvSide)
  have hemits : Emits (Honest conv (log ++ more) k.recvSide) k := by
    refine ⟨by rw [hmtu]; decide, fun ack hack => ?_, fun sn ts cmd hcmd => ?_, fun seg hseg => ?_⟩
    · exact ⟨controlSegment_readable hbounded (.inl rfl), Nat.le_refl _,
        fun hcmd => absurd (show cmdAck = cmdPush from hcmd) (by decide), fun _ => hacks ack hack⟩
    · have hother : cmd ≠ cmdPush ∧ cmd ≠ cmdAck := by rcases hcmd with rfl | rfl <;> decide
      exact ⟨controlSegment_readable hbounded (.inr hcmd), Nat.le_refl _, fun hpush => absurd hpush hother.1,
        fun hack => absurd hack hother.2⟩
    · rw [hmtu]
      refine ⟨fun out hresent => ?_, frame_fits hfill hseg⟩
      have hsame := sameCore hresent.core
      have hpushed := (hfill.send.pushed seg hseg).2
      have hchunk := hfilled.buf seg hseg
      refine ⟨resent_readable hfill hwnd hseg ⟨hresent.core, hresent.wnd, hresent.una.trans hnxt.symm⟩,
        by rw [hresent.una]; exact Nat.le_refl _, fun _ => ⟨?_, ?_⟩, fun hack => ?_⟩
      · rw [hsame.frg]
        exact (hfill.send.sized seg (List.mem_append_left _ hseg)).1
      · rw [hsame.sn, hsame.data]
        exact hchunk
      · rw [hsame.cmd, hpushed] at hack
        exact absurd hack (by decide)
  exact fun d hd => (hemits.carries d hd).1

theorem Half.flush (hme : Half conv log { me with state := k } peer)
    (hpeer : Half conv logPeer peer { me with state := k }) (hroomy : Roomy (Kcp.flush k).1)
    (hupdated : k.updated = true) :
    ∃ more, Half conv (log ++ more)
        { me with state := (Kcp.flush k).1, emitted := me.emitted ++ (Kcp.flush k).2 } peer ∧
      Half conv logPeer peer
        { me with state := (Kcp.flush k).1, emitted := me.emitted ++ (Kcp.flush k).2 } := by
  have hshort := hme.short
  have hnxt := hme.numbers.nxt
  dsimp only at hnxt
  obtain ⟨more, hfilled, hflushed, hrecv, hacks⟩ := flush_numbered hme.bounded
    (by unfold Roomy; rw [hnxt]; exact hshort) hme.numbers hupdated
  have hqueue := hflushed.queue
  refine ⟨more, ?_, ?_⟩
  · refine ⟨flush_bounded hme.bounded, hflushed.numbers, ?_, ?_, hme.receives.mono more, hme.blocked,
      fun n hn => ?_, hme.acklist, ?_, fun d hd => ?_⟩
    · rw [← hflushed.numbers.nxt]
      exact hroomy
    · have hgiven := hme.given
      dsimp only at hgiven ⊢
      rw [hgiven, hqueue, List.flatten_append, List.append_assoc]
    · rcases Nat.lt_or_ge n log.length with hlt | hge
      · rcases hme.acked n hlt with ⟨seg, hseg, rfl⟩ | hgot
        · obtain ⟨after, hafter, hsn⟩ := hflushed.old seg hseg
          exact .inl ⟨after, hafter, by rw [hsn]⟩
        · exact .inr hgot
      · exact .inl (hflushed.new n hge hn)
    · obtain ⟨m, hm, hcleared, hgot⟩ := hme.cleared
      refine ⟨m, by rw [List.length_append]; omega, ?_, hgot⟩
      rw [List.take_append_of_le_length hm]
      exact hcleared
    · dsimp only
      rw [hrecv]
      rcases List.mem_append.mp hd with hd | hd
      · exact (hme.emitted d hd).mono fun seg hseg => hseg.mono more (.refl _)
      · exact flush_honest hme.bounded hpeer.acklist hfilled.numbers d hd
  · refine ⟨hpeer.bounded, hpeer.numbers, hpeer.short, hpeer.given, ?_, ?_, ?_, ?_, ?_, hpeer.emitted⟩ <;>
      dsimp only
    · rw [hrecv]
      exact hpeer.receives
    · rw [hrecv]
      exact hpeer.blocked
    · rw [hrecv]
      exact hpeer.acked
    · rw [hacks]
      intro ack hack
      cases hack
    · rw [hrecv]
      exact hpeer.cleared

theorem update_halves {current : UInt32} (hme : Half conv log me peer) (hpeer : Half conv logPeer peer me)
    (hroomy : Roomy (update me.state current).1) :
    ∃ more, Half conv (log ++ more)
        { me with state := (update me.state current).1, emitted := me.emitted ++ (update me.state current).2 }
        peer ∧
      Half conv logPeer peer
        { me with state := (update me.state current).1, emitted := me.emitted ++ (update me.state current).2 } := by
  obtain ⟨k', hkept, hcases⟩ := update_cases me.state current
  have hmid := hme.thinned (k := k') hkept.thinned (hme.bounded.kept hkept)
  have hthin : Thinned (Got peer.state.recvSide) me.state k' := hkept.thinned
  have hmidPeer := hpeer.thinnedPeer hthin
  have hidle : ∃ more, Half conv (log ++ more) { me with state := k', emitted := me.emitted ++ [] } peer ∧
      Half conv logPeer peer { me with state := k', emitted := me.emitted ++ [] } := by
    rw [List.append_nil]
    exact ⟨[], by rw [List.append_nil]; exact hmid, hmidPeer⟩
  rcases hcases with hsame | hflush
  · rw [hsame]
    exact hidle
  · rw [hflush] at hroomy ⊢
    by_cases hupdated : k'.updated = true
    · exact hmid.flush hmidPeer hroomy hupdated
    · have hnothing : Kcp.flush k' = (k', []) := by
        rw [Kcp.flush, if_pos (by simpa using hupdated)]
      rw [hnothing]
      exact hidle

/-- Every move of an end keeps both directions. -/
theorem Linked.move {me' : End Ikcpcb} (h : Linked conv me peer) (move : Move ops peer me me')
    (hroomy : Roomy me'.state) : Linked conv me' peer := by
  obtain ⟨log, logPeer, hme, hpeer⟩ := h
  cases move with
  | send data accepted =>
    exact ⟨log, logPeer, (hme.send accepted).settle, hpeer.sendPeer.settlePeer⟩
  | quiet move =>
    cases move with
    | update current =>
      obtain ⟨more, hnext, hnextPeer⟩ := update_halves hme hpeer hroomy
      exact ⟨log ++ more, logPeer, hnext.settle, hnextPeer.settlePeer⟩
    | input d emitted accepted =>
      obtain ⟨hnext, hnextPeer⟩ := input_halves hme hpeer (hpeer.emitted d emitted)
      exact ⟨log, logPeer, hnext.settle, hnextPeer.settlePeer⟩
    | recv cap data returned =>
      obtain ⟨hnext, hnextPeer⟩ := recv_halves hme hpeer returned
      exact ⟨log, logPeer, hnext.settle, hnextPeer.settlePeer⟩

end Steps

/-! ### Runs -/

theorem start_half (conv : UInt32) : Half conv [] (End.start ops conv) (End.start ops conv) := by
  have hstate : (End.start ops conv).state = ops.create conv := rfl
  have hrecv : (ops.create conv).recvSide = ⟨0, [], []⟩ := rfl
  have hsend : (ops.create conv).sendSide = ⟨0, 0, [], []⟩ := rfl
  have hbuf : (ops.create conv).sndBuf = [] := rfl
  refine ⟨create_bounded conv, ⟨rfl, ?_⟩, by decide, rfl, ?_, ?_, by simp, ?_, ⟨0, Nat.le_refl _, rfl, by simp⟩,
    by simp [End.start]⟩
  · rw [hstate, hbuf]
    simp
  · rw [hstate, hrecv]
    exact ⟨Nat.zero_le _, rfl, by simp, by simp⟩
  · rw [hstate, hrecv]
    intro seg hseg
    cases hseg
  · have hacks : (ops.create conv).acklist = [] := rfl
    rw [hstate, hacks]
    simp

theorem reachable_linked {conv : UInt32} {a b : End Ikcpcb} (h : ReachableWithin Roomy ops conv a b) :
    Linked conv a b :=
  h.invariant (Linked conv) Linked.symm ⟨[], [], start_half conv, start_half conv⟩
    fun hlinked move within => hlinked.move move within

/-- A number that was received while nothing waits to be taken was handed out. -/
theorem Half.delivered {conv : UInt32} {log : List Bytes} {me peer : End Ikcpcb} (h : Half conv log me peer)
    (hpeer : RecvBound peer.state.recvSide) (hempty : peer.state.rcvQueue = []) {m : Nat}
    (hgot : ∀ n < m, Got peer.state.recvSide n) : m ≤ peer.state.rcvNxt.toNat := by
  refine Nat.not_lt.mp fun hlt => ?_
  rcases hgot _ hlt with hbelow | ⟨seg, hseg, hsn⟩
  · exact Nat.lt_irrefl _ hbelow
  · have hnxt : seg.sn = peer.state.recvSide.nxt := UInt32.toNat_inj.mp hsn
    -- the first buffered segment is the one that is expected, so the queue would be full
    obtain ⟨first, buf, hbuf⟩ := List.exists_cons_of_ne_nil (List.ne_nil_of_mem hseg)
    have hzero : peer.state.recvSide.ahead seg = 0 := by
      have hself : peer.state.recvSide.nxt - peer.state.recvSide.nxt = 0 := by grind
      rw [RecvSide.ahead, hnxt, hself]
      rfl
    have horder := hpeer.order
    rw [hbuf, List.map_cons, List.pairwise_cons] at horder
    obtain rfl : seg = first := by
      rw [hbuf] at hseg
      refine (List.mem_cons.mp hseg).resolve_right fun hlater => ?_
      have hafter := horder.1 _ (List.mem_map_of_mem hlater)
      omega
    have hfull := h.blocked seg (by rw [hbuf]; rfl) hnxt
    simp [Ikcpcb.recvSide, hempty] at hfull

theorem peeksize_nonneg {k : Ikcpcb} (hwhole : ∀ seg ∈ k.rcvQueue, seg.frg = 0) (h : peeksize k < 0) :
    k.rcvQueue = [] := by
  cases hqueue : k.rcvQueue with
  | nil => rfl
  | cons seg queue =>
    rw [peeksize, hqueue] at h
    dsimp only at h
    rw [if_pos (hwhole seg (by simp [hqueue]))] at h
    omega

theorem moveReady_queued (buf : List Segment) (k : Ikcpcb) :
    (moveReady buf k).rcvQueue.length + (moveReady buf k).rcvBuf.length = k.rcvQueue.length + buf.length := by
  induction buf generalizing k with
  | nil => rfl
  | cons seg buf ih =>
    rw [moveReady]
    split
    · rw [ih]
      simp only [List.length_append, List.length_cons, List.length_nil]
      omega
    · rfl

theorem takeMessage_shorter (seg : Segment) (queue : List Segment) :
    (takeMessage (seg :: queue)).2.length ≤ queue.length := by
  rw [takeMessage]
  split
  · exact Nat.le_refl _
  · exact takeMessage_length queue

theorem flatten_prefix {α : Type} {l l' : List (List α)} (h : l <+: l') : l.flatten <+: l'.flatten := by
  obtain ⟨more, rfl⟩ := h
  rw [List.flatten_append]
  exact List.prefix_append _ _

/-- KCP, set up as the tunnel does, is a reliable channel while its ends have numbers left: an end
hands out a prefix of what the other was given, and everything once nothing waits to be sent or to be
taken. -/
theorem kcp_reliable : ReliableWithin Roomy ops where
  inOrder {conv a b} h := by
    obtain ⟨log, logPeer, hab, hba⟩ := reachable_linked h
    have htaken : b.handed <+: (log.take b.state.rcvNxt.toNat).flatten :=
      ⟨_, hab.receives.taken⟩
    have hlog : (log.take b.state.rcvNxt.toNat).flatten <+: log.flatten := flatten_prefix (List.take_prefix _ _)
    rw [hab.given]
    exact (htaken.trans hlog).trans (List.prefix_append _ _)
  arrives {conv a b} h hpeek := by
    obtain ⟨log, logPeer, hab, hba⟩ := reachable_linked h
    have hempty : b.state.rcvQueue = [] := peeksize_nonneg hab.receives.whole hpeek
    obtain ⟨m, hm, hcleared, hgot⟩ := hab.cleared
    have hall := hab.delivered hba.bounded.recv hempty hgot
    have htaken : b.handed = (log.take b.state.rcvNxt.toNat).flatten := by
      have htaken := hab.receives.taken
      simp only [Ikcpcb.recvSide, hempty, List.flatMap_nil, List.append_nil] at htaken
      exact htaken
    rw [hcleared, htaken]
    exact flatten_prefix (List.take_prefix_take_left hall)
  drains k cap hsome hcap := by
    have hpeek : 0 ≤ peeksize k := hsome
    have hfits : peeksize k ≤ cap := hcap
    obtain ⟨seg, queue, hqueue⟩ : ∃ seg queue, k.rcvQueue = seg :: queue := by
      refine List.exists_cons_of_ne_nil fun hnil => ?_
      simp [peeksize, hnil] at hpeek
    have hne : k.rcvQueue ≠ [] := by simp [hqueue]
    have hmoved := moveReady_queued k.rcvBuf { k with rcvQueue := (takeMessage k.rcvQueue).2 }
    have hshorter : (takeMessage k.rcvQueue).2.length < k.rcvQueue.length := by
      rw [hqueue]
      exact Nat.lt_succ_of_le (takeMessage_shorter seg queue)
    have hless := hmoved.trans_lt (Nat.add_lt_add_right hshorter k.rcvBuf.length)
    show (Kcp.recv k cap).1.rcvQueue.length + (Kcp.recv k cap).1.rcvBuf.length <
      k.rcvQueue.length + k.rcvBuf.length
    rw [Kcp.recv, if_neg hne, if_neg (Int.not_lt.mpr hpeek), if_neg (Int.not_lt.mpr hfits)]
    dsimp only
    split
    · exact hless
    · exact hless

/-- Whatever the network loses, repeats or reorders, what an end handed out is a prefix of what its peer was
given; and once the peer had nothing left to send, all of that has been handed out when nothing is left
to take. -/
theorem kcp_delivers {conv : UInt32} {a b : End Ikcpcb} (h : ReachableWithin Roomy ops conv a b) :
    b.handed <+: a.given ∧ (peeksize b.state < 0 → a.cleared <+: b.handed) :=
  ⟨kcp_reliable.inOrder h, kcp_reliable.arrives h⟩

theorem kcp_delivers_chunk : ∃ a b : End Ikcpcb, a.given = [1, 2, 3] ∧ b.handed.length = 3 ∧ b.handed <+: a.given := by
  have hsent : ReachableWithin Roomy ops 7 _ _ :=
    .left (.left (.left .start (.send [1, 2, 3] (by decide +kernel)) (by decide +kernel))
      (.quiet (.update 0)) (by decide +kernel)) (.quiet (.update 20)) (by decide +kernel)
  have hread : ReachableWithin Roomy ops 7 _ _ :=
    .right (.right hsent (.quiet (.input (encodeSeg ⟨7, 81, 0, 128, 20, 0, 0, 0, 0, 0, 0, [1, 2, 3]⟩ ++ [1, 2, 3])
      (by decide +kernel) (by decide +kernel))) (by decide +kernel))
      (.quiet (.recv 100 [1, 2, 3] (by decide +kernel))) (by decide +kernel)
  exact ⟨_, _, by decide +kernel, by decide +kernel, (kcp_delivers hread).1⟩

end Redp2p.Kcp
