import Redp2p.KcpFlush
import Redp2p.Stream

/-! KCP as the byte channel of a stream: the set-up that the tunnel gives it, the operations that the
tunnel calls, and what no operation changes. -/

namespace Redp2p.Kcp

open ByteString

def streamSendWindow : Int := 64
def streamRecvWindow : Int := 128
def streamKcpIntervalMs : Int := 20
def streamKcpFastResend : Int := 2

/-- The control block that `redp2p_stream_init` sets up. -/
def streamCreate (conv : UInt32) : Option Ikcpcb :=
  (setmtu (create conv) streamKcpMtu).map fun k =>
    { setNodelay (wndsize k streamSendWindow streamRecvWindow) 0 streamKcpIntervalMs
        streamKcpFastResend 0 with
      stream := true }

def ops : ByteChannel.Ops Ikcpcb where
  create conv := (streamCreate conv).getD (create conv)
  send := send
  input := input
  update := update
  check := check
  peekSize := peeksize
  recv k cap := ((recv k cap).1, (recv k cap).2.toOption)
  waitSnd := waitsnd
  queued k := k.rcvQueue.length + k.rcvBuf.length

/-- The set-up never fails. -/
theorem streamCreate_ops (conv : UInt32) : streamCreate conv = some (ops.create conv) := rfl

/-- The fields that no operation changes. -/
structure Config where
  conv : UInt32
  mtu : UInt32
  mss : UInt32
  sndWnd : UInt32
  rcvWnd : UInt32
  interval : UInt32
  stream : Bool

/-- What waits to be sent or to be acknowledged. -/
structure SendSide where
  una : UInt32
  nxt : UInt32
  queue : List Segment
  buf : List Segment

/-- What arrived and was not taken. -/
structure RecvSide where
  nxt : UInt32
  queue : List Segment
  buf : List Segment

def Ikcpcb.config (k : Ikcpcb) : Config :=
  ⟨k.conv, k.mtu, k.mss, k.sndWnd, k.rcvWnd, k.interval, k.stream⟩

def Ikcpcb.sendSide (k : Ikcpcb) : SendSide := ⟨k.sndUna, k.sndNxt, k.sndQueue, k.sndBuf⟩

def Ikcpcb.recvSide (k : Ikcpcb) : RecvSide := ⟨k.rcvNxt, k.rcvQueue, k.rcvBuf⟩

/-- The retransmission time lies between its bounds. -/
structure RtoBound (k : Ikcpcb) : Prop where
  minrto : k.rxMinrto = rtoMin
  low : 100 ≤ k.rxRto.toInt
  high : k.rxRto.toInt ≤ 60000

/-- Only times, windows and probes differ. -/
structure Kept (k k' : Ikcpcb) : Prop where
  config : k'.config = k.config
  sendSide : k'.sendSide = k.sendSide
  recvSide : k'.recvSide = k.recvSide
  acklist : k'.acklist = k.acklist
  rto : RtoBound k → RtoBound k'

/-- Only times, windows, probes and the receiving side differ. -/
structure SendKept (k k' : Ikcpcb) : Prop where
  config : k'.config = k.config
  sendSide : k'.sendSide = k.sendSide
  rto : RtoBound k → RtoBound k'

/-- Only times, windows, probes and the sending side differ. -/
structure RecvKept (k k' : Ikcpcb) : Prop where
  config : k'.config = k.config
  recvSide : k'.recvSide = k.recvSide
  acklist : k'.acklist = k.acklist
  rto : RtoBound k → RtoBound k'

theorem Kept.refl (k : Ikcpcb) : Kept k k := ⟨rfl, rfl, rfl, rfl, id⟩

theorem Kept.trans {k k' k'' : Ikcpcb} (h : Kept k k') (h' : Kept k' k'') : Kept k k'' :=
  ⟨h'.config.trans h.config, h'.sendSide.trans h.sendSide, h'.recvSide.trans h.recvSide,
    h'.acklist.trans h.acklist, h'.rto ∘ h.rto⟩

theorem SendKept.trans {k k' k'' : Ikcpcb} (h : SendKept k k') (h' : SendKept k' k'') : SendKept k k'' :=
  ⟨h'.config.trans h.config, h'.sendSide.trans h.sendSide, h'.rto ∘ h.rto⟩

theorem RecvKept.trans {k k' k'' : Ikcpcb} (h : RecvKept k k') (h' : RecvKept k' k'') : RecvKept k k'' :=
  ⟨h'.config.trans h.config, h'.recvSide.trans h.recvSide, h'.acklist.trans h.acklist, h'.rto ∘ h.rto⟩

theorem Kept.send {k k' : Ikcpcb} (h : Kept k k') : SendKept k k' := ⟨h.config, h.sendSide, h.rto⟩

theorem Kept.recv {k k' : Ikcpcb} (h : Kept k k') : RecvKept k k' := ⟨h.config, h.recvSide, h.acklist, h.rto⟩

/-! ### Times and windows -/

theorem updateAck_rto (k : Ikcpcb) (rtt : Int32) (h : k.rxMinrto = rtoMin) : RtoBound (updateAck k rtt) := by
  have hbound : ∀ rto : UInt32, 100 ≤ (min (max rtoMin.toUInt32 rto) rtoMax).toInt32.toInt ∧
      (min (max rtoMin.toUInt32 rto) rtoMax).toInt32.toInt ≤ 60000 := by
    intro rto
    have hmax : max rtoMin.toUInt32 rto = if (100 : UInt32) ≤ rto then rto else 100 := rfl
    have hmin : ∀ a : UInt32, min a rtoMax = if a ≤ 60000 then a else 60000 := fun _ => rfl
    have hbounds : 100 ≤ (min (max rtoMin.toUInt32 rto) rtoMax).toNat ∧
        (min (max rtoMin.toUInt32 rto) rtoMax).toNat ≤ 60000 := by
      rw [hmin, hmax]
      simp only [UInt32.le_iff_toNat_le, UInt32.reduceToNat]
      split
      · split
        · exact ⟨by assumption, by assumption⟩
        · decide
      · decide
    rw [SerialNumber.toInt_toInt32 (by omega)]
    omega
  unfold updateAck
  split <;> (rw [← h] at hbound; exact ⟨h, (hbound _).1, (hbound _).2⟩)

theorem updateAck_kept (k : Ikcpcb) (rtt : Int32) : Kept k (updateAck k rtt) := by
  refine ⟨?_, ?_, ?_, ?_, fun h => updateAck_rto k rtt h.minrto⟩ <;> unfold updateAck <;> split <;> rfl

theorem raiseCwnd_kept (k : Ikcpcb) : Kept k (raiseCwnd k) := by
  unfold raiseCwnd
  dsimp only
  split <;> exact ⟨rfl, rfl, rfl, rfl, fun h => ⟨h.minrto, h.low, h.high⟩⟩

theorem growCwnd_kept (k : Ikcpcb) : Kept k (growCwnd k) := by
  unfold growCwnd
  split
  · dsimp only
    split
    · exact (raiseCwnd_kept k).trans ⟨rfl, rfl, rfl, rfl, fun h => ⟨h.minrto, h.low, h.high⟩⟩
    · exact raiseCwnd_kept k
  · exact .refl k

theorem probeWindow_kept (k : Ikcpcb) : Kept k (probeWindow k) := by
  unfold probeWindow
  split
  · split
    · refine ⟨?_, ?_, ?_, ?_, fun h => ⟨h.minrto, h.low, h.high⟩⟩ <;>
        dsimp only [Ikcpcb.config, Ikcpcb.sendSide, Ikcpcb.recvSide]
    · split
      · exact ⟨rfl, rfl, rfl, rfl, fun h => ⟨h.minrto, h.low, h.high⟩⟩
      · exact .refl k
  · exact ⟨rfl, rfl, rfl, rfl, fun h => ⟨h.minrto, h.low, h.high⟩⟩

theorem settleFast_kept (change : Nat) (k : Ikcpcb) : Kept k (settleFast change k) := by
  unfold settleFast
  split
  · exact ⟨rfl, rfl, rfl, rfl, fun h => ⟨h.minrto, h.low, h.high⟩⟩
  · exact .refl k

theorem settleLost_kept (priorCwnd : UInt32) (lost : Bool) (k : Ikcpcb) :
    Kept k (settleLost priorCwnd lost k) := by
  unfold settleLost
  split
  · exact ⟨rfl, rfl, rfl, rfl, fun h => ⟨h.minrto, h.low, h.high⟩⟩
  · exact .refl k

theorem settleCwnd_kept (priorCwnd : UInt32) (run : SendRun) (k : Ikcpcb) :
    Kept k (settleCwnd priorCwnd run k) := by
  have hkept := (settleFast_kept run.change k).trans (settleLost_kept priorCwnd run.lost _)
  unfold settleCwnd
  dsimp only
  split
  · exact hkept.trans ⟨rfl, rfl, rfl, rfl, fun h => ⟨h.minrto, h.low, h.high⟩⟩
  · exact hkept

/-! ### The receiving side -/

theorem moveReady_kept (buf : List Segment) (k : Ikcpcb) :
    SendKept k (moveReady buf k) ∧ (moveReady buf k).acklist = k.acklist := by
  induction buf generalizing k with
  | nil => exact ⟨⟨rfl, rfl, fun h => ⟨h.minrto, h.low, h.high⟩⟩, rfl⟩
  | cons seg buf ih =>
    rw [moveReady]
    split
    · have hstep : SendKept k { k with rcvQueue := k.rcvQueue ++ [seg], rcvNxt := k.rcvNxt + 1 } :=
        ⟨rfl, rfl, fun h => ⟨h.minrto, h.low, h.high⟩⟩
      exact ⟨hstep.trans (ih _).1, (ih _).2⟩
    · exact ⟨⟨rfl, rfl, fun h => ⟨h.minrto, h.low, h.high⟩⟩, rfl⟩

theorem recv_kept (k : Ikcpcb) (cap : Nat) :
    SendKept k (recv k cap).1 ∧ (recv k cap).1.acklist = k.acklist := by
  unfold recv
  split
  · exact ⟨⟨rfl, rfl, id⟩, rfl⟩
  · split
    · exact ⟨⟨rfl, rfl, id⟩, rfl⟩
    · split
      · exact ⟨⟨rfl, rfl, id⟩, rfl⟩
      · have hstep : SendKept k { k with rcvQueue := (takeMessage k.rcvQueue).2 } :=
          ⟨rfl, rfl, fun h => ⟨h.minrto, h.low, h.high⟩⟩
        obtain ⟨hkept, hacks⟩ := moveReady_kept k.rcvBuf { k with rcvQueue := (takeMessage k.rcvQueue).2 }
        dsimp only
        split
        · exact ⟨(hstep.trans hkept).trans ⟨rfl, rfl, fun h => ⟨h.minrto, h.low, h.high⟩⟩, hacks⟩
        · exact ⟨hstep.trans hkept, hacks⟩

theorem inputPush_kept (k : Ikcpcb) (seg : Segment) : SendKept k (inputPush k seg) := by
  have hpush : SendKept k (ackPush k seg.sn seg.ts) := ⟨rfl, rfl, fun h => ⟨h.minrto, h.low, h.high⟩⟩
  unfold inputPush parseData
  dsimp only
  split
  · split
    · split
      · exact hpush
      · exact hpush.trans (moveReady_kept _ _).1
    · exact hpush
  · exact ⟨rfl, rfl, id⟩

/-! ### The sending side -/

theorem shrinkBuf_kept (k : Ikcpcb) : RecvKept k (shrinkBuf k) :=
  ⟨rfl, rfl, rfl, fun h => ⟨h.minrto, h.low, h.high⟩⟩

theorem parseAck_kept (k : Ikcpcb) (sn : UInt32) : RecvKept k (parseAck k sn) := by
  unfold parseAck
  split <;> exact ⟨rfl, rfl, rfl, fun h => ⟨h.minrto, h.low, h.high⟩⟩

theorem parseFastack_kept (k : Ikcpcb) (sn ts : UInt32) : RecvKept k (parseFastack k sn ts) := by
  unfold parseFastack
  split <;> exact ⟨rfl, rfl, rfl, fun h => ⟨h.minrto, h.low, h.high⟩⟩

theorem inputUna_kept (k : Ikcpcb) (wnd una : UInt32) : RecvKept k (inputUna k wnd una) :=
  ⟨rfl, rfl, rfl, fun h => ⟨h.minrto, h.low, h.high⟩⟩

theorem inputAck_kept (run : InputRun) (seg : Segment) : RecvKept run.kcp (inputAck run seg).kcp := by
  unfold inputAck
  dsimp only
  split
  · exact ((updateAck_kept run.kcp _).recv.trans (parseAck_kept _ _)).trans (shrinkBuf_kept _)
  · exact (parseAck_kept run.kcp _).trans (shrinkBuf_kept _)

theorem inputDone_kept (prevUna : UInt32) (run : InputRun) : RecvKept run.kcp (inputDone prevUna run) := by
  have hpass : RecvKept run.kcp (passAcked run) := by
    unfold passAcked
    split
    · exact ⟨rfl, rfl, rfl, id⟩
    · exact parseFastack_kept _ _ _
  unfold inputDone
  dsimp only
  split
  · exact hpass.trans (growCwnd_kept _).recv
  · exact hpass

theorem fillWindow_kept (wnd cwnd : UInt32) (queue : List Segment) (k : Ikcpcb) :
    RecvKept k (fillWindow wnd cwnd queue k) ∧ (fillWindow wnd cwnd queue k).sndUna = k.sndUna := by
  induction queue generalizing k with
  | nil => exact ⟨⟨rfl, rfl, rfl, fun h => ⟨h.minrto, h.low, h.high⟩⟩, rfl⟩
  | cons seg queue ih =>
    rw [fillWindow]
    split
    · have hstep : RecvKept k { k with
          sndBuf := k.sndBuf ++ [numberSegment k wnd seg], sndNxt := k.sndNxt + 1 } :=
        ⟨rfl, rfl, rfl, fun h => ⟨h.minrto, h.low, h.high⟩⟩
      exact ⟨hstep.trans (ih _).1, (ih _).2⟩
    · exact ⟨⟨rfl, rfl, rfl, fun h => ⟨h.minrto, h.low, h.high⟩⟩, rfl⟩

theorem send_kept (k : Ikcpcb) (buffer : Bytes) : RecvKept k (send k buffer).1 := by
  unfold send
  obtain ⟨queue, rest, sent⟩ := extendStream k buffer
  dsimp only
  split
  · exact ⟨rfl, rfl, rfl, fun h => ⟨h.minrto, h.low, h.high⟩⟩
  · split <;> exact ⟨rfl, rfl, rfl, fun h => ⟨h.minrto, h.low, h.high⟩⟩

/-! ### Whole calls -/

/-- The first part of a flush empties the list of acknowledgements. -/
theorem flushControl_kept (k : Ikcpcb) :
    Kept { k with acklist := [] } (flushControl k).1 := by
  have hprobe := probeWindow_kept { k with acklist := [] }
  unfold flushControl
  exact hprobe.trans ⟨rfl, rfl, rfl, rfl, fun h => ⟨h.minrto, h.low, h.high⟩⟩

theorem startClock_kept (k : Ikcpcb) (current : UInt32) : Kept k (startClock k current) := by
  unfold startClock
  split <;> exact ⟨rfl, rfl, rfl, rfl, fun h => ⟨h.minrto, h.low, h.high⟩⟩

/-- An update changes times, and may flush then. -/
theorem update_cases (k : Ikcpcb) (current : UInt32) :
    ∃ k', Kept k k' ∧ (update k current = (k', []) ∨ update k current = flush k') := by
  have hstart := startClock_kept k current
  unfold update
  dsimp only
  split
  · refine ⟨_, hstart.trans ?_, .inr rfl⟩
    split <;> exact ⟨rfl, rfl, rfl, rfl, fun h => ⟨h.minrto, h.low, h.high⟩⟩
  · refine ⟨_, hstart.trans ?_, .inl rfl⟩
    split <;> exact ⟨rfl, rfl, rfl, rfl, fun h => ⟨h.minrto, h.low, h.high⟩⟩

theorem inputSegment_config (run : InputRun) (seg : Segment) :
    (inputSegment run seg).kcp.config = run.kcp.config := by
  unfold inputSegment
  dsimp only
  split
  · exact (inputAck_kept _ _).config
  · split
    · exact (inputPush_kept _ _).config
    · split <;> rfl

end Redp2p.Kcp
