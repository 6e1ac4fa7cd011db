import Mathlib.Data.List.Nodup
import Redp2p.KcpWire

/-! What one KCP end holds, whatever the peer sends: the unacknowledged segments fit the send window,
received segments fit the receive window, the retransmission time keeps its bounds, and every datagram
that goes out is read by any end of the conversation. -/

namespace Redp2p.Kcp

open ByteString

/-- The set-up of a stream. -/
def streamConfig (conv : UInt32) : Config := ⟨conv, 1400, 1376, 64, 128, 20, true⟩

theorem streamConfig_create (conv : UInt32) : (ops.create conv).config = streamConfig conv := rfl

/-! ### The send window -/

def SendSide.first (s : SendSide) : UInt32 :=
  match s.buf with
  | [] => s.nxt
  | seg :: _ => seg.sn

/-- How far a number lies before the next one to give. -/
def SendSide.behind (s : SendSide) (seg : Segment) : Nat := (s.nxt - seg.sn).toNat

/-- The unacknowledged segments lie in order within the send window, and all segments can go out. -/
structure SendBound (conv : UInt32) (s : SendSide) : Prop where
  una : s.una = s.first
  order : (s.buf.map s.behind).Pairwise (· > ·)
  near : ∀ seg ∈ s.buf, 0 < s.behind seg ∧ s.behind seg ≤ 64
  pushed : ∀ seg ∈ s.buf, seg.conv = conv ∧ seg.cmd = cmdPush
  sized : ∀ seg ∈ s.buf ++ s.queue, seg.frg = 0 ∧ seg.data.length ≤ 1376

/-- Segments were acknowledged. -/
theorem SendBound.thin {conv : UInt32} {s : SendSide} (h : SendBound conv s) {buf : List Segment}
    (hsub : buf.Sublist s.buf) :
    SendBound conv { s with una := ({ s with buf } : SendSide).first, buf } where
  una := rfl
  order := h.order.sublist (hsub.map _)
  near seg hseg := h.near seg (hsub.subset hseg)
  pushed seg hseg := h.pushed seg (hsub.subset hseg)
  sized seg hseg := h.sized seg (by
    rcases List.mem_append.mp hseg with hseg | hseg
    · exact List.mem_append_left _ (hsub.subset hseg)
    · exact List.mem_append_right _ hseg)

theorem map_eq_of_core {α : Type} {buf buf' : List Segment} (f : Segment → α)
    (hf : ∀ seg, f seg = f seg.core) (h : buf'.map Segment.core = buf.map Segment.core) :
    buf'.map f = buf.map f := by
  have hmap : ∀ l : List Segment, l.map f = (l.map Segment.core).map f := by
    intro l
    rw [List.map_map]
    exact List.map_congr_left fun seg _ => hf seg
  rw [hmap buf', h, ← hmap buf]

theorem forall_of_core {P : Segment → Prop} {buf buf' : List Segment} (hP : ∀ seg, P seg ↔ P seg.core)
    (h : buf'.map Segment.core = buf.map Segment.core) (hall : ∀ seg ∈ buf, P seg) :
    ∀ seg ∈ buf', P seg := by
  intro seg hseg
  have hcore : seg.core ∈ buf.map Segment.core := h ▸ List.mem_map_of_mem hseg
  obtain ⟨seg', hseg', heq⟩ := List.mem_map.mp hcore
  rw [hP, ← heq, ← hP]
  exact hall seg' hseg'

/-- Segments were resent or passed by. -/
theorem SendBound.resent {conv : UInt32} {s : SendSide} (h : SendBound conv s) {buf : List Segment}
    (hcore : buf.map Segment.core = s.buf.map Segment.core) : SendBound conv { s with buf } where
  una := by
    have hsn := map_eq_of_core (·.sn) (fun _ => rfl) hcore
    rw [show ({ s with buf } : SendSide).una = s.una from rfl, h.una]
    unfold SendSide.first
    cases hbuf : buf <;> cases hold : s.buf <;> simp_all
  order := by
    have hmap := map_eq_of_core s.behind (fun _ => rfl) hcore
    exact hmap ▸ h.order
  near := forall_of_core (fun _ => Iff.rfl) hcore h.near
  pushed := forall_of_core (fun _ => Iff.rfl) hcore h.pushed
  sized seg hseg := by
    rcases List.mem_append.mp hseg with hseg | hseg
    · exact forall_of_core (P := fun seg => seg.frg = 0 ∧ seg.data.length ≤ 1376) (fun _ => Iff.rfl) hcore
        (fun s hs => h.sized s (List.mem_append_left _ hs)) seg hseg
    · exact h.sized seg (List.mem_append_right _ hseg)

/-- No segment lies further behind than the first. -/
theorem SendBound.behind_le {conv : UInt32} {s : SendSide} (h : SendBound conv s) :
    (∀ seg ∈ s.buf, s.behind seg ≤ (s.nxt - s.una).toNat) ∧ (s.nxt - s.una).toNat ≤ 64 := by
  have horder := h.order
  have hnear := h.near
  rw [h.una]
  unfold SendSide.first
  cases hbuf : s.buf with
  | nil => simp
  | cons first buf =>
    rw [hbuf, List.map_cons, List.pairwise_cons] at horder
    rw [hbuf] at hnear
    refine ⟨?_, (hnear first (by simp)).2⟩
    intro seg hseg
    rcases List.mem_cons.mp hseg with rfl | hseg
    · exact Nat.le_refl _
    · exact Nat.le_of_lt (horder.1 _ (List.mem_map_of_mem hseg))

theorem SendBound.number {conv : UInt32} {una nxt : UInt32} {seg new : Segment} {queue buf : List Segment}
    (h : SendBound conv ⟨una, nxt, seg :: queue, buf⟩) (hroom : (nxt - una).toNat < 64)
    (hsn : new.sn = nxt) (hconv : new.conv = conv) (hcmd : new.cmd = cmdPush) (hfrg : new.frg = seg.frg)
    (hdata : new.data = seg.data) : SendBound conv ⟨una, nxt + 1, queue, buf ++ [new]⟩ := by
  have hle := h.behind_le.1
  have hbehind : ∀ s ∈ buf, SendSide.behind ⟨una, nxt + 1, queue, buf ++ [new]⟩ s =
      SendSide.behind ⟨una, nxt, seg :: queue, buf⟩ s + 1 := by
    intro s hs
    have hs := hle s hs
    exact SerialNumber.toNat_succ_sub (by simp only [SendSide.behind] at hs; omega)
  have hnew : SendSide.behind ⟨una, nxt + 1, queue, buf ++ [new]⟩ new = 1 := by
    have hone : nxt + 1 - nxt = 1 := by grind
    rw [SendSide.behind, hsn, hone]
    rfl
  constructor
  · have huna := h.una
    unfold SendSide.first at huna ⊢
    cases buf with
    | nil => exact huna.trans hsn.symm
    | cons first buf => exact huna
  · rw [List.map_append, List.pairwise_append]
    refine ⟨?_, List.pairwise_singleton _ _, ?_⟩
    · rw [List.map_congr_left hbehind, List.pairwise_map]
      exact (List.pairwise_map.mp h.order).imp fun hlt => Nat.succ_lt_succ hlt
    · intro a ha b hb
      obtain ⟨s, hs, rfl⟩ := List.mem_map.mp ha
      rw [List.map_singleton, List.mem_singleton, hnew] at hb
      rw [hbehind s hs, hb]
      exact Nat.succ_lt_succ (h.near s hs).1
  · intro s hs
    rcases List.mem_append.mp hs with hs | hs
    · rw [hbehind s hs]
      have hs := hle s hs
      dsimp only at hs
      omega
    · rw [List.mem_singleton.mp hs, hnew]
      decide
  · intro s hs
    rcases List.mem_append.mp hs with hs | hs
    · exact h.pushed s hs
    · rw [List.mem_singleton.mp hs]
      exact ⟨hconv, hcmd⟩
  · intro s hs
    have hold := h.sized
    simp only [List.mem_append, List.mem_cons, List.not_mem_nil, or_false] at hs hold
    rcases hs with (hs | rfl) | hs
    · exact hold s (.inl hs)
    · rw [hfrg, hdata]
      exact hold seg (.inr (.inl rfl))
    · exact hold s (.inr (.inr hs))

/-- The window is open only while less than `cwnd` numbers are in use. -/
theorem room_of_window {una nxt cwnd : UInt32} (hused : (nxt - una).toNat ≤ 64) (hcwnd : cwnd.toNat ≤ 64)
    (hopen : itimediff nxt (una + cwnd) < 0) : (nxt - una).toNat < cwnd.toNat := by
  have hbase : una + cwnd - una = cwnd := by grind
  have hdiff : SerialNumber.diff nxt (una + cwnd) = ((nxt - una).toNat : Int) - (una + cwnd - una).toNat :=
    SerialNumber.diff_offset una (by omega) (by rw [hbase]; omega)
  rw [itimediff, hdiff, hbase] at hopen
  omega

theorem fillWindow_bound {conv wnd cwnd : UInt32} {queue : List Segment} {k : Ikcpcb} (hconv : k.conv = conv)
    (hcwnd : cwnd.toNat ≤ 64) (h : SendBound conv ⟨k.sndUna, k.sndNxt, queue, k.sndBuf⟩) :
    SendBound conv (fillWindow wnd cwnd queue k).sendSide := by
  induction queue generalizing k with
  | nil => exact h
  | cons seg queue ih =>
    rw [fillWindow]
    split
    · rename_i hopen
      have hroom := room_of_window h.behind_le.2 hcwnd hopen
      exact ih hconv (h.number (by dsimp only at hroom ⊢; omega) rfl hconv rfl rfl rfl)
    · exact h

theorem dropAcked_sublist (sn : UInt32) (buf : List Segment) : (dropAcked sn buf).Sublist buf := by
  induction buf with
  | nil => exact .slnil
  | cons seg buf ih =>
    rw [dropAcked]
    split
    · exact List.sublist_cons_self seg buf
    · split
      · exact .refl _
      · exact ih.cons_cons seg

theorem passSegments_core (sn ts : UInt32) (buf : List Segment) :
    (passSegments sn ts buf).map Segment.core = buf.map Segment.core := by
  induction buf with
  | nil => rfl
  | cons seg buf ih =>
    rw [passSegments]
    split
    · rfl
    · rw [List.map_cons, List.map_cons, ih]
      split <;> rfl

theorem inputUna_bound {conv : UInt32} {k : Ikcpcb} (wnd una : UInt32) (h : SendBound conv k.sendSide) :
    SendBound conv (inputUna k wnd una).sendSide :=
  h.thin (List.dropWhile_sublist _)

theorem shrinkAck_bound {conv : UInt32} {k : Ikcpcb} (sn : UInt32) (h : SendBound conv k.sendSide) :
    SendBound conv (shrinkBuf (parseAck k sn)).sendSide := by
  unfold parseAck
  split
  · exact h.thin (dropAcked_sublist sn _)
  · exact h.thin (.refl _)

theorem passAcked_bound {conv : UInt32} {run : InputRun} (h : SendBound conv run.kcp.sendSide) :
    SendBound conv (passAcked run).sendSide := by
  unfold passAcked
  split
  · exact h
  · unfold parseFastack
    split
    · exact h.resent (passSegments_core _ _ _)
    · exact h

/-! ### The receive window -/

/-- How far a number lies after the next one that is expected. -/
def RecvSide.ahead (r : RecvSide) (seg : Segment) : Nat := (seg.sn - r.nxt).toNat

/-- The receive queue is within the window, and the buffered segments lie in order within the window
from the next number on. -/
structure RecvBound (r : RecvSide) : Prop where
  queue : r.queue.length ≤ 128
  order : (r.buf.map r.ahead).Pairwise (· < ·)
  near : ∀ seg ∈ r.buf, r.ahead seg < 128

theorem mem_insertSegment {new seg : Segment} {buf : List Segment} (h : seg ∈ insertSegment new buf) :
    seg = new ∨ seg ∈ buf := by
  induction buf with
  | nil => exact .inl (List.mem_singleton.mp h)
  | cons first buf ih =>
    rw [insertSegment] at h
    split at h
    · exact .inr h
    · split at h
      · exact List.mem_cons.mp h
      · rcases List.mem_cons.mp h with rfl | h
        · exact .inr (by simp)
        · exact (ih h).imp_right (List.mem_cons_of_mem _)

/-- Whatever order `f` the numbers have among a segment and those of a buffer, a new segment is put
into its place, last segment first. -/
theorem insertSegment_order {f : Segment → Nat} {new : Segment} {buf : List Segment}
    (horder : (buf.map f).Pairwise (· > ·))
    (hsame : ∀ seg ∈ buf, seg.sn = new.sn ↔ f seg = f new)
    (hafter : ∀ seg ∈ buf, 0 < itimediff new.sn seg.sn ↔ f seg < f new) :
    ((insertSegment new buf).map f).Pairwise (· > ·) := by
  induction buf with
  | nil => simp [insertSegment]
  | cons seg buf ih =>
    rw [List.map_cons, List.pairwise_cons] at horder
    have hrest : ∀ s ∈ buf, s ∈ seg :: buf := fun s hs => List.mem_cons_of_mem _ hs
    rw [insertSegment]
    split
    · exact List.pairwise_cons.mpr horder
    · rename_i hne
      split
      · rename_i hlater
        have hlt := (hafter seg (by simp)).mp hlater
        refine List.pairwise_cons.mpr ⟨?_, List.pairwise_cons.mpr horder⟩
        intro a ha
        rcases List.mem_cons.mp ha with rfl | ha
        · exact hlt
        · exact (horder.1 a ha).trans hlt
      · rename_i hearlier
        have hge := (not_congr (hafter seg (by simp))).mp hearlier
        have hneq := (not_congr (hsame seg (by simp))).mp hne
        rw [List.map_cons, List.pairwise_cons]
        refine ⟨?_, ih horder.2 (fun s hs => hsame s (hrest s hs)) fun s hs => hafter s (hrest s hs)⟩
        intro a ha
        obtain ⟨s, hs, rfl⟩ := List.mem_map.mp ha
        rcases mem_insertSegment hs with rfl | hs
        · omega
        · exact horder.1 _ (List.mem_map_of_mem hs)

theorem moveReady_bound {buf : List Segment} {k : Ikcpcb} (hwnd : k.rcvWnd = 128)
    (h : RecvBound ⟨k.rcvNxt, k.rcvQueue, buf⟩) : RecvBound (moveReady buf k).recvSide := by
  induction buf generalizing k with
  | nil => exact h
  | cons seg buf ih =>
    rw [moveReady]
    split
    · rename_i hnext
      obtain ⟨hsn, hroom⟩ := hnext
      have hzero : RecvSide.ahead ⟨k.rcvNxt, k.rcvQueue, seg :: buf⟩ seg = 0 := by
        have hself : k.rcvNxt - k.rcvNxt = 0 := by grind
        rw [RecvSide.ahead, hsn, hself]
        rfl
      have horder := h.order
      rw [List.map_cons, List.pairwise_cons, hzero] at horder
      have hahead : ∀ s ∈ buf, RecvSide.ahead ⟨k.rcvNxt + 1, k.rcvQueue ++ [seg], buf⟩ s =
          RecvSide.ahead ⟨k.rcvNxt, k.rcvQueue, seg :: buf⟩ s - 1 := fun s hs =>
        SerialNumber.toNat_sub_succ (horder.1 _ (List.mem_map_of_mem hs))
      rw [hwnd] at hroom
      refine ih hwnd ⟨?_, ?_, ?_⟩
      · rw [List.length_append]
        exact Nat.succ_le_of_lt hroom
      · have hafter := List.pairwise_map.mp horder.2
        rw [List.map_congr_left hahead, List.pairwise_map]
        refine hafter.imp_of_mem fun {a b} ha hb hlt => ?_
        have hpos := horder.1 _ (List.mem_map_of_mem ha)
        omega
      · intro s hs
        have hnear := h.near s (List.mem_cons_of_mem _ hs)
        rw [hahead s hs]
        omega
    · exact h

/-- A number that passes the checks of `ikcp_parse_data` lies in the receive window. -/
theorem ahead_of_window {nxt sn : UInt32} (hhigh : ¬ 0 ≤ itimediff sn (nxt + 128))
    (hlow : ¬ itimediff sn nxt < 0) : (sn - nxt).toNat < 128 := by
  have hdist : (sn - nxt).toNat < 2 ^ 31 := SerialNumber.diff_nonneg_iff.mp (Int.not_lt.mp hlow)
  have hbase : nxt + 128 - nxt = 128 := by grind
  have hdiff : SerialNumber.diff sn (nxt + 128) = ((sn - nxt).toNat : Int) - (nxt + 128 - nxt).toNat :=
    SerialNumber.diff_offset nxt hdist (by rw [hbase]; decide)
  rw [itimediff, hdiff, hbase] at hhigh
  simp only [UInt32.reduceToNat] at hhigh
  omega

theorem parseData_bound {k : Ikcpcb} {new : Segment} (hwnd : k.rcvWnd = 128) (h : RecvBound k.recvSide) :
    RecvBound (parseData k new).recvSide := by
  unfold parseData
  split
  · exact h
  · rename_i hinside
    rw [not_or, hwnd] at hinside
    have hnew := ahead_of_window hinside.1 hinside.2
    have hold : ∀ seg ∈ k.rcvBuf.reverse, (seg.sn - k.rcvNxt).toNat < 128 := fun seg hseg =>
      h.near seg (List.mem_reverse.mp hseg)
    refine moveReady_bound hwnd ⟨h.queue, ?_, ?_⟩
    · rw [List.map_reverse, List.pairwise_reverse]
      refine insertSegment_order ?_ (fun seg _ => ?_) fun seg hseg => ?_
      · rw [List.map_reverse, List.pairwise_reverse]
        exact h.order
      · constructor
        · intro heq
          rw [RecvSide.ahead, RecvSide.ahead, heq]
        · intro heq
          have hwords : seg.sn - k.rcvNxt = new.sn - k.rcvNxt := UInt32.toNat_inj.mp heq
          grind
      · have hseg := hold seg hseg
        rw [itimediff, SerialNumber.diff_offset k.rcvNxt (by omega) (by omega)]
        simp only [RecvSide.ahead]
        omega
    · intro seg hseg
      rcases mem_insertSegment (List.mem_reverse.mp hseg) with rfl | hseg
      · exact hnew
      · exact hold seg hseg

theorem inputPush_bound {k : Ikcpcb} {seg : Segment} (hwnd : k.rcvWnd = 128) (h : RecvBound k.recvSide) :
    RecvBound (inputPush k seg).recvSide := by
  unfold inputPush
  split
  · dsimp only
    split
    · exact parseData_bound hwnd h
    · exact h
  · exact h

theorem takeMessage_length (queue : List Segment) : (takeMessage queue).2.length ≤ queue.length := by
  induction queue with
  | nil => exact Nat.le_refl _
  | cons seg queue ih =>
    rw [takeMessage]
    split
    · exact Nat.le_succ _
    · exact ih.trans (Nat.le_succ _)

theorem recv_bound {k : Ikcpcb} (cap : Nat) (hwnd : k.rcvWnd = 128) (h : RecvBound k.recvSide) :
    RecvBound (recv k cap).1.recvSide := by
  unfold recv
  split
  · exact h
  · split
    · exact h
    · split
      · exact h
      · have hmove : RecvBound (moveReady k.rcvBuf { k with rcvQueue := (takeMessage k.rcvQueue).2 }).recvSide :=
          moveReady_bound hwnd ⟨(takeMessage_length _).trans h.queue, h.order, h.near⟩
        dsimp only
        split <;> exact hmove

/-! ### One end -/

/-- What holds of an end whatever calls it saw. -/
structure Bounded (conv : UInt32) (k : Ikcpcb) : Prop where
  config : k.config = streamConfig conv
  send : SendBound conv k.sendSide
  recv : RecvBound k.recvSide
  rto : RtoBound k

section Bounded

variable {conv : UInt32} {k k' : Ikcpcb}

theorem Bounded.conv_eq (h : Bounded conv k) : k.conv = conv := congrArg Config.conv h.config

theorem Bounded.mtu_eq (h : Bounded conv k) : k.mtu = 1400 := congrArg Config.mtu h.config

theorem Bounded.mss_eq (h : Bounded conv k) : k.mss = 1376 := congrArg Config.mss h.config

theorem Bounded.sndWnd_eq (h : Bounded conv k) : k.sndWnd = 64 := congrArg Config.sndWnd h.config

theorem Bounded.rcvWnd_eq (h : Bounded conv k) : k.rcvWnd = 128 := congrArg Config.rcvWnd h.config

theorem Bounded.stream_eq (h : Bounded conv k) : k.stream = true := congrArg Config.stream h.config

theorem Bounded.kept (h : Bounded conv k) (hkept : Kept k k') : Bounded conv k' where
  config := hkept.config.trans h.config
  send := hkept.sendSide ▸ h.send
  recv := hkept.recvSide ▸ h.recv
  rto := hkept.rto h.rto

theorem Bounded.sendKept (h : Bounded conv k) (hkept : SendKept k k') (hrecv : RecvBound k'.recvSide) :
    Bounded conv k' where
  config := hkept.config.trans h.config
  send := hkept.sendSide ▸ h.send
  recv := hrecv
  rto := hkept.rto h.rto

theorem Bounded.recvKept (h : Bounded conv k) (hkept : RecvKept k k') (hsend : SendBound conv k'.sendSide) :
    Bounded conv k' where
  config := hkept.config.trans h.config
  send := hsend
  recv := hkept.recvSide ▸ h.recv
  rto := hkept.rto h.rto

theorem create_bounded (conv : UInt32) : Bounded conv (ops.create conv) := by
  have hsend : (ops.create conv).sendSide = ⟨0, 0, [], []⟩ := rfl
  have hrecv : (ops.create conv).recvSide = ⟨0, [], []⟩ := rfl
  have hrto : (ops.create conv).rxRto = 200 := rfl
  refine ⟨rfl, ?_, ?_, ⟨rfl, by rw [hrto]; decide, by rw [hrto]; decide⟩⟩
  · rw [hsend]
    exact ⟨rfl, .nil, by simp, by simp, by simp⟩
  · rw [hrecv]
    exact ⟨by simp, .nil, by simp⟩

/-! #### Sending -/

theorem extendLast_sized {mss : Nat} {queue : List Segment} {buffer : Bytes}
    (h : ∀ seg ∈ queue, seg.frg = 0 ∧ seg.data.length ≤ mss) :
    ∀ seg ∈ (extendLast mss queue buffer).1, seg.frg = 0 ∧ seg.data.length ≤ mss := by
  unfold extendLast
  split
  · exact h
  · rename_i old hlast
    split
    · intro seg hseg
      rcases List.mem_append.mp hseg with hseg | hseg
      · exact h seg (List.mem_of_mem_dropLast hseg)
      · rw [List.mem_singleton.mp hseg]
        refine ⟨rfl, ?_⟩
        simp only [segmentNew, List.length_append, List.length_take]
        omega
    · exact h

theorem fragments_sized (mss count : Nat) (buffer : Bytes) :
    ∀ seg ∈ fragments true mss count buffer, seg.frg = 0 ∧ seg.data.length ≤ mss := by
  induction count generalizing buffer with
  | zero => simp [fragments]
  | succ count ih =>
    intro seg hseg
    rcases List.mem_cons.mp hseg with rfl | hseg
    · exact ⟨rfl, List.length_take_le _ _⟩
    · exact ih _ seg hseg

theorem SendBound.enqueue {s : SendSide} (h : SendBound conv s) {queue : List Segment}
    (hsized : ∀ seg ∈ queue, seg.frg = 0 ∧ seg.data.length ≤ 1376) : SendBound conv { s with queue } where
  una := h.una
  order := h.order
  near := h.near
  pushed := h.pushed
  sized seg hseg := by
    rcases List.mem_append.mp hseg with hseg | hseg
    · exact h.sized seg (List.mem_append_left _ hseg)
    · exact hsized seg hseg

theorem send_bounded (h : Bounded conv k) (buffer : Bytes) : Bounded conv (send k buffer).1 := by
  refine h.recvKept (send_kept k buffer) ?_
  have hsized : ∀ seg ∈ k.sndQueue, seg.frg = 0 ∧ seg.data.length ≤ 1376 := fun seg hseg =>
    h.send.sized seg (List.mem_append_right _ hseg)
  have hextended : ∀ seg ∈ (extendStream k buffer).1, seg.frg = 0 ∧ seg.data.length ≤ 1376 := by
    unfold extendStream
    rw [h.stream_eq, h.mss_eq]
    exact extendLast_sized hsized
  unfold send
  generalize extendStream k buffer = extended at hextended
  obtain ⟨queue, rest, sent⟩ := extended
  dsimp only at hextended ⊢
  split
  · exact h.send.enqueue hextended
  · split
    · exact h.send.enqueue hextended
    · refine h.send.enqueue fun seg hseg => ?_
      rcases List.mem_append.mp hseg with hseg | hseg
      · exact hextended seg hseg
      · rw [h.stream_eq, h.mss_eq] at hseg
        exact fragments_sized _ _ _ seg hseg

/-! #### Reading datagrams -/

theorem inputSegment_bounded {run : InputRun} (h : Bounded conv run.kcp) (seg : Segment) :
    Bounded conv (inputSegment run seg).kcp := by
  have huna := h.recvKept (inputUna_kept run.kcp seg.wnd seg.una) (inputUna_bound seg.wnd seg.una h.send)
  unfold inputSegment
  dsimp only
  split
  · have hkept := inputAck_kept { run with kcp := inputUna run.kcp seg.wnd seg.una } seg
    refine huna.recvKept hkept ?_
    unfold inputAck
    dsimp only
    split
    · exact shrinkAck_bound _ (huna.kept (updateAck_kept _ _)).send
    · exact shrinkAck_bound _ huna.send
  · split
    · exact huna.sendKept (inputPush_kept _ _) (inputPush_bound huna.rcvWnd_eq huna.recv)
    · split
      · exact huna.kept ⟨rfl, rfl, rfl, rfl, fun h => ⟨h.minrto, h.low, h.high⟩⟩
      · exact huna

theorem inputLoop_bounded {run : InputRun} (h : Bounded conv run.kcp) (turns : Nat) (data : Bytes) :
    Bounded conv (inputLoop turns run data).1.kcp := by
  induction turns generalizing run data with
  | zero => exact h
  | succ turns ih =>
    rw [inputLoop]
    split
    · exact h
    · dsimp only
      split
      · exact h
      · split
        · exact h
        · split
          · exact h
          · exact ih (inputSegment_bounded h _) _

theorem inputDone_bounded {run : InputRun} (h : Bounded conv run.kcp) (prevUna : UInt32) :
    Bounded conv (inputDone prevUna run) := by
  refine h.recvKept (inputDone_kept prevUna run) ?_
  have hpass := passAcked_bound h.send
  unfold inputDone
  dsimp only
  split
  · rw [(growCwnd_kept _).sendSide]
    exact hpass
  · exact hpass

/-- No datagram breaks the bounds. -/
theorem input_bounded (h : Bounded conv k) (data : Bytes) : Bounded conv (input k data).1 := by
  have hloop : Bounded conv (inputLoop data.length ⟨k, none⟩ data).1.kcp := inputLoop_bounded h data.length data
  unfold input
  split
  · exact h
  · dsimp only
    split
    · exact inputDone_bounded hloop _
    · exact hloop

theorem recv_bounded (h : Bounded conv k) (cap : Nat) : Bounded conv (recv k cap).1 :=
  h.sendKept (recv_kept k cap).1 (recv_bound cap h.rcvWnd_eq h.recv)

/-! #### Flushing -/

theorem sendWindow_le (h : k.sndWnd = 64) : (sendWindow k).toNat ≤ 64 := by
  have hmin : ∀ a b : UInt32, (min a b).toNat ≤ a.toNat ∧ (min a b).toNat ≤ b.toNat := by
    intro a b
    have hdef : min a b = if a ≤ b then a else b := rfl
    rw [hdef]
    split
    · rename_i hle
      exact ⟨Nat.le_refl _, UInt32.le_iff_toNat_le.mp hle⟩
    · rename_i hle
      rw [UInt32.le_iff_toNat_le] at hle
      exact ⟨by omega, Nat.le_refl _⟩
  have hwindow := (hmin k.sndWnd k.rmtWnd).1
  rw [h] at hwindow
  unfold sendWindow
  rw [h]
  dsimp only
  split
  · exact hwindow
  · exact (hmin _ _).2.trans hwindow

theorem flushFill_bounded (h : Bounded conv k) : Bounded conv (flushFill k) :=
  h.recvKept (fillWindow_kept _ _ _ _).1
    (fillWindow_bound h.conv_eq (sendWindow_le h.sndWnd_eq) h.send)

theorem flushControl_bounded (h : Bounded conv k) : Bounded conv (flushControl k).1 := by
  have hcleared : Bounded conv { k with acklist := [] } :=
    ⟨h.config, h.send, h.recv, ⟨h.rto.minrto, h.rto.low, h.rto.high⟩⟩
  exact hcleared.kept (flushControl_kept k)

theorem flushData_bounded (h : Bounded conv k) (out : Output) : Bounded conv (flushData k out).1 where
  config := h.config
  send := h.send.resent (flushSegments_core _ _ _ _)
  recv := h.recv
  rto := ⟨h.rto.minrto, h.rto.low, h.rto.high⟩

theorem flush_bounded (h : Bounded conv k) : Bounded conv (flush k).1 := by
  unfold flush
  split
  · exact h
  · exact (flushData_bounded (flushFill_bounded (flushControl_bounded h)) _).kept (settleCwnd_kept _ _ _)

theorem update_bounded (h : Bounded conv k) (current : UInt32) : Bounded conv (update k current).1 := by
  obtain ⟨k', hkept, hsame | hflush⟩ := update_cases k current
  · rw [hsame]
    exact h.kept hkept
  · rw [hflush]
    exact flush_bounded (h.kept hkept)

end Bounded

/-! ### Any calls -/

/-- The states that calls in any order reach, with whatever datagrams and times. -/
inductive Operated (conv : UInt32) : Ikcpcb → Prop where
  | create : Operated conv (ops.create conv)
  | send {k : Ikcpcb} (before : Operated conv k) (buffer : Bytes) : Operated conv (send k buffer).1
  | input {k : Ikcpcb} (before : Operated conv k) (data : Bytes) : Operated conv (input k data).1
  | update {k : Ikcpcb} (before : Operated conv k) (current : UInt32) : Operated conv (update k current).1
  | recv {k : Ikcpcb} (before : Operated conv k) (cap : Nat) : Operated conv (recv k cap).1

theorem Operated.bounded {conv : UInt32} {k : Ikcpcb} (h : Operated conv k) : Bounded conv k := by
  induction h with
  | create => exact create_bounded conv
  | send before buffer ih => exact send_bounded ih buffer
  | input before data ih => exact input_bounded ih data
  | update before current ih => exact update_bounded ih current
  | recv before cap ih => exact recv_bounded ih cap

theorem length_le_of_order {α : Type} {buf : List α} {f : α → Nat} {bound : Nat}
    (horder : (buf.map f).Pairwise (· ≠ ·)) (hbound : ∀ a ∈ buf, f a < bound) : buf.length ≤ bound := by
  have hsub : buf.map f ⊆ List.range bound := by
    intro n hn
    obtain ⟨a, ha, rfl⟩ := List.mem_map.mp hn
    exact List.mem_range.mpr (hbound a ha)
  have hlength := (List.subperm_of_subset horder hsub).length_le
  rwa [List.length_map, List.length_range] at hlength

/-- Whatever the peer sends, an end holds no more than its windows and keeps its retransmission time
between its bounds. -/
theorem windows_bounded {conv : UInt32} {k : Ikcpcb} (h : Operated conv k) :
    k.sndBuf.length ≤ 64 ∧ k.rcvQueue.length ≤ 128 ∧ k.rcvBuf.length ≤ 128 ∧
      100 ≤ k.rxRto.toInt ∧ k.rxRto.toInt ≤ 60000 := by
  have hbounded := h.bounded
  have hsend : k.sndBuf.length ≤ 64 := by
    have hdistinct : (k.sndBuf.map fun seg => k.sendSide.behind seg - 1).Pairwise (· ≠ ·) := by
      rw [List.pairwise_map]
      refine (List.pairwise_map.mp hbounded.send.order).imp_of_mem fun {a b} ha hb hlt => ?_
      have hpos := (hbounded.send.near b hb).1
      omega
    refine length_le_of_order hdistinct fun seg hseg => ?_
    have hnear := hbounded.send.near seg hseg
    omega
  have hrecv : k.rcvBuf.length ≤ 128 :=
    length_le_of_order (hbounded.recv.order.imp Nat.ne_of_lt) hbounded.recv.near
  exact ⟨hsend, hbounded.recv.queue, hrecv, hbounded.rto.low, hbounded.rto.high⟩

/-- A segment of a stranger that knows the identifier of the session. -/
def forgedSegment : Segment where
  conv := 7
  cmd := cmdPush
  frg := 0
  wnd := 0
  ts := 0
  sn := 5
  una := 0
  resendts := 0
  rto := 0
  fastack := 0
  xmit := 0
  data := [1]

theorem windows_bounded_flooded :
    let forged := input (send (ops.create 7) [1, 2, 3]).1 (encodeSeg forgedSegment ++ forgedSegment.data)
    forged.2 = 0 ∧ forged.1.rmtWnd = 0 ∧ forged.1.rcvBuf.length = 1 ∧ forged.1.sndBuf.length ≤ 64 ∧
      forged.1.rcvQueue.length ≤ 128 ∧ forged.1.rcvBuf.length ≤ 128 ∧ 100 ≤ forged.1.rxRto.toInt ∧
      forged.1.rxRto.toInt ≤ 60000 := by
  intro forged
  refine ⟨by decide, by decide, by decide, ?_⟩
  exact windows_bounded (.input (.send (.create : Operated 7 _) [1, 2, 3])
    (encodeSeg forgedSegment ++ forgedSegment.data))

/-! ### What goes out -/

theorem wndUnused_le {k : Ikcpcb} (h : k.rcvWnd = 128) : (wndUnused k).toNat ≤ 128 := by
  unfold wndUnused
  rw [h]
  split
  · rename_i hroom
    have hlt : k.rcvQueue.length < 128 := hroom
    rw [UInt32.toNat_sub_of_le]
    · exact Nat.sub_le _ _
    · rw [UInt32.le_iff_toNat_le, UInt32.toNat_ofNat']
      simp only [UInt32.reduceToNat]
      omega
  · exact Nat.zero_le _

/-- The control segments of an end are read by its peer. -/
theorem controlSegment_readable {conv : UInt32} {k : Ikcpcb} (h : Bounded conv k) {sn ts cmd : UInt32}
    (hcmd : cmd = cmdAck ∨ cmd = cmdWask ∨ cmd = cmdWins) :
    Readable conv { controlSegment k with sn, ts, cmd } := by
  have hwnd := wndUnused_le h.rcvWnd_eq
  have hknown : cmd.toNat < 2 ^ 8 ∧ knownCmd cmd = true := by rcases hcmd with rfl | rfl | rfl <;> decide
  have hfrg : (0 : UInt32).toNat < 2 ^ 8 := by decide
  have hdata : ([] : Bytes).length < 2 ^ 31 := by decide
  exact ⟨⟨hknown.1, hfrg, Nat.lt_of_le_of_lt hwnd (by decide), hdata⟩, h.conv_eq, hknown.2⟩

/-- The data segments of an end are read by its peer. -/
theorem resent_readable {conv wnd : UInt32} {k : Ikcpcb} (h : Bounded conv k) (hwnd : wnd.toNat ≤ 128)
    {seg out : Segment} (hseg : seg ∈ k.sndBuf) (hresent : Resent k wnd seg out) : Readable conv out := by
  have hpushed := h.send.pushed seg hseg
  have hsized := h.send.sized seg (List.mem_append_left _ hseg)
  obtain ⟨hconv, hcmd, hfrg, -, hdata⟩ := sameCore hresent.core
  refine ⟨⟨?_, ?_, ?_, ?_⟩, hconv.trans hpushed.1, ?_⟩
  · rw [hcmd, hpushed.2]
    decide
  · rw [hfrg, hsized.1]
    decide
  · rw [hresent.wnd]
    omega
  · rw [hdata]
    omega
  · rw [hcmd, hpushed.2]
    decide

theorem frame_fits {conv : UInt32} {k : Ikcpcb} (h : Bounded conv k) {seg : Segment} (hseg : seg ∈ k.sndBuf) :
    (frame seg).length ≤ 1400 := by
  have hsized := (h.send.sized seg (List.mem_append_left _ hseg)).2
  rw [frame_length]
  simp only [overhead]
  omega

/-- A chunk of the local socket is always taken whole. -/
theorem send_whole {conv : UInt32} {k : Ikcpcb} (h : Bounded conv k) {buffer : Bytes}
    (hsize : buffer.length ≤ bufSize) : (send k buffer).2 = buffer.length := by
  have hrest : ∀ queue : List Segment,
      (extendLast 1376 queue buffer).2.1.length + (extendLast 1376 queue buffer).2.2 = buffer.length := by
    intro queue
    unfold extendLast
    split
    · rfl
    · split
      · simp only [List.length_drop]
        omega
      · rfl
  have hmss : k.mss.toNat = 1376 := by rw [h.mss_eq]; rfl
  have hsum := hrest k.sndQueue
  unfold send extendStream
  rw [h.stream_eq, if_pos rfl, hmss]
  generalize extendLast 1376 k.sndQueue buffer = extended at hsum
  obtain ⟨queue, rest, sent⟩ := extended
  dsimp only at hsum ⊢
  split
  · rename_i hempty
    dsimp only
    omega
  · split
    · rename_i hcount
      have hfew : fragmentCount 1376 rest ≤ 4 := by
        unfold fragmentCount
        simp only [bufSize] at hsize
        split <;> omega
      have hmany : 128 ≤ fragmentCount 1376 rest := hcount
      omega
    · dsimp only
      omega

end Redp2p.Kcp
