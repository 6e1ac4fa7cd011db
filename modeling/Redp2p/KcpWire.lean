import Redp2p.KcpStream

/-! Datagrams of KCP: whatever a flush emits is a sequence of whole segments within the MTU, and the
other end reads back exactly these segments. -/

namespace Redp2p.Kcp

open ByteString

/-- A segment on the wire: its header and its data. -/
def frame (seg : Segment) : Bytes := encodeSeg seg ++ seg.data

/-- What the other end gets of a segment. -/
def Segment.wire (seg : Segment) : Segment := { seg with resendts := 0, rto := 0, fastack := 0, xmit := 0 }

theorem frame_length (seg : Segment) : (frame seg).length = overhead + seg.data.length := by
  rw [frame, List.length_append, encodeSeg_length]

/-- A datagram of segments that satisfy `P`. -/
def Datagram (P : Segment → Prop) (d : Bytes) : Prop :=
  ∃ segs : List Segment, segs ≠ [] ∧ d = segs.flatMap frame ∧ ∀ seg ∈ segs, P seg

theorem Datagram.mono {P Q : Segment → Prop} (hpq : ∀ seg, P seg → Q seg) {d : Bytes}
    (h : Datagram P d) : Datagram Q d := by
  obtain ⟨segs, hne, heq, hall⟩ := h
  exact ⟨segs, hne, heq, fun seg hseg => hpq seg (hall seg hseg)⟩

theorem Datagram.concat {P : Segment → Prop} {d : Bytes} (h : d = [] ∨ Datagram P d) {seg : Segment}
    (hseg : P seg) : Datagram P (d ++ frame seg) := by
  rcases h with rfl | ⟨segs, -, rfl, hall⟩
  · exact ⟨[seg], by simp, by simp, by simpa using hseg⟩
  · refine ⟨segs ++ [seg], by simp, by simp, ?_⟩
    intro s hs
    rcases List.mem_append.mp hs with hs | hs
    · exact hall s hs
    · rw [List.mem_singleton.mp hs]
      exact hseg

/-! ### Reading -/

theorem toInt32_nonneg {len : UInt32} (h : len.toNat < 2 ^ 31) : ¬ len.toInt32 < 0 := by
  rw [Int32.lt_iff_toInt_lt, SerialNumber.toInt_toInt32 h]
  simp

/-- The header before a segment's data gives the segment. -/
theorem header_frame {seg : Segment} (hfits : seg.Fits) (rest : Bytes) :
    (decodeHeader (frame seg ++ rest)).segment seg.data = seg.wire := by
  have hcmd : seg.cmd.toUInt8.toUInt32 = seg.cmd := by
    apply UInt32.toNat_inj.mp
    have hlt := hfits.cmd
    simp only [UInt8.toNat_toUInt32, UInt32.toNat_toUInt8]
    omega
  have hfrg : seg.frg.toUInt8.toUInt32 = seg.frg := by
    apply UInt32.toNat_inj.mp
    have hlt := hfits.frg
    simp only [UInt8.toNat_toUInt32, UInt32.toNat_toUInt8]
    omega
  have hwnd : seg.wnd.toUInt16.toUInt32 = seg.wnd := by
    apply UInt32.toNat_inj.mp
    have hlt := hfits.wnd
    simp only [UInt16.toNat_toUInt32, UInt32.toNat_toUInt16]
    omega
  rw [frame, List.append_assoc, decodeHeader_encodeSeg]
  simp only [Header.segment, Segment.wire, hcmd, hfrg, hwnd]

/-- A segment that the other end takes in: it fits, belongs to the conversation and has a known
command. -/
structure Readable (conv : UInt32) (seg : Segment) : Prop where
  fits : seg.Fits
  conv : seg.conv = conv
  cmd : knownCmd seg.cmd = true

theorem inputLoop_frame {turns : Nat} {run : InputRun} {seg : Segment} {rest : Bytes}
    (h : Readable run.kcp.conv seg) :
    inputLoop (turns + 1) run (frame seg ++ rest) = inputLoop turns (inputSegment run seg.wire) rest := by
  have hheader := header_frame h.fits rest
  have hlen : (decodeHeader (frame seg ++ rest)).len.toNat = seg.data.length := by
    have hlt := h.fits.len
    rw [frame, List.append_assoc, decodeHeader_encodeSeg]
    simp only [Segment.len, UInt32.toNat_ofNat']
    omega
  have hconv : (decodeHeader (frame seg ++ rest)).conv = run.kcp.conv := by
    have hfield := congrArg Segment.conv hheader
    simpa only [Header.segment, Segment.wire, h.conv] using hfield
  have hcmd : (decodeHeader (frame seg ++ rest)).cmd.toUInt32 = seg.cmd := by
    have hfield := congrArg Segment.cmd hheader
    simpa only [Header.segment, Segment.wire] using hfield
  have hlong : ¬ (frame seg ++ rest).length < overhead := by
    rw [List.length_append, frame_length]
    omega
  have hdrop : (frame seg ++ rest).drop overhead = seg.data ++ rest := by
    rw [frame, List.append_assoc, ← encodeSeg_length seg, List.drop_left]
  have hfits : ¬ ((seg.data ++ rest).length < (decodeHeader (frame seg ++ rest)).len.toNat ∨
      (decodeHeader (frame seg ++ rest)).len.toInt32 < 0) := by
    rintro (hshort | hnegative)
    · rw [hlen, List.length_append] at hshort
      omega
    · exact toInt32_nonneg (by rw [hlen]; exact h.fits.len) hnegative
  rw [inputLoop, if_neg hlong]
  simp only [hdrop]
  rw [if_neg (not_not_intro hconv), if_neg hfits, hcmd, h.cmd, hlen, List.take_left, List.drop_left, hheader]
  rfl

/-- The segments of a datagram, taken in one after the other. -/
def inputSegments (run : InputRun) (segs : List Segment) : InputRun :=
  segs.foldl (fun run seg => inputSegment run seg.wire) run

theorem inputLoop_frames {turns : Nat} {run : InputRun} {segs : List Segment} (hturns : segs.length ≤ turns)
    (h : ∀ seg ∈ segs, Readable run.kcp.conv seg) :
    inputLoop turns run (segs.flatMap frame) = (inputSegments run segs, 0) := by
  induction segs generalizing turns run with
  | nil => cases turns <;> rfl
  | cons seg segs ih =>
    obtain ⟨turns, rfl⟩ : ∃ n, turns = n + 1 := ⟨turns - 1, by simp at hturns; omega⟩
    have hconv : (inputSegment run seg.wire).kcp.conv = run.kcp.conv :=
      congrArg Config.conv (inputSegment_config run seg.wire)
    rw [List.flatMap_cons, inputLoop_frame (h seg (by simp)),
      ih (by simpa using hturns) fun s hs => hconv ▸ h s (by simp [hs])]
    rfl

theorem length_le_flatMap_frame (segs : List Segment) : segs.length ≤ (segs.flatMap frame).length := by
  induction segs with
  | nil => simp
  | cons seg segs ih =>
    rw [List.flatMap_cons, List.length_append, frame_length, List.length_cons]
    simp only [overhead]
    omega

/-- A datagram of readable segments is accepted, and each of its segments is taken in. -/
theorem input_frames {k : Ikcpcb} {segs : List Segment} (hne : segs ≠ [])
    (h : ∀ seg ∈ segs, Readable k.conv seg) :
    input k (segs.flatMap frame) = (inputDone k.sndUna (inputSegments ⟨k, none⟩ segs), 0) := by
  have hlong : ¬ (segs.flatMap frame).length < overhead := by
    obtain ⟨seg, segs, rfl⟩ := List.exists_cons_of_ne_nil hne
    rw [List.flatMap_cons, List.length_append, frame_length]
    omega
  rw [input, if_neg hlong, inputLoop_frames (length_le_flatMap_frame segs) h]
  rfl

/-! ### Writing -/

/-- A datagram of segments that satisfy `P`, one of which satisfies `Q`. -/
def Says (P Q : Segment → Prop) (d : Bytes) : Prop :=
  ∃ segs : List Segment, d = segs.flatMap frame ∧ (∀ seg ∈ segs, P seg) ∧ ∃ seg ∈ segs, Q seg

theorem Says.concat {P Q : Segment → Prop} {d : Bytes} (h : Says P Q d) {seg : Segment} (hseg : P seg) :
    Says P Q (d ++ frame seg) := by
  obtain ⟨segs, rfl, hall, said, hsaid, hQ⟩ := h
  refine ⟨segs ++ [seg], by simp, fun s hs => ?_, said, List.mem_append_left _ hsaid, hQ⟩
  rcases List.mem_append.mp hs with hs | hs
  · exact hall s hs
  · rwa [List.mem_singleton.mp hs]

theorem Says.ne_nil {P Q : Segment → Prop} {d : Bytes} (h : Says P Q d) : d ≠ [] := by
  obtain ⟨segs, rfl, -, said, hsaid, -⟩ := h
  obtain ⟨before, after, rfl⟩ := List.append_of_mem hsaid
  intro hnil
  have hlength := congrArg List.length hnil
  rw [List.flatMap_append, List.flatMap_cons, List.length_append, List.length_append, frame_length] at hlength
  simp [overhead] at hlength

namespace Output

/-- What comes from `o` by writing segments that satisfy `P`, each of which fits a datagram. -/
inductive Writes (P : Segment → Prop) (mtu : Nat) (o : Output) : Output → Prop where
  | refl : Writes P mtu o o
  | put {o' : Output} {seg : Segment} (before : Writes P mtu o o') (holds : P seg)
      (fits : (frame seg).length ≤ mtu) : Writes P mtu o (o'.put mtu (frame seg))

theorem Writes.trans {P : Segment → Prop} {mtu : Nat} {o o' o'' : Output} (h : o.Writes P mtu o')
    (h' : o'.Writes P mtu o'') : o.Writes P mtu o'' := by
  induction h' with
  | refl => exact h
  | put _ holds fits ih => exact .put ih holds fits

/-- What waits and what went out are datagrams of segments that satisfy `P`, within the MTU. -/
structure Carries (P : Segment → Prop) (mtu : Nat) (o : Output) : Prop where
  sent : ∀ d ∈ o.sent, Datagram P d ∧ d.length ≤ mtu
  buffer : o.buffer = [] ∨ Datagram P o.buffer
  length : o.buffer.length ≤ mtu

theorem Carries.start (P : Segment → Prop) (mtu : Nat) : Carries P mtu ⟨[], []⟩ :=
  ⟨by simp, .inl rfl, by simp⟩

theorem Carries.emit {P : Segment → Prop} {mtu : Nat} {o : Output} (h : o.Carries P mtu) :
    o.emit.Carries P mtu := by
  refine ⟨?_, .inl rfl, by simp [Output.emit]⟩
  unfold Output.emit
  dsimp only
  split
  · exact h.sent
  · rename_i hne
    intro d hd
    rcases List.mem_append.mp hd with hd | hd
    · exact h.sent d hd
    · rw [List.mem_singleton.mp hd]
      exact ⟨h.buffer.resolve_left hne, h.length⟩

theorem Carries.put {P : Segment → Prop} {mtu : Nat} {o : Output} (h : o.Carries P mtu) {seg : Segment}
    (hseg : P seg) (hfits : (frame seg).length ≤ mtu) : (o.put mtu (frame seg)).Carries P mtu := by
  unfold Output.put
  split
  · exact ⟨h.emit.sent, .inr (.concat h.emit.buffer hseg), by simpa [Output.emit] using hfits⟩
  · rename_i hroom
    refine ⟨h.sent, .inr (.concat h.buffer hseg), ?_⟩
    rw [List.length_append]
    exact Nat.not_lt.mp hroom

theorem Carries.writes {P : Segment → Prop} {mtu : Nat} {o o' : Output} (h : o.Carries P mtu)
    (hwrites : o.Writes P mtu o') : o'.Carries P mtu := by
  induction hwrites with
  | refl => exact h
  | put _ holds fits ih => exact ih.put holds fits

/-- A segment that satisfies `Q` waits or went out, among such that satisfy `P`. -/
def Says (P Q : Segment → Prop) (o : Output) : Prop := (∃ d ∈ o.sent, Kcp.Says P Q d) ∨ Kcp.Says P Q o.buffer

theorem Says.emit {P Q : Segment → Prop} {o : Output} (h : o.Says P Q) : ∃ d ∈ o.emit.sent, Kcp.Says P Q d := by
  unfold Output.emit
  rcases h with ⟨d, hd, hsays⟩ | hsays
  · refine ⟨d, ?_, hsays⟩
    dsimp only
    split
    · exact hd
    · exact List.mem_append_left _ hd
  · rw [if_neg hsays.ne_nil]
    exact ⟨o.buffer, by simp, hsays⟩

theorem Says.put {P Q : Segment → Prop} {mtu : Nat} {o : Output} (h : o.Says P Q) {seg : Segment} (hseg : P seg) :
    (o.put mtu (frame seg)).Says P Q := by
  unfold Output.put
  split
  · exact .inl h.emit
  · exact h.imp_right fun hbuffer => hbuffer.concat hseg

/-- A segment that is written is said. -/
theorem Carries.says {P Q : Segment → Prop} {mtu : Nat} {o : Output} (h : o.Carries P mtu) {seg : Segment}
    (hseg : P seg) (hQ : Q seg) : (o.put mtu (frame seg)).Says P Q := by
  have hconcat : ∀ buffer, buffer = [] ∨ Datagram P buffer → Kcp.Says P Q (buffer ++ frame seg) := by
    rintro buffer (rfl | ⟨segs, -, rfl, hall⟩)
    · exact ⟨[seg], by simp, by simpa using hseg, seg, by simp, hQ⟩
    · refine ⟨segs ++ [seg], by simp, fun s hs => ?_, seg, by simp, hQ⟩
      rcases List.mem_append.mp hs with hs | hs
      · exact hall s hs
      · rwa [List.mem_singleton.mp hs]
  unfold Output.put
  split
  · exact .inr (hconcat _ h.emit.buffer)
  · exact .inr (hconcat _ h.buffer)

theorem Says.writes {P Q : Segment → Prop} {mtu : Nat} {o o' : Output} (h : o.Says P Q)
    (hwrites : o.Writes P mtu o') : o'.Says P Q := by
  induction hwrites with
  | refl => exact h
  | put _ holds _ ih => exact ih.put holds

end Output

theorem frame_control {seg : Segment} (hdata : seg.data = []) : encodeSeg seg = frame seg := by
  rw [frame, hdata, List.append_nil]

theorem flushAcks_writes {P : Segment → Prop} {mtu : Nat} {acklist : List (UInt32 × UInt32)}
    {seg : Segment} {out : Output} (hdata : seg.data = []) (hmtu : overhead ≤ mtu)
    (hacks : ∀ ack ∈ acklist, P { seg with sn := ack.1, ts := ack.2 }) :
    out.Writes P mtu (flushAcks mtu acklist (seg, out)).2 := by
  induction acklist generalizing seg out with
  | nil => exact .refl
  | cons ack acklist ih =>
    rw [flushAcks, frame_control (by exact hdata)]
    have hfirst : out.Writes P mtu (out.put mtu (frame { seg with sn := ack.1, ts := ack.2 })) := by
      refine .put .refl (hacks ack (by simp)) ?_
      rw [frame_length, hdata]
      exact hmtu
    exact hfirst.trans (ih (by exact hdata) fun a ha => hacks a (List.mem_cons_of_mem _ ha))

/-- The segment that carried the acknowledgements, apart from the number and the time of the last. -/
theorem flushAcks_segment (mtu : Nat) (acklist : List (UInt32 × UInt32)) (seg : Segment) (out : Output) :
    ∃ sn ts, (flushAcks mtu acklist (seg, out)).1 = { seg with sn, ts } := by
  induction acklist generalizing seg out with
  | nil => exact ⟨seg.sn, seg.ts, rfl⟩
  | cons ack acklist ih => exact ih _ _

theorem flushProbe_writes {P : Segment → Prop} {mtu : Nat} {probe mask cmd : UInt32} {seg : Segment}
    {out : Output} (hdata : seg.data = []) (hmtu : overhead ≤ mtu) (hseg : P { seg with cmd }) :
    out.Writes P mtu (flushProbe mtu probe mask cmd seg out) := by
  unfold flushProbe
  split
  · rw [frame_control (by exact hdata)]
    refine .put .refl hseg ?_
    rw [frame_length, hdata]
    exact hmtu
  · exact .refl

/-- What a segment of the send buffer keeps while it is resent. -/
def Segment.core (seg : Segment) : Segment :=
  { seg with wnd := 0, ts := 0, una := 0, resendts := 0, rto := 0, fastack := 0, xmit := 0 }

/-- The fields of a segment that its core keeps. -/
structure SameCore (seg seg' : Segment) : Prop where
  conv : seg.conv = seg'.conv
  cmd : seg.cmd = seg'.cmd
  frg : seg.frg = seg'.frg
  sn : seg.sn = seg'.sn
  data : seg.data = seg'.data

theorem sameCore {seg seg' : Segment} (h : seg.core = seg'.core) : SameCore seg seg' where
  conv := (congrArg Segment.conv h :)
  cmd := (congrArg Segment.cmd h :)
  frg := (congrArg Segment.frg h :)
  sn := (congrArg Segment.sn h :)
  data := (congrArg Segment.data h :)

theorem dueSegment_core {k : Ikcpcb} {seg due : Segment} {cause : Cause}
    (h : dueSegment k seg = some (cause, due)) : due.core = seg.core := by
  unfold dueSegment at h
  split at h
  · obtain ⟨rfl, rfl⟩ := Prod.mk.inj (Option.some.inj h)
    rfl
  · split at h
    · obtain ⟨rfl, rfl⟩ := Prod.mk.inj (Option.some.inj h)
      rfl
    · split at h
      · obtain ⟨rfl, rfl⟩ := Prod.mk.inj (Option.some.inj h)
        rfl
      · cases h

/-- A segment as it goes out again: its number, its data and its command are those of the buffer. -/
structure Resent (k : Ikcpcb) (wnd : UInt32) (seg out : Segment) : Prop where
  core : out.core = seg.core
  wnd : out.wnd = wnd
  una : out.una = k.rcvNxt

theorem flushSegment_core (k : Ikcpcb) (wnd : UInt32) (run : SendRun) (seg : Segment) :
    (flushSegment k wnd run seg).2.core = seg.core := by
  unfold flushSegment
  split
  · rfl
  · rename_i cause due hdue
    have hcore := dueSegment_core hdue
    exact hcore

theorem flushSegment_writes {P : Segment → Prop} {k : Ikcpcb} {wnd : UInt32} {run : SendRun}
    {seg : Segment} (hseg : ∀ out, Resent k wnd seg out → P out)
    (hfits : (frame seg).length ≤ k.mtu.toNat) :
    run.out.Writes P k.mtu.toNat (flushSegment k wnd run seg).1.out := by
  unfold flushSegment
  split
  · exact .refl
  · rename_i cause due hdue
    have hcore := dueSegment_core hdue
    refine .put .refl (hseg _ ⟨hcore, rfl, rfl⟩) ?_
    rw [frame_length] at hfits ⊢
    rw [(sameCore hcore).data]
    exact hfits

theorem flushSegments_core (k : Ikcpcb) (wnd : UInt32) (buf : List Segment) (run : SendRun) :
    (flushSegments k wnd buf run).2.map Segment.core = buf.map Segment.core := by
  induction buf generalizing run with
  | nil => rfl
  | cons seg buf ih =>
    rw [flushSegments, List.map_cons, List.map_cons, flushSegment_core, ih]

theorem flushSegments_writes {P : Segment → Prop} {k : Ikcpcb} {wnd : UInt32} {buf : List Segment}
    {run : SendRun} (hbuf : ∀ seg ∈ buf, (∀ out, Resent k wnd seg out → P out) ∧
      (frame seg).length ≤ k.mtu.toNat) :
    run.out.Writes P k.mtu.toNat (flushSegments k wnd buf run).1.out := by
  induction buf generalizing run with
  | nil => exact .refl
  | cons seg buf ih =>
    have hseg := hbuf seg (by simp)
    exact (flushSegment_writes hseg.1 hseg.2).trans (ih fun s hs => hbuf s (List.mem_cons_of_mem _ hs))

/-! ### A whole flush -/

/-- All that a flush can write satisfies `P`. -/
structure Emits (P : Segment → Prop) (k : Ikcpcb) : Prop where
  mtu : overhead ≤ k.mtu.toNat
  acks : ∀ ack ∈ k.acklist, P { controlSegment k with sn := ack.1, ts := ack.2 }
  probes : ∀ sn ts cmd, cmd = cmdWask ∨ cmd = cmdWins → P { controlSegment k with sn, ts, cmd }
  data : ∀ seg ∈ (flushFill (flushControl k).1).sndBuf,
    (∀ out, Resent k (wndUnused k) seg out → P out) ∧ (frame seg).length ≤ k.mtu.toNat

def ackOutput (k : Ikcpcb) : Output := (flushAcks k.mtu.toNat k.acklist (controlSegment k, ⟨[], []⟩)).2

/-- The output of a flush, before its last datagram goes out. -/
def flushOutput (k : Ikcpcb) : Output := (flushData (flushFill (flushControl k).1) (flushControl k).2).2.out

theorem flush_sent {k : Ikcpcb} (h : k.updated = true) : (flush k).2 = (flushOutput k).emit.sent := by
  rw [flush, h]
  rfl

section Emits

variable {P : Segment → Prop} {k : Ikcpcb}

theorem Emits.ackOutput (h : Emits P k) : (ackOutput k).Carries P k.mtu.toNat :=
  (Output.Carries.start P _).writes (flushAcks_writes rfl h.mtu h.acks)

theorem Emits.control (h : Emits P k) : (Kcp.ackOutput k).Writes P k.mtu.toNat (flushControl k).2 := by
  obtain ⟨sn, ts, hseg⟩ := flushAcks_segment k.mtu.toNat k.acklist (controlSegment k) ⟨[], []⟩
  unfold flushControl
  dsimp only
  rw [hseg]
  exact (flushProbe_writes rfl h.mtu (h.probes sn ts _ (.inl rfl))).trans
    (flushProbe_writes rfl h.mtu (h.probes sn ts _ (.inr rfl)))

/-- What the second part of a flush finds unchanged. -/
theorem flushFill_same (k : Ikcpcb) : (flushFill (flushControl k).1).config = k.config ∧
    (flushFill (flushControl k).1).recvSide = k.recvSide ∧ wndUnused (flushFill (flushControl k).1) = wndUnused k := by
  have hcontrol := flushControl_kept k
  have hfill := (fillWindow_kept (wndUnused (flushControl k).1) (sendWindow (flushControl k).1)
    (flushControl k).1.sndQueue (flushControl k).1).1
  have hconfig : (flushFill (flushControl k).1).config = k.config := hfill.config.trans hcontrol.config
  have hrecv : (flushFill (flushControl k).1).recvSide = k.recvSide := hfill.recvSide.trans hcontrol.recvSide
  have hqueue : (flushFill (flushControl k).1).rcvQueue = k.rcvQueue := congrArg RecvSide.queue hrecv
  have hsize : (flushFill (flushControl k).1).rcvWnd = k.rcvWnd := congrArg Config.rcvWnd hconfig
  exact ⟨hconfig, hrecv, by rw [wndUnused, wndUnused, hqueue, hsize]⟩

/-- The segments of the send buffer go out as they are resent. -/
theorem Emits.resent (h : Emits P k) : ∀ seg ∈ (flushFill (flushControl k).1).sndBuf,
    (∀ out, Resent (flushFill (flushControl k).1) (wndUnused (flushFill (flushControl k).1)) seg out → P out) ∧
      (frame seg).length ≤ (flushFill (flushControl k).1).mtu.toNat := by
  obtain ⟨hconfig, hrecv, hwnd⟩ := flushFill_same k
  have hmtu : (flushFill (flushControl k).1).mtu = k.mtu := congrArg Config.mtu hconfig
  intro seg hseg
  rw [hmtu, hwnd]
  refine ⟨fun out hresent => (h.data seg hseg).1 out ⟨hresent.core, hresent.wnd, ?_⟩, (h.data seg hseg).2⟩
  exact hresent.una.trans (congrArg RecvSide.nxt hrecv)

theorem Emits.output (h : Emits P k) : (flushControl k).2.Writes P k.mtu.toNat (flushOutput k) := by
  have hmtu : (flushFill (flushControl k).1).mtu = k.mtu := congrArg Config.mtu (flushFill_same k).1
  have hrun : (⟨(flushControl k).2, 0, false, (flushFill (flushControl k).1).xmit,
      (flushFill (flushControl k).1).state⟩ : SendRun).out.Writes P (flushFill (flushControl k).1).mtu.toNat
        (flushOutput k) := flushSegments_writes h.resent
  rwa [hmtu] at hrun

/-- What the segments of a flush satisfy, so do those of every datagram that it emits. -/
theorem Emits.carries (h : Emits P k) : ∀ d ∈ (flush k).2, Datagram P d ∧ d.length ≤ k.mtu.toNat := by
  cases hupdated : k.updated with
  | false =>
    intro d hd
    rw [flush, hupdated] at hd
    cases hd
  | true =>
    rw [flush_sent hupdated]
    exact ((h.ackOutput.writes h.control).writes h.output).emit.sent

end Emits

end Redp2p.Kcp
