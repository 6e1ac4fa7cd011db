import Redp2p.Lib.Bytes
import Redp2p.Lib.SerialNumber

/-! KCP, the byte channel under the stream tunnel: its segments and their encoding. -/

namespace Redp2p.Kcp

open ByteString

def cmdPush : UInt32 := 81
def cmdAck : UInt32 := 82
def cmdWask : UInt32 := 83
def cmdWins : UInt32 := 84
def overhead : Nat := 24

/-- A segment. Its length field is the length of its data. -/
structure Segment where
  conv : UInt32
  cmd : UInt32
  frg : UInt32
  wnd : UInt32
  ts : UInt32
  sn : UInt32
  una : UInt32
  resendts : UInt32
  rto : UInt32
  fastack : UInt32
  xmit : UInt32
  data : Bytes
  deriving DecidableEq, Repr

def Segment.len (seg : Segment) : UInt32 := UInt32.ofNat seg.data.length

/-- The serial number that `later` is ahead of `earlier`, or minus what it is behind. -/
def itimediff (later earlier : UInt32) : Int := SerialNumber.diff later earlier

/-! ### Numbers on the wire -/

def encode16u (w : UInt16) : Bytes := [(w &&& 255).toUInt8, (w >>> 8).toUInt8]

def decode16u (p : Bytes) : UInt16 := (p.getD 0 0).toUInt16 + ((p.getD 1 0).toUInt16 <<< 8)

def encode32u (l : UInt32) : Bytes :=
  [((l >>> 0) &&& 0xff).toUInt8, ((l >>> 8) &&& 0xff).toUInt8, ((l >>> 16) &&& 0xff).toUInt8,
    ((l >>> 24) &&& 0xff).toUInt8]

def decode32u (p : Bytes) : UInt32 :=
  let l := (p.getD 3 0).toUInt32
  let l := (p.getD 2 0).toUInt32 + (l <<< 8)
  let l := (p.getD 1 0).toUInt32 + (l <<< 8)
  (p.getD 0 0).toUInt32 + (l <<< 8)

/-- The fields that `ikcp_input` reads from the front of a datagram. -/
structure Header where
  conv : UInt32
  cmd : UInt8
  frg : UInt8
  wnd : UInt16
  ts : UInt32
  sn : UInt32
  una : UInt32
  len : UInt32
  deriving DecidableEq, Repr

def decodeHeader (p : Bytes) : Header where
  conv := decode32u p
  cmd := p.getD 4 0
  frg := p.getD 5 0
  wnd := decode16u (p.drop 6)
  ts := decode32u (p.drop 8)
  sn := decode32u (p.drop 12)
  una := decode32u (p.drop 16)
  len := decode32u (p.drop 20)

def encodeSeg (seg : Segment) : Bytes :=
  encode32u seg.conv ++ [seg.cmd.toUInt8] ++ [seg.frg.toUInt8] ++ encode16u seg.wnd.toUInt16 ++
    encode32u seg.ts ++ encode32u seg.sn ++ encode32u seg.una ++ encode32u seg.len

/-- The segment that `ikcp_input` builds from a header and the data after it. -/
def Header.segment (h : Header) (data : Bytes) : Segment where
  conv := h.conv
  cmd := h.cmd.toUInt32
  frg := h.frg.toUInt32
  wnd := h.wnd.toUInt32
  ts := h.ts
  sn := h.sn
  una := h.una
  resendts := 0
  rto := 0
  fastack := 0
  xmit := 0
  data := data

theorem decode16u_encode16u (w : UInt16) (rest : Bytes) : decode16u (encode16u w ++ rest) = w := by
  have hw := w.toNat_lt
  have hmask : w.toNat &&& 255 = w.toNat % 256 := Nat.and_two_pow_sub_one_eq_mod w.toNat 8
  apply UInt16.toNat_inj.mp
  simp only [decode16u, encode16u, List.cons_append, List.nil_append, List.getD_cons_zero,
    List.getD_cons_succ, UInt16.toNat_add, UInt16.toNat_shiftLeft, UInt8.toNat_toUInt16,
    UInt16.toNat_toUInt8, UInt16.toNat_and, UInt16.toNat_shiftRight, UInt16.reduceToNat, hmask,
    Nat.shiftLeft_eq, Nat.shiftRight_eq_div_pow, Nat.reduceMod, Nat.reducePow]
  omega

theorem decode32u_encode32u (l : UInt32) (rest : Bytes) : decode32u (encode32u l ++ rest) = l := by
  have hl := l.toNat_lt
  have hmask : ∀ n : Nat, n &&& 255 = n % 256 := fun n => Nat.and_two_pow_sub_one_eq_mod n 8
  apply UInt32.toNat_inj.mp
  simp only [decode32u, encode32u, List.cons_append, List.nil_append, List.getD_cons_zero,
    List.getD_cons_succ, UInt32.toNat_add, UInt32.toNat_shiftLeft, UInt8.toNat_toUInt32,
    UInt32.toNat_toUInt8, UInt32.toNat_and, UInt32.toNat_shiftRight, UInt32.reduceToNat, hmask,
    Nat.shiftLeft_eq, Nat.shiftRight_eq_div_pow, Nat.reduceMod, Nat.reducePow]
  omega

/-- A segment whose fields fit the widths of the wire. -/
structure Segment.Fits (seg : Segment) : Prop where
  cmd : seg.cmd.toNat < 2 ^ 8
  frg : seg.frg.toNat < 2 ^ 8
  wnd : seg.wnd.toNat < 2 ^ 16
  len : seg.data.length < 2 ^ 31

@[simp] theorem encodeSeg_length (seg : Segment) : (encodeSeg seg).length = overhead := rfl

/-- A header is read back as it was written. -/
theorem decodeHeader_encodeSeg {seg : Segment} (rest : Bytes) :
    decodeHeader (encodeSeg seg ++ rest) =
      ⟨seg.conv, seg.cmd.toUInt8, seg.frg.toUInt8, seg.wnd.toUInt16, seg.ts, seg.sn, seg.una,
        seg.len⟩ := by
  have hconv := decode32u_encode32u seg.conv
  have hwnd := decode16u_encode16u seg.wnd.toUInt16
  have hts := decode32u_encode32u seg.ts
  have hsn := decode32u_encode32u seg.sn
  have huna := decode32u_encode32u seg.una
  have hlen := decode32u_encode32u seg.len
  simp only [encode32u, encode16u, List.cons_append, List.nil_append] at hconv hwnd hts hsn huna hlen
  simp only [decodeHeader, encodeSeg, encode32u, encode16u, List.cons_append, List.nil_append,
    List.drop_succ_cons, List.drop_zero, List.getD_cons_zero, List.getD_cons_succ,
    hconv, hwnd, hts, hsn, huna, hlen]

end Redp2p.Kcp
