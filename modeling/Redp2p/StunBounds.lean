import Redp2p.Stun
import Mathlib.Data.List.GetD

/-! The reads of the STUN functions: they look at no byte behind those that were received, and the walk over
the attributes ends. -/

namespace Redp2p

open ByteString

/-! ### Checked reads -/

/-- A read behind the bytes that were received, or a walk that takes more turns than there are bytes. -/
inductive ReadFault where
  | outside (index : Nat)
  | endless
  deriving DecidableEq

/-- The byte at an index of a buffer of which `len` bytes were received. -/
def byteAt (buf : Bytes) (len i : Nat) : Except ReadFault UInt8 :=
  if i < len then .ok (buf.getD i 0) else .error (.outside i)

def read16 (buf : Bytes) (len o : Nat) : Except ReadFault Nat := do
  let high ← byteAt buf len o
  let low ← byteAt buf len (o + 1)
  return high.toNat * 256 + low.toNat

def read32 (buf : Bytes) (len o : Nat) : Except ReadFault UInt32 := do
  let b3 ← byteAt buf len o
  let b2 ← byteAt buf len (o + 1)
  let b1 ← byteAt buf len (o + 2)
  let b0 ← byteAt buf len (o + 3)
  return (b3.toUInt32 <<< 24) ||| (b2.toUInt32 <<< 16) ||| (b1.toUInt32 <<< 8) ||| b0.toUInt32

/-- `memcpy` out of the buffer. -/
def readBytes (buf : Bytes) (len o : Nat) : Nat → Except ReadFault Bytes
  | 0 => .ok []
  | n + 1 => do
    let b ← byteAt buf len o
    let rest ← readBytes buf len (o + 1) n
    return b :: rest

/-- `redp2p_stun_hdr`, read by read. -/
def stunHdrReads (buf : Bytes) (len : Nat) : Except ReadFault (Option (Nat × Bytes)) :=
  if len < 20 then .ok none
  else do
    let mg ← read32 buf len 4
    if mg ≠ stunMagic then return none
    let msgLen ← read16 buf len 2
    if msgLen % 4 ≠ 0 then return none
    if 20 + msgLen > len then return none
    let mt ← read16 buf len 0
    let id ← readBytes buf len 8 12
    return some (mt, id)

/-- The loop of `redp2p_stun_find`, read by read. -/
def stunFindReads (buf : Bytes) (len t : Nat) : Nat → Nat → Except ReadFault (Option (Nat × Nat))
  | 0, o => if o + 4 > len then .ok none else .error .endless
  | turns + 1, o =>
    if o + 4 > len then .ok none
    else do
      let at' ← read16 buf len o
      let av ← read16 buf len (o + 2)
      let pad := if av % 4 = 0 then 0 else 4 - av % 4
      if o + 4 + av > len then return none
      if at' = t then return some (o + 4, av)
      stunFindReads buf len t turns (o + 4 + av + pad)

/-- `redp2p_stun_rd_xaddr`, read by read. -/
def stunRdXaddrReads (buf : Bytes) (len o al acap : Nat) : Except ReadFault (Option (Bytes × UInt16)) :=
  if al < 8 then .ok none
  else do
    let family ← byteAt buf len (o + 1)
    if family ≠ 1 then return none
    let xp ← read16 buf len (o + 2)
    let xa ← read32 buf len (o + 4)
    return some (boundedCopy acap (dottedText (xa ^^^ stunMagic)),
      UInt16.ofNat xp ^^^ (stunMagic >>> 16).toUInt16)

/-- `redp2p_stun_binding`, read by read. Behind the bytes of the datagram its buffer holds others. -/
def stunBindingReads (server : SockAddr) (txId : Bytes) (acap : Nat) (arrival : Arrival) (others : Bytes) :
    Except ReadFault (Option (Bytes × UInt16)) :=
  let buf := arrival.data.take 4096 ++ others
  let rl := (arrival.data.take 4096).length
  if rl < 20 then .ok none
  else if arrival.source ≠ server then .ok none
  else do
    let hdr ← stunHdrReads buf rl
    match hdr with
    | none => return none
    | some (mt, rxId) =>
      if mt ≠ stunBindingResp then return none
      if rxId ≠ txId then return none
      let found ← stunFindReads buf rl stunAttrXorMappedAddr rl 20
      match found with
      | none => return none
      | some (ao, al) => stunRdXaddrReads buf rl ao al acap

/-! ### The walk -/

theorem byteAt_ok {buf : Bytes} {len i : Nat} (h : i < len) : byteAt buf len i = .ok (buf.getD i 0) := if_pos h

theorem read16_ok {buf : Bytes} {len o : Nat} (h : o + 1 < len) : read16 buf len o = .ok (load16 buf o) := by
  rw [read16, byteAt_ok (by omega), byteAt_ok h]
  rfl

theorem read32_ok {buf : Bytes} {len o : Nat} (h : o + 3 < len) : read32 buf len o = .ok (load32 buf o) := by
  rw [read32, byteAt_ok (by omega), byteAt_ok (by omega), byteAt_ok (by omega), byteAt_ok h]
  rfl

/-- One turn of the walk reads the four bytes of a header that fits. -/
theorem stunFindReads_succ {buf : Bytes} {len t turns o : Nat} (h : o + 4 ≤ len) :
    stunFindReads buf len t (turns + 1) o =
      if o + 4 + load16 buf (o + 2) > len then .ok none
      else if load16 buf o = t then .ok (some (o + 4, load16 buf (o + 2)))
      else stunFindReads buf len t turns (o + 4 + load16 buf (o + 2) +
        if load16 buf (o + 2) % 4 = 0 then 0 else 4 - load16 buf (o + 2) % 4) := by
  rw [stunFindReads, if_neg (by omega), read16_ok (by omega), read16_ok (by omega)]
  rfl

/-- Every turn goes on by at least four bytes. -/
theorem stunFindReads_ends (buf : Bytes) (len t turns o : Nat) (hturns : len ≤ turns + o) :
    ∃ found, stunFindReads buf len t turns o = .ok found := by
  induction turns generalizing o with
  | zero =>
    rw [stunFindReads, if_pos (by omega)]
    exact ⟨none, rfl⟩
  | succ turns ih =>
    by_cases hheader : o + 4 ≤ len
    · rw [stunFindReads_succ hheader]
      split
      · exact ⟨none, rfl⟩
      split
      · exact ⟨_, rfl⟩
      · exact ih _ (by omega)
    · rw [stunFindReads, if_pos (by omega)]
      exact ⟨none, rfl⟩

/-! ### The datagram in its buffer -/

section Datagram

variable (rx others : Bytes)

theorem load16_left {o : Nat} (h : o + 1 < rx.length) : load16 (rx ++ others) o = load16 rx o := by
  unfold load16
  rw [List.getD_append _ _ _ _ (by omega), List.getD_append _ _ _ _ h]

theorem load32_left {o : Nat} (h : o + 3 < rx.length) : load32 (rx ++ others) o = load32 rx o := by
  unfold load32
  rw [List.getD_append _ _ _ _ (by omega), List.getD_append _ _ _ _ (by omega),
    List.getD_append _ _ _ _ (by omega), List.getD_append _ _ _ _ h]

theorem readBytes_left {o n : Nat} (h : o + n ≤ rx.length) :
    readBytes (rx ++ others) rx.length o n = .ok ((rx.drop o).take n) := by
  induction n generalizing o with
  | zero => rfl
  | succ n ih =>
    rw [readBytes, byteAt_ok (by omega), ih (by omega), List.getD_append _ _ _ _ (by omega),
      drop_eq_getD_cons (show o < rx.length by omega)]
    rfl

theorem stunHdrReads_eq : stunHdrReads (rx ++ others) rx.length = .ok (stunHdr rx) := by
  unfold stunHdrReads stunHdr
  split
  · rfl
  · rw [read32_ok (by omega), load32_left _ _ (by omega), read16_ok (by omega), load16_left _ _ (by omega),
      read16_ok (by omega), load16_left _ _ (by omega), readBytes_left _ _ (by omega)]
    simp only [bind, Except.bind, pure, Except.pure]
    repeat' split
    all_goals rfl

theorem stunFindReads_eq (t turns o : Nat) (hturns : rx.length ≤ turns + o) :
    stunFindReads (rx ++ others) rx.length t turns o = .ok (stunFindFrom rx t turns o) := by
  induction turns generalizing o with
  | zero => rw [stunFindReads, if_pos (by omega), stunFindFrom]
  | succ turns ih =>
    unfold stunFindFrom
    by_cases hheader : o + 4 ≤ rx.length
    · rw [stunFindReads_succ hheader, load16_left _ _ (by omega), load16_left _ _ (by omega),
        if_neg (by omega : ¬ o + 4 > rx.length)]
      dsimp only
      split
      · rfl
      split
      · rfl
      · exact ih _ (by omega)
    · rw [stunFindReads, if_pos (by omega), if_pos (by omega)]

/-- What the walk finds lies within the datagram, and so do the reads of its value. -/
theorem stunRdXaddrReads_eq {o al : Nat} (acap : Nat) (h : o + al ≤ rx.length) :
    stunRdXaddrReads (rx ++ others) rx.length o al acap = .ok (stunRdXaddr rx o al acap) := by
  unfold stunRdXaddrReads stunRdXaddr
  split
  · rfl
  · rw [byteAt_ok (by omega), List.getD_append _ _ _ _ (by omega), read16_ok (by omega),
      load16_left _ _ (by omega), read32_ok (by omega), load32_left _ _ (by omega)]
    simp only [bind, Except.bind, pure, Except.pure]
    split
    · rfl
    · rfl

end Datagram

/-- The walk over the attributes ends for every buffer, length and kind of attribute, and neither it nor the
functions around it read a byte behind those that were received: read by read they compute what the server's
answer is taken for. -/
theorem stun_reads_inside :
    (∀ buf len t, ∃ found, stunFindReads buf len t len 20 = .ok found) ∧
      ∀ server txId acap arrival others,
        stunBindingReads server txId acap arrival others = .ok (stunBinding server txId acap arrival) := by
  refine ⟨fun buf len t => stunFindReads_ends buf len t len 20 (by omega), ?_⟩
  intro server txId acap arrival others
  unfold stunBindingReads stunBinding
  dsimp only
  generalize arrival.data.take 4096 = rx
  split
  · rfl
  split
  · rfl
  rw [stunHdrReads_eq]
  simp only [bind, Except.bind, pure, Except.pure]
  cases stunHdr rx with
  | none => rfl
  | some hdr =>
    obtain ⟨mt, rxId⟩ := hdr
    dsimp only
    split
    · rfl
    split
    · rfl
    rw [stunFindReads_eq _ _ _ _ _ (by omega), stunFind]
    cases hfound : stunFindFrom rx stunAttrXorMappedAddr rx.length 20 with
    | none => rfl
    | some found =>
      obtain ⟨ao, al⟩ := found
      have hinside := (stunFindFrom_firstOf rx stunAttrXorMappedAddr rx.length 20 (by omega)).2
      rw [hfound] at hinside
      exact stunRdXaddrReads_eq _ _ _ (hinside (ao, al) rfl)

end Redp2p
