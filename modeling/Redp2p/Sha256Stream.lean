import Redp2p.Sha256

/-! The digest contexts of the library with their buffer of 64 bytes, of which the low bits of the count
give the position. They hold what the contexts of `Sha256` hold, whatever the buffer held before. -/

namespace Redp2p

open ByteString

/-- Stores bytes one after the other, from an index on. -/
def writeAt (buf : Bytes) : Nat → Bytes → Bytes
  | _, [] => buf
  | i, b :: rest => writeAt (buf.set i b) (i + 1) rest

@[simp] theorem writeAt_length (buf : Bytes) (i : Nat) (data : Bytes) :
    (writeAt buf i data).length = buf.length := by
  induction data generalizing buf i with
  | nil => rfl
  | cons b rest ih => rw [writeAt, ih, List.length_set]

theorem set_take {buf : Bytes} {i : Nat} (h : i < buf.length) (b : UInt8) :
    (buf.set i b).take (i + 1) = buf.take i ++ [b] := by
  have hset : i < (buf.set i b).length := by rwa [List.length_set]
  rw [List.take_succ_eq_append_getElem hset, List.take_set, List.getElem_set_self,
    List.set_eq_of_length_le (by rw [List.length_take]; omega)]

/-- What the buffer holds up to the end of the bytes that were stored. -/
theorem writeAt_take (buf : Bytes) (i : Nat) (data : Bytes) (h : i + data.length ≤ buf.length) :
    (writeAt buf i data).take (i + data.length) = buf.take i ++ data := by
  induction data generalizing buf i with
  | nil => rw [writeAt, List.length_nil, Nat.add_zero, List.append_nil]
  | cons b rest ih =>
    rw [List.length_cons] at h
    have hend : i + (b :: rest).length = i + 1 + rest.length := by
      rw [List.length_cons]
      omega
    rw [writeAt, hend, ih _ _ (by rw [List.length_set]; omega), set_take (by omega), List.append_assoc,
      List.singleton_append]

theorem writeAt_drop (buf : Bytes) (i : Nat) (data : Bytes) :
    (writeAt buf i data).drop (i + data.length) = buf.drop (i + data.length) := by
  induction data generalizing buf i with
  | nil => rfl
  | cons b rest ih =>
    have hend : i + (b :: rest).length = i + 1 + rest.length := by
      rw [List.length_cons]
      omega
    rw [writeAt, hend, ih, List.drop_set_of_lt (by omega)]

theorem writeAt_eq {buf data : Bytes} {i : Nat} (h : i + data.length ≤ buf.length) :
    writeAt buf i data = buf.take i ++ data ++ buf.drop (i + data.length) := by
  rw [← writeAt_take buf i data h, ← writeAt_drop buf i data, List.take_append_drop]

/-- `redp2p_sha256_t`. -/
structure Sha256Ctx where
  state : Sha256.State
  count : UInt64
  buf : Bytes
  room : buf.length = 64

/-- What an uninitialised buffer holds. -/
structure Stale where
  buf : Bytes
  room : buf.length = 64

namespace Sha256Ctx

open Sha256 (transform lengthBytes wordBytes)

/-- The place of the next byte in the buffer. -/
def pos (ctx : Sha256Ctx) : Nat := (ctx.count &&& 63).toNat

def init (stale : Stale) : Sha256Ctx where
  state := Sha256.init.state
  count := 0
  buf := stale.buf
  room := stale.room

def updateByte (ctx : Sha256Ctx) (b : UInt8) : Sha256Ctx :=
  let buf := ctx.buf.set ctx.pos b
  let count := ctx.count + 1
  { state := if count &&& 63 == 0 then transform ctx.state buf else ctx.state
    count := count
    buf := buf
    room := by rw [List.length_set, ctx.room] }

def update (ctx : Sha256Ctx) (data : Bytes) : Sha256Ctx := data.foldl updateByte ctx

def final (ctx : Sha256Ctx) : Bytes :=
  let bits := ctx.count * 8
  let buf := writeAt ctx.buf ctx.pos [0x80]
  let idx := ctx.pos + 1
  let filled := writeAt buf idx (List.replicate (64 - idx) 0)
  let (state, buf, idx) := if idx > 56 then (transform ctx.state filled, filled, 0) else (ctx.state, buf, idx)
  let buf := writeAt buf idx (List.replicate (56 - idx) 0)
  let buf := writeAt buf 56 (lengthBytes bits)
  (transform state buf).words.flatMap wordBytes

end Sha256Ctx

/-- `redp2p_hmac_sha256`. The context is initialised up to three times, each time over an old buffer. -/
def hmacSha256Ctx (stale : Fin 3 → Stale) (key msg : Bytes) : Bytes :=
  let key := cstr key
  let keyBlock :=
    if key.length > 64 then
      writeAt (List.replicate 64 0) 0 ((Sha256Ctx.init (stale 0)).update key).final
    else writeAt (List.replicate 64 0) 0 key
  let ipad := keyBlock.map (· ^^^ 0x36)
  let opad := keyBlock.map (· ^^^ 0x5c)
  let inner := (((Sha256Ctx.init (stale 1)).update ipad).update msg).final
  (((Sha256Ctx.init (stale 2)).update opad).update inner).final

/-! ### What the contexts hold -/

namespace Sha256Ctx

open Sha256 (transform lengthBytes wordBytes)

/-- The context holds the bytes of the unfinished block in front of its position. -/
structure Holds (ctx : Sha256Ctx) (model : Sha256.Ctx) : Prop where
  state : ctx.state = model.state
  count : ctx.count = model.count
  buf : model.buf = ctx.buf.take ctx.pos

theorem pos_eq (ctx : Sha256Ctx) : ctx.pos = ctx.count.toNat % 64 := by
  rw [pos, UInt64.toNat_and, show (63 : UInt64).toNat = 2 ^ 6 - 1 by rfl, Nat.and_two_pow_sub_one_eq_mod]

theorem pos_lt (ctx : Sha256Ctx) : ctx.pos < 64 := by
  rw [pos_eq]
  omega

theorem Holds.length {ctx : Sha256Ctx} {model : Sha256.Ctx} (h : ctx.Holds model) :
    model.buf.length = ctx.pos := by
  have hlt := ctx.pos_lt
  rw [h.buf, List.length_take, ctx.room]
  omega

theorem init_holds (stale : Stale) : (init stale).Holds Sha256.init := by
  refine ⟨rfl, rfl, ?_⟩
  rw [show (init stale).pos = 0 from (pos_eq _).trans rfl, List.take_zero]
  rfl

theorem Holds.updateByte {ctx : Sha256Ctx} {model : Sha256.Ctx} (h : ctx.Holds model) (b : UInt8) :
    (ctx.updateByte b).Holds (Sha256.updateByte model b) := by
  have hpos := ctx.pos_eq
  have hlt := ctx.pos_lt
  have hnext : ((ctx.count + 1) &&& 63).toNat = (ctx.pos + 1) % 64 := by
    rw [UInt64.toNat_and, show (63 : UInt64).toNat = 2 ^ 6 - 1 by rfl, Nat.and_two_pow_sub_one_eq_mod,
      UInt64.toNat_add, UInt64.toNat_one, hpos]
    omega
  have hbuf : model.buf ++ [b] = (ctx.buf.set ctx.pos b).take (ctx.pos + 1) := by
    rw [set_take (by rw [ctx.room]; exact hlt), h.buf]
  have hfull : ((ctx.count + 1) &&& 63 == 0) = true ↔ ctx.pos = 63 := by
    rw [beq_iff_eq, ← UInt64.toNat_inj, hnext, UInt64.toNat_zero]
    omega
  have hmodel : Sha256.updateByte model b =
      if ctx.count + 1 &&& 63 == 0 then ⟨transform model.state (model.buf ++ [b]), ctx.count + 1, []⟩
      else ⟨model.state, ctx.count + 1, model.buf ++ [b]⟩ := by
    rw [Sha256.updateByte, ← h.count]
  have hpos' : (ctx.updateByte b).pos = (ctx.pos + 1) % 64 := hnext
  rw [hmodel]
  by_cases hzero : (ctx.count + 1 &&& 63 == 0) = true
  · have hend := hfull.mp hzero
    have hblock : model.buf ++ [b] = ctx.buf.set ctx.pos b := by
      rw [hbuf, List.take_of_length_le (by rw [List.length_set, ctx.room]; omega)]
    rw [if_pos hzero]
    refine ⟨?_, rfl, ?_⟩
    · rw [hblock, ← h.state]
      exact if_pos hzero
    · rw [hpos', hend]
      exact List.take_zero.symm
  · have hopen : ctx.pos ≠ 63 := fun hend => hzero (hfull.mpr hend)
    rw [if_neg hzero]
    refine ⟨?_, rfl, ?_⟩
    · rw [← h.state]
      exact if_neg hzero
    · rw [hpos', Nat.mod_eq_of_lt (by omega)]
      exact hbuf

theorem Holds.update {ctx : Sha256Ctx} {model : Sha256.Ctx} (h : ctx.Holds model) (data : Bytes) :
    (ctx.update data).Holds (Sha256.update model data) := by
  induction data generalizing ctx model with
  | nil => exact h
  | cons b data ih => exact ih (h.updateByte b)

/-- The digest does not depend on what the buffer held before. -/
theorem Holds.final {ctx : Sha256Ctx} {model : Sha256.Ctx} (h : ctx.Holds model) :
    ctx.final = Sha256.final model := by
  have hlt := ctx.pos_lt
  have hlength : (model.buf ++ [0x80]).length = ctx.pos + 1 := by
    rw [List.length_append, h.length, List.length_singleton]
  have hone : (writeAt ctx.buf ctx.pos [0x80]).take (ctx.pos + 1) = model.buf ++ [0x80] := by
    rw [h.buf]
    exact writeAt_take ctx.buf ctx.pos [0x80] (by rw [ctx.room]; exact hlt)
  -- The last block, whatever it holds behind the bytes in front of `idx`.
  have hlast : ∀ (buf : Bytes) (idx : Nat), buf.length = 64 → idx ≤ 56 →
      writeAt (writeAt buf idx (List.replicate (56 - idx) 0)) 56 (lengthBytes (ctx.count * 8)) =
        buf.take idx ++ List.replicate (56 - idx) 0 ++ lengthBytes (ctx.count * 8) := by
    intro buf idx hbuf hidx
    have hzeros := writeAt_take buf idx (List.replicate (56 - idx) 0)
      (by rw [List.length_replicate, hbuf]; omega)
    rw [List.length_replicate, Nat.add_sub_cancel' hidx] at hzeros
    have hbits := writeAt_take (writeAt buf idx (List.replicate (56 - idx) 0)) 56 (lengthBytes (ctx.count * 8))
      (by rw [writeAt_length, hbuf]; rfl)
    rw [hzeros, List.take_of_length_le (by rw [writeAt_length, writeAt_length, hbuf]; rfl)] at hbits
    exact hbits
  unfold Sha256Ctx.final Sha256.final
  dsimp only
  rw [hlength, ← h.count, ← h.state]
  by_cases hlong : ctx.pos + 1 > 56
  · have hfilled : writeAt (writeAt ctx.buf ctx.pos [0x80]) (ctx.pos + 1)
        (List.replicate (64 - (ctx.pos + 1)) 0) =
          model.buf ++ [0x80] ++ List.replicate (64 - (ctx.pos + 1)) 0 := by
      have hzeros := writeAt_take (writeAt ctx.buf ctx.pos [0x80]) (ctx.pos + 1)
        (List.replicate (64 - (ctx.pos + 1)) 0) (by rw [List.length_replicate, writeAt_length, ctx.room]; omega)
      rwa [hone, List.take_of_length_le (by simp [ctx.room]; omega)] at hzeros
    rw [if_pos hlong, if_pos hlong]
    dsimp only
    rw [hfilled, hlast _ 0 (by simp [h.length]; omega) (Nat.zero_le _), List.take_zero]
    rfl
  · rw [if_neg hlong, if_neg hlong]
    dsimp only
    rw [hlast _ _ (by rw [writeAt_length, ctx.room]) (by omega), hone, hlength]

/-- A message in any pieces. -/
theorem final_pieces (stale : Stale) (pieces : List Bytes) :
    (pieces.foldl update (init stale)).final = sha256 pieces.flatten := by
  have hholds : ∀ (pieces : List Bytes) {ctx : Sha256Ctx} {model : Sha256.Ctx}, ctx.Holds model →
      (pieces.foldl update ctx).Holds (Sha256.update model pieces.flatten) := by
    intro pieces
    induction pieces with
    | nil => exact fun h => h
    | cons piece pieces ih =>
      intro ctx model h
      rw [List.flatten_cons, Sha256.update_append]
      exact ih (h.update piece)
  exact (hholds pieces (init_holds stale)).final

end Sha256Ctx

/-- HMAC does not depend on the old buffers. -/
theorem hmacSha256Ctx_eq (stale : Fin 3 → Stale) {key : Bytes} (hkey : ∀ b ∈ key, b ≠ 0) (msg : Bytes) :
    hmacSha256Ctx stale key msg = hmacSha256 key msg := by
  have hblock : ∀ short : Bytes, short.length ≤ 64 →
      writeAt (List.replicate 64 0) 0 short = short ++ List.replicate (64 - short.length) 0 := by
    intro short hshort
    rw [writeAt_eq (by rw [List.length_replicate]; omega), List.take_zero, List.nil_append, List.drop_replicate,
      Nat.zero_add]
  have hdigest : ∀ (old : Stale) (data : Bytes), ((Sha256Ctx.init old).update data).final = sha256 data :=
    fun old data => ((Sha256Ctx.init_holds old).update data).final
  have hkeyed : ∀ (old : Stale) (front back : Bytes),
      (((Sha256Ctx.init old).update front).update back).final =
        Sha256.final (Sha256.update (Sha256.update Sha256.init front) back) :=
    fun old front back => (((Sha256Ctx.init_holds old).update front).update back).final
  unfold hmacSha256Ctx hmacSha256
  rw [cstr_eq_self hkey]
  dsimp only
  simp only [hkeyed, hdigest]
  by_cases hlong : key.length > 64
  · rw [if_pos hlong, if_pos hlong, hblock _ (by simp [sha256])]
  · rw [if_neg hlong, if_neg hlong, hblock _ (Nat.not_lt.mp hlong)]

end Redp2p
