import Redp2p.Sha256Stream
import Redp2p.Lib.BlockStream
import Redp2p.Lib.Fips180

/-! The digests of the library are those of the standards: SHA-256 of FIPS 180-4, with the constants that it
derives from prime numbers, and HMAC of RFC 2104. -/

namespace Redp2p

open ByteString BitString

namespace Sha256

/-! ### Words -/

def State.toWords (s : State) : Fips180.Words :=
  ⟨s.a.toBitVec, s.b.toBitVec, s.c.toBitVec, s.d.toBitVec, s.e.toBitVec, s.f.toBitVec, s.g.toBitVec,
    s.h.toBitVec⟩

theorem bigS0_toBitVec (x : UInt32) : (bigS0 x).toBitVec = Fips180.bigSigma0 x.toBitVec := by
  simp [bigS0, ror, Fips180.bigSigma0, BitVec.rotateRight_def]

theorem bigS1_toBitVec (x : UInt32) : (bigS1 x).toBitVec = Fips180.bigSigma1 x.toBitVec := by
  simp [bigS1, ror, Fips180.bigSigma1, BitVec.rotateRight_def]

theorem smallS0_toBitVec (x : UInt32) : (smallS0 x).toBitVec = Fips180.smallSigma0 x.toBitVec := by
  simp [smallS0, ror, Fips180.smallSigma0, BitVec.rotateRight_def]

theorem smallS1_toBitVec (x : UInt32) : (smallS1 x).toBitVec = Fips180.smallSigma1 x.toBitVec := by
  simp [smallS1, ror, Fips180.smallSigma1, BitVec.rotateRight_def]

theorem ch_toBitVec (x y z : UInt32) : (ch x y z).toBitVec = Fips180.ch x.toBitVec y.toBitVec z.toBitVec := by
  simp [ch, Fips180.ch]

theorem maj_toBitVec (x y z : UInt32) : (maj x y z).toBitVec = Fips180.maj x.toBitVec y.toBitVec z.toBitVec := by
  simp [maj, Fips180.maj]

/-- The table of the library holds the constants of the standard. -/
theorem sha256K_toBitVec {t : Nat} (h : t < 64) : (sha256K.getD t 0).toBitVec = Fips180.k t := by
  have hall : ∀ t < 64, (sha256K.getD t 0).toBitVec = Fips180.k t := by
    simp only [Fips180.k, Fips180.primes_eq]
    decide +kernel
  exact hall t h

theorem init_toWords : init.state.toWords = Fips180.initial := by
  simp only [Fips180.initial, Fips180.primes_eq]
  decide +kernel

/-- A word of four bytes. -/
theorem wordOf_bytes (a b c d : UInt8) :
    ((a.toUInt32 <<< 24) ||| (b.toUInt32 <<< 16) ||| (c.toUInt32 <<< 8) ||| d.toUInt32).toBitVec =
      BitVec.ofNat 32 (toNat (ofBytes [a, b, c, d])) := by
  have ha := a.toNat_lt
  have hb := b.toNat_lt
  have hc := c.toNat_lt
  have hd := d.toNat_lt
  have hshift : ∀ (x : UInt8) (n : UInt32), n.toNat ≤ 24 → (x.toUInt32 <<< n).toNat = x.toNat <<< n.toNat := by
    intro x n hn
    have hx := x.toNat_lt
    have hpow : 2 ^ n.toNat ≤ 2 ^ 24 := Nat.pow_le_pow_right (by decide) hn
    have hmul : x.toNat * 2 ^ n.toNat ≤ 255 * 2 ^ 24 := Nat.mul_le_mul (by omega) hpow
    have hmod : n.toNat % 32 = n.toNat := Nat.mod_eq_of_lt (by omega)
    rw [UInt32.toNat_shiftLeft, UInt8.toNat_toUInt32, hmod, Nat.shiftLeft_eq, Nat.mod_eq_of_lt (by omega)]
  have hsum : ((a.toUInt32 <<< 24) ||| (b.toUInt32 <<< 16) ||| (c.toUInt32 <<< 8) ||| d.toUInt32).toNat =
      a.toNat <<< 24 + (b.toNat <<< 16 + (c.toNat <<< 8 + d.toNat)) := by
    rw [Nat.shiftLeft_add_eq_or_of_lt (by omega), Nat.shiftLeft_add_eq_or_of_lt (by omega),
      Nat.shiftLeft_add_eq_or_of_lt (by omega)]
    simp only [UInt32.toNat_or, Nat.or_assoc, UInt8.toNat_toUInt32]
    rw [hshift a 24 (by decide), hshift b 16 (by decide), hshift c 8 (by decide)]
    rfl
  apply BitVec.eq_of_toNat_eq
  rw [UInt32.toNat_toBitVec, hsum, toNat_ofBytes, BitVec.toNat_ofNat]
  simp only [List.foldl_cons, List.foldl_nil, Nat.shiftLeft_eq]
  omega

/-! ### Blocks -/

/-- The words of a block that the schedule starts with. -/
theorem word_block {block : Bytes} (hblock : block.length = 64) {t : Nat} (ht : t < 16) :
    Fips180.word (ofBytes block) t =
      ((block.getD (t * 4) 0).toUInt32 <<< 24 ||| (block.getD (t * 4 + 1) 0).toUInt32 <<< 16 |||
        (block.getD (t * 4 + 2) 0).toUInt32 <<< 8 ||| (block.getD (t * 4 + 3) 0).toUInt32).toBitVec := by
  have hget : ∀ i (h : i < block.length), block[i] = block.getD i 0 := by
    intro i h
    rw [List.getD_eq_getElem?_getD, List.getElem?_eq_getElem h]
    rfl
  have hfour : (block.drop (4 * t)).take 4 =
      [block.getD (t * 4) 0, block.getD (t * 4 + 1) 0, block.getD (t * 4 + 2) 0, block.getD (t * 4 + 3) 0] := by
    rw [Nat.mul_comm 4 t, List.drop_eq_getElem_cons (by omega), List.drop_eq_getElem_cons (by omega),
      List.drop_eq_getElem_cons (by omega), List.drop_eq_getElem_cons (by omega)]
    simp only [List.take_succ_cons, List.take_zero, hget]
  have hbits : ((ofBytes block).drop (32 * t)).take 32 = ofBytes ((block.drop (4 * t)).take 4) := by
    rw [show 32 * t = 8 * (4 * t) by omega, ofBytes_drop]
    exact ofBytes_take _ 4
  rw [wordOf_bytes, ← hfour, Fips180.word, hbits]

/-- One turn of the loop of the schedule. -/
def extend (w : Array UInt32) (t : Nat) : Array UInt32 :=
  w.push (smallS1 (w.getD (t - 2) 0) + w.getD (t - 7) 0 + smallS0 (w.getD (t - 15) 0) + w.getD (t - 16) 0)

theorem extend_words {m : Nat → Fips180.Word} {first : Array UInt32} (hsize : first.size = 16)
    (hfirst : ∀ t < 16, (first.getD t 0).toBitVec = m t) (n : Nat) :
    ((List.range' 16 n).foldl extend first).size = 16 + n ∧
      ∀ t < 16 + n, (((List.range' 16 n).foldl extend first).getD t 0).toBitVec = Fips180.schedule m t := by
  induction n with
  | zero =>
    refine ⟨hsize, fun t ht => ?_⟩
    rw [Fips180.schedule, if_pos (by omega)]
    exact hfirst t (by omega)
  | succ n ih =>
    rw [List.range'_1_concat, List.foldl_append, List.foldl_cons, List.foldl_nil]
    generalize (List.range' 16 n).foldl extend first = w at ih ⊢
    obtain ⟨hw, hwords⟩ := ih
    have hpush : ∀ x, (w.push x).size = 16 + (n + 1) := by
      intro x
      rw [Array.size_push, hw]
      rfl
    refine ⟨hpush _, fun t ht => ?_⟩
    by_cases hlast : t = 16 + n
    · subst hlast
      have hget : ∀ x, (w.push x).getD (16 + n) 0 = x := by
        intro x
        rw [← hw]
        simp [Array.getD]
      rw [extend, hget, Fips180.schedule, if_neg (by omega)]
      simp only [UInt32.toBitVec_add, smallS0_toBitVec, smallS1_toBitVec]
      rw [hwords _ (by omega), hwords _ (by omega), hwords _ (by omega), hwords _ (by omega)]
    · have hget : ∀ x, (w.push x).getD t 0 = w.getD t 0 := by
        intro x
        have hlt : t < w.size := by omega
        simp [Array.getD, hlt, Array.getElem_push_lt hlt]
        omega
      rw [extend, hget]
      exact hwords t (by omega)

/-- The words that the loop starts with. -/
def firstWords (block : Bytes) : Array UInt32 :=
  ((List.range 16).map fun t => ((block.getD (t * 4) 0).toUInt32 <<< 24) |||
    ((block.getD (t * 4 + 1) 0).toUInt32 <<< 16) ||| ((block.getD (t * 4 + 2) 0).toUInt32 <<< 8) |||
      (block.getD (t * 4 + 3) 0).toUInt32).toArray

theorem schedule_eq (block : Bytes) : schedule block = (List.range' 16 48).foldl extend (firstWords block) := by
  unfold schedule firstWords extend
  rfl

/-- The loop computes the schedule of the standard. -/
theorem schedule_words {block : Bytes} (hblock : block.length = 64) {t : Nat} (ht : t < 64) :
    ((schedule block).getD t 0).toBitVec = Fips180.schedule (Fips180.word (ofBytes block)) t := by
  have hsize : (firstWords block).size = 16 := by simp [firstWords]
  have hfirst : ∀ i < 16, ((firstWords block).getD i 0).toBitVec = Fips180.word (ofBytes block) i := by
    intro i hi
    rw [word_block hblock hi]
    simp [firstWords, Array.getD, hi]
  rw [schedule_eq]
  exact (extend_words hsize hfirst 48).2 t ht

/-- One round, on words of the schedule. -/
theorem round_toWords {w : Array UInt32} {m : Nat → Fips180.Word} {t : Nat} (ht : t < 64)
    (hw : (w.getD t 0).toBitVec = m t) (s : State) :
    (round w s t).toWords = Fips180.step m s.toWords t := by
  simp only [round, State.toWords, Fips180.step, UInt32.toBitVec_add, bigS0_toBitVec, bigS1_toBitVec,
    ch_toBitVec, maj_toBitVec, sha256K_toBitVec ht, hw]

/-- The transform is the compression of the standard. -/
theorem transform_toWords (s : State) {block : Bytes} (hblock : block.length = 64) :
    (transform s block).toWords = Fips180.compress s.toWords (ofBytes block) := by
  have hrounds : ∀ (rounds : List Nat) (s : State), (∀ t ∈ rounds, t < 64) →
      (rounds.foldl (round (schedule block)) s).toWords =
        rounds.foldl (Fips180.step (Fips180.schedule (Fips180.word (ofBytes block)))) s.toWords := by
    intro rounds
    induction rounds with
    | nil => exact fun _ _ => rfl
    | cons t rounds ih =>
      intro s hbound
      obtain ⟨ht, hrest⟩ := List.forall_mem_cons.mp hbound
      rw [List.foldl_cons, List.foldl_cons, ih _ hrest, round_toWords ht (schedule_words hblock ht)]
  have hall := hrounds (List.range 64) s fun t ht => List.mem_range.mp ht
  unfold transform Fips180.compress
  rw [← hall]
  simp only [State.toWords, Fips180.Words.add, UInt32.toBitVec_add, Fips180.Words.mk.injEq]
  simp only [BitVec.add_comm, and_self]

/-! ### The stream -/

open BlockStream (feed chain)

/-- A context takes bytes as a stream of blocks of 64. -/
theorem update_feed (data : Bytes) (ctx : Ctx) (h : ctx.buf.length = ctx.count.toNat % 64) :
    ((update ctx data).state, (update ctx data).buf) = data.foldl (feed 64 transform) (ctx.state, ctx.buf) ∧
      (update ctx data).count.toNat = (ctx.count.toNat + data.length) % 2 ^ 64 := by
  induction data generalizing ctx with
  | nil => exact ⟨rfl, (Nat.mod_eq_of_lt ctx.count.toNat_lt).symm⟩
  | cons b data ih =>
    have hcount : (ctx.count + 1).toNat = (ctx.count.toNat + 1) % 2 ^ 64 := by
      rw [UInt64.toNat_add, UInt64.toNat_one]
    have hlow : ((ctx.count + 1) &&& 63).toNat = (ctx.count.toNat + 1) % 64 := by
      rw [UInt64.toNat_and, show (63 : UInt64).toNat = 2 ^ 6 - 1 by rfl, Nat.and_two_pow_sub_one_eq_mod, hcount]
      omega
    have hfull : ((ctx.count + 1) &&& 63 == 0) = true ↔ ctx.buf.length + 1 = 64 := by
      rw [beq_iff_eq, ← UInt64.toNat_inj, hlow, UInt64.toNat_zero]
      omega
    have hstep : ((updateByte ctx b).state, (updateByte ctx b).buf) =
        feed 64 transform (ctx.state, ctx.buf) b ∧
          (updateByte ctx b).count = ctx.count + 1 ∧
          (updateByte ctx b).buf.length = (ctx.count.toNat + 1) % 64 := by
      unfold updateByte feed
      by_cases hzero : ((ctx.count + 1) &&& 63 == 0) = true
      · have hend := hfull.mp hzero
        rw [if_pos hzero, if_pos hend]
        exact ⟨rfl, rfl, by rw [List.length_nil]; omega⟩
      · have hopen : ¬ ctx.buf.length + 1 = 64 := fun hend => hzero (hfull.mpr hend)
        rw [if_neg hzero, if_neg hopen]
        refine ⟨rfl, rfl, ?_⟩
        rw [List.length_append, List.length_singleton]
        omega
    obtain ⟨hfeed, hnext, hlength⟩ := hstep
    have hposition : (updateByte ctx b).buf.length = (updateByte ctx b).count.toNat % 64 := by
      rw [hlength, hnext, hcount]
      omega
    obtain ⟨hrest, htotal⟩ := ih (updateByte ctx b) hposition
    refine ⟨?_, ?_⟩
    · rw [List.foldl_cons, ← hfeed]
      exact hrest
    · rw [hnext, hcount] at htotal
      refine htotal.trans ?_
      rw [List.length_cons]
      omega

/-- The last blocks are the padding, taken as a stream. -/
theorem final_feed {ctx : Ctx} (hlength : ctx.buf.length < 64) {count : Nat}
    (hfill : (ctx.buf.length + 1 + count) % 64 = 56) (hcount : count < 64) :
    final ctx = ((0x80 :: List.replicate count 0 ++ lengthBytes (ctx.count * 8)).foldl (feed 64 transform)
      (ctx.state, ctx.buf)).1.words.flatMap wordBytes := by
  have hbits : (lengthBytes (ctx.count * 8)).length = 8 := rfl
  have hbuf : (ctx.buf ++ [0x80]).length = ctx.buf.length + 1 := by
    rw [List.length_append, List.length_singleton]
  unfold final
  dsimp only
  rw [hbuf]
  by_cases hlong : ctx.buf.length + 1 > 56
  · have hsplit : 0x80 :: List.replicate count 0 ++ lengthBytes (ctx.count * 8) =
        (0x80 :: List.replicate (64 - (ctx.buf.length + 1)) 0) ++
          (List.replicate 56 0 ++ lengthBytes (ctx.count * 8)) := by
      rw [show count = 64 - (ctx.buf.length + 1) + 56 by omega, List.replicate_add]
      simp
    rw [if_pos hlong, hsplit, List.foldl_append,
      BlockStream.foldl_feed_block (by decide) hlength (by simp; omega),
      BlockStream.foldl_feed_block (by decide) (by decide) (by simp [hbits])]
    simp
  · have hshort : count = 56 - (ctx.buf.length + 1) := by omega
    rw [if_neg hlong, BlockStream.foldl_feed_block (by decide) hlength (by simp [hbits]; omega), hshort]
    dsimp only
    rw [hbuf]
    simp

/-! ### The digest -/

theorem wordBytes_toBitVec (w : UInt32) : Fips180.wordBytes w.toBitVec = wordBytes w := by
  simp only [Fips180.wordBytes, wordBytes, List.cons.injEq, ← UInt8.toNat_inj, UInt8.toNat_ofBitVec,
    BitVec.extractLsb'_toNat, UInt32.toNat_toBitVec, UInt32.toNat_toUInt8, UInt32.toNat_shiftRight,
    UInt32.reduceToNat, Nat.reduceMod, Nat.shiftRight_zero, and_self]

theorem ofByte_shift (bits : UInt64) {shift : UInt64} (h : shift.toNat < 64) :
    ofByte (bits >>> shift).toUInt8 = (List.range 8).map fun i => bits.toNat.testBit (shift.toNat + (7 - i)) := by
  refine List.map_congr_left fun i _ => ?_
  rw [UInt64.toNat_toUInt8, UInt64.toNat_shiftRight, Nat.mod_eq_of_lt h, Nat.testBit_mod_two_pow,
    Nat.testBit_shiftRight, decide_eq_true (by omega), Bool.true_and]

theorem lengthBytes_bits (bits : UInt64) : ofBytes (lengthBytes bits) = Fips180.lengthBits bits.toNat := by
  have hlast : bits.toUInt8 = (bits >>> 0).toUInt8 := by simp
  simp only [lengthBytes, ofBytes, List.flatMap_cons, List.flatMap_nil, hlast]
  rw [ofByte_shift bits (by decide), ofByte_shift bits (by decide), ofByte_shift bits (by decide),
    ofByte_shift bits (by decide), ofByte_shift bits (by decide), ofByte_shift bits (by decide),
    ofByte_shift bits (by decide), ofByte_shift bits (by decide)]
  rfl

/-- Blocks of bits are blocks of bytes. -/
theorem chain_ofBytes (h : Fips180.Words) (text : Bytes) :
    chain 512 Fips180.compress h (ofBytes text) =
      chain 64 (fun h block => Fips180.compress h (ofBytes block)) h text := by
  have hcount : (ofBytes text).length / 512 = text.length / 64 := by
    rw [ofBytes_length]
    omega
  have hblock : ∀ i, ((ofBytes text).drop (512 * i)).take 512 = ofBytes ((text.drop (64 * i)).take 64) := by
    intro i
    rw [show 512 * i = 8 * (64 * i) by omega, ofBytes_drop]
    exact ofBytes_take _ 64
  unfold chain
  simp only [hcount, hblock]

theorem words_bytes (s : State) : s.words.flatMap wordBytes = s.toWords.bytes := by
  simp only [State.words, State.toWords, Fips180.Words.bytes, List.flatMap_cons, List.flatMap_nil,
    wordBytes_toBitVec]

/-- The hash value of the standard, as a chain over the bytes of the padded message. -/
theorem hash_ofBytes {data padded : Bytes} (h : Fips180.pad (ofBytes data) = ofBytes padded) :
    Fips180.hash (ofBytes data) = (chain 64 transform init.state padded).toWords := by
  have hhash : Fips180.hash (ofBytes data) = chain 512 Fips180.compress Fips180.initial (ofBytes padded) := by
    rw [← h]
    rfl
  rw [hhash, chain_ofBytes, ← init_toWords]
  exact (BlockStream.chain_map State.toWords (fun s block => transform_toWords s) init.state padded).symm

end Sha256

open BlockStream (feed chain) in
/-- The digest of the library is that of the standard. -/
theorem sha256_eq (data : Bytes) : sha256 data = Fips180.sha256 data := by
  obtain ⟨hfeed, hcount⟩ := Sha256.update_feed data Sha256.init rfl
  obtain ⟨zeros, hfill, hzeros⟩ : ∃ zeros, (data.length + 1 + zeros) % 64 = 56 ∧ zeros < 64 :=
    ⟨(119 - data.length % 64) % 64, by omega, by omega⟩
  have hbuf : (Sha256.update Sha256.init data).buf.length = data.length % 64 := by
    have hstream : data.foldl (feed 64 Sha256.transform) (Sha256.init.state, []) =
        (chain 64 Sha256.transform Sha256.init.state ([] ++ data),
          ([] ++ data).drop (64 * (([] ++ data).length / 64))) :=
      BlockStream.foldl_feed (by decide) data (by decide)
    rw [(Prod.mk.inj (hfeed.trans hstream)).2, List.length_drop, List.nil_append]
    omega
  have hbits : ofBytes (Sha256.lengthBytes ((Sha256.update Sha256.init data).count * 8)) =
      Fips180.lengthBits (8 * data.length) := by
    have hlength : ((Sha256.update Sha256.init data).count * 8).toNat = 8 * data.length % 2 ^ 64 := by
      rw [UInt64.toNat_mul, hcount]
      show (0 + data.length) % 2 ^ 64 * 8 % 2 ^ 64 = _
      omega
    rw [Sha256.lengthBytes_bits, hlength, Fips180.lengthBits_mod]
  show Sha256.final (Sha256.update Sha256.init data) = _
  generalize Sha256.update Sha256.init data = ctx at hfeed hbuf hbits
  have hpadded : Fips180.pad (ofBytes data) =
      ofBytes (data ++ (0x80 :: List.replicate zeros 0 ++ Sha256.lengthBytes (ctx.count * 8))) := by
    rw [Fips180.pad_ofBytes hfill hzeros, ← hbits, ← ofBytes_append, List.append_assoc]
  have hblocks : 64 ∣ ([] ++ (data ++ (0x80 :: List.replicate zeros 0 ++
      Sha256.lengthBytes (ctx.count * 8)))).length := by
    have hbytes : (Sha256.lengthBytes (ctx.count * 8)).length = 8 := rfl
    simp only [List.nil_append, List.length_append, List.length_cons, List.length_replicate, hbytes]
    omega
  have hchain : (0x80 :: List.replicate zeros 0 ++ Sha256.lengthBytes (ctx.count * 8)).foldl
      (feed 64 Sha256.transform) (ctx.state, ctx.buf) =
        (chain 64 Sha256.transform Sha256.init.state
          (data ++ (0x80 :: List.replicate zeros 0 ++ Sha256.lengthBytes (ctx.count * 8))), []) := by
    rw [hfeed, ← List.foldl_append]
    exact BlockStream.foldl_feed_blocks (by decide) (by decide) hblocks
  rw [Sha256.final_feed (by omega) (by rw [hbuf]; omega) hzeros, hchain, Sha256.words_bytes,
    ← Sha256.hash_ofBytes hpadded]
  rfl

/-- HMAC of the library is that of the standard. -/
theorem hmacSha256_eq (key msg : Bytes) : hmacSha256 key msg = Rfc2104.hmac Fips180.sha256 64 key msg := by
  have hsha : sha256 = Fips180.sha256 := funext sha256_eq
  have hpieces : ∀ front back : Bytes,
      Sha256.final (Sha256.update (Sha256.update Sha256.init front) back) = sha256 (front ++ back) := by
    intro front back
    rw [sha256, Sha256.update_append]
  unfold hmacSha256 Rfc2104.hmac Rfc2104.blockKey
  simp only [hpieces, hsha]

/-- The digests of the library are those of the standards: SHA-256 of FIPS 180-4 for a message in any pieces,
and HMAC-SHA256 of RFC 2104 for every C string as key, whatever the buffers held before. -/
theorem digests_standard :
    (∀ (stale : Stale) (pieces : List Bytes),
      (pieces.foldl Sha256Ctx.update (Sha256Ctx.init stale)).final = Fips180.sha256 pieces.flatten) ∧
    ∀ (stale : Fin 3 → Stale) (key : Bytes), (∀ b ∈ key, b ≠ 0) → ∀ msg : Bytes,
      hmacSha256Ctx stale key msg = Rfc2104.hmac Fips180.sha256 64 key msg := by
  constructor
  · intro stale pieces
    rw [Sha256Ctx.final_pieces, sha256_eq]
  · intro stale key hkey msg
    rw [hmacSha256Ctx_eq stale hkey, hmacSha256_eq]

end Redp2p
