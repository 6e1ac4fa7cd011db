import Redp2p.Sessions

/-! Envelopes as a format: what is packed is read back, and whatever is read as an envelope is the
packing of its fields. -/

namespace Redp2p

open ByteString

/-! ### Words -/

/-- A shifted byte beside what lies below it. -/
theorem or_shiftLeft_eq_add {low high i : Nat} (h : low < 2 ^ i) : low ||| high <<< i = low + high * 2 ^ i := by
  rw [Nat.or_comm, ← Nat.shiftLeft_add_eq_or_of_lt h, Nat.shiftLeft_eq]
  omega

theorem loadU32Le_toNat (a b c d : UInt8) (rest : Bytes) :
    (loadU32Le (a :: b :: c :: d :: rest)).toNat =
      a.toNat + b.toNat * 2 ^ 8 + c.toNat * 2 ^ 16 + d.toNat * 2 ^ 24 := by
  have ha := a.toNat_lt
  have hb := b.toNat_lt
  have hc := c.toNat_lt
  have hd := d.toNat_lt
  have hshift : ∀ (x : UInt8) (i : Nat), i ≤ 24 → x.toNat <<< i % 2 ^ 32 = x.toNat <<< i := by
    intro x i hi
    have hx := x.toNat_lt
    rw [Nat.shiftLeft_eq]
    refine Nat.mod_eq_of_lt ?_
    calc x.toNat * 2 ^ i < 2 ^ 8 * 2 ^ i := Nat.mul_lt_mul_of_pos_right hx (Nat.two_pow_pos i)
      _ ≤ 2 ^ 8 * 2 ^ 24 := Nat.mul_le_mul_left _ (Nat.pow_le_pow_right (by omega) hi)
  simp only [loadU32Le, List.getD_cons_zero, List.getD_cons_succ, UInt32.toNat_or, UInt32.toNat_shiftLeft,
    UInt8.toNat_toUInt32, UInt32.reduceToNat, Nat.reduceMod]
  have hlow : a.toNat ||| b.toNat <<< 8 = a.toNat + b.toNat * 2 ^ 8 := or_shiftLeft_eq_add ha
  have hmiddle : a.toNat + b.toNat * 2 ^ 8 ||| c.toNat <<< 16 =
      a.toNat + b.toNat * 2 ^ 8 + c.toNat * 2 ^ 16 := or_shiftLeft_eq_add (by omega)
  rw [hshift b 8 (by omega), hshift c 16 (by omega), hshift d 24 (by omega), hlow, hmiddle,
    or_shiftLeft_eq_add (by omega)]

/-- A word that is read is the word that was stored. -/
theorem storeU32Le_loadU32Le (a b c d : UInt8) (rest : Bytes) :
    storeU32Le (loadU32Le (a :: b :: c :: d :: rest)) = [a, b, c, d] := by
  have hword := loadU32Le_toNat a b c d rest
  have ha := a.toNat_lt
  have hb := b.toNat_lt
  have hc := c.toNat_lt
  have hd := d.toNat_lt
  generalize loadU32Le (a :: b :: c :: d :: rest) = word at hword
  have hmask : ∀ n : Nat, n &&& 255 = n % 256 := fun n => Nat.and_two_pow_sub_one_eq_mod n 8
  have hbyte : ∀ (n : UInt32) (x : UInt8), n.toNat % 256 = x.toNat → (n &&& 0xff).toUInt8 = x := by
    intro n x hn
    apply UInt8.toNat_inj.mp
    rw [UInt32.toNat_toUInt8, UInt32.toNat_and]
    simp only [UInt32.reduceToNat, hmask]
    omega
  simp only [storeU32Le, List.cons.injEq, and_true]
  refine ⟨hbyte _ _ ?_, hbyte _ _ ?_, hbyte _ _ ?_, hbyte _ _ ?_⟩
  · omega
  all_goals
    simp only [UInt32.toNat_shiftRight, UInt32.reduceToNat, Nat.reduceMod, Nat.shiftRight_eq_div_pow,
      Nat.reducePow]
    omega

/-! ### Fields -/

theorem StreamType.code_ofCode {code : UInt8} {type : StreamType} (h : StreamType.ofCode code = some type) :
    type.code = code := by
  have hfound := List.find?_some h
  simpa using hfound

theorem StreamRole.code_ofCode {code : UInt8} {role : StreamRole} (h : StreamRole.ofCode code = some role) :
    role.code = code := by
  have hfound := List.find?_some h
  simpa using hfound

/-- The types of envelopes are the codes from `HELLO` to `KEEPALIVE`. -/
theorem StreamType.code_range (code : UInt8) :
    (StreamType.hello.code ≤ code ∧ code ≤ StreamType.keepalive.code) ↔ ∃ type : StreamType, type.code = code := by
  constructor
  · rintro ⟨hlow, hhigh⟩
    rw [UInt8.le_iff_toNat_le] at hlow hhigh
    have hcode : code = UInt8.ofNat code.toNat := by simp
    generalize code.toNat = n at hlow hhigh hcode
    subst hcode
    simp only [StreamType.code, UInt8.reduceToNat] at hlow hhigh
    interval_cases n
    exacts [⟨.hello, rfl⟩, ⟨.helloAck, rfl⟩, ⟨.kcp, rfl⟩, ⟨.close, rfl⟩, ⟨.closeAck, rfl⟩, ⟨.reset, rfl⟩,
      ⟨.keepalive, rfl⟩]
  · rintro ⟨type, rfl⟩
    cases type <;> decide

/-- What an envelope of a type can carry. -/
def Carries (type : StreamType) (payload : Bytes) : Prop :=
  payload.length ≤ streamKcpMtu ∧ (type ≠ .kcp → payload = [])

/-- A text of sixteen bytes is the session identifier at its start. -/
theorem sessionIdAt_append {session : Bytes} (h : session.length = 16) (rest : Bytes) :
    (sessionIdAt (session ++ rest)).toList = session := by
  apply List.ext_getElem
  · simp [h]
  · intro i hi hi'
    simp [sessionIdAt, List.getElem?_append_left, hi']

/-- Whatever is read as an envelope is the frame of its fields. -/
theorem streamUnpack_eq_some {buf : Bytes} {e : Envelope} (h : streamUnpack buf = some e) :
    buf = streamFrame e.type e.role e.sessionId e.payload ∧ e.protocol = UInt8.ofNat protoTcp ∧
      Carries e.type e.payload := by
  unfold streamUnpack at h
  split at h
  · cases h
  rename_i hbounds
  simp only [not_or, Nat.not_lt, gt_iff_lt, streamMaxFrame, streamEnvelopeSz] at hbounds
  split at h
  · cases h
  rename_i hheader
  simp only [not_or, ne_eq, not_not] at hheader
  obtain ⟨hmagic, hversion, hprotocol⟩ := hheader
  -- The twenty-four bytes before the payload, one by one and as the session identifier.
  rcases buf with _ | ⟨a, _ | ⟨b, _ | ⟨c, _ | ⟨d, _ | ⟨version, _ | ⟨code, _ | ⟨role, _ | ⟨protocol, tail⟩⟩⟩⟩⟩⟩⟩⟩
  iterate 8 exact absurd hbounds.1 (by simp)
  have hstored := storeU32Le_loadU32Le a b c d (version :: code :: role :: protocol :: tail)
  have hbytes : storeU32Le streamMagic = [0x52, 0x4b, 0x43, 0x50] := by decide
  rw [hmagic, hbytes] at hstored
  simp only [List.cons.injEq, and_true] at hstored
  obtain ⟨rfl, rfl, rfl, rfl⟩ := hstored
  simp only [List.getD_cons_succ, List.getD_cons_zero] at hversion hprotocol h
  obtain ⟨session, payload, htail, hsession⟩ :
      ∃ session payload, tail = session ++ payload ∧ session.length = 16 :=
    ⟨tail.take 16, tail.drop 16, (List.take_append_drop 16 tail).symm, by
      simp only [List.length_cons] at hbounds
      rw [List.length_take]
      omega⟩
  subst htail
  split at h
  · rename_i type streamRole htype hrole
    split at h
    · cases h
    rename_i hempty
    obtain rfl := Option.some.inj h
    have hpayload : (0x52 :: 0x4b :: 0x43 :: 0x50 :: version :: code :: role :: protocol ::
        (session ++ payload)).drop streamEnvelopeSz = payload := by
      simp [streamEnvelopeSz, hsession]
    rw [hpayload] at hempty ⊢
    have hid : (sessionIdAt ((0x52 :: 0x4b :: 0x43 :: 0x50 :: version :: code :: role :: protocol ::
        (session ++ payload)).drop 8)).toList = session := sessionIdAt_append hsession payload
    refine ⟨?_, hprotocol, ?_, fun hkcp => ?_⟩
    · rw [streamFrame, hid, StreamType.code_ofCode htype, StreamRole.code_ofCode hrole, hversion, hprotocol]
    · show payload.length ≤ streamKcpMtu
      simp only [List.length_cons, List.length_append] at hbounds
      omega
    · by_contra hne
      exact hempty ⟨hkcp, hne⟩
  · cases h

/-- Every envelope of a type from `HELLO` to `KEEPALIVE` is read back as it was packed, and whatever is
read as an envelope is the packing of what is read: the texts that are accepted are those that packing
makes. -/
theorem envelopes_exact :
    (∀ code : UInt8, (StreamType.hello.code ≤ code ∧ code ≤ StreamType.keepalive.code) ↔
      ∃ type : StreamType, type.code = code) ∧
    (∀ (type : StreamType) (role : StreamRole) (sessionId : SessionId) (payload : Bytes),
      Carries type payload →
        ∃ buf, streamPack type role (UInt8.ofNat protoTcp) sessionId payload = some buf ∧
          streamUnpack buf = some ⟨type, role, UInt8.ofNat protoTcp, sessionId, payload⟩) ∧
    (∀ (buf : Bytes) (e : Envelope), streamUnpack buf = some e →
      Carries e.type e.payload ∧ e.protocol = UInt8.ofNat protoTcp ∧
        streamPack e.type e.role e.protocol e.sessionId e.payload = some buf) ∧
    ∀ buf : Bytes, (streamUnpack buf).isSome = true ↔
      ∃ type role sessionId payload, Carries type payload ∧
        streamPack type role (UInt8.ofNat protoTcp) sessionId payload = some buf := by
  have hpacked : ∀ (type : StreamType) (role : StreamRole) (sessionId : SessionId) (payload : Bytes),
      Carries type payload →
        ∃ buf, streamPack type role (UInt8.ofNat protoTcp) sessionId payload = some buf ∧
          streamUnpack buf = some ⟨type, role, UInt8.ofNat protoTcp, sessionId, payload⟩ :=
    fun type role sessionId payload hcarries =>
      ⟨_, streamPack_frame hcarries.1, streamUnpack_frame hcarries.1 hcarries.2⟩
  have hread : ∀ (buf : Bytes) (e : Envelope), streamUnpack buf = some e →
      Carries e.type e.payload ∧ e.protocol = UInt8.ofNat protoTcp ∧
        streamPack e.type e.role e.protocol e.sessionId e.payload = some buf := by
    intro buf e h
    obtain ⟨hframe, hprotocol, hcarries⟩ := streamUnpack_eq_some h
    refine ⟨hcarries, hprotocol, ?_⟩
    rw [hprotocol, streamPack_frame hcarries.1, ← hframe]
  refine ⟨StreamType.code_range, hpacked, hread, fun buf => ⟨fun h => ?_, ?_⟩⟩
  · obtain ⟨e, he⟩ := Option.isSome_iff_exists.mp h
    obtain ⟨hcarries, hprotocol, hpack⟩ := hread buf e he
    exact ⟨e.type, e.role, e.sessionId, e.payload, hcarries, by rwa [hprotocol] at hpack⟩
  · rintro ⟨type, role, sessionId, payload, hcarries, hpack⟩
    obtain ⟨buf', hpack', hunpack⟩ := hpacked type role sessionId payload hcarries
    obtain rfl := Option.some.inj (hpack.symm.trans hpack')
    rw [hunpack]
    rfl

end Redp2p
