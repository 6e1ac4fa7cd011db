import Mathlib.Data.LawfulXor.Basic
import Redp2p.Envelopes
import Redp2p.Lib.Tlv

/-! STUN: the checks of a message, the walk over its attributes, and the endpoint that an
XOR-MAPPED-ADDRESS attribute names. The walk goes on to the end of the datagram, which may lie behind the
end that the message declares. -/

namespace Redp2p

open ByteString

def stunMagic : UInt32 := 0x2112a442
def stunBindingResp : Nat := 0x0101
def stunAttrXorMappedAddr : Nat := 0x0020

/-! ### Decoding -/

/-- The number in the two bytes at an offset, the high one first. -/
def load16 (buf : Bytes) (o : Nat) : Nat := (buf.getD o 0).toNat * 256 + (buf.getD (o + 1) 0).toNat

/-- The word in the four bytes at an offset, the high one first. -/
def load32 (buf : Bytes) (o : Nat) : UInt32 :=
  ((buf.getD o 0).toUInt32 <<< 24) ||| ((buf.getD (o + 1) 0).toUInt32 <<< 16) |||
    ((buf.getD (o + 2) 0).toUInt32 <<< 8) ||| (buf.getD (o + 3) 0).toUInt32

/-- `redp2p_stun_hdr`: the type and the transaction of a message. -/
def stunHdr (buf : Bytes) : Option (Nat × Bytes) :=
  if buf.length < 20 then none
  else if load32 buf 4 ≠ stunMagic then none
  else if load16 buf 2 % 4 ≠ 0 then none
  else if 20 + load16 buf 2 > buf.length then none
  else some (load16 buf 0, (buf.drop 8).take 12)

/-- The loop of `redp2p_stun_find`: the place and the length of the value. Every turn goes on by at least
four bytes, so the length of the datagram bounds the turns. -/
def stunFindFrom (buf : Bytes) (t : Nat) : Nat → Nat → Option (Nat × Nat)
  | 0, _ => none
  | turns + 1, o =>
    if o + 4 > buf.length then none
    else
      let at' := load16 buf o
      let av := load16 buf (o + 2)
      let pad := if av % 4 = 0 then 0 else 4 - av % 4
      if o + 4 + av > buf.length then none
      else if at' = t then some (o + 4, av)
      else stunFindFrom buf t turns (o + 4 + av + pad)

def stunFind (buf : Bytes) (t : Nat) : Option (Nat × Nat) := stunFindFrom buf t buf.length 20

/-- The text that `printf` writes for an address under `%u.%u.%u.%u`. -/
def dottedText (a : UInt32) : Bytes :=
  decimal ((a >>> 24) &&& 0xff).toNat ++ ascii "." ++ decimal ((a >>> 16) &&& 0xff).toNat ++ ascii "." ++
    decimal ((a >>> 8) &&& 0xff).toNat ++ ascii "." ++ decimal (a &&& 0xff).toNat

/-- `redp2p_stun_rd_xaddr`: the address, as far as it fits a buffer, and the port. -/
def stunRdXaddr (buf : Bytes) (o al acap : Nat) : Option (Bytes × UInt16) :=
  if al < 8 then none
  else if buf.getD (o + 1) 0 ≠ 1 then none
  else
    let xp := UInt16.ofNat (load16 buf (o + 2))
    some (boundedCopy acap (dottedText (load32 buf (o + 4) ^^^ stunMagic)), xp ^^^ (stunMagic >>> 16).toUInt16)

/-- The header check, the search for the attribute and its decoding. -/
def stunChain (buf : Bytes) (acap : Nat) : Option (Bytes × UInt16) := do
  let _ ← stunHdr buf
  let (o, al) ← stunFind buf stunAttrXorMappedAddr
  stunRdXaddr buf o al acap

/-- `redp2p_stun_binding`, once the request is out: what it makes of the datagram that arrives. -/
def stunBinding (server : SockAddr) (txId : Bytes) (acap : Nat) (arrival : Arrival) : Option (Bytes × UInt16) :=
  let rx := arrival.data.take 4096
  if rx.length < 20 then none
  else if arrival.source ≠ server then none
  else
    match stunHdr rx with
    | none => none
    | some (mt, rxId) =>
      if mt ≠ stunBindingResp then none
      else if rxId ≠ txId then none
      else
        match stunFind rx stunAttrXorMappedAddr with
        | none => none
        | some (o, al) => stunRdXaddr rx o al acap

/-! ### Endpoints -/

/-- An IPv4 endpoint. -/
structure StunEndpoint where
  address : Vector UInt8 4
  port : UInt16

/-- The magic cookie, byte by byte. -/
def stunCookie : Bytes := [0x21, 0x12, 0xa4, 0x42]

/-- The text of an endpoint's address. -/
def StunEndpoint.text (e : StunEndpoint) : Bytes :=
  (ascii ".").intercalate (e.address.toList.map fun b => decimal b.toNat)

/-- The value of an XOR-MAPPED-ADDRESS attribute for an endpoint: a reserved byte, the family, and the
port and the address under the cookie. -/
def StunEndpoint.xorValue (e : StunEndpoint) (reserved : UInt8) : Bytes :=
  reserved :: 1 :: (Tlv.twoBytes (e.port ^^^ 0x2112).toNat ++ List.zipWith (· ^^^ ·) e.address.toList stunCookie)

/-- The value of an attribute names an endpoint. -/
def Names (value : Bytes) (e : StunEndpoint) : Prop :=
  ∃ reserved extra, value = e.xorValue reserved ++ extra

/-! ### The walk -/

theorem records_short {text : Bytes} (h : text.length < 4) : Tlv.records text = [] := by
  rw [Tlv.records]
  rintro a b c d rest rfl
  simp only [List.length_cons] at h
  omega

theorem drop_eq_getD_cons {buf : Bytes} {k : Nat} (h : k < buf.length) :
    buf.drop k = buf.getD k 0 :: buf.drop (k + 1) := by
  rw [List.drop_eq_getElem_cons h, List.getD_eq_getElem?_getD, List.getElem?_eq_getElem h]
  rfl

/-- The walk stops where the attributes of the datagram have their first of the kind. -/
theorem stunFindFrom_firstOf (buf : Bytes) (t turns o : Nat) (hturns : buf.length ≤ turns + o) :
    (stunFindFrom buf t turns o).map (fun r => (buf.drop r.1).take r.2) = Tlv.firstOf t (buf.drop o) ∧
      ∀ r ∈ stunFindFrom buf t turns o, r.1 + r.2 ≤ buf.length := by
  induction turns generalizing o with
  | zero =>
    have hshort : (buf.drop o).length < 4 := by
      rw [List.length_drop]
      omega
    rw [Tlv.firstOf, records_short hshort]
    exact ⟨rfl, by simp [stunFindFrom]⟩
  | succ turns ih =>
    unfold stunFindFrom
    by_cases hheader : o + 4 > buf.length
    · have hshort : (buf.drop o).length < 4 := by
        rw [List.length_drop]
        omega
      rw [if_pos hheader, Tlv.firstOf, records_short hshort]
      exact ⟨rfl, by simp⟩
    have hdrop : buf.drop o = buf.getD o 0 :: buf.getD (o + 1) 0 :: buf.getD (o + 2) 0 ::
        buf.getD (o + 3) 0 :: buf.drop (o + 4) := by
      rw [drop_eq_getD_cons (by omega), drop_eq_getD_cons (k := o + 1) (by omega),
        drop_eq_getD_cons (k := o + 2) (by omega), drop_eq_getD_cons (k := o + 3) (by omega)]
    have hlength : (buf.drop (o + 4)).length = buf.length - (o + 4) := List.length_drop
    have hkind : Tlv.number (buf.getD o 0) (buf.getD (o + 1) 0) = load16 buf o := rfl
    have hnumber : Tlv.number (buf.getD (o + 2) 0) (buf.getD (o + 3) 0) = load16 buf (o + 2) := rfl
    have hpad : (if load16 buf (o + 2) % 4 = 0 then 0 else 4 - load16 buf (o + 2) % 4) =
        Tlv.padding (load16 buf (o + 2)) := by
      unfold Tlv.padding
      split <;> omega
    rw [if_neg hheader, Tlv.firstOf, hdrop, Tlv.records]
    simp only [hkind, hnumber, hpad, hlength]
    by_cases hfits : o + 4 + load16 buf (o + 2) > buf.length
    · have hoverrun : buf.length - (o + 4) < load16 buf (o + 2) := by omega
      rw [if_pos hfits, if_pos hoverrun]
      exact ⟨rfl, by simp⟩
    have hinside : ¬ buf.length - (o + 4) < load16 buf (o + 2) := by omega
    rw [if_neg hfits, if_neg hinside]
    by_cases hfound : load16 buf o = t
    · rw [if_pos hfound, List.find?_cons_of_pos (by simpa using hfound)]
      refine ⟨rfl, fun r hr => ?_⟩
      obtain rfl := Option.some.inj hr
      show o + 4 + load16 buf (o + 2) ≤ buf.length
      omega
    · rw [if_neg hfound, List.find?_cons_of_neg (by simpa using hfound), List.drop_drop, ← Nat.add_assoc]
      exact ih _ (by omega)

theorem stunFind_firstOf (buf : Bytes) (t : Nat) :
    (stunFind buf t).map (fun r => (buf.drop r.1).take r.2) = Tlv.firstOf t (buf.drop 20) ∧
      ∀ r ∈ stunFind buf t, r.1 + r.2 ≤ buf.length :=
  stunFindFrom_firstOf buf t buf.length 20 (by omega)

/-! ### The decoding -/

theorem storeU32Le_bytes (v : UInt32) :
    storeU32Le v = [v.toUInt8, (v >>> 8).toUInt8, (v >>> 16).toUInt8, (v >>> 24).toUInt8] := by
  have hmask : ∀ x : UInt32, (x &&& 0xff).toUInt8 = x.toUInt8 := by
    intro x
    rw [UInt32.toUInt8_and]
    exact UInt8.and_neg_one
  simp only [storeU32Le, hmask]

theorem storeU32Le_xor (v w : UInt32) :
    storeU32Le (v ^^^ w) = List.zipWith (· ^^^ ·) (storeU32Le v) (storeU32Le w) := by
  simp only [storeU32Le_bytes, UInt32.shiftRight_xor, UInt32.toUInt8_xor, List.zipWith_cons_cons,
    List.zipWith_nil_left]

theorem load32_bytes (buf : Bytes) (o : Nat) :
    storeU32Le (load32 buf o) =
      [buf.getD (o + 3) 0, buf.getD (o + 2) 0, buf.getD (o + 1) 0, buf.getD o 0] := by
  have hswap : ∀ x y z w : UInt32, x ||| y ||| z ||| w = w ||| z ||| y ||| x := by
    intro x y z w
    ac_rfl
  have hload : load32 buf o =
      loadU32Le [buf.getD (o + 3) 0, buf.getD (o + 2) 0, buf.getD (o + 1) 0, buf.getD o 0] := by
    simp only [load32, loadU32Le, List.getD_cons_zero, List.getD_cons_succ]
    exact hswap _ _ _ _
  rw [hload, storeU32Le_loadU32Le]

/-- The text of an address, from its bytes. -/
theorem dottedText_bytes {a : UInt32} {x y z w : UInt8} (h : storeU32Le a = [w, z, y, x]) :
    dottedText a = (ascii ".").intercalate ([x, y, z, w].map fun b => decimal b.toNat) := by
  have hbyte : ∀ v : UInt32, (v &&& 0xff).toNat = (v &&& 0xff).toUInt8.toNat := by
    intro v
    have hmask : (v &&& 0xff).toNat ≤ 255 := by
      rw [UInt32.toNat_and]
      exact Nat.and_le_right
    rw [UInt32.toNat_toUInt8, Nat.mod_eq_of_lt (by omega)]
  simp only [storeU32Le, List.cons.injEq, and_true] at h
  obtain ⟨hw, hz, hy, hx⟩ := h
  simp only [dottedText, hbyte, hw, hz, hy, hx]
  simp [List.intercalate]

/-- The attribute is decoded from its value alone. -/
theorem stunRdXaddr_value {buf : Bytes} {o al : Nat} (acap : Nat) (h : o + al ≤ buf.length) :
    stunRdXaddr buf o al acap =
      stunRdXaddr ((buf.drop o).take al) 0 ((buf.drop o).take al).length acap := by
  have hlength : ((buf.drop o).take al).length = al := by
    rw [List.length_take, List.length_drop]
    omega
  rw [hlength]
  unfold stunRdXaddr
  by_cases hshort : al < 8
  · rw [if_pos hshort, if_pos hshort]
  have hget : ∀ k, k < 8 → buf.getD (o + k) 0 = ((buf.drop o).take al).getD k 0 := by
    intro k hk
    rw [List.getD_eq_getElem?_getD, List.getD_eq_getElem?_getD, List.getElem?_take_of_lt (by omega),
      List.getElem?_drop]
  simp only [load16, load32, Nat.add_assoc, Nat.reduceAdd, Nat.zero_add, hget 1, hget 2, hget 3, hget 4, hget 5,
    hget 6, hget 7, Nat.reduceLT]

/-- A value that names an endpoint is decoded to that endpoint. -/
theorem stunRdXaddr_names {value : Bytes} {e : StunEndpoint} (acap : Nat) (h : Names value e) :
    stunRdXaddr value 0 value.length acap = some (boundedCopy acap e.text, e.port) := by
  obtain ⟨reserved, extra, rfl⟩ := h
  obtain ⟨address, port⟩ := e
  obtain ⟨x, y, z, w, haddress⟩ : ∃ x y z w, address.toList = [x, y, z, w] := by
    have hfour : address.toList.length = 4 := by simp
    match address.toList, hfour with
    | [x, y, z, w], _ => exact ⟨x, y, z, w, rfl⟩
  have hport := (port ^^^ 0x2112).toNat_lt
  have hvalue : (StunEndpoint.xorValue ⟨address, port⟩ reserved ++ extra : Bytes) =
      reserved :: 1 :: UInt8.ofNat ((port ^^^ 0x2112).toNat / 256) :: UInt8.ofNat ((port ^^^ 0x2112).toNat % 256) ::
        (x ^^^ 0x21) :: (y ^^^ 0x12) :: (z ^^^ 0xa4) :: (w ^^^ 0x42) :: extra := by
    simp [StunEndpoint.xorValue, haddress, stunCookie, Tlv.twoBytes]
  rw [hvalue]
  generalize hbytes : reserved :: 1 :: UInt8.ofNat ((port ^^^ 0x2112).toNat / 256) ::
    UInt8.ofNat ((port ^^^ 0x2112).toNat % 256) ::
      (x ^^^ 0x21) :: (y ^^^ 0x12) :: (z ^^^ 0xa4) :: (w ^^^ 0x42) :: extra = bytes
  have hlong : ¬ bytes.length < 8 := by
    rw [← hbytes]
    simp only [List.length_cons]
    omega
  have hfamily : bytes.getD (0 + 1) 0 = 1 := by rw [← hbytes]; rfl
  have hxport : load16 bytes (0 + 2) = (port ^^^ 0x2112).toNat := by
    rw [← hbytes]
    exact Tlv.number_twoBytes hport
  have hword : storeU32Le (load32 bytes (0 + 4) ^^^ stunMagic) = [w, z, y, x] := by
    have hmagic : storeU32Le stunMagic = [0x42, 0xa4, 0x12, 0x21] := by decide
    rw [storeU32Le_xor, load32_bytes, hmagic, ← hbytes]
    simp
  have hupper : (stunMagic >>> 16).toUInt16 = 0x2112 := by decide
  unfold stunRdXaddr
  rw [if_neg hlong, if_neg (by rw [hfamily]; decide), hxport, dottedText_bytes hword, hupper]
  simp only [UInt16.ofNat_toNat, xor_cancel_right, StunEndpoint.text, haddress]

/-- A value that is decoded names an endpoint. -/
theorem names_of_stunRdXaddr {value : Bytes} {acap : Nat} {result : Bytes × UInt16}
    (h : stunRdXaddr value 0 value.length acap = some result) : ∃ e, Names value e := by
  unfold stunRdXaddr at h
  split at h
  · exact nomatch h
  rename_i hlong
  split at h
  · exact nomatch h
  rename_i hfamily
  have hshape : value = value.getD 0 0 :: value.getD 1 0 :: value.getD 2 0 :: value.getD 3 0 :: value.getD 4 0 ::
      value.getD 5 0 :: value.getD 6 0 :: value.getD 7 0 :: value.drop 8 := by
    rw [← drop_eq_getD_cons (by omega), ← drop_eq_getD_cons (by omega), ← drop_eq_getD_cons (by omega),
      ← drop_eq_getD_cons (by omega), ← drop_eq_getD_cons (by omega), ← drop_eq_getD_cons (by omega),
      ← drop_eq_getD_cons (by omega), ← drop_eq_getD_cons (by omega), List.drop_zero]
  have hfamily : value.getD 1 0 = 1 := not_not.mp hfamily
  rw [hfamily] at hshape
  generalize value.getD 2 0 = high, value.getD 3 0 = low, value.getD 4 0 = x, value.getD 5 0 = y,
    value.getD 6 0 = z, value.getD 7 0 = w at hshape
  have hhigh := high.toNat_lt
  have hlow := low.toNat_lt
  have hport : (UInt16.ofNat (Tlv.number high low) ^^^ 0x2112 ^^^ 0x2112).toNat = Tlv.number high low := by
    rw [xor_cancel_right, UInt16.toNat_ofNat', Nat.mod_eq_of_lt]
    unfold Tlv.number
    omega
  have hbytes : Tlv.twoBytes (Tlv.number high low) = [high, low] := by
    have hdiv : (high.toNat * 256 + low.toNat) / 256 = high.toNat := by omega
    have hmod : (high.toNat * 256 + low.toNat) % 256 = low.toNat := by omega
    simp [Tlv.twoBytes, Tlv.number, hdiv, hmod]
  refine ⟨⟨#v[x ^^^ 0x21, y ^^^ 0x12, z ^^^ 0xa4, w ^^^ 0x42], UInt16.ofNat (Tlv.number high low) ^^^ 0x2112⟩,
    value.getD 0 0, value.drop 8, hshape.trans ?_⟩
  unfold StunEndpoint.xorValue stunCookie
  rw [hport, hbytes]
  simp

/-- The chain decodes the first XOR-MAPPED-ADDRESS attribute that the datagram has behind its header. -/
theorem stunChain_eq (buf : Bytes) (acap : Nat) :
    stunChain buf acap = (stunHdr buf).bind fun _ =>
      (Tlv.firstOf stunAttrXorMappedAddr (buf.drop 20)).bind fun value =>
        stunRdXaddr value 0 value.length acap := by
  obtain ⟨hfirst, hbounds⟩ := stunFind_firstOf buf stunAttrXorMappedAddr
  unfold stunChain
  rw [← hfirst]
  cases stunHdr buf with
  | none => rfl
  | some header =>
    cases hfind : stunFind buf stunAttrXorMappedAddr with
    | none => rfl
    | some found =>
      obtain ⟨o, al⟩ := found
      exact stunRdXaddr_value acap (hbounds (o, al) hfind)

/-! ### The declared message -/

/-- The attributes of a message, up to the end that its header declares. -/
def declaredPart (buf : Bytes) : Bytes := (buf.drop 20).take (load16 buf 2)

/-- Whatever the chain returns is the endpoint that the first XOR-MAPPED-ADDRESS attribute of the declared
message names. -/
def Confined (buf : Bytes) : Prop :=
  ∀ (acap : Nat) (result : Bytes × UInt16), stunChain buf acap = some result →
    ∃ value e, Tlv.firstOf stunAttrXorMappedAddr (declaredPart buf) = some value ∧ Names value e ∧
      result = (boundedCopy acap e.text, e.port)

/-- A message without an XOR-MAPPED-ADDRESS attribute in a longer datagram, whose attributes go on behind
the declared end to one that names an endpoint. -/
def TrailingAttribute (buf : Bytes) : Prop :=
  (stunHdr buf).isSome = true ∧ Tlv.firstOf stunAttrXorMappedAddr (declaredPart buf) = none ∧
    ∃ value e, Tlv.firstOf stunAttrXorMappedAddr (buf.drop 20) = some value ∧ Names value e

theorem confined_iff (buf : Bytes) : Confined buf ↔ ¬ TrailingAttribute buf := by
  constructor
  · rintro hconfined ⟨hheader, hnone, value, e, hvalue, hnames⟩
    obtain ⟨header, hheader⟩ := Option.isSome_iff_exists.mp hheader
    have hchain : stunChain buf 16 = some (boundedCopy 16 e.text, e.port) := by
      rw [stunChain_eq, hheader, hvalue]
      exact stunRdXaddr_names 16 hnames
    obtain ⟨value', _, hdeclared, _⟩ := hconfined 16 _ hchain
    rw [hnone] at hdeclared
    exact nomatch hdeclared
  · intro htrailing acap result hchain
    rw [stunChain_eq] at hchain
    obtain ⟨header, hheader, hchain⟩ := Option.bind_eq_some_iff.mp hchain
    obtain ⟨value, hvalue, hdecoded⟩ := Option.bind_eq_some_iff.mp hchain
    obtain ⟨e, hnames⟩ := names_of_stunRdXaddr hdecoded
    have hresult := (stunRdXaddr_names acap hnames).symm.trans hdecoded
    cases hdeclared : Tlv.firstOf stunAttrXorMappedAddr (declaredPart buf) with
    | none => exact absurd ⟨by rw [hheader]; rfl, hdeclared, value, e, hvalue, hnames⟩ htrailing
    | some value' =>
      -- The walk over the whole datagram begins with the attributes of the declared message.
      have hwhole := Tlv.firstOf_append hdeclared ((buf.drop 20).drop (load16 buf 2))
      rw [declaredPart, List.take_append_drop, hvalue] at hwhole
      obtain rfl := Option.some.inj hwhole
      exact ⟨value, e, rfl, hnames, (Option.some.inj hresult).symm⟩

/-! ### Responses -/

/-- A binding response with an XOR-MAPPED-ADDRESS attribute for an IPv4 endpoint, behind attributes of other
types and before any more. -/
structure BindingResponse where
  txId : Vector UInt8 12
  before : List Tlv.Written
  endpoint : StunEndpoint
  reserved : UInt8
  after : List Tlv.Written
  others : ∀ w ∈ before, w.kind ≠ stunAttrXorMappedAddr

namespace BindingResponse

def mapped (r : BindingResponse) : Tlv.Written where
  kind := stunAttrXorMappedAddr
  value := r.endpoint.xorValue r.reserved
  fill := []
  kind_lt := by decide
  value_lt := by simp [StunEndpoint.xorValue, Tlv.twoBytes, stunCookie]
  fill_length := by simp [StunEndpoint.xorValue, Tlv.twoBytes, stunCookie, Tlv.padding]

def attributes (r : BindingResponse) : Bytes :=
  r.before.flatMap Tlv.Written.bytes ++ (r.mapped.bytes ++ r.after.flatMap Tlv.Written.bytes)

def bytes (r : BindingResponse) : Bytes :=
  Tlv.twoBytes stunBindingResp ++ Tlv.twoBytes r.attributes.length ++ stunCookie ++ r.txId.toList ++ r.attributes

theorem bytes_drop (r : BindingResponse) : r.bytes.drop 20 = r.attributes := by
  simp [bytes, Tlv.twoBytes, stunCookie]

/-- The header of a response is accepted when its length fits the field. -/
theorem stunHdr_bytes (r : BindingResponse) (hfits : r.attributes.length < 65536) :
    stunHdr r.bytes = some (stunBindingResp, r.txId.toList) := by
  have hlength : r.bytes.length = 20 + r.attributes.length := by
    simp [bytes, Tlv.twoBytes, stunCookie]
    omega
  have hmagic : load32 r.bytes 4 = stunMagic := by
    simp only [bytes, load32, Tlv.twoBytes, stunCookie, List.cons_append, List.nil_append, List.getD_cons_succ,
      List.getD_cons_zero]
    decide
  have hdeclared : load16 r.bytes 2 = r.attributes.length := Tlv.number_twoBytes hfits
  have htype : load16 r.bytes 0 = stunBindingResp := Tlv.number_twoBytes (by decide)
  have haligned : r.attributes.length % 4 = 0 := by
    have hbefore := Tlv.flatMap_bytes_length_mod r.before
    have hmapped := Tlv.bytes_length_mod r.mapped
    have hafter := Tlv.flatMap_bytes_length_mod r.after
    simp only [attributes, List.length_append]
    omega
  have htx : (r.bytes.drop 8).take 12 = r.txId.toList := by
    have hdrop : r.bytes.drop 8 = r.txId.toList ++ r.attributes := by simp [bytes, Tlv.twoBytes, stunCookie]
    rw [hdrop, List.take_left' (by simp)]
  unfold stunHdr
  rw [if_neg (by omega), hmagic, if_neg (by simp), hdeclared, if_neg (by omega), if_neg (by omega), htype, htx]

/-- The first XOR-MAPPED-ADDRESS attribute of a response is the one for its endpoint. -/
theorem firstOf_bytes (r : BindingResponse) :
    Tlv.firstOf stunAttrXorMappedAddr (r.bytes.drop 20) = some (r.endpoint.xorValue r.reserved) := by
  rw [bytes_drop]
  exact Tlv.firstOf_written r.others r.mapped rfl _

theorem names (r : BindingResponse) : Names (r.endpoint.xorValue r.reserved) r.endpoint :=
  ⟨r.reserved, [], (List.append_nil _).symm⟩

/-- The answer of the server to a request is taken for its endpoint. -/
theorem stunBinding_bytes (r : BindingResponse) (hfits : r.bytes.length ≤ 4096) (server : SockAddr) (acap : Nat) :
    stunBinding server r.txId.toList acap ⟨server, r.bytes⟩ =
      some (boundedCopy acap r.endpoint.text, r.endpoint.port) := by
  have hlength : r.bytes.length = 20 + r.attributes.length := by
    simp [bytes, Tlv.twoBytes, stunCookie]
    omega
  obtain ⟨hfirst, hbounds⟩ := stunFind_firstOf r.bytes stunAttrXorMappedAddr
  rw [firstOf_bytes] at hfirst
  obtain ⟨⟨o, al⟩, hfind, hvalue⟩ := Option.map_eq_some_iff.mp hfirst
  have hheader := r.stunHdr_bytes (by omega)
  unfold stunBinding
  simp only [List.take_of_length_le hfits]
  rw [if_neg (by omega), if_neg (by simp), hheader, hfind]
  simp only [ne_eq, not_true_eq_false, if_false]
  rw [stunRdXaddr_value acap (hbounds (o, al) hfind), hvalue]
  exact stunRdXaddr_names acap r.names

end BindingResponse

/-- The chain returns the endpoint of the first XOR-MAPPED-ADDRESS attribute inside the declared message, for
every datagram whose attributes do not go on to such an attribute behind a declared end that none precedes.
Every binding response for an IPv4 endpoint, whatever its other attributes, is taken for that endpoint. -/
theorem stun_confined_iff (buf : Bytes) :
    (Confined buf ↔ ¬ TrailingAttribute buf) ∧
    ∀ r : BindingResponse, r.attributes.length < 65536 → ∀ acap : Nat,
      stunChain r.bytes acap = some (boundedCopy acap r.endpoint.text, r.endpoint.port) := by
  refine ⟨confined_iff buf, fun r hfits acap => ?_⟩
  rw [stunChain_eq, r.stunHdr_bytes hfits, r.firstOf_bytes]
  exact stunRdXaddr_names acap r.names

/-- A response that declares no attributes, with an XOR-MAPPED-ADDRESS attribute behind its end. -/
def trailingDatagram : Bytes :=
  [1, 1, 0, 0, 0x21, 0x12, 0xa4, 0x42] ++ List.replicate 12 0 ++ [0, 0x20, 0, 8, 0, 1, 0x21, 0x12, 0x2b, 0x12, 0xa4, 0x43]

/-- The bytes behind the end are taken for the endpoint 10.0.0.1, port 0. -/
theorem trailing_attribute_taken :
    stunChain trailingDatagram 16 = some (ascii "10.0.0.1", 0) ∧ declaredPart trailingDatagram = [] ∧
      ¬ Confined trailingDatagram := by
  have hchain : stunChain trailingDatagram 16 = some (ascii "10.0.0.1", 0) := by decide +kernel
  have hempty : declaredPart trailingDatagram = [] := by decide
  refine ⟨hchain, hempty, fun hconfined => ?_⟩
  obtain ⟨value, _, hvalue, _⟩ := hconfined 16 _ hchain
  rw [hempty, Tlv.firstOf, records_short (by decide)] at hvalue
  cases hvalue

end Redp2p
