import Redp2p.Registration

/-! Ownership of publisher records: an unexpired record changes only under a proof for its identifier
or under its stored key, and its key stays the same for as long as the record does. -/

namespace Redp2p

open ByteString

namespace Context

/-- The password of an identifier: its own when it is reserved, the shared one otherwise. -/
def passFor (ctx : Context) (id : Bytes) : Bytes :=
  (Keyed.lookup VipEntry.id id ctx.vips).elim ctx.pass VipEntry.pass

theorem getRegisterPass_eq (ctx : Context) (id : Bytes) :
    ctx.getRegisterPass id = ctx.passFor id := by
  unfold getRegisterPass passFor findVip
  cases hindex : Keyed.indexOf VipEntry.id id ctx.vips with
  | none =>
    rw [Option.bind_none, Keyed.indexOf_eq_none_iff.mp hindex]
    rfl
  | some i =>
    rw [Option.bind_some, Keyed.getElem?_indexOf hindex]
    cases Keyed.lookup VipEntry.id id ctx.vips <;> rfl

/-- A registration for `id` whose proof is the lowercase hexadecimal text of the digest of nonce,
identifier and solution under the password of `id`, with at least `pow_bits` leading zero bits. -/
def ProvesRegister (ctx : Context) (req : JsonObject Rat) (id : Bytes) : Prop :=
  req.getString (ascii "op") = some (ascii "register") ∧
    req.getString (ascii "id") = some id ∧
    ∃ nonce solution proof,
      req.getString (ascii "nonce") = some nonce ∧
      req.getString (ascii "solution") = some solution ∧
      req.getString (ascii "proof") = some proof ∧ proof.length = 64 ∧
      proof = hexEncode (hmacSha256 (ctx.passFor id) (nonce ++ id ++ solution)) ∧
      ctx.powBits ≤ countLeadingZeroBits (hmacSha256 (ctx.passFor id) (nonce ++ id ++ solution))

/-- A request that may change the record of `id`, whose stored key is `key`. -/
def Authorized (ctx : Context) (body : Option (Json Rat)) (id key : Bytes) : Prop :=
  ∃ req, body.bind Json.getObject = some req ∧
    (ctx.ProvesRegister req id ∨ Presents req id key)

theorem Registers.proves {ctx : Context} {req : JsonObject Rat} {r : RegisterRequest}
    (h : ctx.Registers req r) : ctx.ProvesRegister req r.id := by
  obtain ⟨hop, hparse, hverify⟩ := h
  obtain ⟨hid, hnonce, hsolution, hproof, _⟩ := parseRegister_ok hparse
  obtain ⟨hidField, hvalid⟩ := requireIdResponse_ok hid
  obtain ⟨hnonceField, hnonceHex⟩ := requireHex_ok hnonce
  obtain ⟨hsolutionField, hsolutionHex⟩ := requireHex_ok hsolution
  obtain ⟨hproofField, hproofHex⟩ := requireHex_ok hproof
  have hlen : r.nonce.length + r.id.length + r.solution.length ≤ 96 := by
    have h1 := (isHexToken_iff.mp hnonceHex).1
    have h2 := (isValidId_iff.mp hvalid).2.1
    have h3 := (isHexToken_iff.mp hsolutionHex).1
    omega
  rw [verifyRegister, verifyRegisterPow_iff, hashRegisterOnce_eq _ hlen, getRegisterPass_eq]
    at hverify
  exact ⟨hop, hidField, r.nonce, r.solution, r.proof, hnonceField, hsolutionField, hproofField,
    (isHexToken_iff.mp hproofHex).1, hverify.1, hverify.2⟩

/-- What a request does to an unexpired record: nothing, or a change of the endpoint that a proof or
the key authorizes, or a removal that the key authorizes. -/
theorem Effect.record {ctx ctx' : Context} {env : Env} {req : JsonObject Rat}
    (hunique : ctx.Unique) (h : Effect ctx env req ctx') {peer : Peer}
    (hrecord : ctx.record peer.id = some peer)
    (hfresh : peer.stale ctx.etimeoutSec env.now = false) :
    ctx'.record peer.id = some peer ∨
      (ctx.ProvesRegister req peer.id ∨ Presents req peer.id peer.key) ∧
        (ctx'.record peer.id = none ∨
          ∃ endpoint, ctx'.record peer.id = some (peer.store endpoint env.now)) := by
  have hkept : (ctx.evictStale env.now).record peer.id = some peer := by
    rw [record_evictStale hunique, hrecord]
    simp [Option.filter, hfresh]
  cases h with
  | unchanged => exact Or.inl hrecord
  | called calls source bound => exact Or.inl hrecord
  | evicted alloc room => exact Or.inl hkept
  | stored other endpoint found allowed =>
    have hmap : Keyed.lookup Peer.id peer.id
        ((ctx.evictStale env.now).peers.map (storeFor other.id endpoint env.now)) =
          some (storeFor other.id endpoint env.now peer) := by
      rw [Keyed.lookup_map (storeFor_id other.id endpoint env.now), ← Context.record, hkept]
      rfl
    by_cases hid : peer.id = other.id
    · rw [← hid, hkept] at found
      obtain rfl := Option.some.inj found
      rw [storeFor, if_pos rfl] at hmap
      refine Or.inr ⟨?_, Or.inr ⟨endpoint, hmap⟩⟩
      rcases allowed with ⟨r, hregisters, hrid⟩ | hpresents
      · exact Or.inl (hrid ▸ hregisters.proves)
      · exact Or.inr hpresents
    · rw [storeFor, if_neg hid] at hmap
      exact Or.inl hmap
  | added r key alloc registers absent seat nonvip generated room =>
    refine Or.inl ?_
    change Keyed.lookup Peer.id peer.id _ = some peer
    rw [Keyed.lookup_concat, ← Context.record, hkept]
    rfl
  | removed other found allowed =>
    by_cases hid : peer.id = other.id
    · rw [← hid, hkept] at found
      obtain rfl := Option.some.inj found
      refine Or.inr ⟨Or.inr allowed, Or.inl (Keyed.lookup_eq_none_iff.mpr fun p hp => ?_)⟩
      simpa using (List.mem_filter.mp hp).2
    · refine Or.inl ?_
      change Keyed.lookup Peer.id peer.id _ = some peer
      rw [Keyed.lookup_filter _ (evictStale_unique hunique env.now), ← Context.record, hkept]
      simp [Option.filter, hid]

/-- The record of `id` is there and has not expired whenever an event takes place. -/
def Alive (id : Bytes) : Context → List IndexEvent → Prop
  | _, [] => True
  | ctx, event :: events =>
    (∃ peer, ctx.record id = some peer ∧ peer.stale ctx.etimeoutSec event.clock = false) ∧
      Alive id (event.step ctx).1 events

/-- An unexpired record keeps its key through an event, unless the event removes it. -/
theorem Valid.step_key {ctx : Context} (h : ctx.Valid) (event : IndexEvent) {peer : Peer}
    (hrecord : ctx.record peer.id = some peer)
    (hfresh : peer.stale ctx.etimeoutSec event.clock = false) :
    (event.step ctx).1.record peer.id = none ∨
      ∃ later, (event.step ctx).1.record peer.id = some later ∧ later.id = peer.id ∧
        later.key = peer.key := by
  cases event with
  | request env body =>
    rcases dispatch_effect h.unique env body with hsame | ⟨req, _, heffect⟩
    · refine Or.inr ⟨peer, ?_, rfl, rfl⟩
      change (ctx.dispatch env body).1.record peer.id = some peer
      rw [hsame, hrecord]
    · rcases heffect.record h.unique hrecord hfresh with hkept | ⟨_, hnone | ⟨endpoint, hsome⟩⟩
      · exact Or.inr ⟨peer, hkept, rfl, rfl⟩
      · exact Or.inl hnone
      · exact Or.inr ⟨_, hsome, rfl, rfl⟩
  | prune now =>
    refine Or.inr ⟨peer, ?_, rfl, rfl⟩
    change (ctx.evictStale now).record peer.id = some peer
    rw [record_evictStale h.unique, hrecord]
    simpa [Option.filter, IndexEvent.clock] using hfresh

/-- While the record of an identifier lives, its key does not change. -/
theorem Valid.run_key {ctx : Context} (h : ctx.Valid) {id key : Bytes} {events : List IndexEvent}
    {peer last : Peer} (hrecord : ctx.record id = some peer) (hkey : peer.key = key)
    (halive : Alive id ctx events)
    (hlast : (Transition.run IndexEvent.step ctx events).1.record id = some last) :
    last.key = key := by
  induction events generalizing ctx peer with
  | nil =>
    obtain rfl : peer = last := Option.some.inj (hrecord.symm.trans hlast)
    exact hkey
  | cons event events ih =>
    obtain ⟨⟨peer', hrecord', hfresh⟩, hrest⟩ := halive
    obtain rfl : peer = peer' := Option.some.inj (hrecord.symm.trans hrecord')
    obtain rfl : peer.id = id := (Keyed.lookup_some hrecord).2
    rcases h.step_key event hrecord hfresh with hnone | ⟨later, hlater, _, hlaterKey⟩
    · -- A removed record is neither there at the next event nor in the last state.
      cases events with
      | nil => exact absurd (hnone.symm.trans hlast) (by simp)
      | cons next events =>
        obtain ⟨⟨later, hlater, _⟩, _⟩ := hrest
        exact absurd (hnone.symm.trans hlater) (by simp)
    · exact ih (h.step event) hlater (hlaterKey.trans hkey) hrest hlast

end Context

/-- Records belong to their publishers. In every state that any setters and any events lead to, a
request leaves an unexpired record as it is, unless it proves a registration of that identifier or
presents the stored key; and from its registration to its removal or expiry a record has one key. -/
theorem records_owned (etimeoutSec : UInt64) (setups : List Setup) (events : List IndexEvent)
    (id : Bytes) (peer : Peer)
    (hrecord : (Context.served etimeoutSec setups events).record id = some peer) :
    let ctx := Context.served etimeoutSec setups events
    (∀ env body, peer.stale ctx.etimeoutSec env.now = false →
        ¬ ctx.Authorized body id peer.key → (ctx.dispatch env body).1.record id = some peer) ∧
      ∀ later last, Context.Alive id ctx later →
        (Context.served etimeoutSec setups (events ++ later)).record id = some last →
        last.key = peer.key := by
  intro ctx
  have hvalid : ctx.Valid := Context.served_valid etimeoutSec setups events
  obtain rfl : peer.id = id := (Keyed.lookup_some hrecord).2
  refine ⟨fun env body hfresh hauth => ?_, fun later last halive hlast => ?_⟩
  · rcases Context.dispatch_effect hvalid.unique env body with hsame | ⟨req, hbody, heffect⟩
    · rw [hsame]
      exact hrecord
    · rcases heffect.record hvalid.unique hrecord hfresh with hkept | ⟨hauthorized, _⟩
      · exact hkept
      · exact absurd ⟨req, hbody, hauthorized⟩ hauth
  · rw [Context.served, Transition.run_append] at hlast
    exact hvalid.run_key hrecord rfl halive hlast

def samplePeer : Peer where
  id := ascii "pub"
  key := ascii "0000000000000000"
  lastSeen := 5
  proto := protoUdp
  udpPort := 9000
  candidates := []

theorem samplePeer_registered :
    (Context.served 120 [] [sampleRegister 5]).record (ascii "pub") = some samplePeer := by
  rw [Context.served, Transition.run_cons, sampleRegister_step _ _ (by decide) (by decide)]
  decide +kernel

/-- A deregistration with a key that is not the stored one. -/
def strangerRequest : JsonObject Rat :=
  [(ascii "op", .str (ascii "deregister")), (ascii "id", .str (ascii "pub")),
    (ascii "key", .str (ascii "ffffffffffffffff"))]

theorem records_owned_sample :
    let ctx := Context.served 120 [] [sampleRegister 5]
    (ctx.dispatch (sampleEnv 60) (some (.obj strangerRequest))).1.record (ascii "pub") =
      some samplePeer := by
  refine (records_owned 120 [] [sampleRegister 5] (ascii "pub") samplePeer
    samplePeer_registered).1 (sampleEnv 60) _ ?_ ?_
  · rw [(Context.served_sameConfig 120 [] [sampleRegister 5]).etimeoutSec]
    decide
  · rintro ⟨req, hreq, hproves | hpresents⟩
    · obtain rfl : strangerRequest = req := by simpa [Json.getObject] using hreq
      exact absurd hproves.1 (by decide)
    · obtain rfl : strangerRequest = req := by simpa [Json.getObject] using hreq
      exact absurd hpresents.2.2 (by decide)

end Redp2p
