import Redp2p.Registration
import Mathlib.Data.List.Basic
import Mathlib.Data.List.Perm.Subperm

/-! The guarantee of seats and VIP reservations: while the reservations fit the seats, a publisher
with a reservation always finds one free. -/

namespace Redp2p

open ByteString

/-- Distinct identifiers, each one reserved and none of them `id`, leave the reservation of `id`
over. -/
theorem reserved_left {ids reserved : List Bytes} {id : Bytes} (hids : ids.Nodup)
    (hreserved : ∀ other ∈ ids, other ∈ reserved) (habsent : id ∉ ids) (hid : id ∈ reserved) :
    ids.length < reserved.length := by
  have hsub : ids ⊆ reserved.erase id := by
    intro other hother
    have hne : other ≠ id := fun heq => habsent (heq ▸ hother)
    exact (List.mem_erase_of_ne hne).mpr (hreserved other hother)
  have hlen := (List.subperm_of_subset hids hsub).length_le
  rw [List.length_erase_of_mem hid] at hlen
  have hpos := List.length_pos_of_mem hid
  omega

namespace Context

theorem findVip_ne_none_iff {ctx : Context} {id : Bytes} :
    ctx.findVip id ≠ none ↔ id ∈ ctx.vips.map VipEntry.id := by
  rw [findVip, ne_eq, Keyed.indexOf_eq_none_iff, Keyed.lookup_eq_none_iff]
  simp

/-- While a publisher with a reservation is absent, a seat is free for it. -/
theorem Valid.seat_free {ctx : Context} (h : ctx.Valid) (hset : ctx.seatsSet = true)
    (hfit : ctx.vips.length ≤ ctx.nPeersCap) {id : Bytes} (hvip : ctx.findVip id ≠ none)
    (habsent : ctx.record id = none) : ctx.peers.length < ctx.nPeersCap := by
  have hnonvips := h.nonvips hset
  rw [h.nonvipCap, countNonvipPeers] at hnonvips
  have hvips : ((ctx.peers.filter fun p => !(ctx.findVip p.id).isNone).map Peer.id).length <
      (ctx.vips.map VipEntry.id).length := by
    refine reserved_left (Keyed.unique_filter _ h.unique) ?_ ?_ (findVip_ne_none_iff.mp hvip)
    · intro other hother
      obtain ⟨p, hp, rfl⟩ := List.mem_map.mp hother
      exact findVip_ne_none_iff.mp (by
        simpa [Option.isSome_iff_ne_none] using (List.mem_filter.mp hp).2)
    · intro hmem
      obtain ⟨p, hp, hpid⟩ := List.mem_map.mp hmem
      exact Keyed.lookup_eq_none_iff.mp habsent p (List.mem_filter.mp hp).1 hpid
  rw [List.length_map, List.length_map, ← List.countP_eq_length_filter] at hvips
  have hsplit := List.length_eq_countP_add_countP
    (fun p : Peer => (ctx.findVip p.id).isNone) (l := ctx.peers)
  simp only [Bool.not_eq_true, Bool.decide_eq_false] at hsplit
  omega

/-- A registration is answered with 503 only when the table had no seat for it. -/
theorem handleRegister_full {ctx : Context} {env : Env} {req : JsonObject Rat}
    (h : (ctx.handleRegister env req).2.status = 503) :
    ∃ r, parseRegister req = .ok r ∧
      ((ctx.evictStale env.now).addPeer env r.id).2 = .efull := by
  unfold handleRegister at h
  split at h
  · rename_i reply hparse
    rw [parseRegister_error hparse] at h
    simp at h
  · rename_i r hparse
    refine ⟨r, hparse, ?_⟩
    split at h
    · simp [respondError] at h
    · unfold registerPeer at h
      split at h
      · split at h
        · simp [respondOk] at h
        · simp [respondError] at h
      · rename_i hadd
        rw [hadd]
      · simp [respondError] at h

/-- A registration of a reserved identifier is never refused for want of a seat. -/
theorem Valid.register_vip {ctx : Context} (h : ctx.Valid) {env : Env} {req : JsonObject Rat}
    {id : Bytes} (hid : req.getString (ascii "id") = some id)
    (hvip : ctx.findVip id ≠ none)
    (hfit : ctx.seatsSet = true → ctx.vips.length ≤ ctx.nPeersCap) :
    (ctx.handleRegister env req).2.status ≠ 503 := by
  intro hfull
  obtain ⟨r, hparse, hadd⟩ := handleRegister_full hfull
  have hrid : r.id = id := by
    have := (requireIdResponse_ok (parseRegister_ok hparse).1).1
    exact Option.some.inj (this.symm.trans hid)
  have hcases := addPeer_cases (ctx.evictStale env.now) env r.id
  generalize (ctx.evictStale env.now).addPeer env r.id = result at hcases hadd
  cases hcases with
  | refreshed index found => simp at hadd
  | added key alloc absent seat nonvip generated room => simp at hadd
  | full absent seats taken =>
    rw [hrid] at absent taken
    have hfree := (h.evictStale env.now).seat_free seats (hfit seats) hvip (findPeer_none.mp absent)
    rcases taken with htaken | ⟨hnone, _⟩
    · exact absurd hfree (Nat.not_lt.mpr htaken)
    · exact hvip hnone
  | failed alloc room => simp at hadd

end Context

/-- Seats and reservations. In every state that any setters and any events lead to, the records have
distinct valid identifiers; with seats configured there are at most as many records as seats, and at
most as many without a reservation as seats that are not reserved; and while the reservations fit the
seats, a registration of a reserved identifier is never refused for want of a seat. -/
theorem seats_guaranteed (etimeoutSec : UInt64) (setups : List Setup) (events : List IndexEvent) :
    let config := Context.configured etimeoutSec setups
    let ctx := Context.served etimeoutSec setups events
    (ctx.peers.map Peer.id).Nodup ∧
      (∀ p ∈ ctx.peers, isValidId p.id = true) ∧
      (config.seatsSet = true → ctx.peers.length ≤ config.nPeersCap ∧
        ctx.peers.countP (fun p => p.id ∉ config.vips.map VipEntry.id) ≤
          config.nPeersCap - config.vips.length) ∧
      ∀ (env : Env) (req : JsonObject Rat) (id : Bytes),
        req.getString (ascii "op") = some (ascii "register") →
        req.getString (ascii "id") = some id → id ∈ config.vips.map VipEntry.id →
        (config.seatsSet = true → config.vips.length ≤ config.nPeersCap) →
        (ctx.dispatch env (some (.obj req))).2 ≠ respondError 503 "table_full" := by
  intro config ctx
  have hvalid : ctx.Valid := Context.served_valid etimeoutSec setups events
  have hsame : Context.SameConfig config ctx := Context.served_sameConfig etimeoutSec setups events
  refine ⟨hvalid.unique, hvalid.ids, fun hset => ?_, fun env req id hop hid hvip hfit => ?_⟩
  · rw [← hsame.seatsSet] at hset
    refine ⟨hsame.nPeersCap ▸ hvalid.seats hset, ?_⟩
    have hnonvips := hvalid.nonvips hset
    rw [hvalid.nonvipCap, hsame.nPeersCap, hsame.vips] at hnonvips
    refine Nat.le_trans (List.countP_mono_left fun p _ hp => ?_) hnonvips
    rw [decide_eq_true_eq, ← hsame.vips, ← Context.findVip_ne_none_iff, not_not] at hp
    rw [hp]
    rfl
  · intro hfull
    have hstatus : (ctx.dispatch env (some (.obj req))).2.status = 503 := by
      rw [hfull]
      rfl
    rw [← hsame.seatsSet, ← hsame.nPeersCap, ← hsame.vips] at hfit
    rw [← hsame.vips, ← Context.findVip_ne_none_iff] at hvip
    simp only [Context.dispatch, Option.bind_some, Json.getObject, hop] at hstatus
    split at hstatus
    · simp [respondError] at hstatus
    · exact hvalid.register_vip hid hvip hfit hstatus

/-- A registration of the publisher that holds a reservation. -/
def reservedRegistration : Registration :=
  { sampleRegistration with pass := ascii "s3cret", id := ascii "alice", id_valid := by decide }

/-- Two seats, one of them reserved: another publisher has the other one, and the publisher that holds the
reservation registers. -/
theorem seats_guaranteed_sample :
    let setups := [Setup.seats 2, .vip ⟨true, fun _ => true⟩ (ascii " alice s3cret ")]
    let ctx := Context.served 120 setups [sampleRegister 7]
    let request := some (.obj reservedRegistration.request)
    ctx.peers.map Peer.id = [ascii "pub"] ∧ ctx.nonvipCap = 1 ∧
      (ctx.dispatch (sampleEnv 9) request).1.peers.map Peer.id = [ascii "pub", ascii "alice"] ∧
      (ctx.dispatch (sampleEnv 9) request).2.status = 200 ∧
      (ctx.dispatch (sampleEnv 9) request).2 ≠ respondError 503 "table_full" := by
  intro setups ctx request
  have hctx : ctx = ((Context.configured 120 setups).registerPeer (sampleEnv 7) sampleRegistration.fields).1 := by
    show Context.served 120 setups [sampleRegister 7] = _
    rw [Context.served, Transition.run_cons, sampleRegister_step _ _ (by decide) (by decide)]
    rfl
  have hbits : ctx.powBits = 0 := by
    rw [hctx]
    decide +kernel
  have hanswered : ctx.dispatch (sampleEnv 9) request = ctx.registerPeer (sampleEnv 9) reservedRegistration.fields := by
    refine reservedRegistration.dispatch_request ?_ ?_ (sampleEnv 9)
    · rw [hctx]
      decide +kernel
    · rw [hbits]
      exact Int.natCast_nonneg _
  have hseat := (seats_guaranteed 120 setups [sampleRegister 7]).2.2.2 (sampleEnv 9) reservedRegistration.request
    (ascii "alice") rfl rfl (by decide) (by decide)
  refine ⟨?_, ?_, ?_, ?_, hseat⟩
  · rw [hctx]
    decide +kernel
  · rw [hctx]
    decide +kernel
  · rw [hanswered, hctx]
    decide +kernel
  · rw [hanswered, hctx]
    decide +kernel

end Redp2p
