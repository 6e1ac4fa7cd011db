import Redp2p.Registration

/-! Pruning is unobservable: two tables with the same unexpired records answer every request alike,
so dropping expired records at any time between requests changes no reply. -/

namespace Redp2p

open ByteString

namespace Context

def fresh (etimeoutSec now : UInt64) (peer : Peer) : Bool := !peer.stale etimeoutSec now

/-- No record was seen after the last reading of the clock. -/
def Dated (now : UInt64) (ctx : Context) : Prop := ∀ p ∈ ctx.peers, p.lastSeen ≤ now

/-- A record that has expired stays expired. -/
theorem stale_mono {etimeoutSec now later : UInt64} {peer : Peer} (hseen : peer.lastSeen ≤ now)
    (hle : now ≤ later) (h : peer.stale etimeoutSec now = true) :
    peer.stale etimeoutSec later = true := by
  have hle' : now.toNat ≤ later.toNat := hle
  have hseen' : peer.lastSeen.toNat ≤ now.toNat := hseen
  have hlater : peer.lastSeen ≤ later := Nat.le_trans hseen' hle'
  simp only [Peer.stale, decide_eq_true_eq, gt_iff_lt, UInt64.lt_iff_toNat_lt,
    UInt64.toNat_sub_of_le _ _ hseen, UInt64.toNat_sub_of_le _ _ hlater] at h ⊢
  omega

/-- Two contexts that differ in expired records only. -/
structure Agree (now : UInt64) (a b : Context) : Prop where
  rest : b = { a with peers := b.peers }
  fresh : a.peers.filter (fresh a.etimeoutSec now) = b.peers.filter (fresh a.etimeoutSec now)

theorem Agree.refl (now : UInt64) (a : Context) : Agree now a a := ⟨rfl, rfl⟩

theorem filter_fresh_fresh {etimeoutSec now later : UInt64} {peers : List Peer}
    (hdated : ∀ p ∈ peers, p.lastSeen ≤ now) (hle : now ≤ later) :
    (peers.filter (fresh etimeoutSec now)).filter (fresh etimeoutSec later) =
      peers.filter (fresh etimeoutSec later) := by
  rw [List.filter_filter]
  refine List.filter_congr fun p hp => ?_
  have hmono : p.stale etimeoutSec now = true → p.stale etimeoutSec later = true :=
    stale_mono (hdated p hp) hle
  cases h : p.stale etimeoutSec now with
  | false => simp [fresh, h]
  | true => simp [fresh, h, hmono h]

/-- Contexts that agree go on agreeing as time passes. -/
theorem Agree.mono {now later : UInt64} {a b : Context} (h : Agree now a b) (ha : a.Dated now)
    (hb : b.Dated now) (hle : now ≤ later) : Agree later a b := by
  refine ⟨h.rest, ?_⟩
  rw [← filter_fresh_fresh ha hle, h.fresh, filter_fresh_fresh hb hle]

theorem evictStale_eq (ctx : Context) (now : UInt64) :
    ctx.evictStale now = { ctx with peers := ctx.peers.filter (fresh ctx.etimeoutSec now) } := by
  have hpeers := ctx.evictStale_peers now
  unfold Context.evictStale at hpeers ⊢
  dsimp only at hpeers
  rw [hpeers]
  rfl

/-- Without their expired records, contexts that agree are one. -/
theorem Agree.evictStale {now : UInt64} {a b : Context} (h : Agree now a b) :
    a.evictStale now = b.evictStale now := by
  obtain ⟨peers, rfl⟩ : ∃ peers, b = { a with peers := peers } := ⟨b.peers, h.rest⟩
  rw [evictStale_eq, evictStale_eq, h.fresh]

/-- The same reply, and contexts that still agree. -/
def Alike (now : UInt64) (x y : Context × Reply) : Prop := x.2 = y.2 ∧ Agree now x.1 y.1

theorem Alike.of_eq {now : UInt64} {x y : Context × Reply} (h : x = y) : Alike now x y := by
  subst h
  exact ⟨rfl, Agree.refl now x.1⟩

/-! ### Each handler -/

theorem Agree.handleChallenge {env : Env} {a b : Context} (h : Agree env.now a b)
    (req : JsonObject Rat) :
    Alike env.now (a.handleChallenge env req) (b.handleChallenge env req) := by
  obtain ⟨peers, rfl⟩ : ∃ peers, b = { a with peers := peers } := ⟨b.peers, h.rest⟩
  unfold Context.handleChallenge
  cases requireIdResponse req with
  | error reply => exact ⟨rfl, h⟩
  | ok id =>
    cases env.random with
    | none => exact ⟨rfl, h⟩
    | some nonce => exact ⟨rfl, h⟩

theorem Agree.handleRegister {env : Env} {a b : Context} (h : Agree env.now a b)
    (req : JsonObject Rat) :
    Alike env.now (a.handleRegister env req) (b.handleRegister env req) := by
  have hevict := h.evictStale
  have hverify : ∀ r, b.verifyRegister r = a.verifyRegister r := by
    intro r
    rw [h.rest]
    rfl
  unfold Context.handleRegister
  cases parseRegister req with
  | error reply => exact ⟨rfl, h⟩
  | ok r =>
    dsimp only
    rw [hverify]
    split
    · exact ⟨rfl, h⟩
    · exact Alike.of_eq (by rw [registerPeer, registerPeer, hevict])

theorem Agree.handleHeartbeat {env : Env} {a b : Context} (h : Agree env.now a b)
    (req : JsonObject Rat) :
    Alike env.now (a.handleHeartbeat env req) (b.handleHeartbeat env req) := by
  unfold Context.handleHeartbeat
  cases parseHeartbeat req with
  | error reply => exact ⟨rfl, h⟩
  | ok r => exact Alike.of_eq (by rw [h.evictStale])

theorem Agree.handleDeregister {env : Env} {a b : Context} (h : Agree env.now a b)
    (req : JsonObject Rat) :
    Alike env.now (a.handleDeregister env req) (b.handleDeregister env req) := by
  unfold Context.handleDeregister
  cases parseKey req with
  | error reply => exact ⟨rfl, h⟩
  | ok r => exact Alike.of_eq (by rw [h.evictStale])

/-- A lookup answers from the unexpired record, if there is one. -/
theorem handleLookup_eq {ctx : Context} (hunique : ctx.Unique) (env : Env)
    (req : JsonObject Rat) :
    ctx.handleLookup env req = (ctx, match requireIdResponse req with
      | .error reply => reply
      | .ok id =>
        match (ctx.evictStale env.now).record id with
        | none => respondError 404 "not_found"
        | some peer => respondOk (lookupObject peer)) := by
  unfold Context.handleLookup
  cases requireIdResponse req with
  | error reply => rfl
  | ok id =>
    dsimp only
    rw [record_evictStale hunique]
    cases hfind : ctx.findPeer id with
    | none =>
      rw [findPeer_none.mp hfind]
      rfl
    | some index =>
      obtain ⟨peer, hrecord, _, hget, _⟩ := findPeer_some hfind
      rw [Option.bind_some, hget, hrecord]
      cases hstale : peer.stale ctx.etimeoutSec env.now <;> simp [Option.filter, hstale]

theorem Agree.handleLookup {env : Env} {a b : Context} (h : Agree env.now a b) (ha : a.Unique)
    (hb : b.Unique) (req : JsonObject Rat) :
    Alike env.now (a.handleLookup env req) (b.handleLookup env req) := by
  rw [handleLookup_eq ha, handleLookup_eq hb, h.evictStale]
  exact ⟨rfl, h⟩

/-- A list names the unexpired records only. -/
theorem listItems_eq (ctx : Context) (now : UInt64) :
    ctx.listItems now =
      (ctx.evictStale now).peers.foldl (fun items peer => appendString items peer.id) [] := by
  rw [listItems, evictStale_peers]
  generalize ([] : List (Json Int)) = items
  induction ctx.peers generalizing items with
  | nil => rfl
  | cons p peers ih =>
    cases hstale : p.stale ctx.etimeoutSec now <;> simp [hstale, ih]

theorem Agree.handleList {env : Env} {a b : Context} (h : Agree env.now a b) :
    Alike env.now (a.handleList env) (b.handleList env) := by
  refine ⟨?_, h⟩
  simp only [Context.handleList, listObject, listItems_eq, h.evictStale]

theorem Agree.handlePunchReq {env : Env} {a b : Context} (h : Agree env.now a b)
    (req : JsonObject Rat) :
    Alike env.now (a.handlePunchReq env req) (b.handlePunchReq env req) := by
  obtain ⟨peers, rfl⟩ : ∃ peers, b = { a with peers := peers } := ⟨b.peers, h.rest⟩
  unfold Context.handlePunchReq
  cases parsePunch req with
  | error reply => exact ⟨rfl, h⟩
  | ok r =>
    simp only [pendingCallEvictStale, pendingCallAdd]
    by_cases hfull : (ArrayLoop.swapOut (PendingCall.expired env.now) a.pendingCalls.length 0
        a.pendingCalls).2.length ≥ maxPendingCalls
    · simp only [hfull, if_true]
      exact ⟨rfl, rfl, h.fresh⟩
    · simp only [hfull, if_false]
      exact ⟨rfl, rfl, h.fresh⟩

theorem Agree.handlePunchPoll {env : Env} {a b : Context} (h : Agree env.now a b)
    (req : JsonObject Rat) :
    Alike env.now (a.handlePunchPoll env req) (b.handlePunchPoll env req) := by
  obtain ⟨peers, rfl⟩ : ∃ peers, b = { a with peers := peers } := ⟨b.peers, h.rest⟩
  unfold Context.handlePunchPoll
  cases requireIdResponse req with
  | error reply => exact ⟨rfl, h⟩
  | ok id => exact ⟨rfl, rfl, h.fresh⟩

theorem Agree.dispatch {env : Env} {a b : Context} (h : Agree env.now a b) (ha : a.Unique)
    (hb : b.Unique) (body : Option (Json Rat)) :
    Alike env.now (a.dispatch env body) (b.dispatch env body) := by
  unfold Context.dispatch
  split
  · exact ⟨rfl, h⟩
  rename_i req _
  split
  · exact ⟨rfl, h⟩
  split
  · exact ⟨rfl, h⟩
  unfold handleOp
  split
  · exact h.handleChallenge req
  split
  · exact h.handleRegister req
  split
  · exact h.handleHeartbeat req
  split
  · exact h.handleLookup ha hb req
  split
  · exact h.handleList
  split
  · exact h.handleDeregister req
  split
  · exact h.handlePunchReq req
  split
  · exact h.handlePunchPoll req
  · exact ⟨rfl, h⟩

/-! ### Runs -/

theorem Effect.dated {ctx ctx' : Context} {env : Env} {req : JsonObject Rat} {now : UInt64}
    (h : Effect ctx env req ctx') (hdated : ctx.Dated now) (hle : now ≤ env.now) :
    ctx'.Dated env.now := by
  have hall : ∀ p ∈ ctx.peers, p.lastSeen ≤ env.now := fun p hp => Nat.le_trans (hdated p hp) hle
  have hkept : ∀ p ∈ (ctx.evictStale env.now).peers, p.lastSeen ≤ env.now := fun p hp =>
    hall p ((ctx.evictStale_sublist env.now).subset hp)
  cases h with
  | unchanged => exact hall
  | called calls source bound => exact hall
  | evicted alloc room => exact hkept
  | stored peer endpoint found allowed =>
    intro p hp
    obtain ⟨q, hq, rfl⟩ := List.mem_map.mp hp
    unfold storeFor
    split
    · exact Nat.le_refl _
    · exact hkept q hq
  | added r key alloc registers absent seat nonvip generated room =>
    intro p hp
    rcases List.mem_append.mp hp with hp | hp
    · exact hkept p hp
    · rw [List.mem_singleton.mp hp]
      exact Nat.le_refl _
  | removed peer found allowed => exact fun p hp => hkept p (List.mem_filter.mp hp).1

/-- The records of a run were all seen by the last reading of the clock. -/
theorem Valid.step_dated {ctx : Context} (h : ctx.Valid) {now : UInt64} (hdated : ctx.Dated now)
    (event : IndexEvent) (hle : now ≤ event.clock) : (event.step ctx).1.Dated event.clock := by
  cases event with
  | request env body =>
    rcases dispatch_effect h.unique env body with hsame | ⟨req, _, heffect⟩
    · change (ctx.dispatch env body).1.Dated env.now
      rw [hsame]
      exact fun p hp => Nat.le_trans (hdated p hp) hle
    · exact heffect.dated hdated hle
  | prune later =>
    exact fun p hp => Nat.le_trans (hdated p ((ctx.evictStale_sublist later).subset hp)) hle

/-- The simulation between a run and the same run without its prunes. -/
structure Twin (now : UInt64) (a b : Context) : Prop where
  left : a.Valid
  right : b.Valid
  left_dated : a.Dated now
  right_dated : b.Dated now
  agree : Agree now a b

end Context

def IndexEvent.isRequest : IndexEvent → Bool
  | .request _ _ => true
  | .prune _ => false

namespace Context

theorem Twin.prune {now : UInt64} {a b : Context} (h : Twin now a b) {event : IndexEvent}
    (hle : now ≤ event.clock) (hprune : event.isRequest = false) :
    Twin event.clock (event.step a).1 b ∧ (event.step a).2 = [] := by
  cases event with
  | request env body => simp [IndexEvent.isRequest] at hprune
  | prune later =>
    refine ⟨⟨h.left.evictStale later, h.right, h.left.step_dated h.left_dated (.prune later) hle,
      fun p hp => Nat.le_trans (h.right_dated p hp) hle, ?_⟩, rfl⟩
    have hagree := h.agree.mono h.left_dated h.right_dated hle
    refine ⟨hagree.rest, ?_⟩
    change (a.evictStale later).peers.filter (fresh a.etimeoutSec later) = _
    rw [evictStale_eq, List.filter_filter]
    simp only [Bool.and_self]
    exact hagree.fresh

theorem Twin.request {now : UInt64} {a b : Context} (h : Twin now a b) {event : IndexEvent}
    (hle : now ≤ event.clock) (hrequest : event.isRequest = true) :
    Twin event.clock (event.step a).1 (event.step b).1 ∧ (event.step a).2 = (event.step b).2 := by
  cases event with
  | request env body =>
    have hagree := h.agree.mono h.left_dated h.right_dated hle
    obtain ⟨hreply, hafter⟩ := hagree.dispatch h.left.unique h.right.unique body
    refine ⟨⟨h.left.step _, h.right.step _, h.left.step_dated h.left_dated _ hle,
      h.right.step_dated h.right_dated _ hle, hafter⟩, ?_⟩
    simp only [IndexEvent.step, hreply]
  | prune later => simp [IndexEvent.isRequest] at hrequest

/-- The replies of a run are those of the run without its prunes. -/
theorem run_requests (etimeoutSec : UInt64) (setups : List Setup) (events : List IndexEvent)
    (hevents : (events.map IndexEvent.clock).Pairwise (· ≤ ·)) :
    (Transition.run IndexEvent.step (configured etimeoutSec setups) events).2 =
      (Transition.run IndexEvent.step (configured etimeoutSec setups)
        (events.filter IndexEvent.isRequest)).2 := by
  have hready := configured_ready etimeoutSec setups
  have hdated : (configured etimeoutSec setups).Dated 0 := by
    intro p hp
    rw [hready.peers] at hp
    cases hp
  have htwin : Twin 0 (configured etimeoutSec setups) (configured etimeoutSec setups) :=
    ⟨hready.valid, hready.valid, hdated, hdated, Agree.refl 0 _⟩
  have htimed : Transition.Timed (fun e : IndexEvent => some e.clock) 0 events := by
    refine Transition.timed_of_pairwise (fun c _ => UInt64.zero_le) ?_
    rwa [List.filterMap_eq_map']
  exact Transition.run_hidden (fun now a b event h hle hprune => h.prune hle hprune)
    (fun now a b event h hle hrequest => h.request hle hrequest) htwin htimed

end Context

/-- Pruning is unobservable: two runs with the same requests, each under a clock that never goes
back, give the same replies, wherever either of them prunes its table. -/
theorem pruning_unobservable (etimeoutSec : UInt64) (setups : List Setup)
    (events others : List IndexEvent)
    (hsame : events.filter IndexEvent.isRequest = others.filter IndexEvent.isRequest)
    (hevents : (events.map IndexEvent.clock).Pairwise (· ≤ ·))
    (hothers : (others.map IndexEvent.clock).Pairwise (· ≤ ·)) :
    (Transition.run IndexEvent.step (Context.configured etimeoutSec setups) events).2 =
      (Transition.run IndexEvent.step (Context.configured etimeoutSec setups) others).2 := by
  rw [Context.run_requests etimeoutSec setups events hevents,
    Context.run_requests etimeoutSec setups others hothers, hsame]

/-- Two prunes more, one of which drops a record. -/
theorem pruning_unobservable_sample :
    (Transition.run IndexEvent.step (Context.configured 120 []) [sampleRegister 5,
      .request (sampleEnv 200) (some (.obj [(ascii "op", .str (ascii "list"))]))]).2 =
    (Transition.run IndexEvent.step (Context.configured 120 []) [sampleRegister 5, .prune 65,
      .prune 126, .request (sampleEnv 200) (some (.obj [(ascii "op", .str (ascii "list"))]))]).2 :=
  pruning_unobservable 120 [] _ _ rfl (by decide) (by decide)

end Redp2p
