import Redp2p.Delivery
import Redp2p.JsonText
import Redp2p.Pruning

/-! Refused requests: whatever the index answers with an error leaves the records and the pending calls
that have not expired as they were. -/

namespace Redp2p

open ByteString

namespace Context

def unexpired (now : UInt64) (call : PendingCall) : Bool := !call.expired now

/-- What has not expired stays. The pending calls may change places. -/
structure Retains (now : UInt64) (ctx ctx' : Context) : Prop where
  peers : ctx'.peers.filter (fresh ctx.etimeoutSec now) = ctx.peers.filter (fresh ctx.etimeoutSec now)
  calls : (ctx'.pendingCalls.filter (unexpired now)).Perm (ctx.pendingCalls.filter (unexpired now))

theorem Retains.refl (now : UInt64) (ctx : Context) : Retains now ctx ctx := ⟨rfl, .refl _⟩

theorem Retains.evicted (now : UInt64) (ctx : Context) (alloc : Nat) :
    Retains now ctx { ctx.evictStale now with peersAlloc := alloc } where
  peers := by
    rw [evictStale_eq]
    simp only [List.filter_filter, Bool.and_self]
  calls := .refl _

theorem Retains.expired (now : UInt64) (ctx : Context) :
    Retains now ctx (ctx.pendingCallEvictStale now).2 where
  peers := rfl
  calls := by
    have hdropped : (ctx.pendingCallEvictStale now).1.filter (unexpired now) = [] := by
      refine List.filter_eq_nil_iff.mpr fun call hcall => ?_
      simp [unexpired, ctx.pendingCallEvictStale_expired now call hcall]
    have hperm := (ctx.pendingCallEvictStale_perm now).filter (unexpired now)
    rwa [List.filter_append, hdropped, List.nil_append] at hperm

/-! ### The refusals of each handler -/

/-- A request that is refused retains what has not expired. -/
def Refuses (env : Env) (ctx : Context) (x : Context × Reply) : Prop :=
  x.2.status ≠ 200 → Retains env.now ctx x.1

theorem Refuses.same {env : Env} {ctx : Context} {reply : Reply} : Refuses env ctx (ctx, reply) :=
  fun _ => .refl env.now ctx

theorem Refuses.accepted {env : Env} {ctx ctx' : Context} {obj : JsonObject Int} :
    Refuses env ctx (ctx', respondOk obj) := fun h => absurd rfl h

theorem Refuses.evicted {env : Env} {ctx : Context} {alloc : Nat} {reply : Reply} :
    Refuses env ctx ({ ctx.evictStale env.now with peersAlloc := alloc }, reply) :=
  fun _ => .evicted env.now ctx alloc

theorem handleChallenge_refuses (ctx : Context) (env : Env) (req : JsonObject Rat) :
    Refuses env ctx (ctx.handleChallenge env req) := by
  intro _
  rw [handleChallenge_fst]
  exact .refl env.now ctx

theorem handleLookup_refuses (ctx : Context) (env : Env) (req : JsonObject Rat) :
    Refuses env ctx (ctx.handleLookup env req) := by
  intro _
  rw [handleLookup_fst]
  exact .refl env.now ctx

/-- A record that is refreshed or added is found, so no registration fails after that. -/
theorem addPeer_found {ctx : Context} {env : Env} {id : Bytes} (hid : isValidId id = true)
    {ctx' : Context} (h : ctx.addPeer env id = (ctx', .ok)) : ∃ index, ctx'.findPeer id = some index := by
  have htake : id.take idMax = id := List.take_of_length_le (isValidId_iff.mp hid).2.1
  have hcases := addPeer_cases ctx env id
  rw [h] at hcases
  cases hfind : ctx'.findPeer id with
  | some index => exact ⟨index, rfl⟩
  | none =>
    rw [findPeer_none, record, Keyed.lookup_eq_none_iff] at hfind
    cases hcases with
    | refreshed index found =>
      obtain ⟨peer, _, hpid, hget, _⟩ := findPeer_some found
      have hmem : ({ peer with lastSeen := env.now } : Peer) ∈
          ctx.peers.modify index fun p => { p with lastSeen := env.now } := by
        refine List.mem_of_getElem? (i := index) ?_
        rw [List.getElem?_modify_eq, hget]
        rfl
      exact absurd hpid (hfind { peer with lastSeen := env.now } hmem)
    | added key alloc absent seat nonvip generated room =>
      exact absurd htake (hfind (newPeer id key env.now) (by simp))

theorem registerPeer_refuses (ctx : Context) (env : Env) {r : RegisterRequest}
    (hid : isValidId r.id = true) : Refuses env ctx (ctx.registerPeer env r) := by
  have hcases := addPeer_cases (ctx.evictStale env.now) env r.id
  have hfound : ∀ ctx', (ctx.evictStale env.now).addPeer env r.id = (ctx', .ok) →
      ∃ index, ctx'.findPeer r.id = some index := fun ctx' h => addPeer_found hid h
  unfold registerPeer
  generalize (ctx.evictStale env.now).addPeer env r.id = result at hcases hfound ⊢
  cases hcases with
  | refreshed index found =>
    obtain ⟨index', hfind⟩ := hfound _ rfl
    simp only [hfind]
    exact .accepted
  | added key alloc absent seat nonvip generated room =>
    obtain ⟨index', hfind⟩ := hfound _ rfl
    simp only [hfind]
    exact .accepted
  | full absent seats taken => exact .evicted
  | failed alloc room => exact .evicted

theorem handleRegister_refuses (ctx : Context) (env : Env) (req : JsonObject Rat) :
    Refuses env ctx (ctx.handleRegister env req) := by
  unfold handleRegister
  split
  · exact .same
  · rename_i r hparse
    split
    · exact .same
    · exact registerPeer_refuses ctx env (requireIdResponse_ok (parseRegister_ok hparse).1).2

theorem handleHeartbeat_refuses (ctx : Context) (env : Env) (req : JsonObject Rat) :
    Refuses env ctx (ctx.handleHeartbeat env req) := by
  unfold handleHeartbeat
  split
  · exact .same
  · dsimp only
    split
    · exact .evicted
    · split
      · exact .evicted
      · exact .accepted

theorem handleDeregister_refuses (ctx : Context) (env : Env) (req : JsonObject Rat) :
    Refuses env ctx (ctx.handleDeregister env req) := by
  unfold handleDeregister
  split
  · exact .same
  · dsimp only
    split
    · exact .evicted
    · split
      · exact .evicted
      · exact .accepted

theorem handlePunchReq_refuses (ctx : Context) (env : Env) (req : JsonObject Rat) :
    Refuses env ctx (ctx.handlePunchReq env req) := by
  unfold handlePunchReq
  split
  · exact .same
  · rename_i r hparse
    rw [pendingCallAdd_fields _ _ hparse]
    by_cases hfull : (ctx.pendingCallEvictStale env.now).2.pendingCalls.length ≥ maxPendingCalls
    · rw [if_pos hfull]
      exact fun _ => .expired env.now ctx
    · rw [if_neg hfull]
      exact .accepted

theorem handlePunchPoll_refuses (ctx : Context) (env : Env) (req : JsonObject Rat) :
    Refuses env ctx (ctx.handlePunchPoll env req) := by
  unfold handlePunchPoll
  split
  · exact .same
  · exact .accepted

theorem handleOp_refuses (ctx : Context) (env : Env) (op : Bytes) (req : JsonObject Rat) :
    Refuses env ctx (ctx.handleOp env op req) := by
  unfold handleOp
  split
  · exact handleChallenge_refuses ctx env req
  split
  · exact handleRegister_refuses ctx env req
  split
  · exact handleHeartbeat_refuses ctx env req
  split
  · exact handleLookup_refuses ctx env req
  split
  · exact .accepted
  split
  · exact handleDeregister_refuses ctx env req
  split
  · exact handlePunchReq_refuses ctx env req
  split
  · exact handlePunchPoll_refuses ctx env req
  · exact .same

theorem dispatch_refuses (ctx : Context) (env : Env) (body : Option (Json Rat)) :
    Refuses env ctx (ctx.dispatch env body) := by
  unfold dispatch
  split
  · exact .same
  split
  · exact .same
  split
  · exact .same
  · exact handleOp_refuses ctx env _ _

/-- In every state that the index reaches, a request whatever its body is that is answered with any
status but 200 leaves the records that have not expired as they are, in their order, and the pending
calls that have not expired as well, in some order. -/
theorem error_reply_retains (etimeoutSec : UInt64) (setups : List Setup) (events : List IndexEvent)
    (strtod : Strtod) (env : Env) (body : Bytes) :
    let ctx := served etimeoutSec setups events
    let answered := ctx.dispatch env (jsonParseString strtod (cstr body))
    answered.2.status ≠ 200 →
      answered.1.peers.filter (fresh ctx.etimeoutSec env.now) =
        ctx.peers.filter (fresh ctx.etimeoutSec env.now) ∧
      (answered.1.pendingCalls.filter (unexpired env.now)).Perm
        (ctx.pendingCalls.filter (unexpired env.now)) := by
  intro ctx answered hrefused
  have hretains : Retains env.now ctx answered.1 := dispatch_refuses ctx env _ hrefused
  exact ⟨hretains.peers, hretains.calls⟩

/-- A body that is cut short, while a publisher is registered and a call for it waits. -/
theorem error_reply_retains_sample :
    let body := ascii "\x7b"
    let events := [sampleRegister 5, .request (sampleEnv 10) (some (.obj longPunch))]
    let ctx := served 120 [] events
    let answered := ctx.dispatch (sampleEnv 11) (jsonParseString (fun _ => (none, 0)) (cstr body))
    (ctx.peers.filter (fresh ctx.etimeoutSec 11)).length = 1 ∧
      (ctx.pendingCalls.filter (unexpired 11)).length = 1 ∧ answered.2.status = 400 ∧
      answered.1.peers.filter (fresh ctx.etimeoutSec 11) = ctx.peers.filter (fresh ctx.etimeoutSec 11) ∧
      (answered.1.pendingCalls.filter (unexpired 11)).Perm (ctx.pendingCalls.filter (unexpired 11)) := by
  intro body events ctx answered
  have hctx : ctx = ((((configured 120 []).registerPeer (sampleEnv 5) sampleRegistration.fields).1).dispatch
      (sampleEnv 10) (some (.obj longPunch))).1 := by
    show served 120 [] events = _
    rw [served, Transition.run_cons, sampleRegister_step _ _ (by decide) (by decide)]
    rfl
  have hparse : jsonParseString (fun _ => (none, 0)) (cstr body) = none := by decide +kernel
  have hstatus : answered.2.status = 400 := by
    show (ctx.dispatch (sampleEnv 11) (jsonParseString _ (cstr body))).2.status = 400
    rw [hparse]
    rfl
  have hretains := error_reply_retains 120 [] events (fun _ => (none, 0)) (sampleEnv 11) body
    (ne_of_eq_of_ne hstatus (by decide))
  refine ⟨?_, ?_, hstatus, hretains⟩
  · rw [hctx]
    decide +kernel
  · rw [hctx]
    decide +kernel

end Context

end Redp2p
