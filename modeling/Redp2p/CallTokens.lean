import Redp2p.StoredCandidates

/-! The token of a punch, from the request of a consumer over the queue of the index to a publisher in
UDP mode, which keeps the first 32 characters. -/

namespace Redp2p

open ByteString

namespace Context

/-! ### Where a waiting call comes from -/

/-- The event is a `punch_req` that the index accepts, with the call that waits after it. -/
inductive Introduces : IndexEvent → PendingCall → Prop where
  | punchReq {env : Env} {body : Option (Json Rat)} {req : JsonObject Rat} {r : PunchFields}
      (object : body.bind Json.getObject = some req)
      (op : req.getString (ascii "op") = some (ascii "punch_req")) (fields : parsePunch req = .ok r) :
      Introduces (.request env body) (r.call env.now)

theorem parsePunch_session {req : JsonObject Rat} {r : PunchFields} (h : parsePunch req = .ok r) :
    req.getString (ascii "session") = some r.session := by
  unfold parsePunch at h
  split at h
  · exact nomatch h
  · exact nomatch h
  · split at h
    · exact nomatch h
    · rename_i session hsession
      split at h
      · exact nomatch h
      · split at h
        · exact nomatch h
        · obtain rfl := Except.ok.inj h
          exact hsession
  · exact nomatch h

theorem addPeer_calls (ctx : Context) (env : Env) (id : Bytes) :
    (ctx.addPeer env id).1.pendingCalls = ctx.pendingCalls := by
  have hadd := addPeer_cases ctx env id
  generalize ctx.addPeer env id = result at hadd
  cases hadd <;> rfl

theorem removePeer_calls (ctx : Context) (id : Bytes) :
    (ctx.removePeer id).1.pendingCalls = ctx.pendingCalls := by
  unfold removePeer
  split <;> rfl

theorem handleRegister_calls (ctx : Context) (env : Env) (req : JsonObject Rat) :
    (ctx.handleRegister env req).1.pendingCalls = ctx.pendingCalls := by
  unfold handleRegister
  split
  · rfl
  rename_i r _
  have hadded := (ctx.evictStale env.now).addPeer_calls env r.id
  split
  · rfl
  unfold registerPeer
  split
  · rename_i ctx' hadd
    rw [hadd] at hadded
    split
    · exact hadded
    · exact (ctx'.removePeer_calls r.id).trans hadded
  · rename_i hadd
    rwa [hadd] at hadded
  · rename_i hadd
    rwa [hadd] at hadded

theorem handleHeartbeat_calls (ctx : Context) (env : Env) (req : JsonObject Rat) :
    (ctx.handleHeartbeat env req).1.pendingCalls = ctx.pendingCalls := by
  unfold handleHeartbeat
  split
  · rfl
  dsimp only
  split
  · rfl
  split <;> rfl

theorem handleDeregister_calls (ctx : Context) (env : Env) (req : JsonObject Rat) :
    (ctx.handleDeregister env req).1.pendingCalls = ctx.pendingCalls := by
  unfold handleDeregister
  split
  · rfl
  dsimp only
  split
  · rfl
  split
  · rfl
  · exact removePeer_calls _ _

theorem handlePunchReq_calls {ctx : Context} {env : Env} {req : JsonObject Rat} {call : PendingCall}
    (h : call ∈ (ctx.handlePunchReq env req).1.pendingCalls) :
    call ∈ ctx.pendingCalls ∨ ∃ r, parsePunch req = .ok r ∧ call = r.call env.now := by
  have heffect := handlePunchReq_effect ctx env req
  generalize (ctx.handlePunchReq env req).1 = ctx' at h heffect
  cases heffect with
  | called calls source bound => exact source call h
  | unchanged => exact Or.inl h
  | evicted alloc room => exact Or.inl h
  | stored peer endpoint found allowed => exact Or.inl h
  | added r key alloc registers absent seat nonvip generated room => exact Or.inl h
  | removed peer found allowed => exact Or.inl h

theorem handlePunchPoll_calls {ctx : Context} {env : Env} {req : JsonObject Rat} {call : PendingCall}
    (h : call ∈ (ctx.handlePunchPoll env req).1.pendingCalls) : call ∈ ctx.pendingCalls := by
  cases hid : requireIdResponse req with
  | error reply =>
    unfold handlePunchPoll at h
    rwa [hid] at h
  | ok id => exact ((mem_after_poll hid).mp h).1

/-- Only a `punch_req` brings a call. -/
theorem handleOp_calls {ctx : Context} {env : Env} {op : Bytes} {req : JsonObject Rat} {call : PendingCall}
    (h : call ∈ (ctx.handleOp env op req).1.pendingCalls) :
    call ∈ ctx.pendingCalls ∨
      op = ascii "punch_req" ∧ ∃ r, parsePunch req = .ok r ∧ call = r.call env.now := by
  unfold handleOp at h
  split at h
  · rw [handleChallenge_fst] at h
    exact Or.inl h
  split at h
  · rw [handleRegister_calls] at h
    exact Or.inl h
  split at h
  · rw [handleHeartbeat_calls] at h
    exact Or.inl h
  split at h
  · rw [handleLookup_fst] at h
    exact Or.inl h
  split at h
  · exact Or.inl h
  split at h
  · rw [handleDeregister_calls] at h
    exact Or.inl h
  split at h
  · rename_i hop
    exact (handlePunchReq_calls h).imp_right fun hbrought => ⟨hop, hbrought⟩
  split at h
  · exact Or.inl (handlePunchPoll_calls h)
  · exact Or.inl h

theorem step_calls {ctx : Context} {event : IndexEvent} {call : PendingCall}
    (h : call ∈ (event.step ctx).1.pendingCalls) : call ∈ ctx.pendingCalls ∨ Introduces event call := by
  cases event with
  | prune now => exact Or.inl h
  | request env body =>
    replace h : call ∈ (ctx.dispatch env body).1.pendingCalls := h
    unfold dispatch at h
    split at h
    · exact Or.inl h
    rename_i req hbody
    split at h
    · exact Or.inl h
    split at h
    · exact Or.inl h
    rename_i op hop
    rcases handleOp_calls h with hbefore | ⟨rfl, r, hparse, rfl⟩
    · exact Or.inl hbefore
    · exact Or.inr (.punchReq hbody hop hparse)

/-- Each call that waits was introduced by a request of the run. -/
theorem served_calls (etimeoutSec : UInt64) (setups : List Setup) (events : List IndexEvent)
    {call : PendingCall} (h : call ∈ (served etimeoutSec setups events).pendingCalls) :
    ∃ event ∈ events, Introduces event call := by
  have horigin := Transition.run_origin (fun (ctx : Context) call => call ∈ ctx.pendingCalls) Introduces
    (fun _ _ _ hcall => step_calls hcall) h
  rcases horigin with hstart | horigin
  · rw [(configured_ready etimeoutSec setups).calls] at hstart
    exact nomatch hstart
  · exact horigin

/-- The items of a poll reply are calls that requests of the run introduced. -/
theorem polled_items (etimeoutSec : UInt64) (setups : List Setup) (events : List IndexEvent) {env : Env}
    {req : JsonObject Rat} {obj : JsonObject Int}
    (hreply : ((served etimeoutSec setups events).handlePunchPoll env req).2 = respondOk obj) :
    ∃ calls : List PendingCall, obj = pollObject calls ∧
      ∀ call ∈ calls, ∃ event ∈ events, Introduces event call := by
  have hserved : ∀ call ∈ (served etimeoutSec setups events).pendingCalls,
      ∃ event ∈ events, Introduces event call := fun _ h => served_calls etimeoutSec setups events h
  generalize served etimeoutSec setups events = ctx at hreply hserved
  unfold handlePunchPoll at hreply
  split at hreply
  · rename_i reply hid
    have hstatus := requireIdResponse_error hid
    dsimp only at hreply
    rw [hreply] at hstatus
    exact nomatch hstatus
  · rename_i id hid
    have hobj : pollObject _ = obj := Json.obj.inj (congrArg Reply.value hreply)
    refine ⟨_, hobj.symm, fun call hcall => hserved call ?_⟩
    have hfresh := ((ctx.pendingCallEvictStale env.now).2.pendingCallTakeAll_perm id).mem_iff.mp
      (List.mem_append_left _ hcall)
    exact (ctx.pendingCallEvictStale_perm env.now).mem_iff.mp (List.mem_append_right _ hfresh)

end Context

/-! ### The token of a publisher -/

namespace Publisher

variable {κ : Type}

/-- The token that a publisher hands to `redp2p_punch_select` for an item of a poll reply. -/
def selectToken (p : Publisher κ) (item : Json Rat) : Option Bytes :=
  (parseCall item).bind fun call => (callSession p.proto call.session).map Prod.fst

/-- The punch for a call speaks of that token. -/
theorem takeCall_selects {p : Publisher κ} {item : Json Rat} {call : PunchCall} {token : Bytes}
    (hcall : parseCall item = some call) (htoken : p.selectToken item = some token) :
    (p.takeCall call).1.answering.map Answering.punching =
      Punching.start p.sweep token p.selfId call.selfId call.candidates := by
  obtain ⟨⟨_, sessionId⟩, hsession, rfl⟩ : ∃ session, callSession p.proto call.session = some session ∧
      session.1 = token := by
    rw [selectToken, hcall] at htoken
    exact Option.map_eq_some_iff.mp htoken
  have hvalid : (isValidId call.selfId && isSessionToken call.session) = true := by
    simp only [parseCall, Option.bind_eq_bind, Option.pure_def, Option.bind_eq_some_iff,
      Option.guard_eq_some', Option.some.injEq] at hcall
    obtain ⟨_, _, _, _, _, _, _, hvalid, _, _, rfl⟩ := hcall
    exact hvalid
  unfold takeCall
  rw [hvalid, hsession]
  rw [Bool.not_true, if_neg Bool.false_ne_true]
  dsimp only
  rw [Option.map_map]
  exact Option.map_id'

/-- In UDP mode the token is what a buffer of 33 bytes takes of the session. -/
theorem selectToken_udp {p : Publisher κ} (hudp : p.proto = .udp) {call : PendingCall}
    (haccepted : Context.Accepted call) (hlist : StorableList call.candidates) :
    p.selectToken (asRead (Context.callValue call)) = some (call.sessId.take 32) := by
  rw [selectToken, parseCall_written haccepted hlist, Option.bind_some, hudp]
  rfl

end Publisher

/-- In every run of an index, each item of a poll reply is a call that a `punch_req` of the run
introduced, and a publisher in UDP mode punches with the session of that request exactly when it has at
most 32 characters. -/
theorem session_token_kept_iff (etimeoutSec : UInt64) (setups : List Setup) (events : List IndexEvent)
    (env : Env) (req : JsonObject Rat) (obj : JsonObject Int)
    (hreply : ((Context.served etimeoutSec setups events).handlePunchPoll env req).2 = respondOk obj)
    {κ : Type} (p : Publisher κ) (hudp : p.proto = .udp) :
    ∃ items, (asReadMembers obj).getArray (ascii "calls") = some items ∧
      ∀ item ∈ items, ∃ (punchEnv : Env) (body : Option (Json Rat)) (request : JsonObject Rat)
        (r : Context.PunchFields), IndexEvent.request punchEnv body ∈ events ∧
          body.bind Json.getObject = some request ∧
          request.getString (ascii "op") = some (ascii "punch_req") ∧
          Context.parsePunch request = .ok r ∧
          request.getString (ascii "session") = some r.session ∧
          item = asRead (Context.callValue (r.call punchEnv.now)) ∧
          (p.selectToken item = some r.session ↔ r.session.length ≤ 32) := by
  obtain ⟨calls, rfl, hcalls⟩ := Context.polled_items etimeoutSec setups events hreply
  refine ⟨asReadItems (calls.map Context.callValue), rfl, fun item hitem => ?_⟩
  obtain ⟨call, hcall, rfl⟩ : ∃ call ∈ calls, asRead (Context.callValue call) = item := by
    rw [asReadItems_eq_map, List.map_map] at hitem
    exact List.mem_map.mp hitem
  obtain ⟨event, hevent, hintroduces⟩ := hcalls call hcall
  cases hintroduces with
  | @punchReq punchEnv body request r hobject hop hfields =>
    have hlist := indexParseCandidates_storable (parsePunch_list hfields)
    obtain ⟨hself, htarget, hsession, hcount, hall⟩ := Context.parsePunch_ok hfields
    have haccepted : Context.Accepted (r.call punchEnv.now) := ⟨hself, htarget, hsession, hcount, hall⟩
    have htoken := Publisher.selectToken_udp hudp haccepted hlist
    refine ⟨punchEnv, body, request, r, hevent, hobject, hop, hfields,
      Context.parsePunch_session hfields, rfl, ?_⟩
    rw [htoken, Option.some.injEq]
    exact List.take_eq_self_iff r.session

/-- A publisher `pub` in UDP mode. -/
def udpPublisher : Publisher Unit := .start .udp (ascii "pub") 9000 3

def longPunchEvent : IndexEvent := .request (sampleEnv 10) (some (.obj longPunch))

theorem longPunch_polled :
    ((Context.served 120 [] [longPunchEvent]).handlePunchPoll (sampleEnv 11) pollPub).2 =
      respondOk (Context.pollObject [longCall]) := rfl

theorem session_token_kept_sample :
    ∃ items, (asReadMembers (Context.pollObject [longCall])).getArray (ascii "calls") = some items ∧
      ∀ item ∈ items, ∃ (punchEnv : Env) (body : Option (Json Rat)) (request : JsonObject Rat)
        (r : Context.PunchFields), IndexEvent.request punchEnv body ∈ [longPunchEvent] ∧
          body.bind Json.getObject = some request ∧
          request.getString (ascii "op") = some (ascii "punch_req") ∧
          Context.parsePunch request = .ok r ∧
          request.getString (ascii "session") = some r.session ∧
          item = asRead (Context.callValue (r.call punchEnv.now)) ∧
          (udpPublisher.selectToken item = some r.session ↔ r.session.length ≤ 32) :=
  session_token_kept_iff 120 [] [longPunchEvent] (sampleEnv 11) pollPub _ longPunch_polled udpPublisher rfl

/-- The index accepts a session of 63 characters and hands it out in a poll; the publisher punches with
the first 32. -/
theorem session_token_cut :
    ((Context.served 120 [] []).handlePunchReq (sampleEnv 10) longPunch).2 = respondOk okObject ∧
      longPunch.getString (ascii "session") = some (List.replicate 63 0x35) ∧
      ((Context.served 120 [] [longPunchEvent]).handlePunchPoll (sampleEnv 11) pollPub).2 =
        respondOk (Context.pollObject [longCall]) ∧
      udpPublisher.selectToken (asRead (Context.callValue longCall)) = some (List.replicate 32 0x35) ∧
      udpPublisher.selectToken (asRead (Context.callValue longCall)) ≠ longPunch.getString (ascii "session") :=
  ⟨rfl, rfl, longPunch_polled, by decide +kernel, by decide +kernel⟩

end Redp2p
