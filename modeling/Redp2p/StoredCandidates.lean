import Redp2p.LiveSessions
import Redp2p.Delivery
import Redp2p.Listing

/-! The candidates that an index stores: it writes each list as it was accepted, and a publisher accepts
every call that an index writes. -/

namespace Redp2p

open ByteString

/-! ### One candidate -/

/-- A candidate that a request can bring into the index. -/
structure Candidate.Storable (c : Candidate) : Prop where
  type : parseCandidateType (candidateTypeName c.type) = some c.type
  length : c.addr.length ≤ addrMax
  address : ((inetPton4 c.addr).isSome || (inetPton6 c.addr).isSome) = true
  port : c.port ≠ 0
  priority : c.priority = candidatePriority c.type c.addr

theorem parseCandidateType_name {text : Bytes} {type : CandidateType}
    (h : parseCandidateType text = some type) : parseCandidateType (candidateTypeName type) = some type := by
  unfold parseCandidateType at h
  split at h
  · obtain rfl := Option.some.inj h
    rfl
  split at h
  · obtain rfl := Option.some.inj h
    rfl
  split at h
  · obtain rfl := Option.some.inj h
    rfl
  split at h
  · obtain rfl := Option.some.inj h
    rfl
  · exact nomatch h

theorem parsePort_ne_zero {number : Rat} {port : UInt16} (h : parsePort number = some port) : port ≠ 0 := by
  unfold parsePort at h
  split at h
  · exact nomatch h
  · rename_i hbounds
    obtain rfl := Option.some.inj h
    simp only [Bool.or_eq_true, decide_eq_true_eq, not_or, not_lt] at hbounds
    have hlow : 1 ≤ number.floor := Rat.le_floor_iff.mpr (by simpa using hbounds.1)
    have hhigh : number.floor ≤ 65535 := by
      exact_mod_cast (Rat.floor_le number).trans hbounds.2
    intro hzero
    have hnat := congrArg UInt16.toNat hzero
    simp only [UInt16.toNat_ofNat', UInt16.toNat_zero] at hnat
    omega

/-- A port is read from its own number. -/
theorem parsePort_toNat {port : UInt16} (h : port ≠ 0) : parsePort ((port.toNat : Int) : Rat) = some port := by
  have hlow : 1 ≤ port.toNat := by
    by_contra hnot
    exact h (UInt16.toNat_inj.mp (by rw [UInt16.toNat_zero]; omega))
  have hhigh := port.toNat_lt
  unfold parsePort
  rw [Rat.floor_intCast, if_neg]
  · simp
  · simp only [Bool.or_eq_true, decide_eq_true_eq, not_or, not_lt]
    constructor
    · exact_mod_cast hlow
    · exact_mod_cast Nat.le_of_lt_succ hhigh

theorem parseCandidate_storable {item : Json Rat} {c : Candidate} (h : parseCandidate item = some c) :
    c.Storable := by
  simp only [parseCandidate, Option.bind_eq_bind, Option.pure_def, Option.bind_eq_some_iff,
    Option.guard_eq_some', Option.some.injEq] at h
  obtain ⟨_, _, _, _, addr, _, _, hlength, type, htype, _, haddress, _, _, port, hport, rfl⟩ := h
  exact ⟨parseCandidateType_name htype, hlength, haddress, parsePort_ne_zero hport, rfl⟩

theorem Candidate.Storable.plain {c : Candidate} (h : c.Storable) : ∀ b ∈ c.addr, isPlain b = true := by
  have haddress := h.address
  rw [Bool.or_eq_true, Option.isSome_iff_exists, Option.isSome_iff_exists] at haddress
  intro b hb
  rcases haddress with ⟨address, h4⟩ | ⟨address, h6⟩
  · exact isPlain_of_isAddrChar (inetPton4_chars h4 b hb)
  · exact isPlain_of_isAddrChar (inetPton6_chars h6 b hb)

/-- A candidate is read back from what is written for it. -/
theorem parseCandidate_written {c : Candidate} (h : c.Storable) :
    parseCandidate (asRead (candidateValue c)) = some c := by
  have hname : cstr (candidateTypeName c.type) = candidateTypeName c.type :=
    cstr_eq_self fun b hb => ne_zero_of_isPlain (candidateTypeName_plain c.type b hb)
  have haddr : cstr c.addr = c.addr := cstr_eq_self fun b hb => ne_zero_of_isPlain (h.plain b hb)
  have htype : JsonObject.getString (asReadMembers [(ascii "type", .str (candidateTypeName c.type)),
      (ascii "addr", .str c.addr), (ascii "port", .num c.port.toNat)]) (ascii "type") =
        some (candidateTypeName c.type) := congrArg some hname
  have haddress : JsonObject.getString (asReadMembers [(ascii "type", .str (candidateTypeName c.type)),
      (ascii "addr", .str c.addr), (ascii "port", .num c.port.toNat)]) (ascii "addr") = some c.addr :=
    congrArg some haddr
  have hport : JsonObject.getNumber (asReadMembers [(ascii "type", .str (candidateTypeName c.type)),
      (ascii "addr", .str c.addr), (ascii "port", .num c.port.toNat)]) (ascii "port") =
        some ((c.port.toNat : Int) : Rat) := rfl
  rw [candidateValue_eq h.plain]
  unfold parseCandidate
  rw [asRead]
  simp only [Json.getObject, Option.bind_eq_bind, Option.bind_some, htype, haddress, hport, h.type,
    parsePort_toNat h.port, h.address, guard_true, h.length, Option.pure_def, ← h.priority]

/-! ### Lists in objects -/

theorem getValue_asReadMembers (obj : JsonObject Int) (name : Bytes) :
    (asReadMembers obj).getValue name = (obj.getValue name).map asRead := by
  induction obj with
  | nil => rfl
  | cons member obj ih =>
    obtain ⟨key, value⟩ := member
    unfold JsonObject.getValue at ih ⊢
    rw [asReadMembers, List.find?_cons, List.find?_cons]
    cases key == name with
    | true => rfl
    | false => exact ih

theorem getValue_setValue {N : Type} (obj : JsonObject N) (name : Bytes) (value : Json N) :
    (obj.setValue name value).getValue name = some value := by
  unfold JsonObject.setValue JsonObject.getValue
  split
  · rename_i hany
    induction obj with
    | nil => exact nomatch hany
    | cons member obj ih =>
      rw [List.map_cons, List.find?_cons]
      cases hkey : member.1 == name with
      | true => simp
      | false =>
        rw [List.any_cons, hkey, Bool.false_or] at hany
        simp only [Bool.false_eq_true, if_false, hkey]
        exact ih hany
  · rename_i hany
    have hnone : obj.find? (fun m => m.1 == name) = none :=
      List.find?_eq_none.mpr fun m hm heq => hany (List.any_eq_true.mpr ⟨m, hm, heq⟩)
    rw [List.find?_append, hnone]
    simp

theorem getValue_setValue_other {N : Type} (obj : JsonObject N) {name other : Bytes} (hne : other ≠ name)
    (value : Json N) : (obj.setValue other value).getValue name = obj.getValue name := by
  have hskip : (other == name) = false := by simpa using hne
  unfold JsonObject.setValue JsonObject.getValue
  split
  · rename_i hany
    clear hany
    induction obj with
    | nil => rfl
    | cons member obj ih =>
      rw [List.map_cons, List.find?_cons, List.find?_cons]
      cases hkey : member.1 == other with
      | true =>
        have hname : (member.1 == name) = false := by rw [beq_iff_eq.mp hkey, hskip]
        simp only [if_true, hskip, hname]
        exact ih
      | false =>
        simp only [Bool.false_eq_true, if_false]
        cases member.1 == name with
        | true => rfl
        | false => exact ih
  · rw [List.find?_append, List.find?_singleton]
    simp [hskip]

/-- The candidate lists that the index stores. -/
structure StorableList (candidates : List Candidate) : Prop where
  count : candidates.length ≤ peerCandidatesMax
  storable : ∀ c ∈ candidates, c.Storable

theorem parseCandidateItems_storable {items : List (Json Rat)} {candidates : List Candidate}
    (h : parseCandidateItems items = some candidates) :
    candidates.length = items.length ∧ ∀ c ∈ candidates, c.Storable := by
  induction items generalizing candidates with
  | nil =>
    obtain rfl := Option.some.inj h
    simp
  | cons item rest ih =>
    unfold parseCandidateItems at h
    split at h
    · rename_i c others hitem hrest
      obtain rfl := Option.some.inj h
      obtain ⟨hlength, hall⟩ := ih hrest
      exact ⟨by simp [hlength], List.forall_mem_cons.mpr ⟨parseCandidate_storable hitem, hall⟩⟩
    · exact nomatch h

theorem indexParseCandidates_storable {obj : JsonObject Rat} {field : Bytes} {candidates : List Candidate}
    (h : indexParseCandidates obj field = some candidates) : StorableList candidates := by
  unfold indexParseCandidates at h
  split at h
  · obtain rfl := Option.some.inj h
    exact ⟨Nat.zero_le _, by simp⟩
  · split at h
    · exact nomatch h
    · obtain ⟨hlength, hall⟩ := parseCandidateItems_storable h
      exact ⟨by omega, hall⟩

theorem parseCandidateItems_written {candidates : List Candidate} (h : ∀ c ∈ candidates, c.Storable) :
    parseCandidateItems (asReadItems (candidates.map candidateValue)) = some candidates := by
  induction candidates with
  | nil => rfl
  | cons c candidates ih =>
    obtain ⟨hfirst, hrest⟩ := List.forall_mem_cons.mp h
    rw [List.map_cons, asReadItems, parseCandidateItems, parseCandidate_written hfirst, ih hrest]

/-- A list is read back from the array that is written for it. -/
theorem indexParseCandidates_array {obj : JsonObject Int} {field : Bytes} {candidates : List Candidate}
    (h : StorableList candidates)
    (harray : obj.getValue field = some (.arr (candidates.map candidateValue))) :
    indexParseCandidates (asReadMembers obj) field = some candidates := by
  have hitems : (asReadMembers obj).getArray field = some (asReadItems (candidates.map candidateValue)) := by
    rw [JsonObject.getArray, getValue_asReadMembers, harray, Option.map_some, asRead]
  unfold indexParseCandidates
  rw [hitems]
  dsimp only
  rw [asReadItems_eq_map, List.length_map, List.length_map, if_neg (Nat.not_lt.mpr h.count),
    ← asReadItems_eq_map, parseCandidateItems_written h.storable]

theorem indexParseCandidates_append {candidates : List Candidate} (h : StorableList candidates)
    (obj : JsonObject Int) (field : Bytes) :
    indexParseCandidates (asReadMembers (indexAppendCandidates obj field candidates)) field =
      some candidates :=
  indexParseCandidates_array h (getValue_setValue obj field _)

/-! ### Replies and calls -/

theorem parseEndpoint_list {req : JsonObject Rat} {endpoint : Endpoint} (h : parseEndpoint req = .ok endpoint) :
    indexParseCandidates req (ascii "candidates") = some endpoint.candidates := by
  unfold parseEndpoint at h
  split at h
  · split at h
    · exact nomatch h
    · split at h
      · rename_i hcandidates
        obtain rfl := Except.ok.inj h
        exact hcandidates
      · exact nomatch h
  · exact nomatch h

theorem parsePunch_list {req : JsonObject Rat} {r : Context.PunchFields} (h : Context.parsePunch req = .ok r) :
    indexParseCandidates req (ascii "candidates") = some r.candidates := by
  unfold Context.parsePunch at h
  split at h
  · exact nomatch h
  · exact nomatch h
  · split at h
    · exact nomatch h
    · split at h
      · exact nomatch h
      · split at h
        · exact nomatch h
        · rename_i hcandidates
          obtain rfl := Except.ok.inj h
          exact hcandidates
  · exact nomatch h

/-- The reply to a lookup carries the candidates of the record. -/
theorem lookupObject_list (peer : Peer) (h : StorableList peer.candidates) :
    indexParseCandidates (asReadMembers (Context.lookupObject peer)) (ascii "candidates") =
      some peer.candidates := by
  refine indexParseCandidates_array h ?_
  rw [Context.lookupObject, getValue_setValue_other _ (by decide +kernel)]
  exact getValue_setValue _ _ _

/-- The publisher reads a call as it was introduced. -/
theorem parseCall_written {call : PendingCall} (h : Context.Accepted call) (hlist : StorableList call.candidates) :
    parseCall (asRead (Context.callValue call)) = some ⟨call.callerId, call.sessId, call.candidates⟩ := by
  have hself : JsonObject.getString (asReadMembers [(ascii "self_id", .str call.callerId),
      (ascii "session", .str call.sessId), (ascii "candidates", .arr (call.candidates.map candidateValue))])
        (ascii "self_id") = some call.callerId := congrArg some (cstr_of_isValidId h.caller)
  have hsession : JsonObject.getString (asReadMembers [(ascii "self_id", .str call.callerId),
      (ascii "session", .str call.sessId), (ascii "candidates", .arr (call.candidates.map candidateValue))])
        (ascii "session") = some call.sessId :=
    congrArg some (cstr_eq_self fun b hb => ne_zero_of_isPlain (h.session_plain b hb))
  have hcandidates : indexParseCandidates (asReadMembers [(ascii "self_id", .str call.callerId),
      (ascii "session", .str call.sessId), (ascii "candidates", .arr (call.candidates.map candidateValue))])
        (ascii "candidates") = some call.candidates := indexParseCandidates_array hlist rfl
  rw [Context.callValue_eq h, asRead]
  unfold parseCall
  simp only [Json.getObject, Option.bind_eq_bind, Option.bind_some, hself, hsession, hcandidates, h.caller,
    h.session, Bool.and_self, guard_true, Option.pure_def]

namespace Publisher

variable {κ : Type} (kcp : ByteChannel.Ops κ)

theorem answerCall_proceeds (p : Publisher κ) (call : PunchCall)
    (h : (isValidId call.selfId && isSessionToken call.session) = true) (events : List PunchEvent) :
    (p.answerCall kcp call events).2 = .proceed := by
  have hstage := takeCall_proceeds (p := p) h
  unfold answerCall
  split
  · rename_i hfailed
    rw [hfailed] at hstage
    exact hstage
  · rename_i htaken
    rwa [htaken] at hstage

/-- A publisher gets through all calls that were written for it. -/
theorem processItems_written {calls : List PendingCall} (h : ∀ call ∈ calls, Context.Accepted call)
    (hlists : ∀ call ∈ calls, StorableList call.candidates) (p : Publisher κ) (events : List (List PunchEvent)) :
    (p.processItems kcp (asReadItems (calls.map Context.callValue)) events).2 = .ok := by
  induction calls generalizing p events with
  | nil => rfl
  | cons call calls ih =>
    obtain ⟨hcall, hrest⟩ := List.forall_mem_cons.mp h
    obtain ⟨hlist, hlistRest⟩ := List.forall_mem_cons.mp hlists
    rw [List.map_cons, asReadItems, processItems, parseCall_written hcall hlist]
    dsimp only
    have hstage := p.answerCall_proceeds kcp ⟨call.callerId, call.sessId, call.candidates⟩
      (by rw [hcall.caller, hcall.session, Bool.and_self]) (events.headD [])
    split
    · rename_i hfailed
      rw [hfailed] at hstage
      cases hstage
    · exact ih hrest hlistRest _ _

theorem processPunchCalls_written {calls : List PendingCall} (h : ∀ call ∈ calls, Context.Accepted call)
    (hlists : ∀ call ∈ calls, StorableList call.candidates) (p : Publisher κ) (events : List (List PunchEvent)) :
    (p.processPunchCalls kcp (asReadMembers (Context.pollObject calls)) events).2 = .ok := by
  have hitems : (asReadMembers (Context.pollObject calls)).getArray (ascii "calls") =
      some (asReadItems (calls.map Context.callValue)) := rfl
  unfold processPunchCalls
  rw [hitems]
  exact p.processItems_written kcp h hlists events

end Publisher

/-! ### What an index stores -/

namespace Context

/-- The lists of the records and of the waiting calls. -/
structure StoresLists (ctx : Context) : Prop where
  peers : ∀ p ∈ ctx.peers, StorableList p.candidates
  calls : ∀ call ∈ ctx.pendingCalls, StorableList call.candidates

theorem mem_modify {α : Type} {l : List α} {i : Nat} {f : α → α} {a : α} (h : a ∈ l.modify i f) :
    a ∈ l ∨ ∃ b ∈ l, a = f b := by
  induction l generalizing i with
  | nil => simp at h
  | cons b l ih =>
    cases i with
    | zero =>
      rw [List.modify_zero_cons] at h
      rcases List.mem_cons.mp h with rfl | h
      · exact Or.inr ⟨b, by simp, rfl⟩
      · exact Or.inl (List.mem_cons_of_mem _ h)
    | succ i =>
      rw [List.modify_succ_cons] at h
      rcases List.mem_cons.mp h with rfl | h
      · exact Or.inl (by simp)
      · rcases ih h with h | ⟨c, hc, rfl⟩
        · exact Or.inl (List.mem_cons_of_mem _ h)
        · exact Or.inr ⟨c, List.mem_cons_of_mem _ hc, rfl⟩

theorem StoresLists.evictStale {ctx : Context} (h : ctx.StoresLists) (now : UInt64) :
    (ctx.evictStale now).StoresLists where
  peers := fun p hp => h.peers p ((ctx.evictStale_sublist now).subset hp)
  calls := h.calls

theorem StoresLists.addPeer {ctx : Context} (h : ctx.StoresLists) (env : Env) (id : Bytes) :
    (ctx.addPeer env id).1.StoresLists := by
  have hadd := addPeer_cases ctx env id
  generalize ctx.addPeer env id = result at hadd
  cases hadd with
  | refreshed index found =>
    refine ⟨fun p hp => ?_, h.calls⟩
    rcases mem_modify hp with hp | ⟨q, hq, rfl⟩
    · exact h.peers p hp
    · exact h.peers q hq
  | added key alloc absent seat nonvip generated room =>
    refine ⟨fun p hp => ?_, h.calls⟩
    rcases List.mem_append.mp hp with hp | hp
    · exact h.peers p hp
    · obtain rfl := List.mem_singleton.mp hp
      exact ⟨Nat.zero_le _, by simp [newPeer]⟩
  | full absent seats taken => exact h
  | failed alloc room => exact ⟨h.peers, h.calls⟩

theorem StoresLists.removePeer {ctx : Context} (h : ctx.StoresLists) (id : Bytes) :
    (ctx.removePeer id).1.StoresLists := by
  unfold Context.removePeer
  split
  · exact h
  · exact ⟨fun p hp => h.peers p (List.mem_of_mem_eraseIdx hp), h.calls⟩

theorem StoresLists.storeEndpoint {ctx : Context} (h : ctx.StoresLists) (index : Nat) {endpoint : Endpoint}
    (hlist : StorableList endpoint.candidates) (now : UInt64) :
    (ctx.storeEndpoint index endpoint now).StoresLists := by
  refine ⟨fun p hp => ?_, h.calls⟩
  rcases mem_modify hp with hp | ⟨q, hq, rfl⟩
  · exact h.peers p hp
  · exact hlist

theorem StoresLists.handleRegister {ctx : Context} (h : ctx.StoresLists) (env : Env) (req : JsonObject Rat) :
    (ctx.handleRegister env req).1.StoresLists := by
  unfold Context.handleRegister
  split
  · exact h
  rename_i r hparse
  have hlist := indexParseCandidates_storable (parseEndpoint_list (parseRegister_ok hparse).2.2.2.2)
  have hadded := (h.evictStale env.now).addPeer env r.id
  split
  · exact h
  unfold registerPeer
  split
  · rename_i ctx' hadd
    rw [hadd] at hadded
    split
    · exact hadded.storeEndpoint _ hlist env.now
    · exact hadded.removePeer r.id
  · rename_i ctx' hadd
    rw [hadd] at hadded
    exact hadded
  · rename_i ctx' _ _ _ hadd
    rw [hadd] at hadded
    exact hadded

theorem StoresLists.handleHeartbeat {ctx : Context} (h : ctx.StoresLists) (env : Env) (req : JsonObject Rat) :
    (ctx.handleHeartbeat env req).1.StoresLists := by
  unfold Context.handleHeartbeat
  split
  · exact h
  rename_i r endpoint hparse
  have hlist := indexParseCandidates_storable (parseEndpoint_list (parseHeartbeat_ok hparse).2)
  have hkept := h.evictStale env.now
  dsimp only
  split
  · exact hkept
  split
  · exact hkept
  · exact hkept.storeEndpoint _ hlist env.now

theorem StoresLists.handleDeregister {ctx : Context} (h : ctx.StoresLists) (env : Env) (req : JsonObject Rat) :
    (ctx.handleDeregister env req).1.StoresLists := by
  unfold Context.handleDeregister
  split
  · exact h
  have hkept := h.evictStale env.now
  dsimp only
  split
  · exact hkept
  split
  · exact hkept
  · exact hkept.removePeer _

/-- Calls that were waiting before or come from the request. -/
theorem StoresLists.effect {ctx ctx' : Context} {env : Env} {req : JsonObject Rat} (h : ctx.StoresLists)
    (hpeers : ctx'.peers = ctx.peers) (heffect : Effect ctx env req ctx') : ctx'.StoresLists := by
  refine ⟨by rw [hpeers]; exact h.peers, ?_⟩
  cases heffect with
  | unchanged => exact h.calls
  | called calls source bound =>
    intro call hcall
    rcases source call hcall with hold | ⟨r, hparse, rfl⟩
    · exact h.calls call hold
    · exact indexParseCandidates_storable (parsePunch_list hparse)
  | evicted alloc room => exact h.calls
  | stored peer endpoint found allowed => exact h.calls
  | added r key alloc registers absent seat nonvip generated room => exact h.calls
  | removed peer found allowed => exact h.calls

theorem handlePunchReq_peers (ctx : Context) (env : Env) (req : JsonObject Rat) :
    (ctx.handlePunchReq env req).1.peers = ctx.peers := by
  unfold handlePunchReq pendingCallAdd
  split
  · rfl
  · split
    · rename_i hadd
      split at hadd
      · obtain ⟨rfl, -⟩ := Prod.mk.inj hadd
        rfl
      · exact nomatch (Prod.mk.inj hadd).2
    · rename_i hadd
      split at hadd
      · exact nomatch (Prod.mk.inj hadd).2
      · obtain ⟨rfl, -⟩ := Prod.mk.inj hadd
        rfl

theorem handlePunchPoll_peers (ctx : Context) (env : Env) (req : JsonObject Rat) :
    (ctx.handlePunchPoll env req).1.peers = ctx.peers := by
  unfold handlePunchPoll
  split <;> rfl

theorem StoresLists.handleOp {ctx : Context} (h : ctx.StoresLists) (env : Env) (op : Bytes)
    (req : JsonObject Rat) : (ctx.handleOp env op req).1.StoresLists := by
  unfold Context.handleOp
  split
  · rw [handleChallenge_fst]
    exact h
  split
  · exact h.handleRegister env req
  split
  · exact h.handleHeartbeat env req
  split
  · rw [handleLookup_fst]
    exact h
  split
  · exact h
  split
  · exact h.handleDeregister env req
  split
  · exact h.effect (handlePunchReq_peers ctx env req) (handlePunchReq_effect ctx env req)
  split
  · exact h.effect (handlePunchPoll_peers ctx env req) (handlePunchPoll_effect ctx env req)
  · exact h

theorem StoresLists.dispatch {ctx : Context} (h : ctx.StoresLists) (env : Env) (body : Option (Json Rat)) :
    (ctx.dispatch env body).1.StoresLists := by
  unfold Context.dispatch
  split
  · exact h
  split
  · exact h
  split
  · exact h
  · exact h.handleOp env _ _

theorem served_storesLists (etimeoutSec : UInt64) (setups : List Setup) (events : List IndexEvent) :
    (served etimeoutSec setups events).StoresLists := by
  have hready := configured_ready etimeoutSec setups
  refine Transition.run_invariant StoresLists (fun ctx event h => ?_) ?_ events
  · cases event with
    | request env body => exact h.dispatch env body
    | prune now => exact h.evictStale now
  · constructor
    · simp [hready.peers]
    · simp [hready.calls]

end Context

/-- A list of candidates that the index accepts is written for a lookup or a poll, and read again, as it
is. A publisher never refuses the calls of a poll. -/
theorem candidate_lists_kept :
    (∀ (obj : JsonObject Rat) (field : Bytes) (candidates : List Candidate),
      indexParseCandidates obj field = some candidates → ∀ (target : JsonObject Int) (name : Bytes),
        indexParseCandidates (asReadMembers (indexAppendCandidates target name candidates)) name =
          some candidates) ∧
    (∀ (req : JsonObject Rat) (endpoint : Endpoint), parseEndpoint req = .ok endpoint →
      indexParseCandidates req (ascii "candidates") = some endpoint.candidates ∧
        ∀ (peer : Peer) (now : UInt64),
          indexParseCandidates (asReadMembers (Context.lookupObject (peer.store endpoint now)))
            (ascii "candidates") = some endpoint.candidates) ∧
    (∀ (req : JsonObject Rat) (r : Context.PunchFields), Context.parsePunch req = .ok r →
      indexParseCandidates req (ascii "candidates") = some r.candidates ∧
        ∀ now : UInt64, parseCall (asRead (Context.callValue (r.call now))) =
          some ⟨r.selfId, r.session, r.candidates⟩) ∧
    ∀ (etimeoutSec : UInt64) (setups : List Setup) (events : List IndexEvent) (env : Env)
      (req : JsonObject Rat) (obj : JsonObject Int),
      ((Context.served etimeoutSec setups events).handlePunchPoll env req).2 = respondOk obj →
        ∀ (κ : Type) (kcp : ByteChannel.Ops κ) (p : Publisher κ) (punches : List (List PunchEvent)),
          (p.processPunchCalls kcp (asReadMembers obj) punches).2 ≠ .eproto := by
  refine ⟨?_, ?_, ?_, ?_⟩
  · intro obj field candidates h target name
    exact indexParseCandidates_append (indexParseCandidates_storable h) target name
  · intro req endpoint h
    have hlist := parseEndpoint_list h
    exact ⟨hlist, fun peer now =>
      lookupObject_list (peer.store endpoint now) (indexParseCandidates_storable hlist)⟩
  · intro req r h
    have hlist := parsePunch_list h
    obtain ⟨hself, htarget, hsession, hcount, hall⟩ := Context.parsePunch_ok h
    refine ⟨hlist, fun now => ?_⟩
    have haccepted : Context.Accepted (r.call now) := ⟨hself, htarget, hsession, hcount, hall⟩
    exact parseCall_written haccepted (indexParseCandidates_storable hlist)
  · intro etimeoutSec setups events env req obj hreply κ kcp p punches
    have haccepted := (Context.served_callsValid etimeoutSec setups events).accepted
    have hlists := (Context.served_storesLists etimeoutSec setups events).calls
    generalize Context.served etimeoutSec setups events = ctx at hreply haccepted hlists
    unfold Context.handlePunchPoll at hreply
    split at hreply
    · rename_i reply hid
      have hstatus := requireIdResponse_error hid
      dsimp only at hreply
      rw [hreply] at hstatus
      exact nomatch hstatus
    · rename_i id hid
      have hobj : Context.pollObject _ = obj := Json.obj.inj (congrArg Reply.value hreply)
      have hmem : ∀ call ∈ ((ctx.pendingCallEvictStale env.now).2.pendingCallTakeAll id).1,
          call ∈ ctx.pendingCalls := fun call hcall =>
        (ctx.pendingCallEvictStale_perm env.now).mem_iff.mp (List.mem_append_right _
          (((ctx.pendingCallEvictStale env.now).2.pendingCallTakeAll_perm id).mem_iff.mp
            (List.mem_append_left _ hcall)))
      rw [← hobj, p.processPunchCalls_written kcp (fun call hcall => haccepted call (hmem call hcall))
        (fun call hcall => hlists call (hmem call hcall))]
      exact nofun

/-- A `punch_req` with a candidate of each family. -/
def listedPunch : JsonObject Rat :=
  longPunch ++ [(ascii "candidates", .arr
    [.obj [(ascii "type", .str (ascii "host")), (ascii "addr", .str (ascii "fd00::1")), (ascii "port", .num 9000)],
      .obj [(ascii "type", .str (ascii "srflx")), (ascii "addr", .str (ascii "192.0.2.7")), (ascii "port", .num 40001)]])]

def listedCandidates : List Candidate :=
  [⟨.candHost, ascii "fd00::1", 9000, 100⟩, ⟨.candSrflx, ascii "192.0.2.7", 40001, 230⟩]

def listedFields : Context.PunchFields where
  selfId := List.replicate 63 0x63
  targetId := ascii "pub"
  session := List.replicate 63 0x35
  candidates := listedCandidates

/-- The publisher reads the candidates of the call in the order in which the caller wrote them. -/
theorem candidate_lists_kept_sample :
    indexParseCandidates listedPunch (ascii "candidates") = some listedCandidates ∧
      parseCall (asRead (Context.callValue (listedFields.call 10))) =
        some ⟨listedFields.selfId, listedFields.session, listedCandidates⟩ := by
  have hparse : Context.parsePunch listedPunch = .ok listedFields := by
    have hlist : indexParseCandidates listedPunch (ascii "candidates") = some listedCandidates := by decide +kernel
    unfold Context.parsePunch
    rw [hlist]
    rfl
  obtain ⟨hread, hwritten⟩ := candidate_lists_kept.2.2.1 listedPunch listedFields hparse
  exact ⟨hread, hwritten 10⟩

end Redp2p
