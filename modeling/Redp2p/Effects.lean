import Redp2p.Index

/-! What a request can do to the context of an index: one inversion of every handler, from which the
invariants of the table follow. -/

namespace Redp2p

open ByteString

/-! ### Fields that a request carries -/

theorem bind_ok_iff {ε α β : Type} {x : Except ε α} {f : α → Except ε β} {b : β} :
    (x >>= f) = .ok b ↔ ∃ a, x = .ok a ∧ f a = .ok b := by
  cases x <;> simp [bind, Except.bind]

theorem bind_error_iff {ε α β : Type} {x : Except ε α} {f : α → Except ε β} {e : ε} :
    (x >>= f) = .error e ↔ x = .error e ∨ ∃ a, x = .ok a ∧ f a = .error e := by
  cases x <;> simp [bind, Except.bind]

theorem requireId_valid {req : JsonObject Rat} {field : String} {id : Bytes}
    (h : requireId req field = .valid id) :
    req.getString (ascii field) = some id ∧ isValidId id = true := by
  unfold requireId at h
  split at h
  · simp at h
  · rename_i value hvalue
    split at h
    · simp at h
    · rename_i hok
      simp only [Bool.or_eq_true, not_or, Bool.not_eq_true, Bool.not_eq_false'] at hok
      obtain rfl : value = id := by simpa using h
      exact ⟨hvalue, hok.2⟩

theorem requireIdResponse_ok {req : JsonObject Rat} {id : Bytes}
    (h : requireIdResponse req = .ok id) :
    req.getString (ascii "id") = some id ∧ isValidId id = true := by
  unfold requireIdResponse at h
  split at h
  · simp at h
  · simp at h
  · rename_i value hvalue
    obtain rfl : value = id := by simpa using h
    exact requireId_valid hvalue

theorem requireHex_ok {req : JsonObject Rat} {field : String} {len : Nat} {token : Bytes}
    (h : requireHex req field len = .ok token) :
    req.getString (ascii field) = some token ∧ isHexToken token len = true := by
  unfold requireHex at h
  split at h
  · simp at h
  · rename_i value hvalue
    split at h
    · rename_i hok
      obtain rfl : value = token := by simpa using h
      exact ⟨hvalue, hok⟩
    · simp at h

theorem parseEndpoint_candidates {req : JsonObject Rat} {endpoint : Endpoint}
    (h : parseEndpoint req = .ok endpoint) :
    endpoint.candidates.length ≤ peerCandidatesMax ∧ ∀ c ∈ endpoint.candidates, c.Accepted := by
  unfold parseEndpoint at h
  split at h
  · split at h
    · simp at h
    · split at h
      · rename_i udpPort candidates _ hcandidates
        obtain rfl := Except.ok.inj h
        exact indexParseCandidates_accepted hcandidates
      · simp at h
  · simp at h

theorem requireIdResponse_error {req : JsonObject Rat} {reply : Reply}
    (h : requireIdResponse req = .error reply) : reply.status = 400 := by
  unfold requireIdResponse at h
  split at h
  · obtain rfl := Except.error.inj h
    rfl
  · obtain rfl := Except.error.inj h
    rfl
  · simp at h

theorem requireHex_error {req : JsonObject Rat} {field : String} {len : Nat} {reply : Reply}
    (h : requireHex req field len = .error reply) : reply.status = 400 := by
  unfold requireHex at h
  split at h
  · obtain rfl := Except.error.inj h
    rfl
  · split at h
    · simp at h
    · obtain rfl := Except.error.inj h
      rfl

theorem parseEndpoint_error {req : JsonObject Rat} {reply : Reply}
    (h : parseEndpoint req = .error reply) : reply.status = 400 := by
  unfold parseEndpoint at h
  split at h
  · split at h
    · obtain rfl := Except.error.inj h
      rfl
    · split at h
      · simp at h
      · obtain rfl := Except.error.inj h
        rfl
  · obtain rfl := Except.error.inj h
    rfl

namespace Context

theorem parseRegister_ok {req : JsonObject Rat} {r : RegisterRequest}
    (h : parseRegister req = .ok r) :
    requireIdResponse req = .ok r.id ∧ requireHex req "nonce" 16 = .ok r.nonce ∧
      requireHex req "solution" 8 = .ok r.solution ∧ requireHex req "proof" 64 = .ok r.proof ∧
      parseEndpoint req = .ok r.endpoint := by
  simp only [parseRegister, bind_ok_iff] at h
  obtain ⟨id, hid, nonce, hnonce, solution, hsolution, proof, hproof, endpoint, hendpoint, h⟩ := h
  obtain rfl := Except.ok.inj h
  exact ⟨hid, hnonce, hsolution, hproof, hendpoint⟩

/-- A registration that lacks a field is a bad request. -/
theorem parseRegister_error {req : JsonObject Rat} {reply : Reply}
    (h : parseRegister req = .error reply) : reply.status = 400 := by
  simp only [parseRegister, bind_error_iff] at h
  rcases h with h | ⟨_, _, h | ⟨_, _, h | ⟨_, _, h | ⟨_, _, h | ⟨_, _, h⟩⟩⟩⟩⟩
  · exact requireIdResponse_error h
  · exact requireHex_error h
  · exact requireHex_error h
  · exact requireHex_error h
  · exact parseEndpoint_error h
  · cases h

theorem parseKey_ok {req : JsonObject Rat} {r : KeyRequest} (h : parseKey req = .ok r) :
    requireIdResponse req = .ok r.id ∧ requireHex req "key" keySz = .ok r.key := by
  simp only [parseKey, bind_ok_iff] at h
  obtain ⟨id, hid, key, hkey, h⟩ := h
  obtain rfl := Except.ok.inj h
  exact ⟨hid, hkey⟩

theorem parseHeartbeat_ok {req : JsonObject Rat} {r : KeyRequest} {endpoint : Endpoint}
    (h : parseHeartbeat req = .ok (r, endpoint)) :
    parseKey req = .ok r ∧ parseEndpoint req = .ok endpoint := by
  simp only [parseHeartbeat, bind_ok_iff] at h
  obtain ⟨r', hr, endpoint', hendpoint, h⟩ := h
  obtain ⟨rfl, rfl⟩ := Prod.mk.inj (Except.ok.inj h)
  exact ⟨hr, hendpoint⟩

/-- The call that an accepted `punch_req` introduces. -/
def PunchFields.call (r : PunchFields) (now : UInt64) : PendingCall where
  callerId := r.selfId
  targetId := r.targetId
  sessId := r.session
  candidates := r.candidates
  ts := now

theorem parsePunch_ok {req : JsonObject Rat} {r : PunchFields} (h : parsePunch req = .ok r) :
    isValidId r.selfId = true ∧ isValidId r.targetId = true ∧ isSessionToken r.session = true ∧
      r.candidates.length ≤ peerCandidatesMax ∧ ∀ c ∈ r.candidates, c.Accepted := by
  unfold parsePunch at h
  split at h
  · simp at h
  · simp at h
  · rename_i selfId targetId hself htarget
    split at h
    · simp at h
    · rename_i session hsession
      split at h
      · simp at h
      · rename_i htoken
        split at h
        · simp at h
        · rename_i candidates hcandidates
          obtain rfl := Except.ok.inj h
          obtain ⟨hlen, hall⟩ := indexParseCandidates_accepted hcandidates
          simp only [Bool.or_eq_true, not_or, Bool.not_eq_true, Bool.not_eq_false'] at htoken
          exact ⟨(requireId_valid hself).2, (requireId_valid htarget).2, htoken.2, hlen, hall⟩
  · simp at h

/-- A call whose fields were checked is stored unchanged. -/
theorem pendingCallAdd_fields (ctx : Context) (now : UInt64) {req : JsonObject Rat}
    {r : PunchFields} (h : parsePunch req = .ok r) :
    ctx.pendingCallAdd now r.selfId r.targetId r.session r.candidates =
      if ctx.pendingCalls.length ≥ maxPendingCalls then (ctx, false)
      else ({ ctx with pendingCalls := ctx.pendingCalls ++ [r.call now] }, true) := by
  obtain ⟨hself, htarget, hsession, hlen, _⟩ := parsePunch_ok h
  exact ctx.pendingCallAdd_request now ⟨r.selfId, r.targetId, r.session, r.candidates,
    (isValidId_iff.mp hself).2.1, (isValidId_iff.mp htarget).2.1,
    (isSessionToken_iff.mp hsession).2.1, hlen⟩

/-! ### The table after a request -/

/-- No two records share an identifier. -/
def Unique (ctx : Context) : Prop := Keyed.Unique Peer.id ctx.peers

/-- The change of the record of one publisher. -/
def storeFor (id : Bytes) (endpoint : Endpoint) (now : UInt64) (peer : Peer) : Peer :=
  if peer.id = id then peer.store endpoint now else peer

/-- A registration whose proof is right under the password of its identifier. -/
def Registers (ctx : Context) (req : JsonObject Rat) (r : RegisterRequest) : Prop :=
  req.getString (ascii "op") = some (ascii "register") ∧ parseRegister req = .ok r ∧
    ctx.verifyRegister r = true

/-- A heartbeat or a deregistration that carries a key. -/
def Presents (req : JsonObject Rat) (id key : Bytes) : Prop :=
  (req.getString (ascii "op") = some (ascii "heartbeat") ∨
    req.getString (ascii "op") = some (ascii "deregister")) ∧
    req.getString (ascii "id") = some id ∧ req.getString (ascii "key") = some key

/-- What a request can do to the context. Every change of the records starts by dropping the stale
ones. -/
inductive Effect (ctx : Context) (env : Env) (req : JsonObject Rat) : Context → Prop where
  | unchanged : Effect ctx env req ctx
  | called (calls : List PendingCall)
      (source : ∀ call ∈ calls, call ∈ ctx.pendingCalls ∨
        ∃ r, parsePunch req = .ok r ∧ call = r.call env.now)
      (bound : ctx.pendingCalls.length ≤ maxPendingCalls → calls.length ≤ maxPendingCalls) :
      Effect ctx env req { ctx with pendingCalls := calls }
  | evicted (alloc : Nat) (room : ctx.peersAlloc ≤ alloc) :
      Effect ctx env req { ctx.evictStale env.now with peersAlloc := alloc }
  | stored (peer : Peer) (endpoint : Endpoint)
      (found : (ctx.evictStale env.now).record peer.id = some peer)
      (allowed : (∃ r, ctx.Registers req r ∧ r.id = peer.id) ∨ Presents req peer.id peer.key) :
      Effect ctx env req { ctx.evictStale env.now with
        peers := (ctx.evictStale env.now).peers.map (storeFor peer.id endpoint env.now) }
  | added (r : RegisterRequest) (key : Bytes) (alloc : Nat) (registers : ctx.Registers req r)
      (absent : (ctx.evictStale env.now).record r.id = none)
      (seat : ctx.seatsSet = true → (ctx.evictStale env.now).peers.length < ctx.nPeersCap)
      (nonvip : ctx.seatsSet = true → ctx.findVip r.id = none →
        (ctx.evictStale env.now).countNonvipPeers < ctx.nonvipCap)
      (generated : generateKey env = some key)
      (room : (ctx.evictStale env.now).peers.length + 1 ≤ alloc) :
      Effect ctx env req { ctx.evictStale env.now with
        peers := (ctx.evictStale env.now).peers ++
          [(newPeer r.id key env.now).store r.endpoint env.now],
        peersAlloc := alloc }
  | removed (peer : Peer) (found : (ctx.evictStale env.now).record peer.id = some peer)
      (allowed : Presents req peer.id peer.key) :
      Effect ctx env req { ctx.evictStale env.now with
        peers := (ctx.evictStale env.now).peers.filter fun p => p.id ≠ peer.id }

theorem evictStale_unique {ctx : Context} (h : ctx.Unique) (now : UInt64) :
    (ctx.evictStale now).Unique := by
  rw [Unique, evictStale_peers]
  exact Keyed.unique_filter _ h

theorem record_evictStale {ctx : Context} (h : ctx.Unique) (now : UInt64) (id : Bytes) :
    (ctx.evictStale now).record id =
      (ctx.record id).filter fun p => !p.stale ctx.etimeoutSec now := by
  rw [record, evictStale_peers, Keyed.lookup_filter _ h, record]

/-- The record at the index that a search returns. -/
theorem findPeer_some {ctx : Context} {id : Bytes} {index : Nat}
    (h : ctx.findPeer id = some index) :
    ∃ peer, ctx.record id = some peer ∧ peer.id = id ∧ ctx.peers[index]? = some peer ∧
      ctx.peerKey index = peer.key := by
  have hget := Keyed.getElem?_indexOf h
  cases hrecord : Keyed.lookup Peer.id id ctx.peers with
  | none =>
    have hnone := Keyed.indexOf_eq_none_iff.mpr hrecord
    rw [← findPeer, h] at hnone
    simp at hnone
  | some peer =>
    rw [hrecord] at hget
    exact ⟨peer, hrecord, (Keyed.lookup_some hrecord).2, hget, by simp [peerKey, hget]⟩

theorem findPeer_none {ctx : Context} {id : Bytes} :
    ctx.findPeer id = none ↔ ctx.record id = none :=
  Keyed.indexOf_eq_none_iff

theorem storeEndpoint_eq {ctx : Context} {id : Bytes} {index : Nat}
    (h : ctx.findPeer id = some index) (hunique : ctx.Unique) (endpoint : Endpoint) (now : UInt64) :
    ctx.storeEndpoint index endpoint now =
      { ctx with peers := ctx.peers.map (storeFor id endpoint now) } := by
  rw [storeEndpoint, Keyed.modify_indexOf hunique h]
  rfl

theorem removePeer_eq {ctx : Context} {id : Bytes} {index : Nat}
    (h : ctx.findPeer id = some index) (hunique : ctx.Unique) :
    (ctx.removePeer id).1 = { ctx with peers := ctx.peers.filter fun p => p.id ≠ id } := by
  rw [removePeer, h]
  simp only [Keyed.eraseIdx_indexOf hunique h]

/-! ### The effect of each handler -/

theorem storeFor_map_of_absent {id : Bytes} {peers : List Peer} (endpoint : Endpoint)
    (now : UInt64) (h : Keyed.lookup Peer.id id peers = none) :
    peers.map (storeFor id endpoint now) = peers := by
  have hkeep : ∀ p ∈ peers, storeFor id endpoint now p = p := by
    intro p hp
    rw [storeFor, if_neg (Keyed.lookup_eq_none_iff.mp h p hp)]
  rw [List.map_congr_left hkeep, List.map_id']

theorem registerPeer_effect {ctx : Context} (hunique : ctx.Unique) (env : Env)
    {req : JsonObject Rat} {r : RegisterRequest} (h : ctx.Registers req r) :
    Effect ctx env req (ctx.registerPeer env r).1 := by
  have hid : r.id.take idMax = r.id :=
    List.take_of_length_le
      (isValidId_iff.mp (requireIdResponse_ok (parseRegister_ok h.2.1).1).2).2.1
  have hkept := evictStale_unique hunique env.now
  have hcases := addPeer_cases (ctx.evictStale env.now) env r.id
  unfold registerPeer
  generalize (ctx.evictStale env.now).addPeer env r.id = result at hcases ⊢
  cases hcases with
  | refreshed index found =>
    obtain ⟨peer, hrecord, hpid, _, _⟩ := findPeer_some found
    rw [Keyed.modify_indexOf hkept found]
    have hids : ∀ p : Peer,
        (if p.id = r.id then { p with lastSeen := env.now } else p).id = p.id := by
      intro p
      split <;> rfl
    have hstored : ∀ p : Peer, storeFor r.id r.endpoint env.now
        (if p.id = r.id then { p with lastSeen := env.now } else p) =
          storeFor r.id r.endpoint env.now p := by
      intro p
      by_cases hp : p.id = r.id <;> simp [storeFor, hp, Peer.store]
    dsimp only
    split
    · rename_i index' found'
      rw [storeEndpoint_eq found' (Keyed.unique_map hids hkept)]
      simp only [List.map_map, Function.comp_def, hstored]
      rw [← hpid] at hrecord ⊢
      exact .stored peer r.endpoint hrecord (Or.inl ⟨r, h, hpid.symm⟩)
    · rename_i found'
      rw [findPeer_none, record, Keyed.lookup_map hids, ← record, hrecord] at found'
      simp at found'
  | added key alloc absent seat nonvip generated room =>
    have hnew : (newPeer r.id key env.now).id = r.id := hid
    have habsent := findPeer_none.mp absent
    have hunique' : Keyed.Unique Peer.id
        ((ctx.evictStale env.now).peers ++ [newPeer r.id key env.now]) :=
      Keyed.unique_concat hkept (by rw [hnew]; exact habsent)
    dsimp only
    split
    · rename_i index' found'
      rw [storeEndpoint_eq found' hunique']
      simp only [List.map_append, List.map_cons, List.map_nil]
      rw [storeFor_map_of_absent _ _ habsent, storeFor, if_pos hnew]
      exact .added r key alloc h habsent seat nonvip generated room
    · rename_i found'
      rw [findPeer_none, record, Keyed.lookup_concat, if_pos hnew] at found'
      simp at found'
  | full absent seats taken => exact .evicted _ (Nat.le_refl _)
  | failed alloc room => exact .evicted alloc room

theorem handleRegister_effect {ctx : Context} (hunique : ctx.Unique) (env : Env)
    {req : JsonObject Rat} (hop : req.getString (ascii "op") = some (ascii "register")) :
    Effect ctx env req (ctx.handleRegister env req).1 := by
  unfold handleRegister
  split
  · exact .unchanged
  · rename_i r hparse
    split
    · exact .unchanged
    · rename_i hverify
      exact registerPeer_effect hunique env ⟨hop, hparse, by simpa using hverify⟩

theorem handleHeartbeat_effect {ctx : Context} (hunique : ctx.Unique) (env : Env)
    {req : JsonObject Rat} (hop : req.getString (ascii "op") = some (ascii "heartbeat")) :
    Effect ctx env req (ctx.handleHeartbeat env req).1 := by
  have hkept := evictStale_unique hunique env.now
  unfold handleHeartbeat
  split
  · exact .unchanged
  · rename_i r endpoint hparse
    obtain ⟨hkeyed, _⟩ := parseHeartbeat_ok hparse
    obtain ⟨hid, hkey⟩ := parseKey_ok hkeyed
    dsimp only
    split
    · exact .evicted _ (Nat.le_refl _)
    · rename_i index hfind
      obtain ⟨peer, hrecord, hpid, _, hpeerKey⟩ := findPeer_some hfind
      split
      · exact .evicted _ (Nat.le_refl _)
      · rename_i hmatch
        rw [hpeerKey, ne_eq, not_not] at hmatch
        rw [storeEndpoint_eq hfind hkept, ← hpid]
        rw [← hpid] at hrecord
        refine .stored peer endpoint hrecord (Or.inr ⟨Or.inl hop, ?_, ?_⟩)
        · rw [hpid]
          exact (requireIdResponse_ok hid).1
        · rw [hmatch]
          exact (requireHex_ok hkey).1

theorem handleDeregister_effect {ctx : Context} (hunique : ctx.Unique) (env : Env)
    {req : JsonObject Rat} (hop : req.getString (ascii "op") = some (ascii "deregister")) :
    Effect ctx env req (ctx.handleDeregister env req).1 := by
  have hkept := evictStale_unique hunique env.now
  unfold handleDeregister
  split
  · exact .unchanged
  · rename_i r hparse
    obtain ⟨hid, hkey⟩ := parseKey_ok hparse
    dsimp only
    split
    · exact .evicted _ (Nat.le_refl _)
    · rename_i index hfind
      obtain ⟨peer, hrecord, hpid, _, hpeerKey⟩ := findPeer_some hfind
      split
      · exact .evicted _ (Nat.le_refl _)
      · rename_i hmatch
        rw [hpeerKey, ne_eq, not_not] at hmatch
        rw [removePeer_eq hfind hkept, ← hpid]
        rw [← hpid] at hrecord
        refine .removed peer hrecord ⟨Or.inr hop, ?_, ?_⟩
        · rw [hpid]
          exact (requireIdResponse_ok hid).1
        · rw [hmatch]
          exact (requireHex_ok hkey).1

theorem handlePunchReq_effect (ctx : Context) (env : Env) (req : JsonObject Rat) :
    Effect ctx env req (ctx.handlePunchReq env req).1 := by
  unfold handlePunchReq
  split
  · exact .unchanged
  · rename_i r hparse
    have hperm := ctx.pendingCallEvictStale_perm env.now
    have hold : ∀ call ∈ (ctx.pendingCallEvictStale env.now).2.pendingCalls,
        call ∈ ctx.pendingCalls := fun call hcall =>
      hperm.mem_iff.mp (List.mem_append_right _ hcall)
    have hshort : (ctx.pendingCallEvictStale env.now).2.pendingCalls.length ≤
        ctx.pendingCalls.length := by
      rw [← hperm.length_eq, List.length_append]
      omega
    rw [pendingCallAdd_fields _ _ hparse]
    by_cases hfull : (ctx.pendingCallEvictStale env.now).2.pendingCalls.length ≥ maxPendingCalls
    · rw [if_pos hfull]
      exact .called _ (fun call hcall => Or.inl (hold call hcall)) fun h => Nat.le_trans hshort h
    · rw [if_neg hfull]
      refine .called _ (fun call hcall => ?_) fun _ => by simp; omega
      rcases List.mem_append.mp hcall with hcall | hcall
      · exact Or.inl (hold call hcall)
      · exact Or.inr ⟨r, hparse, List.mem_singleton.mp hcall⟩

theorem handlePunchPoll_effect (ctx : Context) (env : Env) (req : JsonObject Rat) :
    Effect ctx env req (ctx.handlePunchPoll env req).1 := by
  unfold handlePunchPoll
  split
  · exact .unchanged
  · rename_i id _
    have hevict := ctx.pendingCallEvictStale_perm env.now
    have htake := (ctx.pendingCallEvictStale env.now).2.pendingCallTakeAll_perm id
    refine .called _ (fun call hcall => Or.inl ?_) fun h => ?_
    · exact hevict.mem_iff.mp (List.mem_append_right _
        (htake.mem_iff.mp (List.mem_append_right _ hcall)))
    · have hevictLen := hevict.length_eq
      have htakeLen := htake.length_eq
      rw [List.length_append] at hevictLen htakeLen
      show ((ctx.pendingCallEvictStale env.now).2.pendingCallTakeAll id).2.pendingCalls.length ≤ _
      omega

theorem handleLookup_fst (ctx : Context) (env : Env) (req : JsonObject Rat) :
    (ctx.handleLookup env req).1 = ctx := by
  unfold handleLookup
  repeat' split
  all_goals rfl

theorem handleChallenge_fst (ctx : Context) (env : Env) (req : JsonObject Rat) :
    (ctx.handleChallenge env req).1 = ctx := by
  unfold handleChallenge
  repeat' split
  all_goals rfl

theorem handleOp_effect {ctx : Context} (hunique : ctx.Unique) (env : Env) {op : Bytes}
    {req : JsonObject Rat} (hop : req.getString (ascii "op") = some op) :
    Effect ctx env req (ctx.handleOp env op req).1 := by
  unfold handleOp
  split
  · rw [handleChallenge_fst]
    exact .unchanged
  split
  · rename_i heq
    exact handleRegister_effect hunique env (by rw [hop, heq])
  split
  · rename_i heq
    exact handleHeartbeat_effect hunique env (by rw [hop, heq])
  split
  · rw [handleLookup_fst]
    exact .unchanged
  split
  · exact .unchanged
  split
  · rename_i heq
    exact handleDeregister_effect hunique env (by rw [hop, heq])
  split
  · exact handlePunchReq_effect ctx env req
  split
  · exact handlePunchPoll_effect ctx env req
  · exact .unchanged

/-- No request changes the configuration. -/
structure SameConfig (ctx ctx' : Context) : Prop where
  seatsSet : ctx'.seatsSet = ctx.seatsSet
  nPeersCap : ctx'.nPeersCap = ctx.nPeersCap
  nonvipCap : ctx'.nonvipCap = ctx.nonvipCap
  vips : ctx'.vips = ctx.vips
  pass : ctx'.pass = ctx.pass
  powBits : ctx'.powBits = ctx.powBits
  etimeoutSec : ctx'.etimeoutSec = ctx.etimeoutSec

theorem SameConfig.refl (ctx : Context) : SameConfig ctx ctx := ⟨rfl, rfl, rfl, rfl, rfl, rfl, rfl⟩

theorem SameConfig.trans {ctx ctx' ctx'' : Context} (h : SameConfig ctx ctx')
    (h' : SameConfig ctx' ctx'') : SameConfig ctx ctx'' :=
  ⟨h'.seatsSet.trans h.seatsSet, h'.nPeersCap.trans h.nPeersCap, h'.nonvipCap.trans h.nonvipCap,
    h'.vips.trans h.vips, h'.pass.trans h.pass, h'.powBits.trans h.powBits,
    h'.etimeoutSec.trans h.etimeoutSec⟩

theorem Effect.sameConfig {ctx ctx' : Context} {env : Env} {req : JsonObject Rat}
    (h : Effect ctx env req ctx') : SameConfig ctx ctx' := by
  cases h <;> exact ⟨rfl, rfl, rfl, rfl, rfl, rfl, rfl⟩

/-- A request body that no handler sees changes nothing; any other has the effect of its
handler. -/
theorem dispatch_effect {ctx : Context} (hunique : ctx.Unique) (env : Env)
    (body : Option (Json Rat)) :
    (ctx.dispatch env body).1 = ctx ∨
      ∃ req, body.bind Json.getObject = some req ∧
        Effect ctx env req (ctx.dispatch env body).1 := by
  unfold dispatch
  split
  · exact Or.inl rfl
  · rename_i req hbody
    refine Or.inr ⟨req, hbody, ?_⟩
    split
    · exact .unchanged
    · split
      · exact .unchanged
      · rename_i op hop
        exact handleOp_effect hunique env hop

end Context

end Redp2p
