import Redp2p.PhpStores
import Redp2p.Pruning

/-! The handlers of the two indexes side by side: on related stores and a request without NULs, each pair
gives replies that say the same and leaves related stores. -/

namespace Redp2p

open ByteString Program

theorem setString_plain {obj : JsonObject Int} {name text : Bytes} (h : ∀ b ∈ text, isPlain b = true) :
    obj.setString name text = obj.setValue name (.str text) := by
  rw [JsonObject.setString, initString_plain h]

theorem candidateValues_eq {candidates : List Candidate} (h : ∀ c ∈ candidates, c.Accepted) :
    (candidates.map Candidate.row).map PhpCandidate.value = candidates.map candidateValue := by
  rw [List.map_map]
  exact List.map_congr_left fun c hc => (candidateValue_eq (h c hc).2).symm

namespace PhpIndex

/-- After a request both stores are related, and both replies say the same. -/
structure Follows (php : PhpIndex) (after : Context × Reply) (after' : PhpWorld × PhpAnswer) : Prop where
  related : php.Related after.1 after'.1
  agrees : after.2.Agrees after'.2.reply

variable {php : PhpIndex} {ctx : Context} {w : PhpWorld} {now : UInt64} {random : Vector UInt8 8}
  {req : JsonObject Rat}

theorem Related.follows (h : php.Related ctx w) {reply : Reply} {answer : PhpAnswer}
    (heq : reply = answer.reply) : php.Follows (ctx, reply) (w, answer) :=
  ⟨h, .of_eq heq⟩

theorem Related.refuses (h : php.Related ctx w) (status : Nat) {code : String}
    (hcode : ∀ b ∈ ascii code, isPlain b = true) :
    php.Follows (ctx, respondError status code) (w, .error status code) :=
  h.follows (respondError_eq hcode)

/-- Both find the same identifier, or refuse the request alike. -/
theorem requireId_cases (h : nulFree req "id" = true) :
    (∃ id, requireIdResponse req = .ok id ∧ ∀ next, withId req next = next id) ∨
    ∃ code, (∀ b ∈ ascii code, isPlain b = true) ∧
      requireIdResponse req = .error (respondError 400 code) ∧
      ∀ next, withId req next = done (.error 400 code) := by
  unfold requireIdResponse withId
  rw [requireId_eq h]
  cases Redp2p.requireId req "id" with
  | missing => exact .inr ⟨"bad_request", by decide +kernel, rfl, fun _ => rfl⟩
  | invalid => exact .inr ⟨"invalid_id", by decide +kernel, rfl, fun _ => rfl⟩
  | valid id => exact .inl ⟨id, rfl, fun _ => rfl⟩

/-! ### Requests that change no record -/

theorem challenge_follows (h : php.Related ctx w) (hplain : plainFields ["id"] req = true) :
    php.Follows (ctx.handleChallenge ⟨now, some random, true⟩ req)
      ((php.handleChallenge random req).runAlone PhpStatement.exec w) := by
  unfold Context.handleChallenge handleChallenge
  rcases requireId_cases (nulFree_of_plain hplain "id" (by decide)) with ⟨id, hid, hnext⟩ | ⟨code, hcode, hid, hnext⟩
  · rw [hid, hnext]
    apply h.follows
    rw [setString_plain (hexEncode_plain _), h.configured.pow]
    rfl
  · rw [hid, hnext]
    exact h.refuses 400 hcode

theorem publisher_reply {peer : Peer} {id : Bytes} (hplain : peer.Plain) (hid : isValidId id = true)
    (hpeer : peer.id = id) (hseen : peer.lastSeen.toNat < 2 ^ 53) :
    respondOk (Context.lookupObject peer) = (PhpAnswer.publisher id peer.row).reply := by
  have hsigned : peer.lastSeen.toInt64.toInt = peer.lastSeen.toNat := by
    refine BitVec.toInt_eq_toNat_of_lt (x := peer.lastSeen.toBitVec) ?_
    rw [UInt64.toNat_toBitVec]
    omega
  unfold Context.lookupObject
  rw [hpeer, setString_plain (Context.plain_of_isValidId hid), hsigned]
  unfold indexAppendCandidates PhpAnswer.reply
  dsimp only
  rw [Peer.row, candidateValues_eq hplain.candidates]
  rfl

theorem lookup_follows (h : php.Related ctx w) (hvalid : ctx.Valid) (hdates : ctx.Dates now)
    (hclock : w.clock = now.toNat) (hlimit : now.toNat < 2 ^ 53) (hplain : plainFields ["id"] req = true) :
    php.Follows (ctx.handleLookup ⟨now, some random, true⟩ req)
      ((php.handleLookup req).runAlone PhpStatement.exec w) := by
  rw [Context.handleLookup_eq hvalid.unique]
  unfold handleLookup
  rcases requireId_cases (nulFree_of_plain hplain "id" (by decide)) with ⟨id, hid, hnext⟩ | ⟨code, hcode, hid, hnext⟩
  · rw [hid, hnext]
    dsimp only
    rw [Context.record_evictStale hvalid.unique, query_bind, runAlone_act]
    have hrow : (PhpStatement.exec (.selectPublisher id) w).2 = (ctx.record id).map Peer.row := h.find id
    have hstate : (PhpStatement.exec (.selectPublisher id) w).1 = w := rfl
    rw [hrow, hstate]
    cases hrecord : ctx.record id with
    | none => exact h.refuses 404 (by decide +kernel)
    | some peer =>
      obtain ⟨hmem, hid'⟩ := Keyed.lookup_some hrecord
      have hage : decide (peer.row.lastSeen < w.clock - php.ttl) = peer.stale ctx.etimeoutSec now := by
        rw [hclock, h.configured.ttl]
        exact age_eq (hdates.peers peer hmem) ctx.etimeoutSec
      show php.Follows _ ((if peer.row.lastSeen < w.clock - php.ttl then
        done (.error 404 "not_found") else done (.publisher id peer.row)).runAlone PhpStatement.exec w)
      rw [Option.filter]
      cases hstale : peer.stale ctx.etimeoutSec now with
      | true =>
        rw [hstale, decide_eq_true_eq] at hage
        rw [if_pos hage]
        exact h.refuses 404 (by decide +kernel)
      | false =>
        rw [hstale, decide_eq_false_iff_not] at hage
        rw [if_neg hage]
        apply h.follows
        have hseen : peer.lastSeen.toNat ≤ now.toNat := hdates.peers peer hmem
        exact publisher_reply (h.plain peer hmem) (hid' ▸ hvalid.ids peer hmem) hid' (by omega)
  · rw [hid, hnext]
    exact h.refuses 400 hcode

theorem list_follows (h : php.Related ctx w) (hvalid : ctx.Valid) (hdates : ctx.Dates now)
    (hclock : w.clock = now.toNat) :
    php.Follows (ctx.handleList ⟨now, some random, true⟩)
      (php.handleList.runAlone PhpStatement.exec w) := by
  have hids : (w.publishers.filter fun row => decide (row.lastSeen ≥ w.clock - php.ttl)).map PublisherRow.id =
      ctx.listIds now := by
    rw [h.publishers, List.filter_map, List.map_map, hclock, h.configured.ttl]
    unfold Context.listIds
    rw [List.filter_congr (q := fun p => !p.stale ctx.etimeoutSec now)]
    · rfl
    · intro p hp
      rw [Peer.stale, ← age_eq (hdates.peers p hp), ← decide_not]
      exact decide_eq_decide.mpr Int.not_lt.symm
  refine h.follows ?_
  rw [Context.listObject_eq hvalid, ← hids]
  rfl

/-! ### Requests that change records -/

theorem register_after (h : php.Related ctx w) (hclock : w.clock = now.toNat)
    {r : Context.RegisterRequest} (haccepted : ∀ c ∈ r.endpoint.candidates, c.Accepted) {peer : Peer}
    (hrecord : ctx.record r.id = some peer) (hkey : ∀ b ∈ peer.key, isPlain b = true) :
    php.Follows
      ({ ctx with peers := ctx.peers.map (Context.storeFor r.id r.endpoint now) },
        respondOk (okObject.setString (ascii "key") peer.key))
      ((finishRegister r.row .ok).runAlone PhpStatement.exec w) := by
  have hstored := h.storedKey r.id r.row.proto r.row.udpPort r.row.candidates hrecord
  refine ⟨h.store hclock r.id haccepted, .of_eq ?_⟩
  show respondOk (okObject.setString (ascii "key") peer.key) = (PhpAnswer.registered
    ((setPublisher r.id r.row.proto r.row.udpPort r.row.candidates).runAlone PhpStatement.exec w).2).reply
  rw [hstored, setString_plain hkey]
  rfl

theorem registerPeer_follows (h : php.Related ctx w) (hvalid : ctx.Valid) (hdates : ctx.Dates now)
    (hclock : w.clock = now.toNat) (hroom : ctx.peers.length < sizeMax / peerSize)
    {r : Context.RegisterRequest} (hid : isValidId r.id = true)
    (haccepted : ∀ c ∈ r.endpoint.candidates, c.Accepted) :
    php.Follows (ctx.registerPeer ⟨now, some random, true⟩ r)
      ((php.register random r.row).runAlone PhpStatement.exec w) := by
  have hkept := h.evictStale hdates hclock
  unfold register
  rw [runAlone_bind, runAlone_bind]
  have hrow : r.row.id = r.id := rfl
  rw [hrow]
  have hclock' : (php.evictStale.runAlone PhpStatement.exec w).1.clock = now.toNat := by
    rw [run_evictStale]
    exact hclock
  generalize (php.evictStale.runAlone PhpStatement.exec w).1 = w' at hkept hclock' ⊢
  cases hrecord : (ctx.evictStale now).record r.id with
  | some peer =>
    rw [Context.registerPeer_known hvalid.unique hrecord, hkept.addPublisher_known hrecord]
    have hmem := (Keyed.lookup_some hrecord).1
    exact register_after hkept hclock' haccepted hrecord (hkept.plain peer hmem).key
  | none =>
    have hcases := Context.registerPeer_new hvalid.unique random hid hrecord hroom h.seats
    obtain ⟨hrefused, hadded⟩ := hkept.addPublisher (hvalid.evictStale now) random hrecord
    rcases hcases with ⟨hfull, heq⟩ | ⟨hfree, alloc, heq⟩
    · rw [heq, hrefused hfull]
      exact hkept.refuses 503 (by decide +kernel)
    · rw [heq, hadded hfree]
      have hnew : (Context.newPeer r.id (hexEncode random.toList) now).id = r.id :=
        List.take_of_length_le (isValidId_iff.mp hid).2.1
      have hfound : { ctx.evictStale now with
          peers := (ctx.evictStale now).peers ++ [Context.newPeer r.id (hexEncode random.toList) now]
          peersAlloc := alloc }.record r.id =
          some (Context.newPeer r.id (hexEncode random.toList) now) := by
        rw [Context.record, Keyed.lookup_concat, ← Context.record, hrecord, if_pos hnew]
        rfl
      exact register_after (hkept.concat hclock' hid random alloc) hclock' haccepted hfound
        (hexEncode_plain _)

theorem register_follows (h : php.Related ctx w) (hvalid : ctx.Valid) (hdates : ctx.Dates now)
    (hclock : w.clock = now.toNat) (hroom : ctx.peers.length < sizeMax / peerSize)
    (haddr : php.ChecksAddresses) (hplain : plainFields ["id", "nonce", "solution", "proof", "candidates"] req = true) :
    php.Follows (ctx.handleRegister ⟨now, some random, true⟩ req)
      ((php.handleRegister random req).runAlone PhpStatement.exec w) := by
  unfold Context.handleRegister handleRegister
  rcases requireId_cases (nulFree_of_plain hplain "id" (by decide)) with ⟨id, hid, hnext⟩ | ⟨code, hcode, hid, hnext⟩
  · rw [hnext]
    have hreads := register_reads haddr hplain hid
    cases hparse : Context.parseRegister req with
    | error reply =>
      rw [hparse] at hreads
      generalize php.parseRegister req id = parsed at hreads
      cases hreads
      exact h.refuses 400 (by decide +kernel)
    | ok r =>
      rw [hparse] at hreads
      generalize php.parseRegister req id = parsed at hreads
      cases hreads
      dsimp only
      rw [h.configured.verified hparse]
      obtain ⟨hrid, -, -, -, hendpoint⟩ := Context.parseRegister_ok hparse
      cases ctx.verifyRegister r with
      | false => exact h.refuses 403 (by decide +kernel)
      | true =>
        exact registerPeer_follows h hvalid hdates hclock hroom (requireIdResponse_ok hrid).2
          (parseEndpoint_candidates hendpoint).2
  · have hparse : Context.parseRegister req = .error (respondError 400 code) := by
      rw [Context.parseRegister, hid]
      rfl
    rw [hparse, hnext]
    exact h.refuses 400 hcode

/-- The record of a key, as both search it. -/
theorem Related.key (h : php.Related ctx w) (id : Bytes) :
    (PhpStatement.exec (.selectKey id) w).2 = (ctx.record id).map Peer.key := by
  show (w.publishers.find? fun row => row.id == id).map PublisherRow.key = _
  rw [h.find, Option.map_map]
  rfl

/-- The part of a heartbeat that follows the fields. -/
def beat (php : PhpIndex) (id key : Bytes) (endpoint : (Int × Int) × List PhpCandidate) :
    PhpProgram PhpAnswer := do
  php.evictStale
  match ← query (.selectKey id) with
  | none => return .error 404 "not_found"
  | some stored =>
    if stored = key then
      let _ ← setPublisher id endpoint.1.1 endpoint.1.2 endpoint.2
      return .ok
    else return .error 403 "invalid_key"

theorem handleHeartbeat_eq (php : PhpIndex) (req : JsonObject Rat) :
    php.handleHeartbeat req = withId req fun id =>
      match requireHex req "key" keySz, php.readEndpoint req with
      | some key, some endpoint => php.beat id key endpoint
      | _, _ => done badRequest := by
  unfold handleHeartbeat readEndpoint
  congr 1
  funext id
  cases requireHex req "key" keySz with
  | none => rfl
  | some key =>
    cases requireProtoPort req with
    | none => rfl
    | some ports =>
      cases php.parseCandidates req "candidates" with
      | none => rfl
      | some candidates => rfl

theorem beat_follows (h : php.Related ctx w) (hvalid : ctx.Valid) (hdates : ctx.Dates now)
    (hclock : w.clock = now.toNat) (id key : Bytes) {endpoint : Endpoint}
    (haccepted : ∀ c ∈ endpoint.candidates, c.Accepted) :
    php.Follows
      (match (ctx.evictStale now).findPeer id with
      | none => (ctx.evictStale now, respondError 404 "not_found")
      | some index =>
        if (ctx.evictStale now).peerKey index ≠ key then
          (ctx.evictStale now, respondError 403 "invalid_key")
        else ((ctx.evictStale now).storeEndpoint index endpoint now, respondOk okObject))
      ((php.beat id key endpoint.row).runAlone PhpStatement.exec w) := by
  have hkept := h.evictStale hdates hclock
  have hunique := Context.evictStale_unique hvalid.unique now
  have hclock' : (php.evictStale.runAlone PhpStatement.exec w).1.clock = now.toNat := by
    rw [run_evictStale]
    exact hclock
  unfold beat
  rw [runAlone_bind, query_bind, runAlone_act]
  generalize (php.evictStale.runAlone PhpStatement.exec w).1 = w' at hkept hclock' ⊢
  generalize ctx.evictStale now = kept at hkept hunique ⊢
  have hstate : (PhpStatement.exec (.selectKey id) w').1 = w' := rfl
  rw [hkept.key id, hstate]
  cases hrecord : kept.record id with
  | none =>
    rw [Context.findPeer_none.mpr hrecord]
    exact hkept.refuses 404 (by decide +kernel)
  | some peer =>
    obtain ⟨index, hfind, hkey, hstore⟩ := Context.storeEndpoint_found hunique hrecord endpoint now
    rw [hfind]
    dsimp only [Option.map_some]
    rw [hkey, hstore]
    by_cases hmatch : peer.key = key
    · rw [if_neg (not_not.mpr hmatch), if_pos hmatch]
      exact ⟨hkept.store hclock' id haccepted, .of_eq rfl⟩
    · rw [if_pos hmatch, if_neg hmatch]
      exact hkept.refuses 403 (by decide +kernel)

theorem heartbeat_follows (h : php.Related ctx w) (hvalid : ctx.Valid) (hdates : ctx.Dates now)
    (hclock : w.clock = now.toNat) (haddr : php.ChecksAddresses) (hplain : plainFields ["id", "key", "candidates"] req = true) :
    php.Follows (ctx.handleHeartbeat ⟨now, some random, true⟩ req)
      ((php.handleHeartbeat req).runAlone PhpStatement.exec w) := by
  rw [handleHeartbeat_eq]
  unfold Context.handleHeartbeat
  rcases requireId_cases (nulFree_of_plain hplain "id" (by decide)) with ⟨id, hid, hnext⟩ | ⟨code, hcode, hid, hnext⟩
  · rw [hnext, Context.parseHeartbeat, Context.parseKey, hid]
    have hkey := requireHex_reads (nulFree_of_plain hplain "key" (by decide)) keySz (by decide)
    have hendpoint := endpoint_reads haddr (candidates_of_plain hplain (by decide))
    cases hparse : parseEndpoint req with
    | error reply =>
      rw [hparse] at hendpoint
      generalize php.readEndpoint req = parsed at hendpoint
      generalize Redp2p.requireHex req "key" keySz = x at hkey
      generalize requireHex req "key" keySz = y at hkey
      cases hendpoint
      cases hkey with
      | refused => exact h.refuses 400 (by decide +kernel)
      | accepted key => exact h.refuses 400 (by decide +kernel)
    | ok endpoint =>
      have haccepted := (parseEndpoint_candidates hparse).2
      rw [hparse] at hendpoint
      generalize php.readEndpoint req = parsed at hendpoint
      generalize Redp2p.requireHex req "key" keySz = x at hkey
      generalize requireHex req "key" keySz = y at hkey
      cases hendpoint
      cases hkey with
      | refused => exact h.refuses 400 (by decide +kernel)
      | accepted key => exact beat_follows h hvalid hdates hclock id key haccepted
  · have hparse : Context.parseHeartbeat req = .error (respondError 400 code) := by
      rw [Context.parseHeartbeat, Context.parseKey, hid]
      rfl
    rw [hparse, hnext]
    exact h.refuses 400 hcode

theorem deregister_follows (h : php.Related ctx w) (hvalid : ctx.Valid) (hdates : ctx.Dates now)
    (hclock : w.clock = now.toNat) (hplain : plainFields ["id", "key"] req = true) :
    php.Follows (ctx.handleDeregister ⟨now, some random, true⟩ req)
      ((php.handleDeregister req).runAlone PhpStatement.exec w) := by
  have hkept := h.evictStale hdates hclock
  have hunique := Context.evictStale_unique hvalid.unique now
  unfold Context.handleDeregister handleDeregister
  rcases requireId_cases (nulFree_of_plain hplain "id" (by decide)) with ⟨id, hid, hnext⟩ | ⟨code, hcode, hid, hnext⟩
  · rw [hnext, Context.parseKey, hid]
    have hreads := requireHex_reads (nulFree_of_plain hplain "key" (by decide)) keySz (by decide)
    generalize Redp2p.requireHex req "key" keySz = x at hreads ⊢
    generalize requireHex req "key" keySz = y at hreads ⊢
    cases hreads with
    | refused => exact h.refuses 400 (by decide +kernel)
    | accepted key =>
      change php.Follows
        (match (ctx.evictStale now).findPeer id with
        | none => (ctx.evictStale now, respondError 403 "invalid_key")
        | some index =>
          if (ctx.evictStale now).peerKey index ≠ key then
            (ctx.evictStale now, respondError 403 "invalid_key")
          else (((ctx.evictStale now).removePeer id).1, respondOk okObject)) _
      dsimp only [Function.id_def]
      rw [runAlone_bind, query_bind, runAlone_act]
      generalize (php.evictStale.runAlone PhpStatement.exec w).1 = w' at hkept ⊢
      generalize ctx.evictStale now = kept at hkept hunique ⊢
      have hstate : (PhpStatement.exec (.selectKey id) w').1 = w' := rfl
      rw [hkept.key id, hstate]
      cases hrecord : kept.record id with
      | none =>
        rw [Context.findPeer_none.mpr hrecord]
        exact hkept.refuses 403 (by decide +kernel)
      | some peer =>
        cases hfind : kept.findPeer id with
        | none =>
          rw [Context.findPeer_none, hrecord] at hfind
          cases hfind
        | some index =>
          obtain ⟨found, hfound, _, _, hkey⟩ := Context.findPeer_some hfind
          obtain rfl := Option.some.inj (hrecord.symm.trans hfound)
          dsimp only [Option.map_some]
          rw [hkey, Context.removePeer_eq hfind hunique]
          by_cases hmatch : peer.key = key
          · rw [if_neg (not_not.mpr hmatch), if_pos (congrArg some hmatch)]
            exact ⟨hkept.remove id, .of_eq rfl⟩
          · rw [if_pos hmatch, if_neg fun heq => hmatch (Option.some.inj heq)]
            exact hkept.refuses 403 (by decide +kernel)
  · have hparse : Context.parseKey req = .error (respondError 400 code) := by
      rw [Context.parseKey, hid]
      rfl
    rw [hparse, hnext]
    exact h.refuses 400 hcode

/-! ### Punch calls -/

/-- Both read the same call from a request, or refuse it alike. -/
theorem parsePunch_cases (haddr : php.ChecksAddresses) (h : plainFields ["self_id", "target_id", "session", "candidates"] req = true) :
    (∃ r, Context.parsePunch req = .ok r ∧
      php.parsePunch req = .ok (r.selfId, r.targetId, r.session, r.candidates.map Candidate.row)) ∨
    ∃ code, (∀ b ∈ ascii code, isPlain b = true) ∧
      Context.parsePunch req = .error (respondError 400 code) ∧
      php.parsePunch req = .error (.error 400 code) := by
  unfold Context.parsePunch parsePunch
  rw [requireId_eq (nulFree_of_plain h "self_id" (by decide)),
    requireId_eq (nulFree_of_plain h "target_id" (by decide)),
    getString_of_nulFree (nulFree_of_plain h "session" (by decide)),
    parseCandidates_eq haddr (candidates_of_plain h (by decide))]
  cases Redp2p.requireId req "self_id" with
  | missing => exact .inr ⟨"bad_request", by decide +kernel, rfl, rfl⟩
  | invalid =>
    cases Redp2p.requireId req "target_id" with
    | missing => exact .inr ⟨"bad_request", by decide +kernel, rfl, rfl⟩
    | _ => exact .inr ⟨"invalid_id", by decide +kernel, rfl, rfl⟩
  | valid selfId =>
    cases Redp2p.requireId req "target_id" with
    | missing => exact .inr ⟨"bad_request", by decide +kernel, rfl, rfl⟩
    | invalid => exact .inr ⟨"invalid_id", by decide +kernel, rfl, rfl⟩
    | valid targetId =>
      cases getString req "session" with
      | none => exact .inr ⟨"bad_request", by decide +kernel, rfl, rfl⟩
      | some session =>
        dsimp only
        rw [Option.filter, phpIsSessionToken_eq]
        cases htoken : isSessionToken session with
        | false =>
          rw [if_pos (by simp)]
          exact .inr ⟨"bad_request", by decide +kernel, rfl, rfl⟩
        | true =>
          have hshort := (isSessionToken_iff.mp htoken).2.1
          have hkept : ¬ (decide (session.length ≥ ctrlSessionMax + 1) || !true) = true := by
            simp [ctrlSessionMax]
            omega
          rw [if_neg hkept]
          cases indexParseCandidates req (ascii "candidates") with
          | none => exact .inr ⟨"bad_request", by decide +kernel, rfl, rfl⟩
          | some candidates => exact .inl ⟨⟨selfId, targetId, session, candidates⟩, rfl, rfl⟩

/-- The calls that have not expired leave room for one more. -/
def Unfilled (w : PhpWorld) : Prop :=
  (w.pending.filter fun stored => !decide (stored.row.ts < w.clock - pendingTtlS)).length < pendingMax

/-- No call that has not expired has the key that `random` makes. -/
def FreeKey (random : Vector UInt8 8) (w : PhpWorld) : Prop :=
  ∀ stored ∈ w.pending, w.clock - pendingTtlS ≤ stored.row.ts → stored.row.id ≠ hexEncode random.toList

theorem enqueue_follows (h : php.Related ctx w) (hdates : ctx.Dates now) (hclock : w.clock = now.toNat)
    {r : Context.PunchFields} (hparse : Context.parsePunch req = .ok r)
    (hfree : Unfilled w → FreeKey random w) :
    php.Follows
      (match (ctx.pendingCallEvictStale now).2.pendingCallAdd now r.selfId r.targetId r.session
          r.candidates with
      | (ctx, false) => (ctx, respondError 503 "busy")
      | (ctx, true) => (ctx, respondOk okObject))
      ((enqueue random r.selfId r.targetId r.session (r.candidates.map Candidate.row)).runAlone
        PhpStatement.exec w) := by
  have hkept := h.evictPending hdates hclock
  have hclock' : (evictPending.runAlone PhpStatement.exec w).1.clock = now.toNat := by
    rw [run_evictPending]
    exact hclock
  have hfree' : (evictPending.runAlone PhpStatement.exec w).1.pending.length < pendingMax →
      ((evictPending.runAlone PhpStatement.exec w).1.pending.any fun other =>
        other.row.id == hexEncode random.toList) = false := by
    rw [run_evictPending, List.any_eq_false]
    intro hroom stored hstored
    obtain ⟨hmem, hage⟩ := List.mem_filter.mp hstored
    simpa using hfree hroom stored hmem (by simpa using hage)
  rw [Context.pendingCallAdd_fields _ _ hparse]
  unfold PhpIndex.enqueue
  rw [runAlone_bind, query_bind, runAlone_act]
  generalize (evictPending.runAlone PhpStatement.exec w).1 = w' at hkept hclock' hfree' ⊢
  generalize (ctx.pendingCallEvictStale now).2 = kept at hkept ⊢
  have hstate : (PhpStatement.exec .countPending w').1 = w' := rfl
  have hcount : (PhpStatement.exec .countPending w').2 = kept.pendingCalls.length := by
    show w'.pending.length = _
    simpa using hkept.pending.length_eq
  have hmax : pendingMax = maxPendingCalls := rfl
  rw [hcount, hstate, hmax]
  by_cases hfull : kept.pendingCalls.length ≥ maxPendingCalls
  · rw [if_pos hfull, if_pos hfull]
    exact hkept.refuses 503 (by decide +kernel)
  · rw [if_neg hfull, if_neg hfull, query_bind, runAlone_act, query_bind, runAlone_act]
    have hsame : (PhpStatement.exec .time w').1 = w' := rfl
    have hinsert : ∀ row : PendingRow, row.id = hexEncode random.toList →
        PhpStatement.exec (.insertPending row) w' =
          ({ w' with pending := w'.pending ++ [⟨w'.inserted, row⟩], inserted := w'.inserted + 1 }, true) := by
      intro row hrow
      have hroom : w'.pending.length < pendingMax := by
        rw [← show (PhpStatement.exec .countPending w').2 = w'.pending.length from rfl, hcount]
        exact Nat.lt_of_not_ge hfull
      rw [exec_insertPending, hrow, hfree' hroom]
      rfl
    rw [hsame, hinsert _ rfl]
    refine ⟨hkept.enqueue (r.call now) ?_ _, .of_eq rfl⟩
    show (⟨[], r.selfId, r.targetId, r.session, r.candidates.map Candidate.row, w'.clock⟩ : PendingRow) = _
    rw [hclock']
    rfl

theorem punchReq_follows (h : php.Related ctx w) (hdates : ctx.Dates now) (hclock : w.clock = now.toNat)
    (haddr : php.ChecksAddresses) (hplain : plainFields ["self_id", "target_id", "session", "candidates"] req = true)
    (hfree : ∀ r, Context.parsePunch req = .ok r → Unfilled w → FreeKey random w) :
    php.Follows (ctx.handlePunchReq ⟨now, some random, true⟩ req)
      ((php.handlePunchReq random req).runAlone PhpStatement.exec w) := by
  unfold Context.handlePunchReq handlePunchReq
  rcases parsePunch_cases haddr hplain with ⟨r, hparse, hphp⟩ | ⟨code, hcode, hparse, hphp⟩
  · rw [hparse, hphp]
    exact enqueue_follows h hdates hclock hparse (hfree r hparse)
  · rw [hparse, hphp]
    exact h.refuses 400 hcode

theorem callValue_row {call : PendingCall} (h : Context.Accepted call) :
    Context.callValue call = (StoredRow.mk 0 call.row).value := by
  rw [Context.callValue_eq h, StoredRow.value, PendingCall.row, candidateValues_eq h.candidates]

theorem takeCalls_follows (h : php.Related ctx w) (hcalls : ctx.CallsValid) (hdates : ctx.Dates now)
    (hclock : w.clock = now.toNat) (id : Bytes) :
    php.Follows
      (((ctx.pendingCallEvictStale now).2.pendingCallTakeAll id).2,
        respondOk (Context.pollObject ((ctx.pendingCallEvictStale now).2.pendingCallTakeAll id).1))
      ((takeCalls id).runAlone PhpStatement.exec w) := by
  have hkept := h.evictPending hdates hclock
  have haccepted : ∀ call ∈ ((ctx.pendingCallEvictStale now).2.pendingCallTakeAll id).1,
      Context.Accepted call := by
    intro call hcall
    have hmem := List.mem_filter.mp ((ctx.polled_perm now id).mem_iff.mp hcall)
    exact hcalls.accepted call (List.mem_filter.mp hmem.1).1
  obtain ⟨hrest, htaken⟩ := hkept.takeAll id
  unfold takeCalls
  rw [runAlone_bind, query_bind, runAlone_act, query_bind, runAlone_act]
  refine ⟨hrest, rfl, rfl, .reordered (ascii "calls") (.inr rfl) ?_ _⟩
  have hvalues := htaken.map fun row => (StoredRow.mk 0 row).value
  rw [List.map_map, List.map_map] at hvalues
  rw [List.map_congr_left fun call hcall => callValue_row (haccepted call hcall)]
  exact hvalues.symm

theorem punchPoll_follows (h : php.Related ctx w) (hcalls : ctx.CallsValid) (hdates : ctx.Dates now)
    (hclock : w.clock = now.toNat) (hplain : plainFields ["id"] req = true) :
    php.Follows (ctx.handlePunchPoll ⟨now, some random, true⟩ req)
      ((handlePunchPoll req).runAlone PhpStatement.exec w) := by
  unfold Context.handlePunchPoll handlePunchPoll
  rcases requireId_cases (nulFree_of_plain hplain "id" (by decide)) with ⟨id, hid, hnext⟩ | ⟨code, hcode, hid, hnext⟩
  · rw [hid, hnext]
    exact takeCalls_follows h hcalls hdates hclock id
  · rw [hid, hnext]
    exact h.refuses 400 hcode

end PhpIndex

end Redp2p
