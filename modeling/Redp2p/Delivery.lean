import Redp2p.Registration

/-! Delivery of pending calls: a poll takes all calls of its publisher out of the store before it
knows whether the reply fits its buffer, so the calls reach the publisher exactly when their joint
text does. -/

namespace Redp2p

open ByteString

/-! ### The size of a reply -/

/-- A reply is written exactly when its text leaves room for a NUL in the buffer. -/
theorem indexRespond_isSome_iff (obj : JsonObject Int) :
    (indexRespond (respondOk obj)).isSome = true ↔ (serialize (.obj obj)).length ≤ 4094 := by
  unfold indexRespond
  by_cases hfits : serializationSize (respondOk obj).value ≥ bufSize
  · rw [if_pos hfits]
    simp only [serializationSize, respondOk, bufSize] at hfits
    simp
    omega
  · rw [if_neg hfits]
    simp only [serializationSize, respondOk, bufSize] at hfits
    have hwrite : (httpWriteResponse 200 (ascii "OK") (ascii "application/json")
        (serialize (.obj obj))).isSome = true :=
      httpWriteResponse_isSome (by decide) (by decide) (by decide) (by omega)
    simp only [respondOk, hwrite, true_iff]
    omega

theorem candidateTypeName_plain (type : CandidateType) :
    ∀ b ∈ candidateTypeName type, isPlain b = true := by
  cases type <;> decide +kernel

/-- The size of the text of a candidate. -/
def candidateSize (c : Candidate) : Nat :=
  29 + (candidateTypeName c.type).length + c.addr.length + (decimal c.port.toNat).length

theorem candidateValue_eq {c : Candidate} (h : ∀ b ∈ c.addr, isPlain b = true) :
    candidateValue c = .obj [(ascii "type", .str (candidateTypeName c.type)),
      (ascii "addr", .str c.addr), (ascii "port", .num c.port.toNat)] := by
  unfold candidateValue JsonObject.setString
  rw [initString_plain (candidateTypeName_plain c.type), initString_plain h]
  rfl

theorem serialize_candidateValue {c : Candidate} (h : ∀ b ∈ c.addr, isPlain b = true) :
    (serialize (candidateValue c)).length = candidateSize c := by
  have hport := c.port.toNat_lt
  rw [candidateValue_eq h]
  simp only [serialize, List.length_append, serializeMembers_length, List.map_cons, List.map_nil,
    List.sum_cons, List.sum_nil, List.length_cons, List.length_nil, candidateSize]
  have htype : (serializeString (ascii "type")).length = 6 := by decide
  have haddr : (serializeString (ascii "addr")).length = 6 := by decide
  have hname : (serializeString (ascii "port")).length = 6 := by decide
  rw [serializeString_length (candidateTypeName_plain c.type), serializeString_length h,
    formatNumber_small (by omega), htype, haddr, hname]
  omega

theorem candidateValues_length {candidates : List Candidate}
    (h : ∀ c ∈ candidates, c.Accepted) :
    (serializeItems (candidates.map candidateValue)).length =
      (candidates.map candidateSize).sum + (candidates.length - 1) := by
  rw [serializeItems_length, List.map_map, List.length_map]
  have hsizes : ∀ c ∈ candidates,
      ((fun v => (serialize v).length) ∘ candidateValue) c = candidateSize c :=
    fun c hc => serialize_candidateValue (h c hc).2
  rw [List.map_congr_left hsizes]

namespace Context

/-- The size of the text of a call. -/
def callSize (call : PendingCall) : Nat :=
  43 + call.callerId.length + call.sessId.length +
    ((call.candidates.map candidateSize).sum + (call.candidates.length - 1))

/-- The size of the text of a poll reply. -/
def pollSize (calls : List PendingCall) : Nat := 22 + (calls.map callSize).sum + (calls.length - 1)

theorem pollSize_perm {calls calls' : List PendingCall} (h : calls.Perm calls') :
    pollSize calls = pollSize calls' := by
  rw [pollSize, pollSize, (h.map callSize).sum_eq, h.length_eq]

theorem Accepted.caller_plain {call : PendingCall} (h : Accepted call) :
    ∀ b ∈ call.callerId, isPlain b = true :=
  fun b hb => isPlain_of_isAlnum ((isValidId_iff.mp h.caller).2.2 b hb)

theorem Accepted.session_plain {call : PendingCall} (h : Accepted call) :
    ∀ b ∈ call.sessId, isPlain b = true :=
  fun b hb => isPlain_of_isAlnum ((isSessionToken_iff.mp h.session).2.2 b hb)

theorem callValue_eq {call : PendingCall} (h : Accepted call) :
    callValue call = .obj [(ascii "self_id", .str call.callerId),
      (ascii "session", .str call.sessId),
      (ascii "candidates", .arr (call.candidates.map candidateValue))] := by
  unfold callValue JsonObject.setString
  rw [initString_plain h.caller_plain, initString_plain h.session_plain]
  rfl

theorem serialize_callValue {call : PendingCall} (h : Accepted call) :
    (serialize (callValue call)).length = callSize call := by
  have hself : (serializeString (ascii "self_id")).length = 9 := by decide
  have hsession : (serializeString (ascii "session")).length = 9 := by decide
  have hcandidates : (serializeString (ascii "candidates")).length = 12 := by decide
  rw [callValue_eq h]
  simp only [serialize, List.length_append, serializeMembers_length, List.map_cons, List.map_nil,
    List.sum_cons, List.sum_nil, List.length_cons, List.length_nil, callSize]
  rw [serializeString_length h.caller_plain, serializeString_length h.session_plain,
    candidateValues_length h.candidates, hself, hsession, hcandidates]
  omega

theorem pollObject_eq (calls : List PendingCall) :
    pollObject calls =
      [(ascii "calls", .arr (calls.map callValue)), (ascii "ok", .bool true)] := rfl

theorem serialize_pollObject {calls : List PendingCall} (h : ∀ call ∈ calls, Accepted call) :
    (serialize (.obj (pollObject calls))).length = pollSize calls := by
  have hcalls : (serializeString (ascii "calls")).length = 7 := by decide
  have hok : (serializeString (ascii "ok")).length = 4 := by decide
  have htrue : (ascii "true").length = 4 := by decide
  have hsizes : ∀ call ∈ calls, ((fun v => (serialize v).length) ∘ callValue) call = callSize call :=
    fun call hcall => serialize_callValue (h call hcall)
  rw [pollObject_eq]
  simp only [serialize, List.length_append, serializeMembers_length, serializeItems_length,
    List.map_cons, List.map_nil, List.sum_cons, List.sum_nil, List.length_cons, List.length_nil,
    List.map_map, List.map_congr_left hsizes, List.length_map, pollSize, hcalls, hok, htrue]
  omega

/-! ### What a poll takes -/

/-- The calls for `id` that have not expired. -/
def waiting (ctx : Context) (now : UInt64) (id : Bytes) : List PendingCall :=
  (ctx.pendingCalls.filter fun call => !call.expired now).filter fun call => call.targetId == id

/-- The calls that a poll for `id` returns. -/
def polled (ctx : Context) (now : UInt64) (id : Bytes) : List PendingCall :=
  ((ctx.pendingCallEvictStale now).2.pendingCallTakeAll id).1

theorem pendingCallEvictStale_kept (ctx : Context) (now : UInt64) :
    (ctx.pendingCallEvictStale now).2.pendingCalls.Perm
      (ctx.pendingCalls.filter fun call => !call.expired now) :=
  (ArrayLoop.swapOut_spec (PendingCall.expired now) ctx.pendingCalls).2

theorem polled_perm (ctx : Context) (now : UInt64) (id : Bytes) :
    (ctx.polled now id).Perm (ctx.waiting now id) :=
  (ArrayLoop.swapOut_spec (fun call : PendingCall => call.targetId == id) _).1.trans
    ((ctx.pendingCallEvictStale_kept now).filter _)

/-- After a poll the calls that have not expired and are for another publisher still wait. -/
theorem mem_after_poll {ctx : Context} {env : Env} {req : JsonObject Rat} {id : Bytes}
    (hid : requireIdResponse req = .ok id) {call : PendingCall} :
    call ∈ (ctx.handlePunchPoll env req).1.pendingCalls ↔
      call ∈ ctx.pendingCalls ∧ call.expired env.now = false ∧ call.targetId ≠ id := by
  have hkept := (ArrayLoop.swapOut_spec (fun call : PendingCall => call.targetId == id)
    (ctx.pendingCallEvictStale env.now).2.pendingCalls).2.mem_iff (a := call)
  unfold handlePunchPoll
  rw [hid]
  refine hkept.trans ?_
  rw [List.mem_filter, (ctx.pendingCallEvictStale_kept env.now).mem_iff, List.mem_filter]
  simp [and_assoc]

/-- The call stands in the reply that the index writes to the connection with status 200. -/
def Delivered (reply : Reply) (call : PendingCall) : Prop :=
  reply.status = 200 ∧ (indexRespond reply).isSome = true ∧
    ∃ (obj : JsonObject Int) (items : List (Json Int)),
      reply.value = .obj obj ∧ obj.getArray (ascii "calls") = some items ∧
      callValue call ∈ items

theorem handlePunchPoll_reply {ctx : Context} {env : Env} {req : JsonObject Rat} {id : Bytes}
    (hid : requireIdResponse req = .ok id) :
    (ctx.handlePunchPoll env req).2 = respondOk (pollObject (ctx.polled env.now id)) := by
  unfold handlePunchPoll
  rw [hid]
  rfl

/-- The reply to a poll is written exactly when the calls that wait fit it. -/
theorem poll_written_iff {ctx : Context} (hcalls : ctx.CallsValid) {env : Env}
    {req : JsonObject Rat} {id : Bytes} (hid : requireIdResponse req = .ok id) :
    (indexRespond (ctx.handlePunchPoll env req).2).isSome = true ↔
      pollSize (ctx.waiting env.now id) ≤ 4094 := by
  have hperm := ctx.polled_perm env.now id
  have haccepted : ∀ w ∈ ctx.polled env.now id, Accepted w := by
    intro w hw
    have hmem := List.mem_filter.mp (hperm.mem_iff.mp hw)
    exact hcalls.accepted w (List.mem_filter.mp hmem.1).1
  rw [handlePunchPoll_reply hid, indexRespond_isSome_iff, serialize_pollObject haccepted,
    pollSize_perm hperm]

/-- A call is delivered when the reply fits and a call that waits has its text. -/
theorem delivered_iff {ctx : Context} (hcalls : ctx.CallsValid) {env : Env} {req : JsonObject Rat}
    {id : Bytes} (hid : requireIdResponse req = .ok id) (call : PendingCall) :
    Delivered (ctx.handlePunchPoll env req).2 call ↔
      pollSize (ctx.waiting env.now id) ≤ 4094 ∧
        ∃ w ∈ ctx.waiting env.now id, callValue w = callValue call := by
  have hperm := ctx.polled_perm env.now id
  have harray : JsonObject.getArray (pollObject (ctx.polled env.now id)) (ascii "calls") =
      some ((ctx.polled env.now id).map callValue) := rfl
  rw [Delivered, poll_written_iff hcalls hid, handlePunchPoll_reply hid]
  constructor
  · rintro ⟨_, hfits, obj, items, hobj, hitems, hmem⟩
    obtain rfl : pollObject (ctx.polled env.now id) = obj := by simpa [respondOk] using hobj
    obtain rfl := Option.some.inj (harray.symm.trans hitems)
    obtain ⟨w, hw, heq⟩ := List.mem_map.mp hmem
    exact ⟨hfits, w, hperm.mem_iff.mp hw, heq⟩
  · rintro ⟨hfits, w, hw, heq⟩
    exact ⟨rfl, hfits, _, _, rfl, harray, List.mem_map.mpr ⟨w, hperm.mem_iff.mpr hw, heq⟩⟩

theorem mem_waiting {ctx : Context} {now : UInt64} {id : Bytes} {call : PendingCall} :
    call ∈ ctx.waiting now id ↔
      call ∈ ctx.pendingCalls ∧ call.expired now = false ∧ call.targetId = id := by
  simp [waiting, and_comm]

end Context

/-- When a poll delivers. In every state that any setters and any events lead to, the calls that a
poll for `id` consumes all reach the publisher exactly when none waits for it or the text of those
that wait leaves room for a NUL in the reply buffer. Counting the calls that expire on the way as
well, each of them must moreover read like one that waits. -/
theorem poll_delivers_iff (etimeoutSec : UInt64) (setups : List Setup) (events : List IndexEvent)
    (env : Env) (req : JsonObject Rat) (id : Bytes) (hid : requireIdResponse req = .ok id) :
    let ctx := Context.served etimeoutSec setups events
    let waiting := ctx.waiting env.now id
    let after := ctx.handlePunchPoll env req
    ((∀ call ∈ ctx.pendingCalls, call.expired env.now = false →
        call ∉ after.1.pendingCalls → Context.Delivered after.2 call) ↔
      waiting = [] ∨ Context.pollSize waiting ≤ 4094) ∧
    ((∀ call ∈ ctx.pendingCalls, call ∉ after.1.pendingCalls → Context.Delivered after.2 call) ↔
      (waiting = [] ∨ Context.pollSize waiting ≤ 4094) ∧
        ∀ call ∈ ctx.pendingCalls, call.expired env.now = true →
          ∃ w ∈ waiting, Context.callValue w = Context.callValue call) := by
  intro ctx waiting after
  have hcalls : ctx.CallsValid := Context.served_callsValid etimeoutSec setups events
  have hdelivered : ∀ call, Context.Delivered after.2 call ↔
      Context.pollSize waiting ≤ 4094 ∧
        ∃ w ∈ waiting, Context.callValue w = Context.callValue call :=
    Context.delivered_iff hcalls hid
  have hgone : ∀ call ∈ ctx.pendingCalls, call ∉ after.1.pendingCalls ↔
      call.expired env.now = true ∨ call ∈ waiting := by
    intro call hcall
    rw [Context.mem_after_poll hid, Context.mem_waiting]
    cases call.expired env.now <;> simp [hcall]
  have hfresh : ∀ call ∈ waiting, call ∈ ctx.pendingCalls ∧ call.expired env.now = false :=
    fun call hcall => ⟨(Context.mem_waiting.mp hcall).1, (Context.mem_waiting.mp hcall).2.1⟩
  have hfits : ∀ call ∈ waiting, waiting = [] ∨ Context.pollSize waiting ≤ 4094 →
      Context.pollSize waiting ≤ 4094 := by
    rintro call hcall (hnil | hle)
    · rw [hnil] at hcall
      cases hcall
    · exact hle
  have hconsumed : (∀ call ∈ ctx.pendingCalls, call.expired env.now = false →
      call ∉ after.1.pendingCalls → Context.Delivered after.2 call) ↔
        waiting = [] ∨ Context.pollSize waiting ≤ 4094 := by
    constructor
    · intro hall
      rcases List.eq_nil_or_concat waiting with hnil | ⟨front, w, hw⟩
      · exact Or.inl hnil
      · have hmem : w ∈ waiting := by simp [hw]
        obtain ⟨hqueued, hunexpired⟩ := hfresh w hmem
        have hdel := hall w hqueued hunexpired ((hgone w hqueued).mpr (Or.inr hmem))
        exact Or.inr ((hdelivered w).mp hdel).1
    · intro hcond call hcall hunexpired hnot
      rcases (hgone call hcall).mp hnot with hexpired | hmem
      · simp [hunexpired] at hexpired
      · exact (hdelivered call).mpr ⟨hfits call hmem hcond, call, hmem, rfl⟩
  refine ⟨hconsumed, ?_⟩
  constructor
  · intro hall
    refine ⟨hconsumed.mp fun call hcall _ hnot => hall call hcall hnot, fun call hcall hexp => ?_⟩
    exact ((hdelivered call).mp (hall call hcall ((hgone call hcall).mpr (Or.inl hexp)))).2
  · rintro ⟨hcond, htwin⟩ call hcall hnot
    rcases (hgone call hcall).mp hnot with hexpired | hmem
    · obtain ⟨w, hw, heq⟩ := htwin call hcall hexpired
      exact (hdelivered call).mpr ⟨hfits w hw hcond, w, hw, heq⟩
    · exact (hdelivered call).mpr ⟨hfits call hmem hcond, call, hmem, rfl⟩

/-- A `punch_req` for `pub` with a caller and a session of 63 characters. -/
def longPunch : JsonObject Rat :=
  [(ascii "op", .str (ascii "punch_req")), (ascii "self_id", .str (List.replicate 63 0x63)),
    (ascii "target_id", .str (ascii "pub")), (ascii "session", .str (List.replicate 63 0x35))]

def pollPub : JsonObject Rat :=
  [(ascii "op", .str (ascii "punch_poll")), (ascii "id", .str (ascii "pub"))]

/-- 24 calls for `pub`, accepted in one second. -/
def longPunches : List IndexEvent :=
  List.replicate 24 (.request (sampleEnv 10) (some (.obj longPunch)))

def longCall : PendingCall where
  callerId := List.replicate 63 0x63
  targetId := ascii "pub"
  sessId := List.replicate 63 0x35
  candidates := []
  ts := 10

theorem longPunches_queued :
    (Context.served 120 [] longPunches).pendingCalls = List.replicate 24 longCall := by
  decide +kernel

/-- The poll one second later takes all 24 calls, and writes nothing. -/
theorem poll_loses_calls :
    let ctx := Context.served 120 [] longPunches
    let after := ctx.handlePunchPoll (sampleEnv 11) pollPub
    ctx.pendingCalls.length = 24 ∧ (∀ call ∈ ctx.pendingCalls, call.expired 11 = false) ∧
      after.1.pendingCalls = [] ∧ indexRespond after.2 = none ∧
      ¬ ∀ call ∈ ctx.pendingCalls, call ∉ after.1.pendingCalls → Context.Delivered after.2 call := by
  intro ctx after
  have hid : requireIdResponse pollPub = .ok (ascii "pub") := rfl
  have hcalls : ctx.CallsValid := Context.served_callsValid 120 [] longPunches
  have hsize : Context.pollSize (ctx.waiting 11 (ascii "pub")) = 4101 := by
    rw [Context.waiting, longPunches_queued]
    decide
  have hempty : after.1.pendingCalls = [] := by
    refine List.eq_nil_iff_forall_not_mem.mpr fun call hcall => ?_
    obtain ⟨hqueued, _, htarget⟩ := (Context.mem_after_poll hid).mp hcall
    rw [longPunches_queued] at hqueued
    exact htarget (congrArg PendingCall.targetId (List.eq_of_mem_replicate hqueued))
  have hunwritten : (indexRespond after.2).isSome ≠ true := by
    rw [ne_eq, Context.poll_written_iff hcalls hid]
    show ¬ Context.pollSize (ctx.waiting 11 (ascii "pub")) ≤ 4094
    omega
  refine ⟨by rw [longPunches_queued]; rfl, ?_, hempty, ?_, fun hall => ?_⟩
  · rw [longPunches_queued]
    decide
  · simpa using hunwritten
  · have hqueued : longCall ∈ ctx.pendingCalls := by
      rw [longPunches_queued]
      decide
    exact hunwritten (hall longCall hqueued (by simp [hempty])).2.1

/-- Two calls fit. -/
theorem poll_delivers_sample :
    let events := [IndexEvent.request (sampleEnv 10) (some (.obj longPunch)),
      .request (sampleEnv 12) (some (.obj longPunch))]
    let ctx := Context.served 120 [] events
    let after := ctx.handlePunchPoll (sampleEnv 13) pollPub
    ∀ call ∈ ctx.pendingCalls, call.expired 13 = false → call ∉ after.1.pendingCalls →
      Context.Delivered after.2 call :=
  (poll_delivers_iff 120 [] _ (sampleEnv 13) pollPub (ascii "pub") rfl).1.mpr
    (Or.inr (by decide +kernel))

end Redp2p
