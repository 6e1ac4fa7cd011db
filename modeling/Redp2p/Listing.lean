import Redp2p.Delivery
import Redp2p.HttpClient

/-! Listing the publishers: the index writes the identifiers of its unexpired records in one reply, and
the client reads them back. The reply buffer bounds how many publishers there can be. -/

namespace Redp2p

open ByteString

namespace Context

/-- The identifiers of the records that have not expired, in table order. -/
def listIds (ctx : Context) (now : UInt64) : List Bytes :=
  (ctx.peers.filter fun p => !p.stale ctx.etimeoutSec now).map Peer.id

/-- The size of the text of a list reply. -/
def listSize (ids : List Bytes) : Nat := 20 + (ids.map fun id => id.length + 2).sum + (ids.length - 1)

/-- The identifiers are those of the unexpired records, each once. -/
def Names (ctx : Context) (now : UInt64) (ids : List Bytes) : Prop :=
  ids.Nodup ∧ ∀ id, id ∈ ids ↔ ∃ p ∈ ctx.peers, p.stale ctx.etimeoutSec now = false ∧ p.id = id

/-- A list is answered in full: the reply has status 200 and is written to the connection, and its
`ids` are those of the unexpired records. -/
structure ListAnswered (ctx : Context) (now : UInt64) (reply : Reply) : Prop where
  status : reply.status = 200
  written : (indexRespond reply).isSome = true
  ids : ∃ (obj : JsonObject Int) (ids : List Bytes), reply.value = .obj obj ∧
    obj.getArray (ascii "ids") = some (ids.map Json.str) ∧ ctx.Names now ids

theorem listIds_names {ctx : Context} (h : ctx.Valid) (now : UInt64) :
    ctx.Names now (ctx.listIds now) := by
  constructor
  · exact (List.filter_sublist.map Peer.id).nodup h.unique
  · intro id
    simp [listIds, and_assoc]

theorem listIds_valid {ctx : Context} (h : ctx.Valid) (now : UInt64) :
    ∀ id ∈ ctx.listIds now, isValidId id = true := by
  intro id hid
  obtain ⟨p, hp, _, rfl⟩ := ((listIds_names h now).2 id).mp hid
  exact h.ids p hp

theorem plain_of_isValidId {id : Bytes} (h : isValidId id = true) :
    ∀ b ∈ id, isPlain b = true :=
  fun b hb => isPlain_of_isAlnum ((isValidId_iff.mp h).2.2 b hb)

theorem listItems_valid {ctx : Context} (h : ctx.Valid) (now : UInt64) :
    ctx.listItems now = (ctx.listIds now).map Json.str := by
  have hfold : ∀ (peers : List Peer) (items : List (Json Int)),
      (∀ p ∈ peers, isValidId p.id = true) →
        peers.foldl (fun items p =>
          if p.stale ctx.etimeoutSec now then items else appendString items p.id) items =
        items ++ ((peers.filter fun p => !p.stale ctx.etimeoutSec now).map Peer.id).map Json.str := by
    intro peers
    induction peers with
    | nil => simp
    | cons p peers ih =>
      intro items hids
      have hp : isValidId p.id = true := hids p (by simp)
      rw [List.foldl_cons, ih _ fun q hq => hids q (by simp [hq])]
      cases hstale : p.stale ctx.etimeoutSec now with
      | true => simp [hstale]
      | false => simp [hstale, appendString, initString_plain (plain_of_isValidId hp)]
  exact hfold ctx.peers [] h.ids

theorem listObject_eq {ctx : Context} (h : ctx.Valid) (now : UInt64) :
    ctx.listObject now =
      [(ascii "ids", .arr ((ctx.listIds now).map Json.str)), (ascii "ok", .bool true)] := by
  rw [listObject, listItems_valid h]
  rfl

theorem serialize_listObject {ctx : Context} (h : ctx.Valid) (now : UInt64) :
    (serialize (.obj (ctx.listObject now))).length = listSize (ctx.listIds now) := by
  have hids : (serializeString (ascii "ids")).length = 5 := by decide
  have hok : (serializeString (ascii "ok")).length = 4 := by decide
  have htrue : (ascii "true").length = 4 := by decide
  have hsizes : ∀ id ∈ ctx.listIds now, ((fun v => (serialize v).length) ∘ Json.str) id =
      id.length + 2 :=
    fun id hid => serializeString_length (plain_of_isValidId (listIds_valid h now id hid))
  rw [listObject_eq h]
  simp only [serialize, List.length_append, serializeMembers_length, serializeItems_length,
    List.map_cons, List.map_nil, List.sum_cons, List.sum_nil, List.length_cons, List.length_nil,
    List.map_map, List.map_congr_left hsizes, List.length_map, listSize, hids, hok, htrue]
  omega

theorem listAnswered_iff {ctx : Context} (h : ctx.Valid) (env : Env) :
    ctx.ListAnswered env.now (ctx.handleList env).2 ↔ listSize (ctx.listIds env.now) ≤ 4094 := by
  have hwritten : (indexRespond (ctx.handleList env).2).isSome = true ↔
      listSize (ctx.listIds env.now) ≤ 4094 := by
    rw [← serialize_listObject h]
    exact indexRespond_isSome_iff (ctx.listObject env.now)
  constructor
  · exact fun hanswered => hwritten.mp hanswered.written
  · intro hfits
    refine ⟨rfl, hwritten.mpr hfits, _, ctx.listIds env.now, rfl, ?_, listIds_names h env.now⟩
    rw [listObject_eq h]
    rfl

end Context

/-! ### The client -/

/-- What a connection delivers after a reply: the bytes that were written, and then its end. -/
def replyStream (reply : Reply) : Stream := ⟨(indexRespond reply).getD [], false⟩

theorem asReadItems_str (ids : List Bytes) :
    asReadItems (ids.map Json.str) = ids.map Json.str := by
  rw [asReadItems_eq_map, List.map_map]
  rfl

theorem readableItems_str {ids : List Bytes} {nesting : Nat} (h : nesting ≤ maxNesting) :
    ReadableItems (ids.map Json.str) nesting := by
  induction ids with
  | nil => trivial
  | cons id ids ih => exact ⟨h, ih⟩

theorem reportIds_valid {ids : List Bytes} (h : ∀ id ∈ ids, isValidId id = true)
    (called : List Bytes) : reportIds called (ids.map Json.str) = (.ok, called ++ ids) := by
  induction ids generalizing called with
  | nil => simp [reportIds]
  | cons id ids ih =>
    have hid := h id (by simp)
    rw [List.map_cons, reportIds, cstr_of_isValidId hid, if_pos hid,
      ih (fun q hq => h q (by simp [hq])), List.append_assoc]
    rfl

/-- The client reads the object of a reply that was written. -/
theorem readReply_written (strtod : Strtod) {obj : JsonObject Int}
    (hread : Readable (.obj obj) 0) (hfits : (serialize (.obj obj)).length ≤ 4094) :
    readReply strtod (replyStream (respondOk obj)) = .ok (asReadMembers obj) := by
  obtain ⟨written, hwritten⟩ :=
    Option.isSome_iff_exists.mp ((indexRespond_isSome_iff obj).mpr hfits)
  have htext : written = responseText 200 (ascii "OK") (ascii "application/json")
      (serialize (.obj obj)) := by
    unfold indexRespond at hwritten
    split at hwritten
    · simp at hwritten
    · exact httpWriteResponse_text hwritten
  have hcstr : cstr (serialize (.obj obj)) = serialize (.obj obj) :=
    cstr_eq_self (serialize_ne_zero (.obj obj) 0 hread)
  rw [readReply, replyStream, hwritten, Option.getD_some, htext,
    readResponse_responseText (by decide) (by decide) (by decide +kernel) (by decide)
      ⟨by decide +kernel, by decide, by decide⟩ (by simp only [httpBodyMax, bufSize]; omega)]
  dsimp only [bind, Except.bind]
  rw [if_pos rfl, hcstr, jsonParseString_serialize strtod hread]
  rfl

/-- A connection that closes without a byte is a network error. -/
theorem readReply_unwritten (strtod : Strtod) {reply : Reply} (h : indexRespond reply = none) :
    readReply strtod (replyStream reply) = .error .enet := by
  rw [replyStream, h]
  rfl

section Client

variable {strtod : Strtod} {host : Bytes} {port : UInt16} {stream : Stream}

theorem httpClient_reply (hhost : host ≠ []) (hport : port ≠ 0)
    (hsent : (requestBytes host (serialize listRequest)).isSome = true) :
    httpClient strtod host port listRequest (some fun _ => stream) = readReply strtod stream := by
  have hsize : ¬ serializationSize listRequest > httpBodyMax + 1 := by decide
  obtain ⟨bytes, hbytes⟩ := Option.isSome_iff_exists.mp hsent
  unfold httpClient
  rw [if_neg (by simp [hhost, hport]), if_neg hsize, hbytes]

theorem listPublishers_ok (hhost : host ≠ []) (hport : port ≠ 0)
    (hsent : (requestBytes host (serialize listRequest)).isSome = true) {out : JsonObject Rat}
    {ids : List Bytes} (hread : readReply strtod stream = .ok out)
    (hids : out.getArray (ascii "ids") = some (ids.map Json.str))
    (hvalid : ∀ id ∈ ids, isValidId id = true) :
    listPublishers strtod host port (some fun _ => stream) = (.ok, ids) := by
  rw [listPublishers, if_neg hhost, httpClient_reply hhost hport hsent, hread]
  simp only [hids]
  exact reportIds_valid hvalid []

theorem listPublishers_error (hhost : host ≠ []) (hport : port ≠ 0)
    (hsent : (requestBytes host (serialize listRequest)).isSome = true) {status : Status}
    (hread : readReply strtod stream = .error status) :
    listPublishers strtod host port (some fun _ => stream) = (status, []) := by
  rw [listPublishers, if_neg hhost, httpClient_reply hhost hport hsent, hread]

end Client

/-- When a list is complete. In every state that any setters and any events lead to, the index
answers a list with the identifiers of all unexpired records, and a client that sent the request
calls back with exactly those, if and only if their text leaves room for a NUL in the reply
buffer. -/
theorem listing_complete_iff (etimeoutSec : UInt64) (setups : List Setup)
    (events : List IndexEvent) (env : Env) (req : JsonObject Rat) (strtod : Strtod) (host : Bytes)
    (port : UInt16) (hhost : host ≠ []) (hport : port ≠ 0)
    (hsent : (requestBytes host (serialize listRequest)).isSome = true) :
    let ctx := Context.served etimeoutSec setups events
    let reply := (ctx.handleOp env (ascii "list") req).2
    let listed := listPublishers strtod host port (some fun _ => replyStream reply)
    (ctx.ListAnswered env.now reply ∧ listed.1 = .ok ∧ ctx.Names env.now listed.2) ↔
      Context.listSize (ctx.listIds env.now) ≤ 4094 := by
  intro ctx reply listed
  have hvalid : ctx.Valid := Context.served_valid etimeoutSec setups events
  have hanswered : ctx.ListAnswered env.now reply ↔
      Context.listSize (ctx.listIds env.now) ≤ 4094 := Context.listAnswered_iff hvalid env
  constructor
  · exact fun h => hanswered.mp h.1
  · intro hfits
    have hobj := Context.listObject_eq hvalid env.now
    have hread : Readable (.obj (ctx.listObject env.now)) 0 := by
      rw [hobj]
      have hnames : [ascii "ids", ascii "ok"].Nodup := by decide
      have hnesting : 1 ≤ maxNesting := by decide
      exact ⟨Nat.zero_le _, hnames, by decide +kernel,
        ⟨hnesting, readableItems_str (by decide)⟩, by decide +kernel,
        hnesting, trivial⟩
    have hout := readReply_written strtod hread
      (by rw [Context.serialize_listObject hvalid]; exact hfits)
    have hids : JsonObject.getArray (asReadMembers (ctx.listObject env.now)) (ascii "ids") =
        some ((ctx.listIds env.now).map Json.str) := by
      rw [hobj, ← asReadItems_str]
      rfl
    have hlisted : listed = (.ok, ctx.listIds env.now) :=
      listPublishers_ok hhost hport hsent hout hids (Context.listIds_valid hvalid env.now)
    refine ⟨hanswered.mpr hfits, ?_, ?_⟩
    · rw [hlisted]
    · rw [hlisted]
      exact Context.listIds_names hvalid env.now

/-! ### Too many publishers -/

/-- A registration under an identifier of 63 characters that starts with the two hexadecimal digits
of `k`. -/
def longId (k : Nat) : Bytes := hexEncode [UInt8.ofNat k] ++ List.replicate 61 0x61

theorem longId_valid (k : Nat) : isValidId (longId k) = true := by
  refine isValidId_iff.mpr ⟨by simp [longId], by simp [longId], fun b hb => ?_⟩
  rcases List.mem_append.mp hb with hb | hb
  · exact isAlnum_of_isHexDigit (hexEncode_isHexDigit _ b hb)
  · rw [List.eq_of_mem_replicate hb]
    decide

def longRegistration (k : Nat) : Registration :=
  { sampleRegistration with id := longId k, id_valid := longId_valid k }

def longRegister (k : Nat) : IndexEvent :=
  .request (sampleEnv 5) (some (.obj (longRegistration k).request))

/-- The table after the registrations of `ks`, without their proofs. -/
def longTable (ctx : Context) (ks : List Nat) : Context :=
  ks.foldl (fun ctx k => (ctx.registerPeer (sampleEnv 5) (longRegistration k).fields).1) ctx

theorem run_longRegister (ks : List Nat) {ctx : Context} (hvalid : ctx.Valid)
    (hpass : ctx.pass = []) (hvips : ctx.vips = []) (hbits : ctx.powBits = 0) :
    (Transition.run IndexEvent.step ctx (ks.map longRegister)).1 = longTable ctx ks := by
  induction ks generalizing ctx with
  | nil => rfl
  | cons k ks ih =>
    have hget : ctx.getRegisterPass (longId k) = [] := by
      simp [Context.getRegisterPass, Context.findVip, hvips, hpass, Keyed.indexOf]
    have hstep : ((longRegister k).step ctx).1 =
        (ctx.registerPeer (sampleEnv 5) (longRegistration k).fields).1 := by
      have hdispatch := (longRegistration k).dispatch_request hget
        (by rw [hbits]; exact Int.natCast_nonneg _) (sampleEnv 5)
      simp only [longRegister, IndexEvent.step, hdispatch]
    have hsame := hvalid.step_sameConfig (longRegister k)
    rw [List.map_cons, Transition.run_cons, longTable, List.foldl_cons, ← hstep]
    exact ih (hvalid.step _) (by rw [hsame.pass, hpass]) (by rw [hsame.vips, hvips])
      (by rw [hsame.powBits, hbits])

theorem longRegister_served :
    (Context.served 120 [] ((List.range 62).map longRegister)).listIds 6 =
      (List.range 62).map longId := by
  have hready := Context.configured_ready 120 []
  rw [Context.served, run_longRegister _ hready.valid rfl rfl rfl]
  decide +kernel

/-- A reader of numbers that reads none, for texts that have none. -/
def noStrtod : Strtod := fun _ => (none, 0)

/-- 62 publishers with identifiers of 63 characters are listed to nobody: the text has 4111 bytes. -/
theorem list_loses_publishers :
    let ctx := Context.served 120 [] ((List.range 62).map longRegister)
    let reply := (ctx.handleOp (sampleEnv 6) (ascii "list") []).2
    let listed := listPublishers noStrtod (ascii "index") 80 (some fun _ => replyStream reply)
    (ctx.listIds 6).length = 62 ∧ indexRespond reply = none ∧ listed = (.enet, []) ∧
      ¬ (ctx.ListAnswered 6 reply ∧ listed.1 = .ok ∧ ctx.Names 6 listed.2) := by
  intro ctx reply listed
  have hvalid : ctx.Valid := Context.served_valid 120 [] _
  have hsize : ¬ Context.listSize (ctx.listIds 6) ≤ 4094 := by
    rw [longRegister_served]
    decide
  have hunwritten : indexRespond reply = none := by
    have hsome : (indexRespond reply).isSome ≠ true := by
      intro hsome
      refine hsize (Context.serialize_listObject hvalid 6 ▸ ?_)
      exact (indexRespond_isSome_iff (ctx.listObject 6)).mp hsome
    simpa using hsome
  have hlisted : listed = (.enet, []) :=
    listPublishers_error (by decide) (by decide) (by decide)
      (readReply_unwritten noStrtod hunwritten)
  refine ⟨?_, hunwritten, hlisted, fun h => ?_⟩
  · rw [longRegister_served]
    rfl
  · rw [hlisted] at h
    exact absurd h.2.1 (by decide)

/-- One publisher is listed. -/
theorem listing_complete_sample :
    let ctx := Context.served 120 [] [sampleRegister 5]
    let reply := (ctx.handleOp (sampleEnv 6) (ascii "list") []).2
    let listed := listPublishers noStrtod (ascii "index") 80 (some fun _ => replyStream reply)
    ctx.ListAnswered 6 reply ∧ listed.1 = .ok ∧ ctx.Names 6 listed.2 := by
  refine (listing_complete_iff 120 [] [sampleRegister 5] (sampleEnv 6) [] noStrtod (ascii "index")
    80 (by decide) (by decide) (by decide)).mpr ?_
  rw [Context.served, Transition.run_cons, sampleRegister_step _ _ (by decide) (by decide)]
  decide +kernel

end Redp2p
