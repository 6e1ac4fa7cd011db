import Redp2p.PhpIndex
import Redp2p.Listing

/-! The fields of a request as the two indexes read them. Where no string holds a NUL, the index in PHP
accepts the fields that the index in C accepts, and reads the same from them. -/

namespace Redp2p

open ByteString

/-! ### Strings without NULs -/

/-- A field that holds no string with a NUL. -/
def nulFree (o : JsonObject Rat) (field : String) : Bool :=
  match o.getValue (ascii field) with
  | some (.str s) => s.all (· != 0)
  | _ => true

/-- The fields with strings that an operation reads. -/
def operationFields (op : Bytes) : List String :=
  if op = ascii "register" then ["id", "nonce", "solution", "proof", "candidates"]
  else if op = ascii "heartbeat" then ["id", "key", "candidates"]
  else if op = ascii "deregister" then ["id", "key"]
  else if op = ascii "punch_req" then ["self_id", "target_id", "session", "candidates"]
  else if op = ascii "challenge" ∨ op = ascii "lookup" ∨ op = ascii "punch_poll" then ["id"]
  else []

def plainItem : Json Rat → Bool
  | .obj o => nulFree o "type" && nulFree o "addr"
  | _ => true

def plainCandidates (req : JsonObject Rat) : Bool :=
  ((req.getArray (ascii "candidates")).getD []).all plainItem

def plainFields (fields : List String) (req : JsonObject Rat) : Bool :=
  fields.all fun field => if field = "candidates" then plainCandidates req else nulFree req field

/-- A request without NULs in the strings that its operation reads. -/
def plainRequest (req : JsonObject Rat) : Bool :=
  nulFree req "op" && plainFields (((PhpIndex.getString req "op").map operationFields).getD []) req

theorem getString_of_nulFree {o : JsonObject Rat} {field : String} (h : nulFree o field = true) :
    o.getString (ascii field) = PhpIndex.getString o field := by
  unfold JsonObject.getString PhpIndex.getString
  unfold nulFree at h
  cases hvalue : o.getValue (ascii field) with
  | none => rfl
  | some value =>
    cases value with
    | str s =>
      rw [hvalue] at h
      dsimp only at h ⊢
      rw [cstr_eq_self]
      intro b hb
      simpa using List.all_eq_true.mp h b hb
    | _ => rfl

theorem nulFree_of_plain {fields : List String} {req : JsonObject Rat} (h : plainFields fields req = true)
    (field : String) (hfield : field ∈ fields ∧ field ≠ "candidates") : nulFree req field = true := by
  have hplain := List.all_eq_true.mp h field hfield.1
  rwa [if_neg hfield.2] at hplain

theorem candidates_of_plain {fields : List String} {req : JsonObject Rat} (h : plainFields fields req = true)
    (hfield : "candidates" ∈ fields) : plainCandidates req = true := by
  have hplain := List.all_eq_true.mp h "candidates" hfield
  rwa [if_pos rfl] at hplain

/-! ### Fields that both read -/

/-- One index accepts a field and reads `a` from it where the other reads `row a`, or both refuse it as a
bad request. -/
inductive Reads {α β : Type} (row : α → β) : Except Reply α → Option β → Prop
  | accepted (a : α) : Reads row (.ok a) (some (row a))
  | refused : Reads row (.error (respondError 400 "bad_request")) none

theorem Reads.bind {α β γ δ : Type} {row : α → β} {row' : γ → δ} {x : Except Reply α} {y : Option β}
    {f : α → Except Reply γ} {g : β → Option δ} (h : Reads row x y)
    (hnext : ∀ a, x = .ok a → Reads row' (f a) (g (row a))) : Reads row' (x >>= f) (y >>= g) := by
  cases h with
  | accepted a => exact hnext a rfl
  | refused => exact .refused

theorem phpIsValidId_eq (id : Bytes) : phpIsValidId id = isValidId id := by
  cases id with
  | nil => rfl
  | cons b id =>
    have hne : (b :: id != []) = true := rfl
    simp [phpIsValidId, isValidId, isToken, ctypeAlnum, hne]

theorem phpIsSessionToken_eq (token : Bytes) : phpIsSessionToken token = isSessionToken token := by
  cases token with
  | nil => rfl
  | cons b token =>
    have hne : (b :: token != []) = true := rfl
    simp [phpIsSessionToken, isSessionToken, isToken, ctypeAlnum, hne]

theorem phpIsHexToken_eq {len : Nat} (hlen : 0 < len) (token : Bytes) :
    phpIsHexToken token len = isHexToken token len := by
  cases token with
  | nil => simp [phpIsHexToken, isHexToken, hlen.ne]
  | cons b token => simp [phpIsHexToken, isHexToken]

namespace PhpIndex

theorem requireId_eq {req : JsonObject Rat} {field : String} (h : nulFree req field = true) :
    requireId req field = Redp2p.requireId req field := by
  unfold requireId Redp2p.requireId
  rw [getString_of_nulFree h]
  cases hvalue : getString req field with
  | none => rfl
  | some id =>
    dsimp only
    rw [phpIsValidId_eq]
    cases hvalid : isValidId id with
    | false => simp
    | true =>
      have hshort : ¬ id.length ≥ idMax + 1 := by
        have hlen := (isValidId_iff.mp hvalid).2.1
        simp only [idMax]
        omega
      simp [hshort]

theorem requireHex_reads {req : JsonObject Rat} {field : String} (h : nulFree req field = true)
    (len : Nat) (hlen : 0 < len) : Reads id (Redp2p.requireHex req field len) (requireHex req field len) := by
  unfold requireHex Redp2p.requireHex
  rw [getString_of_nulFree h]
  cases getString req field with
  | none => exact .refused
  | some value =>
    dsimp only
    rw [Option.filter, phpIsHexToken_eq hlen]
    split
    · exact .accepted value
    · exact .refused

/-! ### Candidates -/

end PhpIndex

/-- The candidate as a row of the other index holds it. -/
def Candidate.row (c : Candidate) : PhpCandidate := ⟨candidateTypeName c.type, c.addr, c.port.toNat⟩

theorem parseCandidateType_cases (text : Bytes) :
    (∃ type, parseCandidateType text = some type ∧ candidateTypeName type = text ∧
      text ∈ PhpIndex.candidateTypes) ∨
    parseCandidateType text = none ∧ text ∉ PhpIndex.candidateTypes := by
  simp only [PhpIndex.candidateTypes, List.mem_cons, List.not_mem_nil, or_false]
  unfold parseCandidateType
  split
  · rename_i heq
    exact .inl ⟨_, rfl, heq.symm, by simp [heq]⟩
  split
  · rename_i heq
    exact .inl ⟨_, rfl, heq.symm, by simp [heq]⟩
  split
  · rename_i heq
    exact .inl ⟨_, rfl, heq.symm, by simp [heq]⟩
  split
  · rename_i heq
    exact .inl ⟨_, rfl, heq.symm, by simp [heq]⟩
  · rename_i h1 h2 h3 h4
    exact .inr ⟨rfl, by simp [h1, h2, h3, h4]⟩

/-- A port that both refuse, or that both round to the same number. -/
theorem parsePort_cases (number : Rat) :
    (number < 1 ∨ number > 65535) ∧ parsePort number = none ∨
    ¬ (number < 1 ∨ number > 65535) ∧
      ∃ port, parsePort number = some port ∧ (port.toNat : Int) = number.floor := by
  unfold parsePort
  by_cases hrange : number < 1 ∨ number > 65535
  · exact .inl ⟨hrange, if_pos (by simpa using hrange)⟩
  · refine .inr ⟨hrange, _, if_neg (by simpa using hrange), ?_⟩
    simp only [not_or, not_lt, gt_iff_lt] at hrange
    have hlow : 1 ≤ number.floor := Rat.le_floor_iff.mpr (by exact_mod_cast hrange.1)
    have hhigh : number.floor ≤ 65535 := by
      have hle : (number.floor : Rat) ≤ 65535 := le_trans (Rat.floor_le number) hrange.2
      exact_mod_cast hle
    rw [UInt16.toNat_ofNat']
    omega

namespace PhpIndex

variable {php : PhpIndex}

/-- The check of addresses agrees with `inet_pton`. -/
def ChecksAddresses (php : PhpIndex) : Prop :=
  ∀ addr, php.filterVar addr = ((inetPton4 addr).isSome || (inetPton6 addr).isSome)

theorem parseItem_eq (haddr : php.ChecksAddresses) {item : Json Rat} (h : plainItem item = true) :
    php.parseItem item = (parseCandidate item).map Candidate.row := by
  cases item with
  | obj o =>
    simp only [plainItem, Bool.and_eq_true] at h
    simp only [parseItem, parseCandidate, Json.getObject, Option.bind_eq_bind, Option.bind_some,
      getString_of_nulFree h.1, getString_of_nulFree h.2]
    cases getString o "type" with
    | none => rfl
    | some type =>
      cases getString o "addr" with
      | none => rfl
      | some addr =>
        simp only [Option.bind_some, haddr addr]
        by_cases hlen : addr.length ≤ addrMax
        · simp only [hlen, guard_true, Option.pure_def, Option.bind_some]
          rcases parseCandidateType_cases type with ⟨kind, hkind, hname, hmem⟩ | ⟨hkind, hmem⟩
          · simp only [hkind, hmem, guard_true, Option.pure_def, Option.bind_some]
            cases (inetPton4 addr).isSome || (inetPton6 addr).isSome with
            | false => rfl
            | true =>
              cases JsonObject.getNumber o (ascii "port") with
              | none => rfl
              | some number =>
                rcases parsePort_cases number with ⟨hrange, hport⟩ | ⟨hrange, port, hport, hfloor⟩
                · have hguard : (guard ¬ (number < 1 ∨ number > 65535) : Option Unit) = none :=
                    if_neg (not_not.mpr hrange)
                  simp only [guard_true, Option.pure_def, Option.bind_some, hguard, hport]
                  rfl
                · have hguard : (guard ¬ (number < 1 ∨ number > 65535) : Option Unit) = some () :=
                    if_pos hrange
                  simp only [guard_true, Option.pure_def, Option.bind_some, hguard, hport, Option.map_some,
                    Candidate.row, hname, hfloor]
          · simp [hkind, hmem]
        · simp [hlen]
  | _ => rfl

theorem parseItems_eq (haddr : php.ChecksAddresses) {items : List (Json Rat)}
    (h : ∀ item ∈ items, plainItem item = true) :
    items.mapM php.parseItem = (parseCandidateItems items).map (List.map Candidate.row) := by
  induction items with
  | nil => rfl
  | cons item rest ih =>
    rw [List.mapM_cons, parseItem_eq haddr (h item (by simp)),
      ih fun other hother => h other (by simp [hother]), parseCandidateItems]
    cases parseCandidate item with
    | none => rfl
    | some candidate =>
      cases parseCandidateItems rest with
      | none => rfl
      | some candidates => rfl

theorem parseCandidates_eq (haddr : php.ChecksAddresses) {req : JsonObject Rat}
    (h : plainCandidates req = true) :
    php.parseCandidates req "candidates" =
      (indexParseCandidates req (ascii "candidates")).map (List.map Candidate.row) := by
  rw [plainCandidates, List.all_eq_true] at h
  unfold parseCandidates indexParseCandidates
  cases hitems : req.getArray (ascii "candidates") with
  | none => rfl
  | some items =>
    dsimp only
    rw [parseItems_eq haddr fun item hitem => h item (by simpa [hitems] using hitem)]
    split
    · rfl
    · rfl

/-! ### Endpoints -/

end PhpIndex

/-- The endpoint as the other index reads it. -/
def Endpoint.row (endpoint : Endpoint) : (Int × Int) × List PhpCandidate :=
  ((endpoint.proto, endpoint.udpPort.toNat), endpoint.candidates.map Candidate.row)

namespace PhpIndex

/-- What both handlers that announce an endpoint read of it. -/
def readEndpoint (php : PhpIndex) (req : JsonObject Rat) : Option ((Int × Int) × List PhpCandidate) := do
  let ports ← requireProtoPort req
  let candidates ← php.parseCandidates req "candidates"
  return (ports, candidates)

variable {php : PhpIndex}

theorem endpoint_reads (haddr : php.ChecksAddresses) {req : JsonObject Rat}
    (h : plainCandidates req = true) : Reads Endpoint.row (parseEndpoint req) (php.readEndpoint req) := by
  unfold parseEndpoint readEndpoint requireProtoPort
  rw [parseCandidates_eq haddr h]
  cases req.getNumber (ascii "proto") with
  | none => exact .refused
  | some proto =>
    cases req.getNumber (ascii "udp_port") with
    | none => exact .refused
    | some number =>
      dsimp only
      have hone : (protoTcp : Rat) = 1 := by norm_num [protoTcp]
      have htwo : (protoUdp : Rat) = 2 := by norm_num [protoUdp]
      rw [hone, htwo]
      by_cases hproto : proto ≠ 1 ∧ proto ≠ 2
      · rw [if_pos hproto, if_pos hproto]
        exact .refused
      · rw [if_neg hproto, if_neg hproto]
        rcases parsePort_cases number with ⟨hrange, hport⟩ | ⟨hrange, port, hport, hfloor⟩
        · rw [if_pos hrange, hport]
          exact .refused
        · rw [if_neg hrange, hport]
          cases indexParseCandidates req (ascii "candidates") with
          | none => exact .refused
          | some candidates =>
            have hknown : (proto.floor : Int) = (if proto = 1 then protoTcp else protoUdp : Nat) := by
              by_cases h1 : proto = 1
              · subst h1
                rfl
              · obtain rfl : proto = 2 := by tauto
                rfl
            rw [hknown, ← hfloor]
            exact @Reads.accepted _ _ Endpoint.row ⟨_, port, candidates⟩

/-! ### Registrations -/

end PhpIndex

/-- The registration as the other index reads it. -/
def Context.RegisterRequest.row (r : Context.RegisterRequest) : PhpIndex.Registration where
  id := r.id
  nonce := r.nonce
  solution := r.solution
  proof := r.proof
  proto := r.endpoint.proto
  udpPort := r.endpoint.udpPort.toNat
  candidates := r.endpoint.candidates.map Candidate.row

namespace PhpIndex

variable {php : PhpIndex}

theorem parseRegister_eq (req : JsonObject Rat) (id : Bytes) :
    php.parseRegister req id =
      requireHex req "nonce" 16 >>= fun nonce =>
        requireHex req "solution" 8 >>= fun solution =>
          requireHex req "proof" 64 >>= fun proof =>
            php.readEndpoint req >>= fun endpoint =>
              some ⟨id, nonce, solution, proof, endpoint.1.1, endpoint.1.2, endpoint.2⟩ := by
  unfold parseRegister readEndpoint
  cases requireProtoPort req with
  | none => rfl
  | some ports =>
    cases php.parseCandidates req "candidates" with
    | none => rfl
    | some candidates => rfl

theorem register_reads (haddr : php.ChecksAddresses) {req : JsonObject Rat}
    (h : plainFields ["id", "nonce", "solution", "proof", "candidates"] req = true) {id : Bytes} (hid : requireIdResponse req = .ok id) :
    Reads Context.RegisterRequest.row (Context.parseRegister req) (php.parseRegister req id) := by
  rw [parseRegister_eq, Context.parseRegister, hid]
  apply (requireHex_reads (nulFree_of_plain h "nonce" (by decide)) 16 (by decide)).bind
  intro nonce _
  apply (requireHex_reads (nulFree_of_plain h "solution" (by decide)) 8 (by decide)).bind
  intro solution _
  apply (requireHex_reads (nulFree_of_plain h "proof" (by decide)) 64 (by decide)).bind
  intro proof _
  apply (endpoint_reads haddr (candidates_of_plain h (by decide))).bind
  intro endpoint _
  exact @Reads.accepted _ _ Context.RegisterRequest.row ⟨id, nonce, solution, proof, endpoint⟩

/-- The two indexes have the same password, reservations, seats, difficulty and timeout. -/
structure Configured (php : PhpIndex) (ctx : Context) : Prop where
  pass : php.pass = ctx.pass
  vips : php.vips = ctx.vips
  seats : php.seats = if ctx.seatsSet then some ctx.nPeersCap else none
  pow : php.pow = ctx.powBits
  ttl : php.ttl = ctx.etimeoutSec.toNat

variable {ctx : Context}

theorem Configured.getPass (h : php.Configured ctx) (id : Bytes) :
    php.getPass id = ctx.getRegisterPass id := by
  unfold PhpIndex.getPass vip Context.getRegisterPass Context.findVip
  rw [h.vips, h.pass]
  cases hindex : Keyed.indexOf VipEntry.id id ctx.vips with
  | none =>
    rw [Keyed.indexOf_eq_none_iff.mp hindex]
    rfl
  | some index =>
    rw [Option.bind_some, Keyed.getElem?_indexOf hindex]
    cases Keyed.lookup VipEntry.id id ctx.vips with
    | none => rfl
    | some entry => rfl

theorem shiftsToHigh_eq (b : UInt8) : shiftsToHigh 8 b.toNat = leadingZeros 8 b := by
  have hall : ∀ b : Fin 256, shiftsToHigh 8 b = leadingZeros 8 (UInt8.ofNat b) := by decide +kernel
  simpa using hall ⟨b.toNat, b.toNat_lt⟩

theorem leadingZeroBits_eq (digest : Bytes) : leadingZeroBits digest = countLeadingZeroBits digest := by
  induction digest with
  | nil => rfl
  | cons b rest ih =>
    rw [leadingZeroBits, countLeadingZeroBits, ih, shiftsToHigh_eq]
    simp

/-- Both accept the same proofs. -/
theorem Configured.verified (h : php.Configured ctx) {req : JsonObject Rat} {r : Context.RegisterRequest}
    (hparse : Context.parseRegister req = .ok r) : php.verified r.row = ctx.verifyRegister r := by
  obtain ⟨hid, hnonce, hsolution, -, -⟩ := Context.parseRegister_ok hparse
  have hfits : r.nonce.length + r.id.length + r.solution.length ≤ 96 := by
    have hidlen := (isValidId_iff.mp (requireIdResponse_ok hid).2).2.1
    have hnoncelen := (isHexToken_iff.mp (requireHex_ok hnonce).2).1
    have hsolutionlen := (isHexToken_iff.mp (requireHex_ok hsolution).2).1
    omega
  rw [Bool.eq_iff_iff, Context.verifyRegister, verifyRegisterPow_iff, hashRegisterOnce_eq _ hfits]
  simp only [PhpIndex.verified, verifyPow, Context.RegisterRequest.row, h.getPass, h.pow,
    leadingZeroBits_eq, Bool.and_eq_true, beq_iff_eq, decide_eq_true_eq]
  rw [eq_comm]

end PhpIndex

/-! ### Replies -/

/-- Values that are the same up to the order of the identifiers of a list or of the calls of a poll. -/
inductive SameValue : Json Int → Json Int → Prop
  | same (value : Json Int) : SameValue value value
  | reordered (name : Bytes) (known : name = ascii "ids" ∨ name = ascii "calls")
      {items items' : List (Json Int)} (order : items.Perm items') (rest : JsonObject Int) :
      SameValue (.obj ((name, .arr items) :: rest)) (.obj ((name, .arr items') :: rest))

/-- Two replies that say the same. -/
structure Reply.Agrees (reply reply' : Reply) : Prop where
  status : reply'.status = reply.status
  reason : reply'.reason = reply.reason
  value : SameValue reply.value reply'.value

theorem Reply.Agrees.of_eq {reply reply' : Reply} (h : reply = reply') : reply.Agrees reply' := by
  subst h
  exact ⟨rfl, rfl, .same _⟩

theorem respondError_eq {status : Nat} {code : String} (h : ∀ b ∈ ascii code, isPlain b = true) :
    respondError status code = (PhpAnswer.error status code).reply := by
  unfold respondError JsonObject.setString
  rw [initString_plain h]
  rfl

end Redp2p
