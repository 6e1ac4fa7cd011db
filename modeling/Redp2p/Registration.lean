import Redp2p.Serving

/-! The registration that a publisher sends once it has solved its challenge, and its acceptance by
the index: the digest that the publisher computes under the password of its identifier is the one
that the index expects. -/

namespace Redp2p

open ByteString

/-- The request of `redp2p_publisher_register` after the challenge. -/
def registerRequest (pass nonce id solution : Bytes) (proto : Nat) (port : UInt16)
    (candidates : List (Json Rat)) : JsonObject Rat :=
  [(ascii "op", .str (ascii "register")),
    (ascii "id", .str id),
    (ascii "nonce", .str nonce),
    (ascii "solution", .str solution),
    (ascii "proof", .str (hexEncode (hashRegisterOnce pass nonce id solution))),
    (ascii "proto", .num proto),
    (ascii "udp_port", .num port.toNat),
    (ascii "candidates", .arr candidates)]

theorem cstr_of_alnum {text : Bytes} (h : ∀ b ∈ text, isAlnum b = true) : cstr text = text :=
  cstr_eq_self fun b hb => ne_zero_of_isPlain (isPlain_of_isAlnum (h b hb))

theorem cstr_of_isHexToken {text : Bytes} {len : Nat} (h : isHexToken text len = true) :
    cstr text = text :=
  cstr_of_alnum fun b hb => isAlnum_of_isHexDigit ((isHexToken_iff.mp h).2 b hb)

theorem cstr_of_isValidId {id : Bytes} (h : isValidId id = true) : cstr id = id :=
  cstr_of_alnum (isValidId_iff.mp h).2.2

theorem requireIdResponse_of_string {req : JsonObject Rat} {id : Bytes}
    (h : req.getString (ascii "id") = some (cstr id)) (hid : isValidId id = true) :
    requireIdResponse req = .ok id := by
  have hlen := (isValidId_iff.mp hid).2.1
  have hshort : ¬ id.length ≥ idMax + 1 := by simp [idMax]; omega
  rw [cstr_of_isValidId hid] at h
  simp [requireIdResponse, requireId, h, hid, hshort]

theorem requireHex_of_string {req : JsonObject Rat} {field : String} {len : Nat} {token : Bytes}
    (h : req.getString (ascii field) = some (cstr token)) (htoken : isHexToken token len = true) :
    requireHex req field len = .ok token := by
  rw [cstr_of_isHexToken htoken] at h
  simp [requireHex, h, htoken]

theorem parsePort_cast {port : UInt16} (h : 1 ≤ port.toNat) :
    parsePort (port.toNat : Rat) = some port := by
  have hlt := port.toNat_lt
  have hlow : ¬ (port.toNat : Rat) < 1 := by
    rw [not_lt]
    exact_mod_cast h
  have hhigh : ¬ (port.toNat : Rat) > 65535 := by
    rw [gt_iff_lt, not_lt]
    exact_mod_cast (by omega : port.toNat ≤ 65535)
  have hfloor : (port.toNat : Rat).floor = port.toNat :=
    Rat.floor_intCast (port.toNat : Int)
  simp [parsePort, hlow, hhigh, hfloor]

/-- A registration as the publisher sends it: well-formed fields, and a proof under `pass`. -/
structure Registration where
  pass : Bytes
  nonce : Bytes
  id : Bytes
  solution : Bytes
  proto : Nat
  port : UInt16
  items : List (Json Rat)
  candidates : List Candidate
  id_valid : isValidId id = true
  nonce_hex : isHexToken nonce 16 = true
  solution_hex : isHexToken solution 8 = true
  proto_known : proto = protoTcp ∨ proto = protoUdp
  port_pos : 1 ≤ port.toNat
  items_fit : items.length ≤ peerCandidatesMax
  items_parse : parseCandidateItems items = some candidates

namespace Registration

def request (r : Registration) : JsonObject Rat :=
  registerRequest r.pass r.nonce r.id r.solution r.proto r.port r.items

/-- What the index reads from the request. -/
def fields (r : Registration) : Context.RegisterRequest where
  id := r.id
  nonce := r.nonce
  solution := r.solution
  proof := hexEncode (hashRegisterOnce r.pass r.nonce r.id r.solution)
  endpoint := { proto := r.proto, udpPort := r.port, candidates := r.candidates }

theorem parseEndpoint_request (r : Registration) :
    parseEndpoint r.request =
      .ok { proto := r.proto, udpPort := r.port, candidates := r.candidates } := by
  have hproto : r.request.getNumber (ascii "proto") = some (r.proto : Rat) := rfl
  have hport : r.request.getNumber (ascii "udp_port") = some (r.port.toNat : Rat) := rfl
  have hitems : r.request.getArray (ascii "candidates") = some r.items := rfl
  have hfit : ¬ r.items.length > peerCandidatesMax := Nat.not_lt.mpr r.items_fit
  have hcandidates : indexParseCandidates r.request (ascii "candidates") = some r.candidates := by
    simp [indexParseCandidates, hitems, hfit, r.items_parse]
  unfold parseEndpoint
  rw [hproto, hport]
  dsimp only
  rw [parsePort_cast r.port_pos, hcandidates]
  rcases r.proto_known with h | h
  · simp [h, protoTcp, protoUdp]
  · simp [h, protoTcp, protoUdp]

theorem parseRegister_request (r : Registration) :
    Context.parseRegister r.request = .ok r.fields := by
  have hid : requireIdResponse r.request = .ok r.id := requireIdResponse_of_string rfl r.id_valid
  have hnonce : requireHex r.request "nonce" 16 = .ok r.nonce :=
    requireHex_of_string rfl r.nonce_hex
  have hsolution : requireHex r.request "solution" 8 = .ok r.solution :=
    requireHex_of_string rfl r.solution_hex
  have hproof : requireHex r.request "proof" 64 =
      .ok (hexEncode (hashRegisterOnce r.pass r.nonce r.id r.solution)) :=
    requireHex_of_string rfl (isHexToken_iff.mpr ⟨by simp, hexEncode_isHexDigit _⟩)
  rw [Context.parseRegister, hid, hnonce, hsolution, hproof, r.parseEndpoint_request]
  rfl

/-- The index accepts the proof of a publisher that knows the password and met the difficulty. -/
theorem dispatch_request (r : Registration) {ctx : Context}
    (hpass : ctx.getRegisterPass r.id = r.pass)
    (hbits : ctx.powBits ≤ countLeadingZeroBits (hashRegisterOnce r.pass r.nonce r.id r.solution))
    (env : Env) : ctx.dispatch env (some (.obj r.request)) = ctx.registerPeer env r.fields := by
  have hop : r.request.getString (ascii "op") = some (ascii "register") := rfl
  have hfields : Context.jsonUniqueFields r.request = true := by
    have hnames : (r.request.map fun m => cstr m.1) =
        ["op", "id", "nonce", "solution", "proof", "proto", "udp_port", "candidates"].map ascii := rfl
    rw [Context.jsonUniqueFields, hnames]
    decide
  have hverify : ctx.verifyRegister r.fields = true :=
    (verifyRegisterPow_iff _ _ _ _ _ _).mpr (by simpa [fields, hpass] using hbits)
  simp only [Context.dispatch, Option.bind_some, Json.getObject, hfields, hop]
  change ctx.handleRegister env r.request = _
  simp [Context.handleRegister, r.parseRegister_request, hverify]

end Registration

/-- A registration under an empty shared password. -/
def sampleRegistration : Registration where
  pass := []
  nonce := ascii "0123456789abcdef"
  id := ascii "pub"
  solution := ascii "00000000"
  proto := protoUdp
  port := 9000
  items := []
  candidates := []
  id_valid := by decide
  nonce_hex := by decide
  solution_hex := by decide
  proto_known := Or.inr rfl
  port_pos := by decide
  items_fit := by decide
  items_parse := rfl

/-- Eight random bytes that are all zero, and memory to grow. -/
def sampleEnv (now : UInt64) : Env := ⟨now, some (Vector.replicate 8 0), true⟩

/-- The registration, received at `now`. -/
def sampleRegister (now : UInt64) : IndexEvent :=
  .request (sampleEnv now) (some (.obj sampleRegistration.request))

theorem sampleRegister_step (ctx : Context) (now : UInt64)
    (hpass : ctx.getRegisterPass (ascii "pub") = []) (hbits : ctx.powBits = 0) :
    (sampleRegister now).step ctx =
      ((ctx.registerPeer (sampleEnv now) sampleRegistration.fields).1,
        [(ctx.registerPeer (sampleEnv now) sampleRegistration.fields).2]) := by
  have h := sampleRegistration.dispatch_request hpass
    (by rw [hbits]; exact Int.natCast_nonneg _) (sampleEnv now)
  simp only [sampleRegister, IndexEvent.step, h]

end Redp2p
