import Redp2p.PhpHandlers

/-! The index in PHP follows the index in C. Given the same requests one at a time, with the same
readings of the clock and the same random bytes, it gives the same replies and holds the same records and
calls, as long as no string holds a NUL, the clock does not go back and a new row finds its key free. -/

namespace Redp2p

open ByteString Program

/-! ### Requests to both -/

/-- A request as a JSON parser decodes it: every member has a name of its own, and no name holds a NUL. -/
structure DecodedRequest where
  members : JsonObject Rat
  distinct : (members.map Prod.fst).Nodup
  names : ∀ m ∈ members, ∀ b ∈ m.1, b ≠ 0

/-- A request with the reading of the clock and the random bytes that both indexes take for it. -/
structure SharedRequest where
  now : UInt64
  random : Vector UInt8 8
  request : DecodedRequest

theorem DecodedRequest.uniqueFields (r : DecodedRequest) : Context.jsonUniqueFields r.members = true := by
  have hnames : r.members.map (fun m => cstr m.1) = r.members.map Prod.fst :=
    List.map_congr_left fun m hm => cstr_eq_self (r.names m hm)
  rw [Context.jsonUniqueFields, hnames]
  exact decide_eq_true r.distinct

namespace PhpIndex

/-- Both indexes serve a request. -/
def serveBoth (php : PhpIndex) (s : Context × PhpWorld) (e : SharedRequest) :
    (Context × PhpWorld) × List (Reply × Reply) :=
  let after := s.1.dispatch ⟨e.now, some e.random, true⟩ (some (.obj e.request.members))
  let after' := (php.handle e.random (some (.obj e.request.members))).runAlone PhpStatement.exec
    { s.2 with clock := e.now.toNat }
  ((after.1, after'.1), [(after.2, after'.2.reply)])

/-- A request on which the two indexes can be compared: the strings that it reads hold no NUL, the clock has
not gone back and a double holds its reading, the array of publishers can grow, and the random bytes of a call
that is stored are not those of another one. -/
structure Comparable (s : Context × PhpWorld) (e : SharedRequest) : Prop where
  plain : plainRequest e.request.members = true
  clock : e.now.toNat < 2 ^ 53
  dates : s.1.Dates e.now
  room : s.1.peers.length < sizeMax / peerSize
  key : getString e.request.members "op" = some (ascii "punch_req") →
    ∀ r, Context.parsePunch e.request.members = .ok r → Unfilled { s.2 with clock := e.now.toNat } →
      FreeKey e.random { s.2 with clock := e.now.toNat }

variable {php : PhpIndex} {s : Context × PhpWorld} {e : SharedRequest}

theorem handle_follows (h : php.Related s.1 s.2) (hvalid : s.1.Valid) (hcalls : s.1.CallsValid)
    (haddr : php.ChecksAddresses) (hcomparable : Comparable s e) :
    php.Follows (s.1.dispatch ⟨e.now, some e.random, true⟩ (some (.obj e.request.members)))
      ((php.handle e.random (some (.obj e.request.members))).runAlone PhpStatement.exec
        { s.2 with clock := e.now.toNat }) := by
  obtain ⟨hplain, hlimit, hdates, hroom, hkey⟩ := hcomparable
  have hnow : php.Related s.1 { s.2 with clock := e.now.toNat } :=
    ⟨h.configured, h.seats, h.plain, h.publishers, h.pending⟩
  obtain ⟨hopFree, hfields⟩ := Bool.and_eq_true_iff.mp hplain
  have hop := getString_of_nulFree hopFree
  unfold Context.dispatch handle
  dsimp only [Option.bind_some, Json.getObject]
  rw [e.request.uniqueFields, hop]
  cases hvalue : getString e.request.members "op" with
  | none => exact hnow.refuses 400 (by decide +kernel)
  | some op =>
    rw [if_neg (show ¬ (!true) = true by decide)]
    rw [hvalue] at hfields
    have hread : ∀ fields, operationFields op = fields → plainFields fields e.request.members = true := by
      rintro fields rfl
      exact hfields
    unfold Context.handleOp
    dsimp only
    by_cases hchallenge : op = ascii "challenge"
    · rw [if_pos hchallenge, if_pos hchallenge]
      exact challenge_follows hnow (hread _ (by rw [hchallenge]; decide))
    rw [if_neg hchallenge, if_neg hchallenge]
    by_cases hregister : op = ascii "register"
    · rw [if_pos hregister, if_pos hregister]
      exact register_follows hnow hvalid hdates rfl hroom haddr (hread _ (by rw [hregister]; decide))
    rw [if_neg hregister, if_neg hregister]
    by_cases hbeat : op = ascii "heartbeat"
    · rw [if_pos hbeat, if_pos hbeat]
      exact heartbeat_follows hnow hvalid hdates rfl haddr (hread _ (by rw [hbeat]; decide))
    rw [if_neg hbeat, if_neg hbeat]
    by_cases hlookup : op = ascii "lookup"
    · rw [if_pos hlookup, if_pos hlookup]
      exact lookup_follows hnow hvalid hdates rfl hlimit (hread _ (by rw [hlookup]; decide))
    rw [if_neg hlookup, if_neg hlookup]
    by_cases hlist : op = ascii "list"
    · rw [if_pos hlist, if_pos hlist]
      exact list_follows hnow hvalid hdates rfl
    rw [if_neg hlist, if_neg hlist]
    by_cases hderegister : op = ascii "deregister"
    · rw [if_pos hderegister, if_pos hderegister]
      exact deregister_follows hnow hvalid hdates rfl (hread _ (by rw [hderegister]; decide))
    rw [if_neg hderegister, if_neg hderegister]
    by_cases hpunch : op = ascii "punch_req"
    · rw [if_pos hpunch, if_pos hpunch]
      exact punchReq_follows hnow hdates rfl haddr (hread _ (by rw [hpunch]; decide))
        (hkey (by rw [hvalue, hpunch]))
    rw [if_neg hpunch, if_neg hpunch]
    by_cases hpoll : op = ascii "punch_poll"
    · rw [if_pos hpoll, if_pos hpoll]
      exact punchPoll_follows hnow hcalls hdates rfl (hread _ (by rw [hpoll]; decide))
    rw [if_neg hpoll, if_neg hpoll]
    exact hnow.refuses 400 (by decide +kernel)

end PhpIndex

/-! ### Runs -/

namespace Context

/-- No setting of seats is larger than the largest array of records. -/
def SeatsFit (ctx : Context) : Prop := ctx.seatsSet = true → ctx.nPeersCap ≤ sizeMax / peerSize

theorem apply_seats {ctx : Context} (h : ctx.SeatsFit) (setup : Setup) : (setup.apply ctx).SeatsFit := by
  cases setup with
  | seats n =>
    simp only [Setup.apply, setSeats]
    split
    · exact h
    · rename_i hsize
      intro _
      rw [updateNonvipCap_eq]
      exact Nat.le_of_not_lt hsize
  | pow bits =>
    simp only [Setup.apply, setPow]
    split
    · exact h
    · exact h
  | pass text =>
    simp only [Setup.apply, setPass]
    split
    · exact h
    · exact h
  | vip mem text =>
    obtain ⟨hset, hcap, -⟩ : _ ∧ _ ∧ _ := by simpa [limits] using ctx.setVip_limits mem text
    intro h'
    rw [Setup.apply, hset] at h'
    rw [Setup.apply, hcap]
    exact h h'

theorem configured_seats (etimeoutSec : UInt64) (setups : List Setup) :
    (configured etimeoutSec setups).SeatsFit := by
  have hopened : (opened etimeoutSec).SeatsFit := fun h => by cases h
  unfold configured
  generalize opened etimeoutSec = ctx at hopened
  induction setups generalizing ctx with
  | nil => exact hopened
  | cons setup setups ih => exact ih _ (apply_seats hopened setup)

end Context

namespace PhpIndex

/-- What every pair of states of a run satisfies. -/
structure Together (php : PhpIndex) (s : Context × PhpWorld) : Prop where
  related : php.Related s.1 s.2
  valid : s.1.Valid
  calls : s.1.CallsValid

theorem Together.step {php : PhpIndex} (haddr : php.ChecksAddresses) {s : Context × PhpWorld}
    {e : SharedRequest} (h : php.Together s) (hcomparable : Comparable s e) :
    php.Together (php.serveBoth s e).1 ∧ ∀ replies ∈ (php.serveBoth s e).2, replies.1.Agrees replies.2 := by
  have hfollows := handle_follows h.related h.valid h.calls haddr hcomparable
  have hvalid := h.valid.step (.request ⟨e.now, some e.random, true⟩ (some (.obj e.request.members)))
  refine ⟨⟨hfollows.related, hvalid, ?_⟩, ?_⟩
  · rcases Context.dispatch_effect h.valid.unique ⟨e.now, some e.random, true⟩
      (some (.obj e.request.members)) with hsame | ⟨req, _, heffect⟩
    · show (s.1.dispatch _ _).1.CallsValid
      rw [hsame]
      exact h.calls
    · exact h.calls.effect heffect
  · intro replies hreplies
    obtain rfl := List.mem_singleton.mp hreplies
    exact hfollows.agrees

theorem together_configured {php : PhpIndex} {etimeoutSec : UInt64} {setups : List Setup}
    (hconfigured : php.Configured (Context.configured etimeoutSec setups)) (clock : Int) :
    php.Together (Context.configured etimeoutSec setups, .empty clock) := by
  have hready := Context.configured_ready etimeoutSec setups
  refine ⟨⟨hconfigured, Context.configured_seats etimeoutSec setups, ?_, ?_, ?_⟩, hready.valid, ?_⟩
  · simp [hready.peers]
  · simp [PhpWorld.empty, hready.peers]
  · simp [PhpWorld.empty, hready.calls]
  · constructor <;> simp [hready.calls]

/-- The index in PHP follows the index in C. In every run in which both serve the same requests, from empty
stores and under the same configuration, on which they can be compared, both give the same status and the
same reply to every request, and their stores stay related. -/
theorem php_follows (php : PhpIndex) (etimeoutSec : UInt64) (setups : List Setup) (clock : Int)
    (hconfigured : php.Configured (Context.configured etimeoutSec setups)) (haddr : php.ChecksAddresses)
    (requests : List SharedRequest)
    (hcomparable : Transition.Along php.serveBoth Comparable
      (Context.configured etimeoutSec setups, .empty clock) requests) :
    let after := Transition.run php.serveBoth (Context.configured etimeoutSec setups, .empty clock) requests
    php.Related after.1.1 after.1.2 ∧ ∀ replies ∈ after.2, replies.1.Agrees replies.2 := by
  have hstart := together_configured hconfigured clock
  have hstep : ∀ s e, php.Together s → Comparable s e → php.Together (php.serveBoth s e).1 ∧
      ∀ replies ∈ (php.serveBoth s e).2, replies.1.Agrees replies.2 :=
    fun s e h hok => h.step haddr hok
  have hend := Transition.run_along php.Together (fun s e h hok => (hstep s e h hok).1) hstart hcomparable
  exact ⟨hend.related, Transition.outputs_along hstep hstart hcomparable⟩

/-- An index without a password, reservations, seats and proof of work. -/
def plainIndex : PhpIndex where
  pass := []
  vips := []
  seats := none
  pow := 0
  ttl := 120
  filterVar := fun addr => (inetPton4 addr).isSome || (inetPton6 addr).isSome

theorem plainIndex_configured : plainIndex.Configured (Context.configured 120 []) := ⟨rfl, rfl, rfl, rfl, rfl⟩

/-- A list, under a name that is followed by a NUL. -/
def sampleNul : DecodedRequest where
  members := [(ascii "op", .str (ascii "list" ++ [0]))]
  distinct := by decide
  names := by decide +kernel

def sampleCall : DecodedRequest where
  members := [(ascii "op", .str (ascii "punch_req")), (ascii "self_id", .str (ascii "con")),
    (ascii "target_id", .str (ascii "pub")), (ascii "session", .str (ascii "s1")),
    (ascii "candidates", .arr [.obj [(ascii "type", .str (ascii "host")),
      (ascii "addr", .str (ascii "10.0.0.1")), (ascii "port", .num 9000)]])]
  distinct := by decide
  names := by decide +kernel

def sampleTake : DecodedRequest where
  members := [(ascii "op", .str (ascii "punch_poll")), (ascii "id", .str (ascii "pub"))]
  distinct := by decide
  names := by decide +kernel

def sampleBytes : Vector UInt8 8 := .replicate 8 0

/-- The status and the length of the text of every reply of both indexes. -/
def sampleReplies (requests : List SharedRequest) : List ((Nat × Nat) × (Nat × Nat)) :=
  (Transition.run plainIndex.serveBoth (Context.configured 120 [], .empty 0) requests).2.map fun replies =>
    ((replies.1.status, (serialize replies.1.value).length),
      (replies.2.status, (serialize replies.2.value).length))

/-- An operation with a NUL is served by one index and refused by the other. The same random bytes for two
calls make one of them fail, and a clock that goes back loses a call of the other. -/
theorem php_diverges :
    plainIndex.Configured (Context.configured 120 []) ∧ plainIndex.ChecksAddresses ∧
    (¬ ∀ replies ∈ (Transition.run plainIndex.serveBoth (Context.configured 120 [], .empty 0)
      [⟨100, sampleBytes, sampleNul⟩]).2, replies.1.Agrees replies.2) ∧
    sampleReplies [⟨100, sampleBytes, sampleCall⟩, ⟨100, sampleBytes, sampleCall⟩] =
      [((200, 11), (200, 11)), ((200, 11), (500, 31))] ∧
    sampleReplies [⟨100, sampleBytes, sampleCall⟩, ⟨99, sampleBytes, sampleTake⟩] =
      [((200, 11), (200, 11)), ((200, 22), (200, 115))] := by
  refine ⟨plainIndex_configured, fun _ => rfl, ?_, by decide +kernel, by decide +kernel⟩
  intro hagree
  have hstatus : (plainIndex.serveBoth (Context.configured 120 [], .empty 0)
      ⟨100, sampleBytes, sampleNul⟩).2.map (fun replies => (replies.1.status, replies.2.status)) =
      [(200, 400)] := by decide +kernel
  have hsame := (hagree _ (List.mem_singleton_self _)).status
  simp only [serveBoth, List.map_cons, List.map_nil, List.cons.injEq, Prod.mk.injEq] at hstatus
  rw [hstatus.1.1, hstatus.1.2] at hsame
  cases hsame

theorem php_follows_callThenTake :
    let requests : List SharedRequest := [⟨100, sampleBytes, sampleCall⟩, ⟨101, sampleBytes, sampleTake⟩]
    let after := Transition.run plainIndex.serveBoth (Context.configured 120 [], .empty 0) requests
    Transition.Along plainIndex.serveBoth Comparable (Context.configured 120 [], .empty 0) requests ∧
      plainIndex.Related after.1.1 after.1.2 ∧ ∀ replies ∈ after.2, replies.1.Agrees replies.2 := by
  intro requests after
  have hcomparable : Transition.Along plainIndex.serveBoth Comparable
      (Context.configured 120 [], .empty 0) requests := by
    refine ⟨⟨by decide, by decide, ⟨by decide +kernel, by decide +kernel⟩, by decide +kernel, ?_⟩,
      ⟨by decide, by decide, ⟨by decide +kernel, by decide +kernel⟩, by decide +kernel, ?_⟩, trivial⟩
    · intro _ _ _ _ stored hstored
      cases hstored
    · intro hop
      exact absurd hop (by decide)
  exact ⟨hcomparable,
    php_follows plainIndex 120 [] 0 plainIndex_configured (fun _ => rfl) requests hcomparable⟩

end PhpIndex

end Redp2p
