import Redp2p.Candidate

/-! Hole punching: the control datagrams between peers, the texts of punch packets, and the loops that
send them to candidate endpoints and wait for a valid one. -/

namespace Redp2p

open ByteString

/-! ### Control datagrams -/

def ctrtokPunch : Bytes := ascii "REDP2P_CTRTOK_PUNCH:"
def ctrtokPunchServer : Bytes := ascii "REDP2P_CTRTOK_PUNCH:server"
def ctrtokPunchPing : Bytes := ascii "REDP2P_CTRTOK_PUNCH_PING:"
def ctrtokPunchPong : Bytes := ascii "REDP2P_CTRTOK_PUNCH_PONG:"
def ctrtokKa : Bytes := ascii "REDP2P_CTRTOK_KA:"

/-- `strncmp(buf, token, strlen(token)) == 0`, for a token without NUL. -/
def startsWith (token buf : Bytes) : Bool := token.isPrefixOf buf

/-- The session, source and destination of a punch packet. -/
structure PunchPacket where
  session : Bytes
  fromId : Bytes
  toId : Bytes
  deriving DecidableEq

/-- `redp2p_parse_field`: the text before a delimiter, or all of it, with the text behind. -/
def parseField (cursor : Bytes) (cap : Nat) (delim : Option UInt8) : Option (Bytes × Bytes) :=
  match delim with
  | none => if cursor.length = 0 ∨ cursor.length ≥ cap then none else some (cursor, [])
  | some delim =>
    let field := cursor.takeWhile (· != delim)
    if !cursor.contains delim ∨ field.length = 0 ∨ field.length ≥ cap then none
    else some (field, cursor.drop (field.length + 1))

def isLineEnd (b : UInt8) : Bool := b == 0x0a || b == 0x0d

/-- A text without the line ends behind it. -/
def stripLineEnds (text : Bytes) : Bytes := (text.reverse.dropWhile isLineEnd).reverse

def parsePunchPacket (text token : Bytes) : Option PunchPacket := do
  guard (startsWith token text)
  let (session, cursor) ← parseField (text.drop token.length) (ctrlSessionMax + 1) (some 0x3a)
  let (fromId, cursor) ← parseField cursor (idMax + 1) (some 0x3a)
  let (toId, _) ← parseField cursor (idMax + 1) none
  let toId := stripLineEnds toId
  guard (isSessionToken session && isPunchId fromId && isPunchId toId)
  return { session, fromId, toId }

/-- The text that `snprintf` leaves in a buffer of 256 bytes. -/
def punchText (token session fromId toId ending : Bytes) : Bytes :=
  boundedCopy 256 (token ++ session ++ ascii ":" ++ fromId ++ ascii ":" ++ toId ++ ending)

def punchPing (session fromId toId : Bytes) : Bytes :=
  punchText ctrtokPunchPing session fromId toId (ascii "\n")

/-! ### Waiting for a response -/

inductive SockAddr where
  | inet (address : Bytes) (port : UInt16)
  | inet6 (address : Bytes) (port : UInt16)
  deriving DecidableEq

/-- A datagram that arrives, with its source. -/
structure Arrival where
  source : SockAddr
  data : Bytes

inductive PunchVerdict where
  | ignored | malformed | mismatched
  | accepted (pong : Option Bytes)
  deriving DecidableEq

/-- What `redp2p_punch_wait_response` makes of one datagram, of which it reads at most 1023 bytes. -/
def punchCheck (session fromId toId data : Bytes) : PunchVerdict :=
  let received := data.take 1023
  let text := cstr received
  if received.length = 0 then .ignored
  else
    match parsePunchPacket text ctrtokPunchPong with
    | some rx =>
      if rx.fromId = fromId ∧ rx.toId = toId ∧ rx.session = session then .accepted none
      else .mismatched
    | none =>
      match parsePunchPacket text ctrtokPunchPing with
      | some rx =>
        if rx.fromId = toId ∧ rx.toId = fromId ∧ rx.session = session then
          .accepted (some (punchText ctrtokPunchPong session toId fromId (ascii "\n")))
        else .mismatched
      | none => .malformed

/-- A punch in progress: what its packets say, the endpoints of the rounds to come, and how many of the
datagrams that arrived were malformed or of another session or peer. -/
structure Punching where
  session : Bytes
  fromId : Bytes
  toId : Bytes
  rounds : List (List SockAddr)
  malformed : Nat
  mismatched : Nat

namespace Punching

/-- One turn of the loop of `redp2p_punch_wait_response`: the address that it selects, if any, and the
datagrams that it sends. -/
def hear (punching : Punching) (arrival : Arrival) :
    Punching × Option SockAddr × List (SockAddr × Bytes) :=
  match punchCheck punching.session punching.fromId punching.toId arrival.data with
  | .ignored => (punching, none, [])
  | .malformed => ({ punching with malformed := punching.malformed + 1 }, none, [])
  | .mismatched => ({ punching with mismatched := punching.mismatched + 1 }, none, [])
  | .accepted pong => (punching, some arrival.source, pong.toList.map fun text => (arrival.source, text))

/-- `redp2p_punch_wait_response` over the datagrams that arrive before its deadline. -/
def waitResponse (punching : Punching) :
    List Arrival → Punching × Option SockAddr × List (SockAddr × Bytes)
  | [] => (punching, none, [])
  | arrival :: rest =>
    match punching.hear arrival with
    | (punching, none, _) => punching.waitResponse rest
    | (punching, some selected, sent) => (punching, some selected, sent)

end Punching

/-! ### Selecting a peer -/

def candidateSockaddr (candidate : Candidate) : Option SockAddr :=
  if candidate.port = 0 then none
  else
    match inetPton4 candidate.addr with
    | some address => some (.inet address candidate.port)
    | none => (inetPton6 candidate.addr).map fun address => .inet6 address candidate.port

def punchDirectRounds : Nat := 3

/-- The endpoints that a sweep tries for a candidate: its own, and for an IPv4 candidate that was seen
from outside the one at an offset of its port. -/
def sweepTargets (offset : Int) (candidate : Candidate) : List SockAddr :=
  match candidateSockaddr candidate with
  | none => []
  | some (.inet address port) =>
    let testPort := (port.toNat : Int) + offset
    if (candidate.type = .candSrflx ∨ candidate.type = .candPublic) ∧ 0 < testPort ∧ testPort ≤ 65535 then
      [.inet address port, .inet address (UInt16.ofNat testPort.toNat)]
    else [.inet address port]
  | some target => [target]

/-- The endpoints of each round of `redp2p_punch_select`: some rounds over the direct candidates, and
then a sweep over the offsets of growing size. -/
def punchTargets (sweepLimit : Nat) (candidates : List Candidate) : List (List SockAddr) :=
  let direct := candidates.filter (·.priority < 300)
  (if direct = [] then [] else List.replicate punchDirectRounds (direct.filterMap candidateSockaddr)) ++
    ((List.range sweepLimit).flatMap fun sweep => [-((sweep : Int) + 1), (sweep : Int) + 1]).map
      fun offset => candidates.flatMap (sweepTargets offset)

namespace Punching

def start (sweepLimit : Nat) (session fromId toId : Bytes) (candidates : List Candidate) :
    Option Punching :=
  if candidates = [] then none
  else some ⟨session, fromId, toId, punchTargets sweepLimit candidates, 0, 0⟩

/-- The packets of the next round, before it waits. No round is left when the list is empty. -/
def round (punching : Punching) : Punching × List (SockAddr × Bytes) :=
  match punching.rounds with
  | [] => (punching, [])
  | targets :: rounds =>
    ({ punching with rounds }, targets.map fun target =>
      (target, punchPing punching.session punching.fromId punching.toId))

end Punching

/-! ### Reading punch packets back -/

theorem isAlnum_ne {b : UInt8} (h : isAlnum b = true) : b ≠ 0 ∧ b ≠ 0x3a ∧ isLineEnd b = false := by
  simp only [isAlnum, inRange, Bool.or_eq_true, Bool.and_eq_true, decide_eq_true_eq, Char.toNat,
    Char.reduceVal, UInt32.reduceToNat] at h
  refine ⟨?_, ?_, ?_⟩
  · rintro rfl
    exact absurd h (by decide)
  · rintro rfl
    exact absurd h (by decide)
  · rw [isLineEnd, Bool.or_eq_false_iff, beq_eq_false_iff_ne, beq_eq_false_iff_ne]
    constructor
    · rintro rfl
      exact absurd h (by decide)
    · rintro rfl
      exact absurd h (by decide)

theorem parseField_delim {field : Bytes} {cap : Nat} {delim : UInt8}
    (hfield : ∀ b ∈ field, b ≠ delim) (hne : field ≠ []) (hcap : field.length < cap) (rest : Bytes) :
    parseField (field ++ delim :: rest) cap (some delim) = some (field, rest) := by
  have htake : (field ++ delim :: rest).takeWhile (· != delim) = field := by
    rw [List.takeWhile_append_of_pos fun b hb => by simpa using hfield b hb]
    simp
  unfold parseField
  simp only [htake]
  rw [if_neg (by simp [hne, hcap])]
  simp

theorem stripLineEnds_append {id ending : Bytes} (hid : ∀ b ∈ id, isLineEnd b = false)
    (hending : ∀ b ∈ ending, isLineEnd b = true) : stripLineEnds (id ++ ending) = id := by
  have hdrop : (ending.reverse ++ id.reverse).dropWhile isLineEnd = id.reverse := by
    rw [List.dropWhile_append_of_pos fun b hb => hending b (List.mem_reverse.mp hb)]
    cases hrev : id.reverse with
    | nil => rfl
    | cons b rest =>
      have hb : isLineEnd b = false := hid b (List.mem_reverse.mp (by simp [hrev]))
      rw [List.dropWhile_cons_of_neg (by simp [hb])]
  rw [stripLineEnds, List.reverse_append, hdrop, List.reverse_reverse]

/-- A punch packet between valid identifiers is read back, when its last field fits. -/
theorem parsePunchPacket_text {token session a b ending : Bytes}
    (hsession : isSessionToken session = true) (ha : isValidId a = true) (hb : isValidId b = true)
    (hending : ∀ c ∈ ending, isLineEnd c = true) :
    parsePunchPacket (token ++ session ++ ascii ":" ++ a ++ ascii ":" ++ b ++ ending) token =
      if b.length + ending.length ≤ idMax then some ⟨session, a, b⟩ else none := by
  obtain ⟨hsne, hslen, hsall⟩ := isSessionToken_iff.mp hsession
  obtain ⟨hane, halen, haall⟩ := isValidId_iff.mp ha
  obtain ⟨hbne, hblen, hball⟩ := isValidId_iff.mp hb
  have hcolon : ascii ":" = [0x3a] := by decide
  have htext : token ++ session ++ ascii ":" ++ a ++ ascii ":" ++ b ++ ending =
      token ++ (session ++ 0x3a :: (a ++ 0x3a :: (b ++ ending))) := by
    simp [hcolon]
  have hstart : startsWith token (token ++ (session ++ 0x3a :: (a ++ 0x3a :: (b ++ ending)))) = true := by
    simp [startsWith]
  have hsfield : parseField _ (ctrlSessionMax + 1) _ = _ := parseField_delim
    (fun c hc => (isAlnum_ne (hsall c hc)).2.1) hsne (Nat.lt_succ_of_le hslen)
    (a ++ 0x3a :: (b ++ ending))
  have hafield : parseField _ (idMax + 1) _ = _ := parseField_delim
    (fun c hc => (isAlnum_ne (haall c hc)).2.1) hane (Nat.lt_succ_of_le halen) (b ++ ending)
  have hstrip := stripLineEnds_append (fun c hc => (isAlnum_ne (hball c hc)).2.2) hending
  have hbpos : 0 < b.length := List.length_pos_iff.mpr hbne
  have htokens : (isSessionToken session && isPunchId a && isPunchId b) = true := by
    rw [hsession, isPunchId_of_isValidId ha, isPunchId_of_isValidId hb]
    rfl
  rw [htext]
  unfold parsePunchPacket
  simp only [hstart, guard_true, List.drop_left, hsfield, hafield, Option.bind_eq_bind,
    Option.pure_def, Option.bind_some]
  by_cases hfits : b.length + ending.length ≤ idMax
  · have hlast : parseField (b ++ ending) (idMax + 1) none = some (b ++ ending, []) := by
      rw [parseField, if_neg (by rw [List.length_append]; omega)]
    simp only [hlast, Option.bind_some, hstrip, htokens, guard_true, Option.pure_def, if_pos hfits]
  · have hlast : parseField (b ++ ending) (idMax + 1) none = none := by
      rw [parseField, if_pos (by rw [List.length_append]; omega)]
    simp only [hlast, Option.bind_none, if_neg hfits]

/-- A text that does not start with the token is no such packet. -/
theorem parsePunchPacket_other {token text : Bytes} (h : startsWith token text = false) :
    parsePunchPacket text token = none := by
  simp [parsePunchPacket, h, guard]

theorem ping_not_pong (rest : Bytes) : startsWith ctrtokPunchPong (ctrtokPunchPing ++ rest) = false := rfl

theorem pong_not_ping (rest : Bytes) : startsWith ctrtokPunchPing (ctrtokPunchPong ++ rest) = false := rfl

/-- The tokens of punch packets. -/
def IsPunchToken (token : Bytes) : Prop := token = ctrtokPunchPing ∨ token = ctrtokPunchPong

section Packets

variable {token session a b ending : Bytes} (htoken : IsPunchToken token)
  (hsession : isSessionToken session = true) (ha : isValidId a = true) (hb : isValidId b = true)
  (hending : ending = [] ∨ ending = ascii "\n")

include htoken hsession ha hb hending

theorem packet_length :
    (token ++ session ++ ascii ":" ++ a ++ ascii ":" ++ b ++ ending).length < 256 := by
  have htokens : token.length = 25 := by rcases htoken with rfl | rfl <;> rfl
  have hs := (isSessionToken_iff.mp hsession).2.1
  have ha' := (isValidId_iff.mp ha).2.1
  have hb' := (isValidId_iff.mp hb).2.1
  have hcolon : (ascii ":").length = 1 := rfl
  have hend : ending.length ≤ 1 := by rcases hending with rfl | rfl <;> decide
  simp only [List.length_append, htokens, hcolon]
  omega

theorem packet_bytes :
    ∀ c ∈ token ++ session ++ ascii ":" ++ a ++ ascii ":" ++ b ++ ending, c ≠ 0 := by
  have htokens : ∀ c ∈ token, c ≠ 0 := by rcases htoken with rfl | rfl <;> decide +kernel
  have hend : ∀ c ∈ ending, c ≠ 0 := by rcases hending with rfl | rfl <;> decide +kernel
  have hcolon : ∀ c ∈ ascii ":", c ≠ 0 := by decide +kernel
  intro c hc
  simp only [List.mem_append] at hc
  rcases hc with (((((hc | hc) | hc) | hc) | hc) | hc) | hc
  · exact htokens c hc
  · exact (isAlnum_ne ((isSessionToken_iff.mp hsession).2.2 c hc)).1
  · exact hcolon c hc
  · exact (isAlnum_ne ((isValidId_iff.mp ha).2.2 c hc)).1
  · exact hcolon c hc
  · exact (isAlnum_ne ((isValidId_iff.mp hb).2.2 c hc)).1
  · exact hend c hc

/-- A packet fits the buffer it is written to, and the buffer it is read from. -/
theorem punchText_eq :
    punchText token session a b ending =
      token ++ session ++ ascii ":" ++ a ++ ascii ":" ++ b ++ ending :=
  boundedCopy_eq_self (packet_length htoken hsession ha hb hending)

theorem punchText_received :
    cstr ((punchText token session a b ending).take 1023) = punchText token session a b ending := by
  have hlength := packet_length htoken hsession ha hb hending
  rw [punchText_eq htoken hsession ha hb hending, List.take_of_length_le (by omega)]
  exact cstr_eq_self (packet_bytes htoken hsession ha hb hending)

theorem parsePunchPacket_punchText :
    parsePunchPacket (punchText token session a b ending) token =
      if b.length + ending.length ≤ idMax then some ⟨session, a, b⟩ else none := by
  rw [punchText_eq htoken hsession ha hb hending]
  refine parsePunchPacket_text hsession ha hb ?_
  rcases hending with rfl | rfl <;> decide +kernel

end Packets

section Checks

variable {session fromId toId session' a b ending : Bytes} (hsession : isSessionToken session' = true)
  (ha : isValidId a = true) (hb : isValidId b = true) (hending : ending = [] ∨ ending = ascii "\n")

include hsession ha hb hending

/-- A pong between valid identifiers, at one who waits for a response. -/
theorem punchCheck_pong :
    punchCheck session fromId toId (punchText ctrtokPunchPong session' a b ending) =
      if b.length + ending.length ≤ idMax then
        if a = fromId ∧ b = toId ∧ session' = session then .accepted none else .mismatched
      else .malformed := by
  have htoken : IsPunchToken ctrtokPunchPong := Or.inr rfl
  have hparse := parsePunchPacket_punchText htoken hsession ha hb hending
  have hreceived := punchText_received htoken hsession ha hb hending
  have htext := punchText_eq htoken hsession ha hb hending
  have hother : startsWith ctrtokPunchPing (punchText ctrtokPunchPong session' a b ending) = false := by
    rw [htext]
    simp only [List.append_assoc]
    exact pong_not_ping _
  have hne : ¬ ((punchText ctrtokPunchPong session' a b ending).take 1023).length = 0 := by
    intro hnil
    rw [List.length_eq_zero_iff.mp hnil] at hreceived
    rw [← hreceived] at hother
    rw [← hreceived] at htext
    exact absurd (congrArg List.length htext) (by simp [cstr, ctrtokPunchPong, ascii])
  unfold punchCheck
  simp only [hreceived]
  rw [if_neg hne, hparse]
  by_cases hfits : b.length + ending.length ≤ idMax
  · simp only [if_pos hfits]
  · simp only [if_neg hfits, parsePunchPacket_other hother]

/-- A ping between valid identifiers, at one who waits for a response. -/
theorem punchCheck_ping :
    punchCheck session fromId toId (punchText ctrtokPunchPing session' a b ending) =
      if b.length + ending.length ≤ idMax then
        if a = toId ∧ b = fromId ∧ session' = session then
          .accepted (some (punchText ctrtokPunchPong session toId fromId (ascii "\n")))
        else .mismatched
      else .malformed := by
  have htoken : IsPunchToken ctrtokPunchPing := Or.inl rfl
  have hparse := parsePunchPacket_punchText htoken hsession ha hb hending
  have hreceived := punchText_received htoken hsession ha hb hending
  have htext := punchText_eq htoken hsession ha hb hending
  have hother : startsWith ctrtokPunchPong (punchText ctrtokPunchPing session' a b ending) = false := by
    rw [htext]
    simp only [List.append_assoc]
    exact ping_not_pong _
  have hne : ¬ ((punchText ctrtokPunchPing session' a b ending).take 1023).length = 0 := by
    intro hnil
    rw [List.length_eq_zero_iff.mp hnil] at hreceived
    rw [← hreceived] at htext
    exact absurd (congrArg List.length htext) (by simp [cstr, ctrtokPunchPing, ascii])
  unfold punchCheck
  simp only [hreceived]
  rw [if_neg hne, parsePunchPacket_other hother, hparse]
  by_cases hfits : b.length + ending.length ≤ idMax
  · simp only [if_pos hfits]
  · simp only [if_neg hfits]

end Checks

end Redp2p
