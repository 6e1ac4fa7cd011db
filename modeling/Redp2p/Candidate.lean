import Redp2p.Json

/-! Candidate endpoints of a peer: the address texts that `inet_pton` accepts, the candidate types
and priorities, and the candidate arrays of requests and replies. -/

namespace Redp2p

open ByteString

/-! ### Address texts -/

def parseDecimal (text : Bytes) : Nat := text.foldl (fun n b => n * 10 + (b.toNat - 0x30)) 0

def hexValue (b : UInt8) : Nat :=
  if isDigit b then b.toNat - 0x30
  else if inRange 'a' 'f' b then b.toNat - 0x57
  else b.toNat - 0x37

theorem hexValue_hexDigit {n : Nat} (h : n < 16) : hexValue (hexDigit n) = n := by
  interval_cases n <;> decide

def parseHex (text : Bytes) : Nat := text.foldl (fun n b => n * 16 + hexValue b) 0

/-- One part of a dotted address: a decimal number up to 255 without leading zeros. -/
def parseOctet (text : Bytes) : Option UInt8 :=
  if !text.isEmpty && text.length ≤ 3 && text.all isDigit &&
      (text.length == 1 || text.head? != some 0x30) && parseDecimal text ≤ 255
  then some (UInt8.ofNat (parseDecimal text)) else none

def parseOctets : List Bytes → Option Bytes
  | [] => some []
  | part :: rest =>
    match parseOctet part, parseOctets rest with
    | some octet, some octets => some (octet :: octets)
    | _, _ => none

/-- `inet_pton(AF_INET, ..)`: the four bytes of a dotted address. -/
def inetPton4 (text : Bytes) : Option Bytes :=
  match parseOctets (text.splitOn 0x2e) with
  | some octets => if octets.length = 4 then some octets else none
  | none => none

/-- One group of an IPv6 address: up to four hexadecimal digits. -/
def parseGroup (text : Bytes) : Option Bytes :=
  if !text.isEmpty && text.length ≤ 4 && text.all isHexDigit
  then some [UInt8.ofNat (parseHex text / 256), UInt8.ofNat (parseHex text % 256)] else none

/-- The bytes of groups between colons. The last one may be a dotted address where `dotted`
allows it. -/
def parseGroups (dotted : Bool) : List Bytes → Option Bytes
  | [] => some []
  | [last] => (parseGroup last).or (if dotted then inetPton4 last else none)
  | group :: rest =>
    match parseGroup group, parseGroups dotted rest with
    | some front, some back => some (front ++ back)
    | _, _ => none

def parseGroupText (dotted : Bool) (text : Bytes) : Option Bytes :=
  if text = [] then some [] else parseGroups dotted (text.splitOn 0x3a)

/-- The text before and after the first double colon. -/
def splitDoubleColon : Bytes → Option (Bytes × Bytes)
  | [] => none
  | b :: rest =>
    if b = 0x3a ∧ rest.head? = some 0x3a then some ([], rest.tail)
    else (splitDoubleColon rest).map fun sides => (b :: sides.1, sides.2)

/-- `inet_pton(AF_INET6, ..)`: the sixteen bytes of an IPv6 address. A double colon stands for at
least one group of zeros. -/
def inetPton6 (text : Bytes) : Option Bytes :=
  match splitDoubleColon text with
  | some (front, back) =>
    match parseGroupText false front, parseGroupText true back with
    | some front, some back =>
      if front.length + back.length ≤ 14 then
        some (front ++ List.replicate (16 - front.length - back.length) 0 ++ back)
      else none
    | _, _ => none
  | none =>
    match parseGroups true (text.splitOn 0x3a) with
    | some groups => if groups.length = 16 then some groups else none
    | none => none

example : inetPton6 (ascii "2001:db8::10.0.0.1") =
    some [0x20, 0x01, 0x0d, 0xb8, 0, 0, 0, 0, 0, 0, 0, 0, 10, 0, 0, 1] := by decide +kernel

/-- A character of an address text. -/
def isAddrChar (b : UInt8) : Bool := isHexDigit b || b == 0x2e || b == 0x3a

theorem isPlain_of_isAddrChar {b : UInt8} (h : isAddrChar b = true) : isPlain b = true := by
  simp only [isAddrChar, Bool.or_eq_true, beq_iff_eq] at h
  rcases h with (h | rfl) | rfl
  · exact isPlain_of_isAlnum (isAlnum_of_isHexDigit h)
  · decide
  · decide

theorem mem_intercalate {sep b : UInt8} {fields : List Bytes}
    (h : b ∈ [sep].intercalate fields) : b = sep ∨ ∃ field ∈ fields, b ∈ field := by
  induction fields with
  | nil => simp at h
  | cons field rest ih =>
    cases rest with
    | nil => exact Or.inr ⟨field, by simp, by simpa using h⟩
    | cons next rest =>
      rw [List.intercalate_cons_cons, List.mem_append, List.mem_append,
        List.mem_singleton] at h
      rcases h with (h | h) | h
      · exact Or.inr ⟨field, by simp, h⟩
      · exact Or.inl h
      · rcases ih h with h | ⟨other, hother, hb⟩
        · exact Or.inl h
        · exact Or.inr ⟨other, by simp [hother], hb⟩

/-- Every byte of a text is a separator or in one of the parts between separators. -/
theorem mem_splitOn (sep : UInt8) {b : UInt8} {text : Bytes} (h : b ∈ text) :
    b = sep ∨ ∃ field ∈ text.splitOn sep, b ∈ field := by
  refine mem_intercalate ?_
  rwa [List.intercalate_splitOn sep]

theorem parseOctet_chars {text : Bytes} {octet : UInt8} (h : parseOctet text = some octet) :
    ∀ b ∈ text, isAddrChar b = true := by
  unfold parseOctet at h
  split at h
  · rename_i hall
    simp only [Bool.and_eq_true, List.all_eq_true] at hall
    intro b hb
    have hdigit := hall.1.1.2 b hb
    simp only [isDigit] at hdigit
    simp [isAddrChar, isHexDigit, hdigit]
  · simp at h

theorem parseOctets_chars {fields : List Bytes} {octets : Bytes}
    (h : parseOctets fields = some octets) : ∀ field ∈ fields, ∀ b ∈ field, isAddrChar b = true := by
  induction fields generalizing octets with
  | nil => simp
  | cons part rest ih =>
    unfold parseOctets at h
    split at h
    · rename_i octet octets hpart hrest
      intro field hfield
      rcases List.mem_cons.mp hfield with rfl | hfield
      · exact parseOctet_chars hpart
      · exact ih hrest field hfield
    · simp at h

theorem inetPton4_chars {text address : Bytes} (h : inetPton4 text = some address) :
    ∀ b ∈ text, isAddrChar b = true := by
  unfold inetPton4 at h
  split at h
  · rename_i octets hoctets
    intro b hb
    rcases mem_splitOn 0x2e hb with rfl | ⟨field, hfield, hb⟩
    · decide
    · exact parseOctets_chars hoctets field hfield b hb
  · simp at h

theorem parseGroup_chars {text group : Bytes} (h : parseGroup text = some group) :
    ∀ b ∈ text, isAddrChar b = true := by
  unfold parseGroup at h
  split at h
  · rename_i hall
    simp only [Bool.and_eq_true, List.all_eq_true] at hall
    intro b hb
    simp [isAddrChar, hall.2 b hb]
  · simp at h

theorem parseGroups_chars {dotted : Bool} {fields : List Bytes} {groups : Bytes}
    (h : parseGroups dotted fields = some groups) :
    ∀ field ∈ fields, ∀ b ∈ field, isAddrChar b = true := by
  induction fields generalizing groups with
  | nil => simp
  | cons first rest ih =>
    cases rest with
    | nil =>
      simp only [parseGroups, Option.or_eq_some_iff] at h
      intro field hfield
      obtain rfl := List.mem_singleton.mp hfield
      rcases h with h | ⟨_, h⟩
      · exact parseGroup_chars h
      · split at h
        · exact inetPton4_chars h
        · simp at h
    | cons next rest =>
      unfold parseGroups at h
      split at h
      · rename_i front back hfront hback
        intro field hfield
        rcases List.mem_cons.mp hfield with rfl | hfield
        · exact parseGroup_chars hfront
        · exact ih hback field hfield
      · simp at h

theorem parseGroupText_chars {dotted : Bool} {text groups : Bytes}
    (h : parseGroupText dotted text = some groups) : ∀ b ∈ text, isAddrChar b = true := by
  unfold parseGroupText at h
  split at h
  · rename_i hnil
    simp [hnil]
  · intro b hb
    rcases mem_splitOn 0x3a hb with rfl | ⟨field, hfield, hb⟩
    · decide
    · exact parseGroups_chars h field hfield b hb

theorem splitDoubleColon_eq {text front back : Bytes}
    (h : splitDoubleColon text = some (front, back)) : text = front ++ [0x3a, 0x3a] ++ back := by
  induction text generalizing front with
  | nil => simp [splitDoubleColon] at h
  | cons b rest ih =>
    unfold splitDoubleColon at h
    split at h
    · rename_i hcolon
      obtain ⟨rfl, hhead⟩ := hcolon
      cases rest with
      | nil => simp at hhead
      | cons c rest =>
        simp only [List.head?_cons, Option.some.injEq] at hhead
        simp only [Option.some.injEq, Prod.mk.injEq, List.tail_cons] at h
        obtain ⟨rfl, rfl⟩ := h
        simp [hhead]
    · simp only [Option.map_eq_some_iff, Prod.mk.injEq, Prod.exists] at h
      obtain ⟨front', back', hrest, rfl, rfl⟩ := h
      simp [ih hrest]

theorem inetPton6_chars {text address : Bytes} (h : inetPton6 text = some address) :
    ∀ b ∈ text, isAddrChar b = true := by
  unfold inetPton6 at h
  split at h
  · rename_i front back hsplit
    rw [splitDoubleColon_eq hsplit]
    split at h
    · rename_i hfront hback
      intro b hb
      simp only [List.mem_append, List.mem_cons, List.not_mem_nil, or_false, or_self] at hb
      rcases hb with (hb | rfl) | hb
      · exact parseGroupText_chars hfront b hb
      · decide
      · exact parseGroupText_chars hback b hb
    · simp at h
  · split at h
    · rename_i groups hgroups
      intro b hb
      rcases mem_splitOn 0x3a hb with rfl | ⟨field, hfield, hb⟩
      · decide
      · exact parseGroups_chars hgroups field hfield b hb
    · simp at h

/-! ### Candidates -/

inductive CandidateType where
  | candHost | candLan | candPublic | candSrflx | candPrflx | candPredicted
  deriving DecidableEq, Repr

structure Candidate where
  type : CandidateType
  addr : Bytes
  port : UInt16
  priority : Nat
  deriving DecidableEq

def parseCandidateType (text : Bytes) : Option CandidateType :=
  if text = ascii "host" then some .candHost
  else if text = ascii "lan" then some .candLan
  else if text = ascii "public" then some .candPublic
  else if text = ascii "srflx" then some .candSrflx
  else none

def candidateTypeName : CandidateType → Bytes
  | .candLan => ascii "lan"
  | .candPublic => ascii "public"
  | .candSrflx => ascii "srflx"
  | _ => ascii "host"

/-- Lower values are attempted first. -/
def candidatePriority (type : CandidateType) (addr : Bytes) : Nat :=
  let rank (base : Nat) : Nat :=
    match type with
    | .candHost => base
    | .candLan => base + 10
    | .candPublic => base + 20
    | .candSrflx => base + 30
    | .candPrflx => base + 40
    | .candPredicted => base + 50
  if (inetPton4 addr).isSome then rank 200
  else if (inetPton6 addr).isSome then rank 100
  else 900

/-- A number that a port or a mode is read from, truncated to `unsigned short`. -/
def parsePort (number : Rat) : Option UInt16 :=
  if number < 1 || number > 65535 then none else some (UInt16.ofNat number.floor.toNat)

/-- One item of a candidate array. -/
def parseCandidate (item : Json Rat) : Option Candidate := do
  let obj ← item.getObject
  let typeText ← obj.getString (ascii "type")
  let addr ← obj.getString (ascii "addr")
  guard (addr.length ≤ addrMax)
  let type ← parseCandidateType typeText
  guard ((inetPton4 addr).isSome || (inetPton6 addr).isSome)
  let number ← obj.getNumber (ascii "port")
  let port ← parsePort number
  return { type, addr, port, priority := candidatePriority type addr }

def parseCandidateItems : List (Json Rat) → Option (List Candidate)
  | [] => some []
  | item :: rest =>
    match parseCandidate item, parseCandidateItems rest with
    | some candidate, some candidates => some (candidate :: candidates)
    | _, _ => none

/-- `redp2p_index_parse_candidates`: a missing array, or a field that is no array, is empty. -/
def indexParseCandidates (obj : JsonObject Rat) (field : Bytes) : Option (List Candidate) :=
  match obj.getArray field with
  | none => some []
  | some items => if items.length > peerCandidatesMax then none else parseCandidateItems items

def candidateValue (candidate : Candidate) : Json Int :=
  .obj (((JsonObject.setString ([] : JsonObject Int) (ascii "type")
    (candidateTypeName candidate.type)).setString (ascii "addr") candidate.addr).setValue
      (ascii "port") (.num candidate.port.toNat))

/-- `redp2p_index_append_candidates`. -/
def indexAppendCandidates (obj : JsonObject Int) (field : Bytes) (candidates : List Candidate) :
    JsonObject Int :=
  obj.setValue field (.arr (candidates.map candidateValue))

/-- The addresses that a request can put into a candidate. -/
def Candidate.Accepted (candidate : Candidate) : Prop :=
  candidate.addr.length ≤ addrMax ∧ ∀ b ∈ candidate.addr, isPlain b = true

theorem parseCandidate_accepted {item : Json Rat} {candidate : Candidate}
    (h : parseCandidate item = some candidate) : candidate.Accepted := by
  simp only [parseCandidate, Option.bind_eq_bind, Option.pure_def, Option.bind_eq_some_iff,
    Option.guard_eq_some', Option.some.injEq, Bool.or_eq_true, Option.isSome_iff_exists] at h
  obtain ⟨_, _, _, _, addr, _, _, hlen, _, _, _, hpton, _, _, _, _, rfl⟩ := h
  refine ⟨hlen, fun b hb => isPlain_of_isAddrChar ?_⟩
  rcases hpton with ⟨address, h4⟩ | ⟨address, h6⟩
  · exact inetPton4_chars h4 b hb
  · exact inetPton6_chars h6 b hb

theorem parseCandidateItems_accepted {items : List (Json Rat)} {candidates : List Candidate}
    (h : parseCandidateItems items = some candidates) :
    candidates.length = items.length ∧ ∀ candidate ∈ candidates, candidate.Accepted := by
  induction items generalizing candidates with
  | nil =>
    obtain rfl : [] = candidates := by simpa [parseCandidateItems] using h
    simp
  | cons item rest ih =>
    unfold parseCandidateItems at h
    split at h
    · rename_i candidate others hitem hrest
      obtain rfl := Option.some.inj h
      obtain ⟨hlen, hall⟩ := ih hrest
      exact ⟨by simp [hlen], List.forall_mem_cons.mpr ⟨parseCandidate_accepted hitem, hall⟩⟩
    · simp at h

/-- A request carries at most eight candidates, each with an address text. -/
theorem indexParseCandidates_accepted {obj : JsonObject Rat} {field : Bytes}
    {candidates : List Candidate} (h : indexParseCandidates obj field = some candidates) :
    candidates.length ≤ peerCandidatesMax ∧ ∀ candidate ∈ candidates, candidate.Accepted := by
  unfold indexParseCandidates at h
  split at h
  · obtain rfl := Option.some.inj h
    simp
  · split at h
    · simp at h
    · rename_i hlen
      obtain ⟨heq, hall⟩ := parseCandidateItems_accepted h
      exact ⟨by omega, hall⟩

end Redp2p
