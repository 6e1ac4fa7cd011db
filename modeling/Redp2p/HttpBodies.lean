import Redp2p.HttpLimits

/-! The bodies of responses: which bytes of a response the client uses as its body, and when they are those
behind the first empty line. -/

namespace Redp2p

open ByteString

/-! ### Lines of a response -/

/-- The first line of a text without its line ending, and what follows it. -/
def nextLine : Bytes → Option (Bytes × Bytes)
  | [] => none
  | b :: bytes =>
    if b = 0x0a then some ([], bytes)
    else (nextLine bytes).map fun (line, rest) => (if b = 0x0d then line else b :: line, rest)

def takeLines : Nat → Bytes → Option (List Bytes × Bytes)
  | 0, bytes => some ([], bytes)
  | count + 1, bytes =>
    (nextLine bytes).bind fun (line, rest) =>
      (takeLines count rest).map fun (lines, rest) => (line :: lines, rest)

/-- The lines before the first empty one, and what follows that. -/
def headerLines : Nat → Bytes → Option (List Bytes × Bytes)
  | 0, _ => none
  | turns + 1, bytes =>
    (nextLine bytes).bind fun (line, rest) =>
      if line = [] then some ([], rest)
      else (headerLines turns rest).map fun (lines, rest) => (line :: lines, rest)

/-- The length after a header line, when it declares none or a number. -/
def declareLength (length : Nat) (line : Bytes) : Option Nat :=
  if !isContentLength line then some length
  else if fieldText line ≠ [] ∧ (fieldText line).all isDigit = true then some (parseDecimal (fieldText line))
  else none

/-- The length that header lines declare. A later line overrides an earlier one. -/
def declaredLength (lines : List Bytes) : Option Nat := lines.foldlM declareLength 0

/-- Where the body of a response stands in it: behind its first empty line. -/
def specifiedBody (bytes : Bytes) : Option (List Nat) :=
  match (nextLine bytes).bind fun (_, rest) => headerLines rest.length rest with
  | none => some []
  | some (lines, after) => (declaredLength lines).map (List.range' (bytes.length - after.length))

/-! ### What the client reads -/

/-- The client up to the end of its header loop: the status, the declared length, and what is not read. -/
def readHead (stream : Stream) : Except Status (Nat × Option Nat × Bytes) := do
  let (line, rest) ← tcpReadline stream.stalls httpLineMax [] stream.bytes
  let status ← parseStatusLine line
  let (length, rest) ← readHeaders stream.stalls httpHeadersMax none rest
  return (status, length, rest)

/-- Where the bytes stand that the client uses as the body. -/
def bodyPositions (stream : Stream) : Except Status (List Nat) := do
  let (_, length, rest) ← readHead stream
  let length := length.getD 0
  if rest.length < length then .error (if stream.stalls then .etimeout else .enet)
  else return List.range' (stream.bytes.length - rest.length) length

/-- The client fails, or it uses the specified bytes as the body. -/
def TakesBody (stream : Stream) : Prop :=
  ∀ status body, readResponse stream = .ok (status, body) →
    ∃ positions, bodyPositions stream = .ok positions ∧ specifiedBody stream.bytes = some positions ∧
      body = positions.filterMap (stream.bytes[·]?)

/-- A line that the client reads. -/
structure ReadLine (line : Bytes) : Prop where
  bytes : ∀ b ∈ line, isLineByte b = true
  length : line.length < httpLineMax

/-- A header line that the client reads and does not refuse. -/
structure AcceptedReply (line : Bytes) : Prop where
  ne : line ≠ []
  read : ReadLine line
  header : ∃ length, readHeader none line = .ok length

/-- The header lines of the response end in time for the client: when all lines of its loop are read and
accepted, either the bytes behind them are too few, or these lines declare no body and none is specified. -/
def Contained (stream : Stream) : Prop :=
  ∀ line rest status lines after length, nextLine stream.bytes = some (line, rest) → ReadLine line →
    parseStatusLine line = .ok status → takeLines httpHeadersMax rest = some (lines, after) →
    (∀ line ∈ lines, AcceptedReply line) → declaredLength lines = some length →
    length ≤ after.length → length = 0 ∧ specifiedBody stream.bytes = some []

theorem nextLine_suffix {bytes line rest : Bytes} (h : nextLine bytes = some (line, rest)) :
    rest <:+ bytes ∧ rest.length < bytes.length := by
  induction bytes generalizing line with
  | nil => exact nomatch h
  | cons b bytes ih =>
    rw [nextLine] at h
    split at h
    · obtain ⟨-, rfl⟩ := Prod.mk.inj (Option.some.inj h)
      exact ⟨List.suffix_cons b _, by simp⟩
    · obtain ⟨⟨text, after⟩, htext, heq⟩ := Option.map_eq_some_iff.mp h
      obtain ⟨-, rfl⟩ := Prod.mk.inj heq
      obtain ⟨hsuffix, hlength⟩ := ih htext
      exact ⟨hsuffix.trans (List.suffix_cons b bytes), by rw [List.length_cons]; omega⟩

theorem takeLines_suffix {count : Nat} {bytes after : Bytes} {lines : List Bytes}
    (h : takeLines count bytes = some (lines, after)) : after <:+ bytes ∧ lines.length = count := by
  induction count generalizing bytes lines with
  | zero =>
    obtain ⟨rfl, rfl⟩ := Prod.mk.inj (Option.some.inj h)
    exact ⟨List.suffix_rfl, rfl⟩
  | succ count ih =>
    obtain ⟨⟨line, rest⟩, hline, hrest⟩ := Option.bind_eq_some_iff.mp h
    obtain ⟨⟨others, last⟩, hothers, heq⟩ := Option.map_eq_some_iff.mp hrest
    obtain ⟨rfl, rfl⟩ := Prod.mk.inj heq
    obtain ⟨hsuffix, hcount⟩ := ih hothers
    exact ⟨hsuffix.trans (nextLine_suffix hline).1, by rw [List.length_cons, hcount]⟩

section NextLine

variable {bytes line rest : Bytes} (h : nextLine bytes = some (line, rest))

include h

theorem takeLines_line (count : Nat) :
    takeLines (count + 1) bytes = (takeLines count rest).map fun (lines, rest) => (line :: lines, rest) := by
  rw [takeLines, h]
  rfl

theorem headerLines_line (hne : line ≠ []) (turns : Nat) :
    headerLines (turns + 1) bytes =
      (headerLines turns rest).map fun (lines, rest) => (line :: lines, rest) := by
  rw [headerLines, h, Option.bind_some]
  dsimp only
  rw [if_neg hne]

end NextLine

/-- The client reads a line when it holds no control byte and fits the line buffer. -/
theorem tcpReadline_ok_iff {stalls : Bool} {cap : Nat} {line bytes : Bytes} (hline : line.length ≤ cap - 1)
    (line' rest : Bytes) :
    tcpReadline stalls cap line bytes = .ok (line', rest) ↔
      ∃ text, nextLine bytes = some (text, rest) ∧ line' = line ++ text ∧
        (∀ b ∈ text, isLineByte b = true) ∧ line'.length ≤ cap - 1 := by
  induction bytes generalizing line with
  | nil => simp [tcpReadline, nextLine]
  | cons b bytes ih =>
    rw [tcpReadline, nextLine]
    by_cases hfeed : b = 0x0a
    · rw [if_pos hfeed, if_pos hfeed]
      constructor
      · rintro ⟨⟩
        exact ⟨[], rfl, by simp, by simp, hline⟩
      · rintro ⟨text, htext, rfl, -, -⟩
        obtain ⟨rfl, rfl⟩ := Prod.mk.inj (Option.some.inj htext)
        rw [List.append_nil]
    rw [if_neg hfeed, if_neg hfeed]
    by_cases hreturn : b = 0x0d
    · simp only [if_pos hreturn]
      rw [ih hline, Option.map_id']
    rw [if_neg hreturn]
    simp only [if_neg hreturn]
    by_cases hbyte : b.toNat < 0x20 ∨ b = 0x7f
    · have hbad : isLineByte b = false := by
        simp only [isLineByte, Bool.and_eq_false_iff, decide_eq_false_iff_not, bne_eq_false_iff_eq]
        exact hbyte.imp (by omega) id
      rw [if_pos (by simpa using hbyte)]
      refine ⟨by simp, ?_⟩
      rintro ⟨text, htext, -, hbytes, -⟩
      obtain ⟨⟨tail, after⟩, -, heq⟩ := Option.map_eq_some_iff.mp htext
      obtain ⟨rfl, -⟩ := Prod.mk.inj heq
      rw [hbytes b (by simp)] at hbad
      cases hbad
    · have hgood : isLineByte b = true := by
        simp only [isLineByte, Bool.and_eq_true, decide_eq_true_eq, bne_iff_ne]
        rw [not_or] at hbyte
        exact ⟨by omega, hbyte.2⟩
      rw [if_neg (by simpa using hbyte)]
      by_cases hfull : line.length ≥ cap - 1
      · rw [if_pos hfull]
        refine ⟨by simp, ?_⟩
        rintro ⟨text, htext, rfl, -, hroom⟩
        obtain ⟨⟨tail, after⟩, -, heq⟩ := Option.map_eq_some_iff.mp htext
        obtain ⟨rfl, -⟩ := Prod.mk.inj heq
        rw [List.length_append, List.length_cons] at hroom
        omega
      · rw [if_neg hfull, ih (by rw [List.length_append, List.length_singleton]; omega)]
        constructor
        · rintro ⟨text, htext, rfl, hbytes, hroom⟩
          exact ⟨b :: text, by rw [htext]; rfl, by simp, List.forall_mem_cons.mpr ⟨hgood, hbytes⟩, hroom⟩
        · rintro ⟨text, htext, rfl, hbytes, hroom⟩
          obtain ⟨⟨tail, after⟩, htail, heq⟩ := Option.map_eq_some_iff.mp htext
          obtain ⟨rfl, rfl⟩ := Prod.mk.inj heq
          exact ⟨tail, htail, by simp, (List.forall_mem_cons.mp hbytes).2, hroom⟩

theorem readLine_iff {stalls : Bool} {bytes line rest : Bytes} :
    tcpReadline stalls httpLineMax [] bytes = .ok (line, rest) ↔
      nextLine bytes = some (line, rest) ∧ ReadLine line := by
  rw [tcpReadline_ok_iff (Nat.zero_le _)]
  have hmax : ∀ n, n ≤ httpLineMax - 1 ↔ n < httpLineMax := by
    intro n
    simp only [httpLineMax]
    omega
  constructor
  · rintro ⟨text, htext, rfl, hbytes, hroom⟩
    exact ⟨htext, hbytes, (hmax _).mp hroom⟩
  · rintro ⟨htext, hbytes, hroom⟩
    exact ⟨line, htext, rfl, hbytes, (hmax _).mpr hroom⟩

theorem readHeader_ok {length length' : Option Nat} {line : Bytes}
    (h : readHeader length line = .ok length') :
    (∃ other, readHeader none line = .ok other) ∧
      declareLength (length.getD 0) line = some (length'.getD 0) := by
  unfold declareLength isContentLength isField fieldName
  unfold readHeader at h ⊢
  dsimp only at h ⊢
  cases hcolon : line.contains 0x3a with
  | false =>
    rw [hcolon, Bool.not_false, if_pos rfl] at h
    obtain rfl := Except.ok.inj h
    exact ⟨⟨none, rfl⟩, by simp⟩
  | true =>
    rw [hcolon, Bool.not_true, if_neg nofun] at h
    split at h
    · exact nomatch h
    rename_i hshort
    rw [Bool.not_true, if_neg nofun, if_neg hshort, Bool.true_and]
    cases hname : asciiCaseEq (line.takeWhile (· != 0x3a)) (ascii "Content-Length") with
    | true =>
      rw [hname, if_pos rfl] at h
      rw [if_pos rfl, Bool.not_true, if_neg nofun]
      cases hvalue : parseU (((line.dropWhile (· != 0x3a)).drop 1).dropWhile fun b => b == 0x20 || b == 0x09)
          0 httpBodyMax with
      | none =>
        rw [hvalue] at h
        exact nomatch h
      | some n =>
        rw [hvalue] at h
        obtain rfl := Except.ok.inj h
        obtain ⟨hdigits, hn, -⟩ := parseU_eq_some hvalue
        have htext := fieldText_digits hdigits
        have hne : fieldText line ≠ [] := by
          intro hnil
          rw [← htext, hnil] at hvalue
          exact nomatch hvalue
        refine ⟨⟨_, rfl⟩, ?_⟩
        rw [if_pos ⟨hne, by rw [htext]; exact List.all_eq_true.mpr hdigits⟩, htext, hn]
        rfl
    | false =>
      rw [hname, if_neg nofun] at h
      rw [if_neg nofun, Bool.not_false, if_pos rfl]
      split at h
      · exact nomatch h
      · rename_i hother
        obtain rfl := Except.ok.inj h
        exact ⟨⟨none, if_neg hother⟩, rfl⟩

/-- The length so far decides nothing about whether a header line is accepted. -/
theorem readHeader_accepted {line : Bytes} (h : ∃ other, readHeader none line = .ok other)
    (length : Option Nat) : ∃ length', readHeader length line = .ok length' := by
  obtain ⟨other, hother⟩ := h
  unfold readHeader at hother ⊢
  dsimp only at hother ⊢
  split
  · exact ⟨length, rfl⟩
  rename_i hcolon
  rw [if_neg hcolon] at hother
  split
  · rename_i hlong
    rw [if_pos hlong] at hother
    exact nomatch hother
  rename_i hlong
  rw [if_neg hlong] at hother
  split
  · rename_i hname
    rw [if_pos hname] at hother
    exact ⟨other, hother⟩
  rename_i hname
  rw [if_neg hname] at hother
  split
  · rename_i hencoding
    rw [if_pos hencoding] at hother
    exact nomatch hother
  · exact ⟨length, rfl⟩

/-- One turn of the header loop. -/
theorem readHeaders_turn {stalls : Bool} {turns : Nat} {length length' : Option Nat} {bytes after : Bytes} :
    readHeaders stalls (turns + 1) length bytes = .ok (length', after) ↔
      ∃ line rest, nextLine bytes = some (line, rest) ∧ ReadLine line ∧
        ((line = [] ∧ length = length' ∧ rest = after) ∨
          ∃ length₁, line ≠ [] ∧ readHeader length line = .ok length₁ ∧
            readHeaders stalls turns length₁ rest = .ok (length', after)) := by
  rw [readHeaders]
  cases hread : tcpReadline stalls httpLineMax [] bytes with
  | error status =>
    constructor
    · rintro ⟨⟩
    · rintro ⟨line, rest, hline, hbytes, -⟩
      rw [readLine_iff.mpr ⟨hline, hbytes⟩] at hread
      cases hread
  | ok result =>
    obtain ⟨line, rest⟩ := result
    obtain ⟨hline, hbytes⟩ := readLine_iff.mp hread
    have hsame : ∀ line' rest', nextLine bytes = some (line', rest') → line' = line ∧ rest' = rest := by
      intro line' rest' hother
      rw [hline] at hother
      obtain ⟨rfl, rfl⟩ := Prod.mk.inj (Option.some.inj hother)
      exact ⟨rfl, rfl⟩
    show (if line = [] then _ else _) = _ ↔ _
    by_cases hblank : line = []
    · rw [if_pos hblank]
      constructor
      · rintro ⟨⟩
        exact ⟨line, _, hline, hbytes, Or.inl ⟨hblank, rfl, rfl⟩⟩
      · rintro ⟨line', rest', hother, -, ⟨-, rfl, rfl⟩ | ⟨_, hne, -⟩⟩
        · obtain ⟨-, rfl⟩ := hsame _ _ hother
          rfl
        · exact absurd ((hsame _ _ hother).1.trans hblank) hne
    · rw [if_neg hblank]
      constructor
      · intro h
        cases hheader : readHeader length line with
        | error status =>
          rw [hheader] at h
          cases h
        | ok length₁ =>
          rw [hheader] at h
          exact ⟨line, rest, hline, hbytes, Or.inr ⟨length₁, hblank, hheader, h⟩⟩
      · rintro ⟨line', rest', hother, -, ⟨hnil, -⟩ | ⟨length₁, -, hheader, hrest⟩⟩
        · exact absurd ((hsame _ _ hother).1.symm.trans hnil) hblank
        · obtain ⟨rfl, rfl⟩ := hsame _ _ hother
          rw [hheader]
          exact hrest

/-! ### The header loop -/

/-- The header loop ends at the first empty line, or after all its turns. -/
theorem readHeaders_ok {stalls : Bool} {turns : Nat} {length length' : Option Nat} {bytes after : Bytes}
    (h : readHeaders stalls turns length bytes = .ok (length', after)) :
    ∃ lines, (∀ line ∈ lines, AcceptedReply line) ∧
      lines.foldlM declareLength (length.getD 0) = some (length'.getD 0) ∧
      ((∀ fuel, bytes.length ≤ fuel → headerLines fuel bytes = some (lines, after)) ∨
        takeLines turns bytes = some (lines, after)) := by
  induction turns generalizing length bytes with
  | zero =>
    obtain ⟨rfl, rfl⟩ := Prod.mk.inj (Except.ok.inj h)
    exact ⟨[], by simp, rfl, Or.inr rfl⟩
  | succ turns ih =>
    obtain ⟨line, rest, hline, hread, hend | ⟨length₁, hne, hheader, hrest⟩⟩ := readHeaders_turn.mp h
    · obtain ⟨rfl, rfl, rfl⟩ := hend
      refine ⟨[], by simp, rfl, Or.inl fun fuel hfuel => ?_⟩
      have hlength := (nextLine_suffix hline).2
      obtain ⟨fuel, rfl⟩ := Nat.exists_eq_succ_of_ne_zero (show fuel ≠ 0 by omega)
      rw [headerLines, hline]
      rfl
    · obtain ⟨lines, haccepted, hlengths, hends⟩ := ih hrest
      obtain ⟨hother, hdeclared⟩ := readHeader_ok hheader
      refine ⟨line :: lines, List.forall_mem_cons.mpr ⟨⟨hne, hread, hother⟩, haccepted⟩, ?_, ?_⟩
      · rw [List.foldlM_cons, hdeclared]
        exact hlengths
      · rcases hends with hall | htaken
        · refine Or.inl fun fuel hfuel => ?_
          have hlength := (nextLine_suffix hline).2
          obtain ⟨fuel, rfl⟩ := Nat.exists_eq_succ_of_ne_zero (show fuel ≠ 0 by omega)
          rw [headerLines_line hline hne, hall fuel (by omega)]
          rfl
        · refine Or.inr ?_
          rw [takeLines_line hline, htaken]
          rfl

/-- Accepted lines for all turns of the header loop are all that it reads. -/
theorem readHeaders_takeLines (stalls : Bool) {turns : Nat} (length : Option Nat) {bytes after : Bytes}
    {lines : List Bytes} (htaken : takeLines turns bytes = some (lines, after))
    (haccepted : ∀ line ∈ lines, AcceptedReply line) :
    ∃ length', readHeaders stalls turns length bytes = .ok (length', after) ∧
      lines.foldlM declareLength (length.getD 0) = some (length'.getD 0) := by
  induction turns generalizing length bytes lines with
  | zero =>
    obtain ⟨rfl, rfl⟩ := Prod.mk.inj (Option.some.inj htaken)
    exact ⟨length, rfl, rfl⟩
  | succ turns ih =>
    obtain ⟨⟨line, rest⟩, hline, hrest⟩ := Option.bind_eq_some_iff.mp htaken
    obtain ⟨⟨others, last⟩, hothers, heq⟩ := Option.map_eq_some_iff.mp hrest
    obtain ⟨rfl, rfl⟩ := Prod.mk.inj heq
    obtain ⟨hfirst, htail⟩ := List.forall_mem_cons.mp haccepted
    obtain ⟨length₁, hheader⟩ := readHeader_accepted hfirst.header length
    obtain ⟨length', hread, hlengths⟩ := ih length₁ hothers htail
    refine ⟨length', readHeaders_turn.mpr ⟨line, rest, hline, hfirst.read,
      Or.inr ⟨length₁, hfirst.ne, hheader, hread⟩⟩, ?_⟩
    rw [List.foldlM_cons, (readHeader_ok hheader).2]
    exact hlengths

/-- The first empty line behind lines that are not empty ends where less is left. -/
theorem headerLines_behind {fuel count : Nat} {bytes after after' : Bytes} {lines lines' : List Bytes}
    (hall : headerLines fuel bytes = some (lines', after')) (htaken : takeLines count bytes = some (lines, after))
    (hne : ∀ line ∈ lines, line ≠ []) : after'.length < after.length := by
  induction count generalizing fuel bytes lines lines' with
  | zero =>
    obtain ⟨rfl, rfl⟩ := Prod.mk.inj (Option.some.inj htaken)
    clear htaken hne
    induction fuel generalizing bytes lines' with
    | zero => exact nomatch hall
    | succ fuel ih =>
      obtain ⟨⟨line, rest⟩, hline, hrest⟩ := Option.bind_eq_some_iff.mp hall
      have hlength := (nextLine_suffix hline).2
      dsimp only at hrest
      split at hrest
      · obtain ⟨-, rfl⟩ := Prod.mk.inj (Option.some.inj hrest)
        exact hlength
      · obtain ⟨⟨others, last⟩, hothers, heq⟩ := Option.map_eq_some_iff.mp hrest
        obtain ⟨-, rfl⟩ := Prod.mk.inj heq
        exact Nat.lt_trans (ih hothers) hlength
  | succ count ih =>
    obtain ⟨⟨line, rest⟩, hline, hrest⟩ := Option.bind_eq_some_iff.mp htaken
    obtain ⟨⟨others, last⟩, hothers, heq⟩ := Option.map_eq_some_iff.mp hrest
    obtain ⟨rfl, rfl⟩ := Prod.mk.inj heq
    obtain ⟨hfirst, htail⟩ := List.forall_mem_cons.mp hne
    cases fuel with
    | zero => exact nomatch hall
    | succ fuel =>
      rw [headerLines_line hline hfirst] at hall
      obtain ⟨⟨more, last'⟩, hmore, heq'⟩ := Option.map_eq_some_iff.mp hall
      obtain ⟨-, rfl⟩ := Prod.mk.inj heq'
      exact ih hmore hothers htail

/-! ### Positions -/

theorem filterMap_range' (bytes : Bytes) {start count : Nat} (h : start + count ≤ bytes.length) :
    (List.range' start count).filterMap (bytes[·]?) = (bytes.drop start).take count := by
  induction count generalizing start with
  | zero => simp
  | succ count ih =>
    rw [List.range'_succ, List.filterMap_cons, List.getElem?_eq_getElem (by omega), ih (by omega),
      List.drop_eq_getElem_cons (show start < bytes.length by omega), List.take_succ_cons]

theorem suffix_take {bytes after : Bytes} (h : after <:+ bytes) {count : Nat} (hcount : count ≤ after.length) :
    (List.range' (bytes.length - after.length) count).filterMap (bytes[·]?) = after.take count := by
  have hlength := h.length_le
  rw [filterMap_range' bytes (by omega), ← List.suffix_iff_eq_drop.mp h]

theorem readHead_ok_iff {stream : Stream} {status : Nat} {length : Option Nat} {after : Bytes} :
    readHead stream = .ok (status, length, after) ↔
      ∃ line rest, nextLine stream.bytes = some (line, rest) ∧ ReadLine line ∧
        parseStatusLine line = .ok status ∧
        readHeaders stream.stalls httpHeadersMax none rest = .ok (length, after) := by
  unfold readHead
  constructor
  · intro h
    cases hread : tcpReadline stream.stalls httpLineMax [] stream.bytes with
    | error failed =>
      rw [hread] at h
      exact nomatch h
    | ok result =>
      obtain ⟨line, rest⟩ := result
      rw [hread] at h
      dsimp only [bind, Except.bind] at h
      obtain ⟨hline, hbytes⟩ := readLine_iff.mp hread
      cases hstatus : parseStatusLine line with
      | error failed =>
        rw [hstatus] at h
        exact nomatch h
      | ok status' =>
        rw [hstatus] at h
        dsimp only at h
        cases hheaders : readHeaders stream.stalls httpHeadersMax none rest with
        | error failed =>
          rw [hheaders] at h
          exact nomatch h
        | ok head =>
          rw [hheaders] at h
          obtain ⟨rfl, heq⟩ := Prod.mk.inj (Except.ok.inj h)
          obtain ⟨rfl, rfl⟩ := Prod.mk.inj heq
          exact ⟨line, rest, hline, hbytes, hstatus, hheaders⟩
  · rintro ⟨line, rest, hline, hbytes, hstatus, hheaders⟩
    rw [readLine_iff.mpr ⟨hline, hbytes⟩]
    dsimp only [bind, Except.bind]
    rw [hstatus]
    dsimp only
    rw [hheaders]
    rfl

theorem readResponse_ok_iff {stream : Stream} {status : Nat} {body : Bytes} :
    readResponse stream = .ok (status, body) ↔
      ∃ length after, readHead stream = .ok (status, length, after) ∧ length.getD 0 ≤ after.length ∧
        body = after.take (length.getD 0) := by
  have hhead : readResponse stream = (readHead stream).bind fun (status, length, rest) =>
      if rest.length < length.getD 0 then .error (if stream.stalls then .etimeout else .enet)
      else .ok (status, rest.take (length.getD 0)) := by
    unfold readResponse readHead
    cases tcpReadline stream.stalls httpLineMax [] stream.bytes with
    | error failed => rfl
    | ok result =>
      dsimp only [bind, Except.bind]
      cases parseStatusLine result.1 with
      | error failed => rfl
      | ok status =>
        dsimp only
        cases readHeaders stream.stalls httpHeadersMax none result.2 <;> rfl
  rw [hhead]
  cases readHead stream with
  | error failed => exact ⟨nofun, fun ⟨_, _, h, _⟩ => nomatch h⟩
  | ok head =>
    obtain ⟨status', length, after⟩ := head
    dsimp only [Except.bind]
    by_cases hshort : after.length < length.getD 0
    · rw [if_pos hshort]
      refine ⟨nofun, ?_⟩
      rintro ⟨length', after', ⟨⟩, hle, -⟩
      omega
    · rw [if_neg hshort]
      constructor
      · rintro ⟨⟩
        exact ⟨length, after, rfl, Nat.not_lt.mp hshort, rfl⟩
      · rintro ⟨length', after', ⟨⟩, -, rfl⟩
        rfl

theorem bodyPositions_ok {stream : Stream} {status : Nat} {length : Option Nat} {after : Bytes}
    (h : readHead stream = .ok (status, length, after)) (hle : length.getD 0 ≤ after.length) :
    bodyPositions stream =
      .ok (List.range' (stream.bytes.length - after.length) (length.getD 0)) := by
  unfold bodyPositions
  rw [h]
  dsimp only [bind, Except.bind]
  rw [if_neg (Nat.not_lt.mpr hle)]
  rfl

theorem headerLines_suffix {fuel : Nat} {bytes after : Bytes} {lines : List Bytes}
    (h : headerLines fuel bytes = some (lines, after)) : after <:+ bytes := by
  induction fuel generalizing bytes lines with
  | zero => exact nomatch h
  | succ fuel ih =>
    obtain ⟨⟨line, rest⟩, hline, hrest⟩ := Option.bind_eq_some_iff.mp h
    dsimp only at hrest
    split at hrest
    · obtain ⟨-, rfl⟩ := Prod.mk.inj (Option.some.inj hrest)
      exact (nextLine_suffix hline).1
    · obtain ⟨⟨others, last⟩, hothers, heq⟩ := Option.map_eq_some_iff.mp hrest
      obtain ⟨-, rfl⟩ := Prod.mk.inj heq
      exact (ih hothers).trans (nextLine_suffix hline).1

theorem specifiedBody_head {bytes line rest after : Bytes} {lines : List Bytes}
    (hline : nextLine bytes = some (line, rest)) (h : headerLines rest.length rest = some (lines, after)) :
    specifiedBody bytes =
      (declaredLength lines).map (List.range' (bytes.length - after.length)) := by
  rw [specifiedBody, hline, Option.bind_some]
  dsimp only
  rw [h]

/-- Behind all lines of the loop of the client a body that is not empty starts elsewhere than the client
reads it. -/
theorem specifiedBody_behind {bytes line rest after : Bytes} {count length : Nat} {lines : List Bytes}
    (hline : nextLine bytes = some (line, rest)) (htaken : takeLines count rest = some (lines, after))
    (hne : ∀ line ∈ lines, line ≠ [])
    (h : specifiedBody bytes = some (List.range' (bytes.length - after.length) length)) : length = 0 := by
  have hsuffix := (takeLines_suffix htaken).1.trans (nextLine_suffix hline).1
  have hrange : ∀ length', List.range' (bytes.length - after.length) length = List.range' length' 0 →
      length = 0 := by
    intro start heq
    simpa using congrArg List.length heq
  cases hall : headerLines rest.length rest with
  | none =>
    rw [specifiedBody, hline, Option.bind_some] at h
    dsimp only at h
    rw [hall] at h
    exact hrange 0 (Option.some.inj h).symm
  | some head =>
    obtain ⟨lines', after'⟩ := head
    have hless := headerLines_behind hall htaken hne
    rw [specifiedBody_head hline hall] at h
    obtain ⟨length', -, heq⟩ := Option.map_eq_some_iff.mp h
    have hsame : length' = length := by simpa using congrArg List.length heq
    subst hsame
    cases length' with
    | zero => rfl
    | succ length' =>
      have hstart := hsuffix.length_le
      rw [List.range'_succ, List.range'_succ] at heq
      have hfirst := (List.cons.inj heq).1
      omega

/-- The client uses the bytes behind the first empty line of a response, as many as its header lines
declare, exactly when all header lines fit into its loop, or it fails, or there is no body. -/
theorem response_body_iff (stream : Stream) : TakesBody stream ↔ Contained stream := by
  constructor
  · intro htakes line rest status lines after length hline hread hstatus htaken haccepted hdeclared hle
    obtain ⟨length', hheaders, hlengths⟩ := readHeaders_takeLines stream.stalls none htaken haccepted
    have hsame : length'.getD 0 = length := Option.some.inj (hlengths.symm.trans hdeclared)
    have hhead : readHead stream = .ok (status, length', after) :=
      readHead_ok_iff.mpr ⟨line, rest, hline, hread, hstatus, hheaders⟩
    obtain ⟨positions, hpositions, hspecified, -⟩ := htakes status _
      (readResponse_ok_iff.mpr ⟨length', after, hhead, hsame ▸ hle, rfl⟩)
    rw [bodyPositions_ok hhead (hsame ▸ hle), hsame] at hpositions
    obtain rfl := Except.ok.inj hpositions
    have hnone := specifiedBody_behind hline htaken (fun line hline => (haccepted line hline).ne) hspecified
    rw [hspecified, hnone]
    exact ⟨rfl, rfl⟩
  · intro hcontained status body hresponse
    obtain ⟨length', after, hhead, hle, rfl⟩ := readResponse_ok_iff.mp hresponse
    obtain ⟨line, rest, hline, hread, hstatus, hheaders⟩ := readHead_ok_iff.mp hhead
    obtain ⟨lines, haccepted, hdeclared, hall | htaken⟩ := readHeaders_ok hheaders
    · have hlines := hall rest.length (Nat.le_refl _)
      have hsuffix := (headerLines_suffix hlines).trans (nextLine_suffix hline).1
      refine ⟨_, bodyPositions_ok hhead hle, ?_, (suffix_take hsuffix hle).symm⟩
      rw [Option.getD_none] at hdeclared
      rw [specifiedBody_head hline hlines, declaredLength, hdeclared]
      rfl
    · have hsuffix := (takeLines_suffix htaken).1.trans (nextLine_suffix hline).1
      obtain ⟨hnone, hspecified⟩ :=
        hcontained line rest status lines after _ hline hread hstatus htaken haccepted hdeclared hle
      refine ⟨_, bodyPositions_ok hhead hle, ?_, (suffix_take hsuffix hle).symm⟩
      rw [hspecified, hnone]
      rfl

/-- A response with one header line more than the client has turns. -/
def crowdedResponse : Bytes :=
  ascii "HTTP/1.1 200 OK\r\nContent-Length: 2\r\n" ++ (List.replicate 31 (ascii "A: b\r\n")).flatten ++
    ascii "\x7b\x7d: b\r\n\r\n[]"

/-- Its last header line is used as the body, and the request succeeds with an empty object. -/
theorem response_body_header :
    readReply (fun _ => (none, 0)) ⟨crowdedResponse, false⟩ = .ok [] ∧
      readResponse ⟨crowdedResponse, false⟩ = .ok (200, ascii "\x7b\x7d") ∧
      specifiedBody crowdedResponse = some [231, 232] ∧ ¬ TakesBody ⟨crowdedResponse, false⟩ := by
  have hread : readResponse ⟨crowdedResponse, false⟩ = .ok (200, ascii "\x7b\x7d") := by decide +kernel
  have hspecified : specifiedBody crowdedResponse = some [231, 232] := by decide +kernel
  have hpositions : bodyPositions ⟨crowdedResponse, false⟩ = .ok [222, 223] := by decide +kernel
  refine ⟨?_, hread, hspecified, fun htakes => ?_⟩
  · have hparse : jsonParseString (fun _ => (none, 0)) (cstr (ascii "\x7b\x7d")) = some (.obj []) := rfl
    rw [readReply, hread]
    dsimp only [bind, Except.bind]
    rw [if_pos rfl, hparse]
    rfl
  obtain ⟨positions, hused, hwanted, -⟩ := htakes 200 _ hread
  rw [hpositions] at hused
  rw [hspecified] at hwanted
  exact absurd ((Except.ok.inj hused).trans (Option.some.inj hwanted).symm) (by decide)

end Redp2p
