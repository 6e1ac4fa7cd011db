import Redp2p.JsonText
import Redp2p.Index

/-! The HTTP client of the library: it writes one request to the index and reads one response, line by
line up to the blank line and then as many bytes as the response declares. -/

namespace Redp2p

open ByteString

def httpLineMax : Nat := 256
def httpHeadersMax : Nat := 32
def httpBodyMax : Nat := bufSize

/-- What a connection delivers, and whether it then stalls instead of closing. -/
structure Stream where
  bytes : Bytes
  stalls : Bool

/-- What a request to an index brings back, when the index can be reached. -/
abbrev IndexServer := Option (Bytes → Stream)

/-! ### Texts -/

/-- One turn of `redp2p_parse_u`. -/
def parseDigit (limit value : Nat) (ch : UInt8) : Option Nat :=
  if !isDigit ch then none
  else
    let digit := ch.toNat - 0x30
    if digit > limit then none
    else if value > (limit - digit) / 10 then none
    else some (value * 10 + digit)

/-- `redp2p_parse_u`: a decimal number from `min` to `max`. -/
def parseU (text : Bytes) (min max : Nat) : Option Nat :=
  if text.isEmpty || max < min then none
  else
    match text.foldlM (parseDigit max) 0 with
    | none => none
    | some value => if value < min then none else some value

def asciiLower (ch : UInt8) : UInt8 := if inRange 'A' 'Z' ch then ch - 0x41 + 0x61 else ch

/-- `redp2p_ascii_casecmp(a, b) == 0`. -/
def asciiCaseEq (a b : Bytes) : Bool := a.map asciiLower == b.map asciiLower

/-! ### The response -/

/-- `redp2p_tcp_readline`: the next line without its line ending, and what follows it. -/
def tcpReadline (stalls : Bool) (cap : Nat) : Bytes → Bytes → Except Status (Bytes × Bytes)
  | _, [] => .error (if stalls then .etimeout else .enet)
  | line, byte :: rest =>
    if byte = 0x0a then .ok (line, rest)
    else if byte = 0x0d then tcpReadline stalls cap line rest
    else if byte.toNat < 0x20 || byte = 0x7f then .error .enet
    else if line.length ≥ cap - 1 then .error .enet
    else tcpReadline stalls cap (line ++ [byte]) rest

/-- The status of a status line. -/
def parseStatusLine (line : Bytes) : Except Status Nat :=
  if !(ascii "HTTP/").isPrefixOf line then .error .eproto
  else
    -- `strchr(line, ' ')` finds nothing when this text is empty
    match (line.dropWhile (· != 0x20)).dropWhile (· == 0x20) with
    | a :: b :: c :: _ =>
      if isDigit a && isDigit b && isDigit c then
        .ok ((a.toNat - 0x30) * 100 + (b.toNat - 0x30) * 10 + (c.toNat - 0x30))
      else .error .eproto
    | _ => .error .eproto

/-- The declared length after a header line. -/
def readHeader (length : Option Nat) (line : Bytes) : Except Status (Option Nat) :=
  if !line.contains 0x3a then .ok length
  else
    let name := line.takeWhile (· != 0x3a)
    let value := ((line.dropWhile (· != 0x3a)).drop 1).dropWhile fun b => b == 0x20 || b == 0x09
    if name.length ≥ 32 then .error .eproto
    else if asciiCaseEq name (ascii "Content-Length") then
      match parseU value 0 httpBodyMax with
      | none => .error .eproto
      | some n => .ok (some n)
    else if asciiCaseEq name (ascii "Transfer-Encoding") then .error .eproto
    else .ok length

/-- The header loop: the declared length, and what follows the last line that was read. -/
def readHeaders (stalls : Bool) : Nat → Option Nat → Bytes → Except Status (Option Nat × Bytes)
  | 0, length, rest => .ok (length, rest)
  | turns + 1, length, rest => do
    let (line, rest) ← tcpReadline stalls httpLineMax [] rest
    if line = [] then return (length, rest)
    else
      let length ← readHeader length line
      readHeaders stalls turns length rest

/-- The status and the body of a response. -/
def readResponse (stream : Stream) : Except Status (Nat × Bytes) := do
  let (line, rest) ← tcpReadline stream.stalls httpLineMax [] stream.bytes
  let status ← parseStatusLine line
  let (length, rest) ← readHeaders stream.stalls httpHeadersMax none rest
  let length := length.getD 0
  if rest.length < length then .error (if stream.stalls then .etimeout else .enet)
  else return (status, rest.take length)

/-! ### Exchanges -/

/-- `redp2p_http_map_error`. -/
def httpMapError (code : Bytes) : Status :=
  if code = ascii "bad_request" ∨ code = ascii "busy" then .eproto
  else if code = ascii "invalid_id" then .einval
  else if code = ascii "auth_failed" ∨ code = ascii "invalid_key" then .eauth
  else if code = ascii "not_found" then .enoent
  else if code = ascii "table_full" then .efull
  else if code = ascii "internal" then .error
  else .eproto

/-- What the client makes of a response: the object of status 200, or the status that the error
code of the index stands for. -/
def readReply (strtod : Strtod) (stream : Stream) : Except Status (JsonObject Rat) := do
  let (status, body) ← readResponse stream
  let parsed := (jsonParseString strtod (cstr body)).bind Json.getObject
  if status = 200 then
    match parsed with
    | none => .error .eproto
    | some obj => return obj
  else
    match parsed.bind fun obj => obj.getString (ascii "error") with
    | some code => .error (httpMapError (boundedCopy httpLineMax code))
    | none => .error (if status = 503 then .efull else .eproto)

/-- The bytes of a request. -/
def requestBytes (host body : Bytes) : Option Bytes :=
  let head := ascii "POST /redp2p/ HTTP/1.1\r\nHost: " ++ host ++ ascii "\r\nContent-Length: " ++
    decimal body.length ++
    ascii "\r\nContent-Type: application/json\r\nConnection: close\r\n\r\n"
  if head.length ≥ httpLineMax * 6 then none else some (head ++ body)

/-- `redp2p_http_client`. -/
def httpClient (strtod : Strtod) (host : Bytes) (port : UInt16) (request : Json Int)
    (server : IndexServer) : Except Status (JsonObject Rat) :=
  if host = [] ∨ port = 0 then .error .einval
  else if serializationSize request > httpBodyMax + 1 then .error .eproto
  else
    match server, requestBytes host (serialize request) with
    | some respond, some bytes => readReply strtod (respond bytes)
    | _, _ => .error .enet

/-! ### Listing -/

def listRequest : Json Int := .obj [(ascii "op", .str (ascii "list"))]

/-- The callback loop of `redp2p_list_publishers`: the identifiers it was called with so far. -/
def reportIds (called : List Bytes) : List (Json Rat) → Status × List Bytes
  | [] => (.ok, called)
  | .str id :: rest =>
    if isValidId (cstr id) then reportIds (called ++ [cstr id]) rest else (.eproto, called)
  | _ :: _ => (.eproto, called)

/-- `redp2p_list_publishers`: its result, and the identifiers it called back with. -/
def listPublishers (strtod : Strtod) (host : Bytes) (port : UInt16) (server : IndexServer) :
    Status × List Bytes :=
  if host = [] then (.error, [])
  else
    match httpClient strtod host port listRequest server with
    | .error status => (status, [])
    | .ok out =>
      match out.getArray (ascii "ids") with
      | none => (.eproto, [])
      | some ids => reportIds [] ids

/-! ### What is written is read back -/

theorem parseDigit_isDigit (limit value : Nat) {ch : UInt8} (hch : isDigit ch = true)
    (h : value * 10 + (ch.toNat - 0x30) ≤ limit) :
    parseDigit limit value ch = some (value * 10 + (ch.toNat - 0x30)) := by
  have hlimit : ¬ ch.toNat - 0x30 > limit := by omega
  have hroom : ¬ value > (limit - (ch.toNat - 0x30)) / 10 := by omega
  rw [parseDigit, if_neg (by simp [hch])]
  simp only [hlimit, hroom, if_false]

theorem foldlM_decimal {limit n : Nat} (h : n ≤ limit) :
    (decimal n).foldlM (parseDigit limit) 0 = some n := by
  induction n using Nat.strong_induction_on with
  | _ n ih =>
    have hmod : n % 10 < 10 := Nat.mod_lt n (by decide)
    by_cases hsmall : n < 10
    · have hdigit := parseDigit_isDigit limit 0 (isDigit_digit hsmall)
        (by rw [toNat_digit hsmall]; omega)
      rw [toNat_digit hsmall] at hdigit
      rw [decimal_of_lt hsmall, List.foldlM_cons, hdigit]
      simp
    · have hdigit := parseDigit_isDigit limit (n / 10) (isDigit_digit hmod)
        (by rw [toNat_digit hmod]; omega)
      have hlast : n / 10 * 10 + (0x30 + n % 10 - 0x30) = n := by omega
      rw [toNat_digit hmod, hlast] at hdigit
      rw [decimal_concat (by omega), List.foldlM_append, ih (n / 10) (by omega) (by omega)]
      show (List.foldlM (parseDigit limit) (n / 10) _) = _
      rw [List.foldlM_cons, hdigit]
      rfl

/-- A number in its bounds is read back from its decimal text. -/
theorem parseU_decimal {n min max : Nat} (hmin : min ≤ n) (hmax : n ≤ max) :
    parseU (decimal n) min max = some n := by
  have hempty : (decimal n).isEmpty = false := by simpa using decimal_ne_nil n
  have hbounds : ¬ max < min := by omega
  have hvalue : ¬ n < min := by omega
  simp [parseU, hempty, hbounds, foldlM_decimal hmax, hvalue]

/-- The bytes of a line that `redp2p_tcp_readline` takes as they are. -/
def isLineByte (b : UInt8) : Bool := 0x20 ≤ b.toNat && b != 0x7f

theorem isLineByte_of_isPlain {b : UInt8} (h : isPlain b = true) : isLineByte b = true := by
  simp only [isPlain, isLineByte, Bool.and_eq_true, decide_eq_true_eq, bne_iff_ne] at h ⊢
  refine ⟨h.1.1.1.1, ?_⟩
  rintro rfl
  exact absurd h.1.1.1.2 (by decide)

theorem tcpReadline_line {stalls : Bool} {cap : Nat} {line text : Bytes} (rest : Bytes)
    (htext : ∀ b ∈ text, isLineByte b = true) (hcap : line.length + text.length ≤ cap - 1) :
    tcpReadline stalls cap line (text ++ 0x0d :: 0x0a :: rest) = .ok (line ++ text, rest) := by
  induction text generalizing line with
  | nil => simp [tcpReadline]
  | cons b text ih =>
    have hb := htext b (by simp)
    simp only [isLineByte, Bool.and_eq_true, decide_eq_true_eq, bne_iff_ne] at hb
    have hnewline : b ≠ 0x0a := by
      rintro rfl
      exact absurd hb.1 (by decide)
    have hreturn : b ≠ 0x0d := by
      rintro rfl
      exact absurd hb.1 (by decide)
    simp only [List.length_cons] at hcap
    have hroom : ¬ line.length ≥ cap - 1 := by omega
    have hlow : ¬ b.toNat < 0x20 := by omega
    rw [List.cons_append, tcpReadline, if_neg hnewline, if_neg hreturn, if_neg (by simp [hlow, hb.2]),
      if_neg hroom, ih (fun c hc => htext c (by simp [hc])) (by simp; omega), List.append_assoc]
    rfl

/-- A number of three digits. -/
theorem decimal_three {n : Nat} (hlow : 100 ≤ n) (hhigh : n ≤ 999) :
    ∃ a b c, decimal n = [a, b, c] ∧ isDigit a = true ∧ isDigit b = true ∧ isDigit c = true ∧
      (a.toNat - 0x30) * 100 + (b.toNat - 0x30) * 10 + (c.toNat - 0x30) = n := by
  have hdiv : n / 10 / 10 = n / 100 := by omega
  refine ⟨UInt8.ofNat (0x30 + n / 100), UInt8.ofNat (0x30 + n / 10 % 10),
    UInt8.ofNat (0x30 + n % 10), ?_, isDigit_digit (by omega), isDigit_digit (by omega),
    isDigit_digit (by omega), ?_⟩
  · rw [decimal_concat (by omega), decimal_concat (by omega), hdiv, decimal_of_lt (by omega)]
    rfl
  · rw [toNat_digit (by omega), toNat_digit (by omega), toNat_digit (by omega)]
    omega

theorem parseStatusLine_response {status : Nat} (hlow : 100 ≤ status) (hhigh : status ≤ 999)
    (reason : Bytes) :
    parseStatusLine (ascii "HTTP/1.1 " ++ decimal status ++ ascii " " ++ reason) = .ok status := by
  obtain ⟨a, b, c, hdigits, ha, hb, hc, hvalue⟩ := decimal_three hlow hhigh
  have hline : ascii "HTTP/1.1 " ++ decimal status ++ ascii " " ++ reason =
      0x48 :: 0x54 :: 0x54 :: 0x50 :: 0x2f :: 0x31 :: 0x2e :: 0x31 :: 0x20 ::
        a :: b :: c :: 0x20 :: reason := by
    rw [hdigits]
    rfl
  have hfirst : a ≠ 0x20 := by
    rintro rfl
    exact absurd ha (by decide)
  rw [hline, parseStatusLine]
  simp [ascii, List.isPrefixOf, hfirst, ha, hb, hc, hvalue]

section Field

variable {name value : Bytes} (hname : ∀ b ∈ name, b ≠ 0x3a)

include hname

theorem field_name : (name ++ 0x3a :: 0x20 :: value).takeWhile (· != 0x3a) = name := by
  rw [List.takeWhile_append_of_pos fun b hb => by simpa using hname b hb]
  simp

theorem field_value (hvalue : value.head? ≠ some 0x20 ∧ value.head? ≠ some 0x09) :
    (((name ++ 0x3a :: 0x20 :: value).dropWhile (· != 0x3a)).drop 1).dropWhile
      (fun b => b == 0x20 || b == 0x09) = value := by
  have hdrop : (name ++ 0x3a :: 0x20 :: value).dropWhile (· != 0x3a) = 0x3a :: 0x20 :: value := by
    rw [List.dropWhile_append_of_pos fun b hb => by simpa using hname b hb]
    simp
  rw [hdrop, List.drop_one, List.tail_cons]
  cases value with
  | nil => rfl
  | cons b value =>
    simp only [List.head?_cons, ne_eq, Option.some.injEq] at hvalue
    simp [hvalue.1, hvalue.2]

/-- A header line is read by its name and the value behind the blank. -/
theorem readHeader_field {length : Option Nat} (hshort : name.length < 32)
    (hvalue : value.head? ≠ some 0x20 ∧ value.head? ≠ some 0x09) :
    readHeader length (name ++ 0x3a :: 0x20 :: value) =
      if asciiCaseEq name (ascii "Content-Length") then
        match parseU value 0 httpBodyMax with
        | none => .error .eproto
        | some n => .ok (some n)
      else if asciiCaseEq name (ascii "Transfer-Encoding") then .error .eproto
      else .ok length := by
  unfold readHeader
  rw [field_name hname, field_value hname hvalue, if_neg (by simp), if_neg (Nat.not_le.mpr hshort)]

end Field

/-- One turn of the header loop over a line that is not blank. -/
theorem readHeaders_line {stalls : Bool} {turns : Nat} {length : Option Nat} {line : Bytes}
    (rest : Bytes) (hne : line ≠ []) (hline : ∀ b ∈ line, isLineByte b = true)
    (hcap : line.length ≤ 255) :
    readHeaders stalls (turns + 1) length (line ++ 0x0d :: 0x0a :: rest) =
      (readHeader length line).bind fun length => readHeaders stalls turns length rest := by
  rw [readHeaders, tcpReadline_line rest hline (by simpa [httpLineMax] using hcap)]
  show (if line = [] then _ else _) = _
  rw [if_neg hne]
  rfl

theorem readHeaders_blank {stalls : Bool} {turns : Nat} {length : Option Nat} (rest : Bytes) :
    readHeaders stalls (turns + 1) length (0x0d :: 0x0a :: rest) = .ok (length, rest) := rfl

/-- The text of a field value: it is not long and does not start with a blank. -/
structure FieldText (value : Bytes) : Prop where
  line : ∀ b ∈ value, isLineByte b = true
  head : value.head? ≠ some 0x20
  length : value.length ≤ 200

theorem FieldText.head_tab {value : Bytes} (h : FieldText value) : value.head? ≠ some 0x09 := by
  intro heq
  have hmem := List.mem_of_mem_head? heq
  exact absurd (h.line _ hmem) (by decide)

theorem fieldText_decimal {n : Nat} (h : n < 10 ^ 4) : FieldText (decimal n) where
  line := fun b hb =>
    isLineByte_of_isPlain (isPlain_of_isAlnum (isAlnum_of_isDigit (decimal_isDigit n b hb)))
  head := by
    intro heq
    exact absurd (decimal_isDigit n _ (List.mem_of_mem_head? heq)) (by decide)
  length := by
    have := decimal_length_le (by decide) h
    omega

/-- The names of the header fields of a response. -/
def responseFields : List Bytes :=
  [ascii "Content-Type", ascii "Content-Length", ascii "Connection"]

theorem responseFields_name {name : Bytes} (h : name ∈ responseFields) :
    (∀ b ∈ name, isLineByte b = true ∧ b ≠ 0x3a) ∧ name ≠ [] ∧ name.length ≤ 14 ∧
      asciiCaseEq name (ascii "Transfer-Encoding") = false := by
  simp only [responseFields, List.mem_cons, List.not_mem_nil, or_false] at h
  rcases h with rfl | rfl | rfl <;>
    exact ⟨by decide +kernel, by decide, by decide, by decide +kernel⟩

theorem readHeaders_field {stalls : Bool} {turns : Nat} {length : Option Nat} {name value : Bytes}
    (rest : Bytes) (hname : name ∈ responseFields) (hvalue : FieldText value) :
    readHeaders stalls (turns + 1) length (name ++ 0x3a :: 0x20 :: value ++ 0x0d :: 0x0a :: rest) =
      (if asciiCaseEq name (ascii "Content-Length") then
        match parseU value 0 httpBodyMax with
        | none => .error .eproto
        | some n => .ok (some n)
      else .ok length : Except Status (Option Nat)).bind
        fun length => readHeaders stalls turns length rest := by
  obtain ⟨hbytes, hne, hshort, hencoding⟩ := responseFields_name hname
  have hcap := hvalue.length
  rw [readHeaders_line rest (by simp) ?_ (by simp; omega),
    readHeader_field (fun b hb => (hbytes b hb).2) (by omega) ⟨hvalue.head, hvalue.head_tab⟩,
    hencoding]
  · rfl
  · intro b hb
    simp only [List.mem_append, List.mem_cons] at hb
    rcases hb with hb | rfl | rfl | hb
    · exact (hbytes b hb).1
    · decide
    · decide
    · exact hvalue.line b hb

/-- The text of a response, line by line. -/
def responseText (status : Nat) (reason contentType body : Bytes) : Bytes :=
  ascii "HTTP/1.1 " ++ decimal status ++ ascii " " ++ reason ++ 0x0d :: 0x0a ::
    (ascii "Content-Type" ++ 0x3a :: 0x20 :: contentType ++ 0x0d :: 0x0a ::
      (ascii "Content-Length" ++ 0x3a :: 0x20 :: decimal body.length ++ 0x0d :: 0x0a ::
        (ascii "Connection" ++ 0x3a :: 0x20 :: ascii "close" ++ 0x0d :: 0x0a ::
          0x0d :: 0x0a :: body)))

theorem httpWriteResponse_text {status : Nat} {reason contentType body written : Bytes}
    (h : httpWriteResponse status reason contentType body = some written) :
    written = responseText status reason contentType body := by
  unfold httpWriteResponse at h
  dsimp only at h
  split at h
  · simp at h
  · rw [← Option.some.inj h]
    simp [responseText, ascii]

/-- A response that the index wrote is read as its status and its body. -/
theorem readResponse_responseText {status : Nat} {reason contentType body : Bytes}
    (hlow : 100 ≤ status) (hhigh : status ≤ 999) (hreason : ∀ b ∈ reason, isLineByte b = true)
    (hreasonCap : reason.length ≤ 240) (htype : FieldText contentType)
    (hbody : body.length ≤ httpBodyMax) (stalls : Bool) :
    readResponse ⟨responseText status reason contentType body, stalls⟩ = .ok (status, body) := by
  have hstatusLen := decimal_length_le (by decide) (show status < 10 ^ 3 by omega)
  have hlength : FieldText (decimal body.length) :=
    fieldText_decimal (by simp only [httpBodyMax, bufSize] at hbody; omega)
  have hclose : FieldText (ascii "close") := ⟨by decide +kernel, by decide, by decide⟩
  have hfixed : ∀ b ∈ ascii "HTTP/1.1 " ++ ascii " ", isLineByte b = true := by decide +kernel
  have hsizes : (ascii "HTTP/1.1 ").length + (ascii " ").length = 10 := by decide
  have hline : ∀ b ∈ ascii "HTTP/1.1 " ++ decimal status ++ ascii " " ++ reason,
      isLineByte b = true := by
    intro b hb
    simp only [List.mem_append] at hb
    rcases hb with ((hb | hb) | hb) | hb
    · exact hfixed b (List.mem_append_left _ hb)
    · exact (fieldText_decimal (by omega)).line b hb
    · exact hfixed b (List.mem_append_right _ hb)
    · exact hreason b hb
  have hdeclared : parseU (decimal body.length) 0 httpBodyMax = some body.length :=
    parseU_decimal (Nat.zero_le _) hbody
  have hheaders : ∀ rest, readHeaders stalls httpHeadersMax none
      (ascii "Content-Type" ++ 0x3a :: 0x20 :: contentType ++ 0x0d :: 0x0a ::
        (ascii "Content-Length" ++ 0x3a :: 0x20 :: decimal body.length ++ 0x0d :: 0x0a ::
          (ascii "Connection" ++ 0x3a :: 0x20 :: ascii "close" ++ 0x0d :: 0x0a ::
            0x0d :: 0x0a :: rest))) = .ok (some body.length, rest) := by
    intro rest
    rw [httpHeadersMax, readHeaders_field _ (by decide) htype]
    show readHeaders stalls 31 none _ = _
    rw [readHeaders_field _ (by decide) hlength, hdeclared]
    show readHeaders stalls 30 (some body.length) _ = _
    rw [readHeaders_field _ (by decide) hclose]
    show readHeaders stalls 29 (some body.length) _ = _
    exact readHeaders_blank rest
  rw [readResponse, responseText, tcpReadline_line _ hline
    (by simp only [httpLineMax, List.length_append, List.length_nil]; omega)]
  show (parseStatusLine (ascii "HTTP/1.1 " ++ decimal status ++ ascii " " ++ reason)).bind _ = _
  rw [parseStatusLine_response hlow hhigh]
  show (readHeaders stalls httpHeadersMax none _).bind _ = _
  rw [hheaders]
  show (if body.length < body.length then _ else _) = _
  rw [if_neg (Nat.lt_irrefl _)]
  show Except.ok (status, body.take body.length) = _
  rw [List.take_length]

end Redp2p
