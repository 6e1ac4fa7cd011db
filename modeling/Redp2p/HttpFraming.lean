import Redp2p.HttpServer

/-! The framing of HTTP messages between the client and the index: which requests of the client the
index takes for complete, and that the client reads every response of the index back. -/

namespace Redp2p

open ByteString

/-! ### Lines -/

/-- A line of a message head: it is not empty and no line ending is in it. -/
structure HeadLine (line : Bytes) : Prop where
  ne : line ≠ []
  bytes : ∀ b ∈ line, b ≠ 0x0d ∧ b ≠ 0x0a

theorem headLine_of_bytes {line : Bytes} (hne : line ≠ []) (h : ∀ b ∈ line, 0x20 ≤ b.toNat) :
    HeadLine line ∧ 0 ∉ line := by
  refine ⟨⟨hne, fun b hb => ⟨?_, ?_⟩⟩, fun hb => absurd (h 0 hb) (by decide)⟩
  · rintro rfl
    exact absurd (h _ hb) (by decide)
  · rintro rfl
    exact absurd (h _ hb) (by decide)

def headText (lines : List Bytes) : Bytes := lines.flatMap fun line => line ++ crlf

theorem headText_cons (line : Bytes) (lines : List Bytes) (rest : Bytes) :
    headText (line :: lines) ++ rest = line ++ 0x0d :: 0x0a :: (headText lines ++ rest) := by
  simp [headText, crlf]

theorem headText_length_cons (line : Bytes) (lines : List Bytes) :
    (headText (line :: lines)).length = line.length + 2 + (headText lines).length := by
  simp [headText, crlf]
  omega

theorem HeadLine.length_pos {line : Bytes} (h : HeadLine line) : 0 < line.length :=
  List.length_pos_iff.mpr h.ne

theorem HeadLine.head_ne {line : Bytes} (h : HeadLine line) (rest : Bytes) :
    (line ++ rest).head? ≠ some 0x0d := by
  cases line with
  | nil => exact absurd rfl h.ne
  | cons b line =>
    rw [List.cons_append, List.head?_cons, ne_eq, Option.some.injEq]
    exact (h.bytes b (by simp)).1

theorem strstr_crlf {line : Bytes} (hline : ∀ b ∈ line, b ≠ 0x0d ∧ b ≠ 0x0a) (rest : Bytes) :
    strstr crlf (line ++ 0x0d :: 0x0a :: rest) = some line.length := by
  induction line with
  | nil => simp [strstr, crlf]
  | cons b line ih =>
    have hb := (hline b (by simp)).1
    rw [List.cons_append, strstr, if_neg (by simp [crlf, Ne.symm hb]),
      ih fun c hc => hline c (by simp [hc])]
    simp

/-- A blank line is searched for behind every line that does not precede it. -/
theorem strstr_line {line : Bytes} (hline : ∀ b ∈ line, b ≠ 0x0d ∧ b ≠ 0x0a) {rest : Bytes}
    (hrest : rest.head? ≠ some 0x0d) :
    strstr (crlf ++ crlf) (line ++ 0x0d :: 0x0a :: rest) =
      (strstr (crlf ++ crlf) rest).map (· + (line.length + 2)) := by
  induction line with
  | nil =>
    have hfirst : ((crlf ++ crlf).isPrefixOf (0x0d :: 0x0a :: rest)) = false := by
      cases rest with
      | nil => rfl
      | cons b rest =>
        rw [List.head?_cons, ne_eq, Option.some.injEq] at hrest
        simp [crlf, List.isPrefixOf, Ne.symm hrest]
    rw [List.nil_append, strstr, if_neg (by simp [hfirst]), strstr, if_neg (by simp [crlf])]
    simp [Function.comp_def, Nat.add_assoc]
  | cons b line ih =>
    have hb := (hline b (by simp)).1
    rw [List.cons_append, strstr, if_neg (by simp [crlf, Ne.symm hb]),
      ih fun c hc => hline c (by simp [hc])]
    simp [Function.comp_def, Nat.add_assoc, Nat.add_comm 2]

theorem strstr_blank {line : Bytes} (hline : ∀ b ∈ line, b ≠ 0x0d ∧ b ≠ 0x0a) (rest : Bytes) :
    strstr (crlf ++ crlf) (line ++ 0x0d :: 0x0a :: 0x0d :: 0x0a :: rest) = some line.length := by
  induction line with
  | nil => simp [strstr, crlf]
  | cons b line ih =>
    have hb := (hline b (by simp)).1
    rw [List.cons_append, strstr, if_neg (by simp [crlf, Ne.symm hb]),
      ih fun c hc => hline c (by simp [hc])]
    simp

/-- The blank line of a head. -/
theorem strstr_head {line : Bytes} {lines : List Bytes} (hlines : ∀ l ∈ line :: lines, HeadLine l)
    (body : Bytes) :
    strstr (crlf ++ crlf) (headText (line :: lines) ++ (crlf ++ body)) =
      some ((headText (line :: lines)).length - 2) := by
  induction lines generalizing line with
  | nil =>
    have hline := hlines line (by simp)
    rw [headText_cons, headText_length_cons]
    simpa [headText, crlf] using strstr_blank hline.bytes body
  | cons next lines ih =>
    have hline := hlines line (by simp)
    have hnext := hlines next (by simp)
    have hpos := headText_length_cons next lines
    rw [headText_cons, headText_length_cons line, strstr_line hline.bytes ?_,
      ih fun l hl => hlines l (by simp at hl ⊢; exact Or.inr hl), Option.map_some]
    · congr 1
      omega
    · rw [headText_cons]
      exact hnext.head_ne _

/-! ### Header lines -/

/-- One header line as the index copies it, with its carriage return. -/
def copiedHeader (headers : RequestHeaders) (line : Bytes) : Option RequestHeaders :=
  if line.length + 1 ≥ httpLineMax then none else requestHeader headers line

theorem requestHeaders_lines {lines : List Bytes} (hlines : ∀ l ∈ lines, HeadLine l) (rest : Bytes)
    {turns : Nat} (hturns : lines.length ≤ turns) (headers : RequestHeaders) :
    requestHeaders turns ((headText lines).length - 2) (headText lines ++ rest) headers =
      lines.foldlM copiedHeader headers := by
  induction lines generalizing turns headers with
  | nil =>
    cases turns with
    | zero => rfl
    | succ turns => simp [requestHeaders, headText]
  | cons line lines ih =>
    have hline := hlines line (by simp)
    have hpos := hline.length_pos
    obtain ⟨turns, rfl⟩ : ∃ n, turns = n + 1 := ⟨turns - 1, by simp at hturns; omega⟩
    have hcopied : (headText (line :: lines) ++ rest).takeWhile (· != 0x0a) = line ++ [0x0d] := by
      rw [headText_cons, List.takeWhile_append_of_pos fun b hb => by simpa using (hline.bytes b hb).2]
      simp
    have hnewline : (headText (line :: lines) ++ rest).contains 0x0a = true := by
      rw [headText_cons]
      simp
    have hafter : (headText (line :: lines) ++ rest).drop (line.length + 2) = headText lines ++ rest := by
      rw [headText_cons]
      simp
    have hleft : ¬ (headText (line :: lines)).length - 2 = 0 := by
      rw [headText_length_cons]
      omega
    have hblank : line ++ [0x0d] ≠ [0x0d] := by
      intro heq
      have hlength := congrArg List.length heq
      simp only [List.length_append, List.length_cons, List.length_nil] at hlength
      omega
    have hstrip : stripReturn (line ++ [0x0d]) = line := by simp [stripReturn]
    have hrest : (headText (line :: lines)).length - 2 - (line.length + 2) = (headText lines).length - 2 := by
      rw [headText_length_cons]
      omega
    rw [requestHeaders, if_neg (by rw [hnewline]; simpa using hleft)]
    simp only [hcopied]
    rw [if_neg hblank, List.length_append, List.length_singleton, List.foldlM_cons]
    unfold copiedHeader
    by_cases hlong : line.length + 1 ≥ httpLineMax
    · rw [if_pos hlong, if_pos hlong]
      rfl
    · rw [if_neg hlong, if_neg hlong, hstrip, hrest, hafter]
      congr 1
      funext headers
      exact ih (fun l hl => hlines l (by simp [hl])) (by simp at hturns; omega) headers

/-- A field line is read by its name and the value behind the blank. -/
theorem requestHeader_field {name value : Bytes} (hname : ∀ b ∈ name, b ≠ 0x3a)
    (hshort : name.length < 32) (hvalue : value.head? ≠ some 0x20 ∧ value.head? ≠ some 0x09)
    (headers : RequestHeaders) :
    requestHeader headers (name ++ 0x3a :: 0x20 :: value) =
      if asciiCaseEq name (ascii "Content-Length") then
        (parseU value 0 httpBodyMax).map fun n => { headers with contentLength := some n }
      else if asciiCaseEq name (ascii "Transfer-Encoding") then
        some { headers with transferEncoding := true }
      else some headers := by
  unfold requestHeader
  rw [field_name hname, field_value hname hvalue, if_neg (by simp), if_neg (Nat.not_le.mpr hshort)]

/-! ### Requests -/

/-- The parts of a well-formed request line with the method `POST`. -/
structure IsRequestLine (path version : Bytes) : Prop where
  ne : path ≠ []
  bytes : ∀ b ∈ path, 0x20 < b.toNat
  version : version = ascii "HTTP/1.1" ∨ version = ascii "HTTP/1.0"

def startText (path version : Bytes) : Bytes := ascii "POST" ++ 0x20 :: (path ++ 0x20 :: version)

theorem startText_method (path version rest : Bytes) :
    parseField (startText path version ++ rest) 16 (some 0x20) =
      some (ascii "POST", path ++ 0x20 :: (version ++ rest)) := by
  have hline : startText path version ++ rest =
      ascii "POST" ++ 0x20 :: (path ++ 0x20 :: (version ++ rest)) := by
    simp [startText]
  rw [hline]
  exact parseField_delim (by decide +kernel) (by decide) (by decide) _

section RequestLine

variable {path version : Bytes} (h : IsRequestLine path version)

include h

theorem IsRequestLine.startText_bytes : ∀ b ∈ startText path version, 0x20 ≤ b.toNat := by
  have hfixed : ∀ b ∈ ascii "POST" ++ ascii "HTTP/1.1" ++ ascii "HTTP/1.0", 0x20 ≤ b.toNat := by
    decide +kernel
  have hversion : ∀ b ∈ version, 0x20 ≤ b.toNat := by
    intro b hb
    rcases h.version with rfl | rfl
    · exact hfixed b (by simp [hb])
    · exact hfixed b (by simp [hb])
  intro b hb
  simp only [startText, List.mem_append, List.mem_cons] at hb
  rcases hb with hb | rfl | hb | rfl | hb
  · exact hfixed b (by simp [hb])
  · decide
  · exact Nat.le_of_lt (h.bytes b hb)
  · decide
  · exact hversion b hb

theorem IsRequestLine.headLine : HeadLine (startText path version) ∧ 0 ∉ startText path version :=
  headLine_of_bytes (by simp [startText, ascii]) h.startText_bytes

theorem IsRequestLine.pathField (rest : Bytes) :
    parseField (path ++ 0x20 :: rest) 128 (some 0x20) =
      if path.length < 128 then some (path, rest) else none := by
  have hspace : ∀ b ∈ path, b ≠ 0x20 := by
    rintro b hb rfl
    exact absurd (h.bytes _ hb) (by decide)
  by_cases hshort : path.length < 128
  · rw [if_pos hshort]
    exact parseField_delim hspace h.ne hshort rest
  · rw [if_neg hshort]
    have hfield : (path ++ 0x20 :: rest).takeWhile (· != 0x20) = path := by
      rw [List.takeWhile_append_of_pos fun b hb => by simpa using hspace b hb]
      simp
    unfold parseField
    dsimp only
    rw [hfield, if_pos (Or.inr (Or.inr (Nat.not_lt.mp hshort)))]

theorem IsRequestLine.versionField (rest : Bytes) :
    (!startsWith (ascii "HTTP/1.1") (version ++ rest) &&
      !startsWith (ascii "HTTP/1.0") (version ++ rest)) = false := by
  have hself : ∀ version, startsWith version (version ++ rest) = true := by
    intro version
    rw [startsWith, List.isPrefixOf_iff_prefix]
    exact List.prefix_append version rest
  rcases h.version with rfl | rfl
  · rw [hself, Bool.not_true, Bool.false_and]
  · rw [hself, Bool.not_true, Bool.and_false]

end RequestLine

theorem headText_bytes {lines : List Bytes} (h : ∀ line ∈ lines, 0 ∉ line) : ∀ b ∈ headText lines, b ≠ 0 := by
  rintro b hb rfl
  obtain ⟨line, hline, hb⟩ := List.mem_flatMap.mp hb
  rcases List.mem_append.mp hb with hb | hb
  · exact h line hline hb
  · exact absurd hb (by decide)

theorem length_le_headText (lines : List Bytes) : lines.length ≤ (headText lines).length := by
  induction lines with
  | nil => exact Nat.le_refl 0
  | cons line lines ih =>
    rw [headText_length_cons, List.length_cons]
    omega

/-- The scan of a request by its parts: its path, its header lines, and the bytes behind its head. -/
theorem indexRequestParse_fields {path version : Bytes} (h : IsRequestLine path version)
    {fields : List Bytes} (hfields : ∀ line ∈ fields, HeadLine line ∧ 0 ∉ line) (rest : Bytes)
    (hmax : (headText (startText path version :: fields) ++ (crlf ++ rest)).length < httpBufMax) :
    indexRequestParse (headText (startText path version :: fields) ++ (crlf ++ rest)) =
      if path.length < 128 then
        match fields.foldlM copiedHeader ⟨none, false⟩ with
        | none => .refused 400
        | some headers =>
          if headers.transferEncoding then .refused 501
          else if headers.contentLength.getD 0 > httpBodyMax then .refused 413
          else if rest.length < headers.contentLength.getD 0 then .more
          else .complete path (rest.take (headers.contentLength.getD 0))
      else .refused 400 := by
  have hlines : ∀ line ∈ startText path version :: fields, HeadLine line ∧ 0 ∉ line :=
    List.forall_mem_cons.mpr ⟨h.headLine, hfields⟩
  have hcstr : cstr (headText (startText path version :: fields) ++ (crlf ++ rest)) =
      headText (startText path version :: fields) ++ (crlf ++ cstr rest) := by
    rw [cstr, List.takeWhile_append_of_pos fun b hb => by
      simpa using headText_bytes (fun line hline => (hlines line hline).2) b hb,
      List.takeWhile_append_of_pos (by decide +kernel), cstr]
  have hheaderEnd := strstr_head (fun line hline => (hlines line hline).1) (cstr rest)
  have hlineEnd : strstr crlf (headText (startText path version :: fields) ++ (crlf ++ cstr rest)) =
      some (startText path version).length := by
    rw [headText_cons]
    exact strstr_crlf h.headLine.1.bytes _
  have hdrop : (headText (startText path version :: fields) ++ (crlf ++ cstr rest)).drop
      ((startText path version).length + 2) = headText fields ++ (crlf ++ cstr rest) := by
    rw [headText_cons]
    simp
  have hstart := headText_length_cons (startText path version) fields
  have hleft : (headText (startText path version :: fields)).length - 2 -
      ((startText path version).length + 2) = (headText fields).length - 2 := by
    omega
  have hturns := length_le_headText fields
  have hcrlf : crlf.length = 2 := rfl
  unfold indexRequestParse
  simp only [hcstr, hheaderEnd, hlineEnd, hdrop, hleft]
  rw [if_neg (by intro hnil; rw [← List.length_eq_zero_iff, List.length_append] at hnil; omega),
    if_neg (Nat.not_le.mpr hmax),
    requestHeaders_lines (fun line hline => (hfields line hline).1) _
      (by rw [List.length_append]; omega)]
  have hmethod : parseField (headText (startText path version :: fields) ++ (crlf ++ cstr rest)) 16
      (some 0x20) = some (ascii "POST",
        path ++ 0x20 :: (version ++ 0x0d :: 0x0a :: (headText fields ++ (crlf ++ cstr rest)))) := by
    rw [headText_cons]
    exact startText_method path version _
  rw [hmethod]
  dsimp only
  rw [if_neg (by simp), h.pathField]
  by_cases hshort : path.length < 128
  · rw [if_pos hshort, if_pos hshort]
    dsimp only
    rw [h.versionField, if_neg nofun]
    cases fields.foldlM copiedHeader ⟨none, false⟩ with
    | none => rfl
    | some headers =>
      have hbody : (headText (startText path version :: fields) ++ (crlf ++ rest)).drop
          ((headText (startText path version :: fields)).length - 2 + 4) = rest := by
        rw [← List.append_assoc]
        exact List.drop_left' (by rw [List.length_append]; omega)
      have hshorter : (headText (startText path version :: fields) ++ (crlf ++ rest)).length <
          (headText (startText path version :: fields)).length - 2 + 4 + headers.contentLength.getD 0 ↔
            rest.length < headers.contentLength.getD 0 := by
        rw [List.length_append, List.length_append]
        omega
      dsimp only
      unfold requestBody
      dsimp only
      rw [hbody]
      simp only [hshorter]
  · rw [if_neg hshort, if_neg hshort]

/-! ### Requests of the client -/

/-- The host names and addresses that a command line or a runner can supply. -/
structure IsHost (host : Bytes) : Prop where
  ne : host ≠ []
  bytes : ∀ b ∈ host, 0x20 < b.toNat ∧ b ≠ 0x7f
  length : host.length ≤ 255

def requestLine : Bytes := ascii "POST /redp2p/ HTTP/1.1"

def requestFields (host : Bytes) (length : Nat) : List Bytes :=
  [ascii "Host" ++ 0x3a :: 0x20 :: host, ascii "Content-Length" ++ 0x3a :: 0x20 :: decimal length,
    ascii "Content-Type: application/json", ascii "Connection: close"]

/-- The bytes of a request, line by line. -/
theorem requestBytes_lines {host body : Bytes} (hhost : host.length ≤ 255)
    (hbody : body.length ≤ httpBodyMax) :
    requestBytes host body =
      some (headText (requestLine :: requestFields host body.length) ++ (crlf ++ body)) := by
  have hdigits := decimal_length_le (by decide)
    (show body.length < 10 ^ 4 by simp only [httpBodyMax, bufSize] at hbody; omega)
  have hfixed : (ascii "POST /redp2p/ HTTP/1.1\r\nHost: ").length +
      (ascii "\r\nContent-Length: ").length +
      (ascii "\r\nContent-Type: application/json\r\nConnection: close\r\n\r\n").length = 103 := by decide
  unfold requestBytes
  dsimp only
  rw [if_neg]
  · simp [headText, requestFields, requestLine, crlf, ascii]
  · simp only [List.length_append, httpLineMax]
    omega

theorem requestFields_lines {host : Bytes} (hhost : IsHost host) (length : Nat) :
    ∀ line ∈ requestFields host length, HeadLine line ∧ 0 ∉ line := by
  have hname : ∀ name ∈ [ascii "Host", ascii "Content-Length", ascii "Content-Type: application/json",
      ascii "Connection: close"], name ≠ [] ∧ ∀ b ∈ name, 0x20 ≤ b.toNat := by
    simp only [List.forall_mem_cons]
    exact ⟨⟨by decide, by decide +kernel⟩, ⟨by decide, by decide +kernel⟩,
      ⟨by decide, by decide +kernel⟩, ⟨by decide, by decide +kernel⟩, nofun⟩
  have hfield : ∀ name value : Bytes, (name ≠ [] ∧ ∀ b ∈ name, 0x20 ≤ b.toNat) →
      (∀ b ∈ value, 0x20 ≤ b.toNat) →
        HeadLine (name ++ 0x3a :: 0x20 :: value) ∧ 0 ∉ name ++ 0x3a :: 0x20 :: value := by
    intro name value hname hvalue
    refine headLine_of_bytes (by simp) fun b hb => ?_
    simp only [List.mem_append, List.mem_cons] at hb
    rcases hb with hb | rfl | rfl | hb
    · exact hname.2 b hb
    · decide
    · decide
    · exact hvalue b hb
  have hdigit : ∀ b ∈ decimal length, 0x20 ≤ b.toNat := by
    intro b hb
    have hdigit := decimal_isDigit length b hb
    simp only [isDigit, inRange, Bool.and_eq_true, decide_eq_true_eq] at hdigit
    exact Nat.le_trans (by decide) hdigit.1
  intro line hline
  simp only [requestFields, List.mem_cons, List.not_mem_nil, or_false] at hline
  rcases hline with rfl | rfl | rfl | rfl
  · exact hfield _ _ (hname _ (by simp)) fun b hb => Nat.le_of_lt (hhost.bytes b hb).1
  · exact hfield _ _ (hname _ (by simp)) hdigit
  · exact headLine_of_bytes (hname _ (by simp)).1 (hname _ (by simp)).2
  · exact headLine_of_bytes (hname _ (by simp)).1 (hname _ (by simp)).2

/-- The headers of a request are read when the line of its host fits the line buffer. -/
theorem requestFields_headers {host : Bytes} (hhost : IsHost host) {length : Nat}
    (hlength : length ≤ httpBodyMax) :
    (requestFields host length).foldlM copiedHeader ⟨none, false⟩ =
      if host.length ≤ 248 then some ⟨some length, false⟩ else none := by
  have hdigits := decimal_length_le (by decide)
    (show length < 10 ^ 4 by simp only [httpBodyMax, bufSize] at hlength; omega)
  have hnames : ∀ name ∈ [ascii "Host", ascii "Content-Length"],
      (∀ b ∈ name, b ≠ 0x3a) ∧ name.length < 32 := by
    simp only [List.forall_mem_cons]
    exact ⟨⟨by decide +kernel, by decide⟩, ⟨by decide +kernel, by decide⟩, by simp⟩
  have hhead : host.head? ≠ some 0x20 ∧ host.head? ≠ some 0x09 := by
    constructor
    · intro heq
      exact absurd (hhost.bytes _ (List.mem_of_mem_head? heq)).1 (by decide)
    · intro heq
      exact absurd (hhost.bytes _ (List.mem_of_mem_head? heq)).1 (by decide)
  have hdigit : (decimal length).head? ≠ some 0x20 ∧ (decimal length).head? ≠ some 0x09 := by
    constructor
    · intro heq
      exact absurd (decimal_isDigit length _ (List.mem_of_mem_head? heq)) (by decide)
    · intro heq
      exact absurd (decimal_isDigit length _ (List.mem_of_mem_head? heq)) (by decide)
  have hhostLine : ∀ headers, copiedHeader headers (ascii "Host" ++ 0x3a :: 0x20 :: host) =
      if host.length ≤ 248 then some headers else none := by
    intro headers
    have hsize : (ascii "Host" ++ 0x3a :: 0x20 :: host).length = 6 + host.length := by
      simp [ascii]
      omega
    unfold copiedHeader
    rw [hsize]
    by_cases hfits : host.length ≤ 248
    · rw [if_neg (by simp only [httpLineMax]; omega), if_pos hfits,
        requestHeader_field (hnames _ (by simp)).1 (hnames _ (by simp)).2 hhead]
      rfl
    · rw [if_pos (by simp only [httpLineMax]; omega), if_neg hfits]
  have hlengthLine : ∀ headers : RequestHeaders,
      copiedHeader headers (ascii "Content-Length" ++ 0x3a :: 0x20 :: decimal length) =
        some { headers with contentLength := some length } := by
    intro headers
    have hsize : (ascii "Content-Length" ++ 0x3a :: 0x20 :: decimal length).length =
        16 + (decimal length).length := by
      simp [ascii]
      omega
    have hself : asciiCaseEq (ascii "Content-Length") (ascii "Content-Length") = true := by decide
    unfold copiedHeader
    rw [hsize, if_neg (by simp only [httpLineMax]; omega),
      requestHeader_field (hnames _ (by simp)).1 (hnames _ (by simp)).2 hdigit, if_pos hself,
      parseU_decimal (Nat.zero_le _) hlength]
    rfl
  have hother : ∀ line ∈ [ascii "Content-Type: application/json", ascii "Connection: close"],
      ∀ headers, copiedHeader headers line = some headers := by
    intro line hline headers
    simp only [List.mem_cons, List.not_mem_nil, or_false] at hline
    rcases hline with rfl | rfl
    · rfl
    · rfl
  rw [requestFields, List.foldlM_cons, hhostLine]
  by_cases hfits : host.length ≤ 248
  · rw [if_pos hfits, if_pos hfits, Option.bind_eq_bind, Option.bind_some, List.foldlM_cons, hlengthLine,
      Option.bind_eq_bind, Option.bind_some, List.foldlM_cons, hother _ (by simp),
      Option.bind_eq_bind, Option.bind_some, List.foldlM_cons, hother _ (by simp)]
    rfl
  · rw [if_neg hfits, if_neg hfits]
    rfl

/-- A request of the client is complete exactly when the line of its host fits the line buffer. -/
theorem indexRequestParse_request {host body : Bytes} (hhost : IsHost host)
    (hbody : body.length ≤ httpBodyMax) :
    indexRequestParse (headText (requestLine :: requestFields host body.length) ++ (crlf ++ body)) =
      if host.length ≤ 248 then .complete (ascii "/redp2p/") body else .refused 400 := by
  have hline : IsRequestLine (ascii "/redp2p/") (ascii "HTTP/1.1") :=
    ⟨by decide, by decide +kernel, Or.inl rfl⟩
  have hstart : requestLine = startText (ascii "/redp2p/") (ascii "HTTP/1.1") := by decide +kernel
  have hdigits := decimal_length_le (by decide)
    (show body.length < 10 ^ 4 by simp only [httpBodyMax, bufSize] at hbody; omega)
  have hhostLength := hhost.length
  have hlength : (headText (requestLine :: requestFields host body.length) ++ (crlf ++ body)).length =
      (decimal body.length).length + host.length + body.length + 103 := by
    simp [headText, requestFields, requestLine, crlf, ascii]
    omega
  have hmax : (headText (requestLine :: requestFields host body.length) ++ (crlf ++ body)).length <
      httpBufMax := by
    rw [hlength]
    simp only [httpBufMax, httpLineMax, httpHeadersMax, httpBodyMax, bufSize] at hbody ⊢
    omega
  rw [hstart] at hmax ⊢
  rw [indexRequestParse_fields hline (requestFields_lines hhost body.length) body hmax, if_pos (by decide),
    requestFields_headers hhost hbody]
  by_cases hfits : host.length ≤ 248
  · rw [if_pos hfits, if_pos hfits]
    dsimp only
    rw [if_neg (by simp), Option.getD_some, if_neg (by omega), if_neg (by omega), List.take_length]
  · rw [if_neg hfits, if_neg hfits]

/-! ### Responses of the index -/

/-- The reason phrases of the replies and of the refusals of a scan. -/
def indexReasons : List Bytes :=
  [ascii "OK", ascii "Bad Request", ascii "Forbidden", ascii "Not Found", ascii "Internal Server Error",
    ascii "Service Unavailable", ascii "Error", ascii "Payload Too Large", ascii "Method Not Allowed",
    ascii "Not Implemented", ascii "Request Header Fields Too Large"]

def indexContentTypes : List Bytes := [ascii "application/json", ascii "text/plain"]

theorem httpWriteResponse_read {status : Nat} {reason contentType body : Bytes} (hlow : 100 ≤ status)
    (hhigh : status ≤ 999) (hreason : reason ∈ indexReasons) (htype : contentType ∈ indexContentTypes)
    (hbody : body.length ≤ httpBodyMax) :
    ∃ bytes, httpWriteResponse status reason contentType body = some bytes ∧
      ∀ stalls, readResponse ⟨bytes, stalls⟩ = .ok (status, body) := by
  have hreasons : ∀ reason ∈ indexReasons, reason.length ≤ 64 ∧ reason.all isLineByte = true := by
    decide +kernel
  have htypes : ∀ contentType ∈ indexContentTypes, contentType.length ≤ 64 ∧
      contentType.head? ≠ some 0x20 ∧ contentType.all isLineByte = true := by
    decide +kernel
  obtain ⟨hreasonLength, hreasonBytes⟩ := hreasons reason hreason
  obtain ⟨htypeLength, htypeHead, htypeBytes⟩ := htypes contentType htype
  have hsome := httpWriteResponse_isSome (show status < 1000 by omega) hreasonLength htypeLength
    (show body.length < 10000 by simp only [httpBodyMax, bufSize] at hbody; omega)
  obtain ⟨bytes, hbytes⟩ := Option.isSome_iff_exists.mp hsome
  refine ⟨bytes, hbytes, fun stalls => ?_⟩
  rw [httpWriteResponse_text hbytes]
  exact readResponse_responseText hlow hhigh (List.all_eq_true.mp hreasonBytes) (by omega)
    ⟨List.all_eq_true.mp htypeBytes, htypeHead, by omega⟩ hbody stalls

/-- The index takes a request of the client for complete, with the body that was sent, exactly when the
name of its host leaves room for the line of the host in the line buffer. The client reads every
response of the index as its status and its body. -/
theorem http_framing_iff {host body : Bytes} (hhost : IsHost host)
    (hbody : 1 ≤ body.length ∧ body.length ≤ httpBodyMax) :
    ((∃ bytes, requestBytes host body = some bytes ∧
        indexRequestParse bytes = .complete (ascii "/redp2p/") body) ∧
      ∀ status reason contentType reply, 100 ≤ status → status ≤ 999 → reason ∈ indexReasons →
        contentType ∈ indexContentTypes → reply.length ≤ httpBodyMax → (∀ b ∈ reply, b ≠ 0) →
        ∃ bytes, httpWriteResponse status reason contentType reply = some bytes ∧
          ∀ stalls, readResponse ⟨bytes, stalls⟩ = .ok (status, reply)) ↔ host.length ≤ 248 := by
  have hbytes := requestBytes_lines hhost.length hbody.2
  have hparse := indexRequestParse_request hhost hbody.2
  constructor
  · rintro ⟨⟨bytes, hbytes', hcomplete⟩, -⟩
    rw [hbytes] at hbytes'
    rw [← Option.some.inj hbytes', hparse] at hcomplete
    by_contra hlong
    rw [if_neg hlong] at hcomplete
    exact nomatch hcomplete
  · intro hshort
    rw [if_pos hshort] at hparse
    exact ⟨⟨_, hbytes, hparse⟩, fun _ _ _ _ hlow hhigh hreason htype hreply _ =>
      httpWriteResponse_read hlow hhigh hreason htype hreply⟩

theorem http_framing_localhost :
    IsHost (ascii "localhost") ∧ (1 ≤ (ascii "ping").length ∧ (ascii "ping").length ≤ httpBodyMax) ∧
      (((∃ bytes, requestBytes (ascii "localhost") (ascii "ping") = some bytes ∧
          indexRequestParse bytes = .complete (ascii "/redp2p/") (ascii "ping")) ∧
        ∀ status reason contentType reply, 100 ≤ status → status ≤ 999 → reason ∈ indexReasons →
          contentType ∈ indexContentTypes → reply.length ≤ httpBodyMax → (∀ b ∈ reply, b ≠ 0) →
          ∃ bytes, httpWriteResponse status reason contentType reply = some bytes ∧
            ∀ stalls, readResponse ⟨bytes, stalls⟩ = .ok (status, reply)) ↔
        (ascii "localhost").length ≤ 248) := by
  have hhost : IsHost (ascii "localhost") := ⟨by decide, by decide +kernel, by decide⟩
  have hbody : 1 ≤ (ascii "ping").length ∧ (ascii "ping").length ≤ httpBodyMax := by decide
  exact ⟨hhost, hbody, http_framing_iff hhost hbody⟩

/-- A host name whose header line has 255 bytes, and with its carriage return fills the buffer. -/
def longHost : Bytes := List.replicate 249 0x61

/-- The index refuses a request of the client as malformed. -/
theorem http_framing_refused :
    IsHost longHost ∧ (requestBytes longHost (ascii "ping")).map indexRequestParse = some (.refused 400) := by
  have hhost : IsHost longHost := by
    refine ⟨by decide +kernel, fun b hb => ?_, by decide +kernel⟩
    rw [List.eq_of_mem_replicate hb]
    decide
  refine ⟨hhost, ?_⟩
  have hparse : indexRequestParse (_ ++ (crlf ++ ascii "ping")) = _ :=
    indexRequestParse_request hhost (by decide)
  rw [requestBytes_lines hhost.length (by decide), Option.map_some, hparse]
  decide +kernel

end Redp2p
