import Redp2p.HttpSegments
import Redp2p.HttpFraming

/-! The limits of requests: what the protocol says of a complete request that exceeds one of them, and
which requests the index answers so. -/

namespace Redp2p

open ByteString

/-! ### Header lines -/

def fieldName (line : Bytes) : Bytes := line.takeWhile (· != 0x3a)

/-- The value of a field without the blanks around it. -/
def fieldText (line : Bytes) : Bytes :=
  let isBlank (b : UInt8) : Bool := b == 0x20 || b == 0x09
  ((((line.dropWhile (· != 0x3a)).drop 1).dropWhile isBlank).reverse.dropWhile isBlank).reverse

def isField (name line : Bytes) : Bool := line.contains 0x3a && asciiCaseEq (fieldName line) name

def isContentLength (line : Bytes) : Bool := isField (ascii "Content-Length") line

def isTransferEncoding (line : Bytes) : Bool := isField (ascii "Transfer-Encoding") line

/-- A header line that fits the line buffer with its carriage return, and that the index reads. -/
def AcceptedField (line : Bytes) : Prop :=
  line.length + 1 < httpLineMax ∧ (requestHeader ⟨none, false⟩ line).isSome = true

theorem foldlM_parseDigit {max value n : Nat} {text : Bytes}
    (h : text.foldlM (parseDigit max) value = some n) (hvalue : value ≤ max) :
    (∀ b ∈ text, isDigit b = true) ∧ text.foldl (fun n b => n * 10 + (b.toNat - 0x30)) value = n ∧
      n ≤ max := by
  induction text generalizing value with
  | nil =>
    obtain rfl := Option.some.inj h
    exact ⟨by simp, rfl, hvalue⟩
  | cons b text ih =>
    rw [List.foldlM_cons] at h
    obtain ⟨next, hnext, hrest⟩ := Option.bind_eq_some_iff.mp h
    have hdigit : isDigit b = true := by
      by_contra hnot
      rw [parseDigit, if_pos (by simpa using hnot)] at hnext
      cases hnext
    have hroom : value * 10 + (b.toNat - 0x30) ≤ max := by
      rw [parseDigit, if_neg (by simp [hdigit])] at hnext
      dsimp only at hnext
      split at hnext
      · cases hnext
      split at hnext
      · cases hnext
      omega
    rw [parseDigit_isDigit max value hdigit hroom] at hnext
    obtain rfl := Option.some.inj hnext
    obtain ⟨hdigits, hfold, hle⟩ := ih hrest hroom
    exact ⟨List.forall_mem_cons.mpr ⟨hdigit, hdigits⟩, hfold, hle⟩

/-- What is read as a number is a decimal text of it. -/
theorem parseU_eq_some {text : Bytes} {min max n : Nat} (h : parseU text min max = some n) :
    (∀ b ∈ text, isDigit b = true) ∧ parseDecimal text = n ∧ n ≤ max := by
  unfold parseU at h
  split at h
  · exact nomatch h
  · cases hfold : text.foldlM (parseDigit max) 0 with
    | none =>
      rw [hfold] at h
      exact nomatch h
    | some value =>
      rw [hfold] at h
      dsimp only at h
      split at h
      · exact nomatch h
      · obtain rfl := Option.some.inj h
        exact foldlM_parseDigit hfold (Nat.zero_le max)

theorem fieldText_digits {line : Bytes}
    (h : ∀ b ∈ ((line.dropWhile (· != 0x3a)).drop 1).dropWhile fun b => b == 0x20 || b == 0x09,
      isDigit b = true) :
    fieldText line = ((line.dropWhile (· != 0x3a)).drop 1).dropWhile fun b => b == 0x20 || b == 0x09 := by
  unfold fieldText
  dsimp only
  rw [List.dropWhile_eq_self_iff.mpr, List.reverse_reverse]
  intro hpos
  have hdigit := h _ (List.mem_reverse.mp (List.getElem_mem hpos))
  generalize (List.reverse _)[0] = b at hdigit ⊢
  simp only [Bool.or_eq_true, beq_iff_eq, not_or]
  constructor
  · rintro rfl
    exact absurd hdigit (by decide)
  · rintro rfl
    exact absurd hdigit (by decide)

/-- What a header line adds to those before it. -/
theorem requestHeader_eq {headers headers' : RequestHeaders} {line : Bytes}
    (h : requestHeader headers line = some headers') :
    headers'.transferEncoding = (headers.transferEncoding || isTransferEncoding line) ∧
      ((isContentLength line = false ∧ headers'.contentLength = headers.contentLength) ∨
        (isContentLength line = true ∧ headers'.contentLength = some (parseDecimal (fieldText line)) ∧
          parseDecimal (fieldText line) ≤ httpBodyMax)) := by
  have hnames : ∀ name, asciiCaseEq name (ascii "Content-Length") = true →
      asciiCaseEq name (ascii "Transfer-Encoding") = false := by
    intro name hname
    by_contra hother
    rw [Bool.not_eq_false] at hother
    simp only [asciiCaseEq, beq_iff_eq] at hname hother
    exact absurd (hname.symm.trans hother) (by decide)
  unfold isTransferEncoding isContentLength isField fieldName
  unfold requestHeader at h
  dsimp only at h
  cases hcolon : line.contains 0x3a with
  | false =>
    rw [hcolon, Bool.not_false, if_pos rfl] at h
    obtain rfl := Option.some.inj h
    simp
  | true =>
    rw [hcolon, Bool.not_true, if_neg nofun] at h
    split at h
    · exact nomatch h
    cases hname : asciiCaseEq (line.takeWhile (· != 0x3a)) (ascii "Content-Length") with
    | true =>
      rw [hname, if_pos rfl] at h
      obtain ⟨n, hn, rfl⟩ := Option.map_eq_some_iff.mp h
      obtain ⟨hdigits, hvalue, hle⟩ := parseU_eq_some hn
      rw [hnames _ hname, fieldText_digits hdigits, hvalue]
      exact ⟨by simp, Or.inr ⟨rfl, rfl, hle⟩⟩
    | false =>
      rw [hname, if_neg nofun] at h
      cases hother : asciiCaseEq (line.takeWhile (· != 0x3a)) (ascii "Transfer-Encoding") with
      | true =>
        rw [hother, if_pos rfl] at h
        obtain rfl := Option.some.inj h
        exact ⟨by simp, Or.inl ⟨rfl, rfl⟩⟩
      | false =>
        rw [hother, if_neg nofun] at h
        obtain rfl := Option.some.inj h
        exact ⟨by simp, Or.inl ⟨rfl, rfl⟩⟩

/-- What all header lines declare. -/
theorem copiedHeaders_eq {length : Nat} {fields : List Bytes}
    (hdeclared : ∀ line ∈ fields, isContentLength line = true → parseDecimal (fieldText line) = length)
    {headers headers' : RequestHeaders} (h : fields.foldlM copiedHeader headers = some headers') :
    headers'.transferEncoding = (headers.transferEncoding || fields.any isTransferEncoding) ∧
      (((∀ line ∈ fields, isContentLength line = false) ∧
          headers'.contentLength = headers.contentLength) ∨
        (headers'.contentLength = some length ∧ length ≤ httpBodyMax)) := by
  induction fields generalizing headers with
  | nil =>
    obtain rfl := Option.some.inj h
    simp
  | cons line fields ih =>
    rw [List.foldlM_cons] at h
    obtain ⟨next, hnext, hrest⟩ := Option.bind_eq_some_iff.mp h
    have hheader : requestHeader headers line = some next := by
      unfold copiedHeader at hnext
      split at hnext
      · exact nomatch hnext
      · exact hnext
    obtain ⟨hencoding, hlength⟩ := requestHeader_eq hheader
    obtain ⟨hencodings, hlengths⟩ := ih (fun l hl => hdeclared l (by simp [hl])) hrest
    refine ⟨by rw [hencodings, hencoding, List.any_cons, Bool.or_assoc], ?_⟩
    rcases hlengths with ⟨hnone, hsame⟩ | hset
    · rcases hlength with ⟨hother, hkept⟩ | ⟨hfield, hnew, hle⟩
      · exact Or.inl ⟨List.forall_mem_cons.mpr ⟨hother, hnone⟩, hsame.trans hkept⟩
      · rw [hdeclared line (by simp) hfield] at hnew hle
        exact Or.inr ⟨hsame.trans hnew, hle⟩
    · exact Or.inr hset

/-- The header lines are read when each is accepted. -/
theorem copiedHeaders_isSome (fields : List Bytes) (headers : RequestHeaders) :
    (fields.foldlM copiedHeader headers).isSome = true ↔ ∀ line ∈ fields, AcceptedField line := by
  refine foldlM_isSome_iff (fun headers line => ?_) fields headers
  unfold copiedHeader AcceptedField
  split
  · simp only [Option.isSome_none, Bool.false_eq_true, false_iff]
    omega
  · rw [requestHeader_isSome headers ⟨none, false⟩]
    exact ⟨fun h => ⟨by omega, h⟩, fun h => h.2⟩

/-! ### Complete requests -/

/-- A complete request with the method `POST`. Its body is as long as its header lines declare, which do
not contradict each other. -/
structure CompleteRequest where
  path : Bytes
  version : Bytes
  fields : List Bytes
  length : Nat
  body : Bytes
  start : IsRequestLine path version
  field_lines : ∀ line ∈ fields, HeadLine line ∧ 0 ∉ line
  declared : ∀ line ∈ fields, isContentLength line = true →
    fieldText line ≠ [] ∧ (∀ b ∈ fieldText line, isDigit b = true) ∧
      parseDecimal (fieldText line) = length
  undeclared : (∀ line ∈ fields, isContentLength line = false) → length = 0
  complete : body.length = length

namespace CompleteRequest

/-- The request line and the header lines. -/
def lines (r : CompleteRequest) : List Bytes := startText r.path r.version :: r.fields

/-- The head with its blank line. -/
def head (r : CompleteRequest) : Bytes := headText r.lines ++ crlf

def bytes (r : CompleteRequest) : Bytes := r.head ++ r.body

/-- What the protocol says of the request. -/
def specified (r : CompleteRequest) : Parsed :=
  if r.length > 4095 then .refused 413
  else if r.fields.length > 32 || r.fields.any (fun line => line.length > 256) then .refused 431
  else if r.fields.any isTransferEncoding then .refused 501
  else .complete r.path r.body

/-- The index reads the head of the request. -/
def Readable (r : CompleteRequest) : Prop := r.path.length < 128 ∧ ∀ line ∈ r.fields, AcceptedField line

/-- The request keeps all limits of the index and of the protocol but, maybe, for a transfer encoding. -/
structure Fits (r : CompleteRequest) : Prop where
  readable : r.Readable
  fields : r.fields.length ≤ 32
  length : r.length ≤ 4095
  head : r.head.length ≤ httpLineMax * httpHeadersMax

/-- The header lines exceed the limits of the protocol, and the request fills the buffer before the
index can find anything else in it. -/
structure Overflows (r : CompleteRequest) : Prop where
  fields : r.fields.length > 32 ∨ ∃ line ∈ r.fields, line.length > 256
  length : r.length ≤ 4095
  bytes : httpBufMax ≤ r.bytes.length
  unread : httpBufMax ≤ r.head.length ∨
    (r.Readable ∧ ∀ line ∈ r.fields, isTransferEncoding line = false)

/-! ### Verdicts -/

variable (r : CompleteRequest)

theorem head_length : r.head.length = (headText r.lines).length + 2 := by
  rw [head, List.length_append]
  rfl

theorem four_lt_head : 4 < r.head.length := by
  have hstart := r.start.headLine.1.length_pos
  rw [head_length, lines, headText_length_cons]
  omega

theorem bytes_length : r.bytes.length = r.head.length + r.length := by
  rw [bytes, List.length_append, r.complete]

/-- The blank line of the request, however much of its body is there. -/
theorem strstr_bytes : strstr blankLine (cstr r.bytes) = some (r.head.length - 4) := by
  have hlines : ∀ line ∈ r.lines, HeadLine line ∧ 0 ∉ line :=
    List.forall_mem_cons.mpr ⟨r.start.headLine, r.field_lines⟩
  have hcstr : cstr r.bytes = headText r.lines ++ (crlf ++ cstr r.body) := by
    rw [cstr, bytes, head, List.append_assoc, List.takeWhile_append_of_pos fun b hb => by
      simpa using headText_bytes (fun line hline => (hlines line hline).2) b hb,
      List.takeWhile_append_of_pos (by decide +kernel), cstr]
  rw [hcstr, head_length]
  exact strstr_head (fun line hline => (hlines line hline).1) (cstr r.body)

/-- Before the blank line has arrived the index waits for it, up to its limit. -/
theorem parse_head {k : Nat} (hk : k < r.head.length) (hmax : k < httpBufMax) :
    indexRequestParse (r.bytes.take k) =
      if httpLineMax * httpHeadersMax ≤ k then .refused 431 else .more := by
  have hlength := r.bytes_length
  have hhead := r.four_lt_head
  have htake : (r.bytes.take k).length = k := by
    rw [List.length_take]
    omega
  have hnone : strstr blankLine (cstr (r.bytes.take k)) = none := by
    rw [cstr_take, strstr_take blankLine_ne, strstr_bytes, Option.filter_some, if_neg]
    simp [blankLine, crlf]
    omega
  have hheadless := parse_headless (s := r.bytes.take k) (by omega) k hnone
  rw [List.take_take, Nat.min_self, htake] at hheadless
  exact hheadless

theorem take_bytes (n : Nat) : r.bytes.take (r.head.length + n) = r.head ++ r.body.take n := by
  rw [bytes, List.take_length_add_append]

theorem parse_fields {n : Nat} (hmax : (r.bytes.take (r.head.length + n)).length < httpBufMax) :
    indexRequestParse (r.bytes.take (r.head.length + n)) =
      if r.path.length < 128 then
        match r.fields.foldlM copiedHeader ⟨none, false⟩ with
        | none => .refused 400
        | some headers =>
          if headers.transferEncoding then .refused 501
          else if headers.contentLength.getD 0 > httpBodyMax then .refused 413
          else if (r.body.take n).length < headers.contentLength.getD 0 then .more
          else .complete r.path ((r.body.take n).take (headers.contentLength.getD 0))
      else .refused 400 := by
  rw [take_bytes, head, List.append_assoc] at hmax ⊢
  exact indexRequestParse_fields r.start r.field_lines _ hmax

/-- A head that the index does not read is refused as malformed when it has arrived. -/
theorem parse_unreadable (hnot : ¬ r.Readable) {n : Nat}
    (hmax : (r.bytes.take (r.head.length + n)).length < httpBufMax) :
    indexRequestParse (r.bytes.take (r.head.length + n)) = .refused 400 := by
  rw [r.parse_fields hmax]
  by_cases hpath : r.path.length < 128
  · have hnone : r.fields.foldlM copiedHeader ⟨none, false⟩ = none := by
      rw [← Option.not_isSome_iff_eq_none, copiedHeaders_isSome]
      exact fun hall => hnot ⟨hpath, hall⟩
    rw [if_pos hpath, hnone]
  · rw [if_neg hpath]

theorem parse_readable (hread : r.Readable) {n : Nat}
    (hmax : (r.bytes.take (r.head.length + n)).length < httpBufMax) :
    indexRequestParse (r.bytes.take (r.head.length + n)) =
      if r.fields.any isTransferEncoding then .refused 501
      else if n < r.length then .more else .complete r.path r.body := by
  obtain ⟨headers, hheaders⟩ := Option.isSome_iff_exists.mp
    ((copiedHeaders_isSome r.fields ⟨none, false⟩).mpr hread.2)
  obtain ⟨hencoding, hlengths⟩ := copiedHeaders_eq (fun line hline h => (r.declared line hline h).2.2) hheaders
  have hlength : headers.contentLength.getD 0 = r.length ∧ r.length ≤ httpBodyMax := by
    rcases hlengths with ⟨hnone, hsame⟩ | ⟨hset, hle⟩
    · rw [hsame, r.undeclared hnone]
      exact ⟨rfl, Nat.zero_le _⟩
    · rw [hset]
      exact ⟨rfl, hle⟩
  rw [r.parse_fields hmax, if_pos hread.1, hheaders]
  dsimp only
  rw [hencoding, Bool.false_or, hlength.1, if_neg (Nat.not_lt.mpr hlength.2), List.length_take, r.complete,
    List.take_take]
  cases r.fields.any isTransferEncoding with
  | true => rfl
  | false =>
    simp only [Bool.false_eq_true, if_false]
    by_cases hshort : n < r.length
    · rw [if_pos hshort, if_pos (by omega)]
    · rw [if_neg hshort, if_neg (by omega), Nat.min_eq_left (by omega),
        List.take_of_length_le (Nat.le_of_eq r.complete)]

/-- The buffer is full. -/
theorem parse_full {k : Nat} (hk : httpBufMax ≤ (r.bytes.take k).length) :
    indexRequestParse (r.bytes.take k) = .refused 431 := by
  have hne : r.bytes.take k ≠ [] := by
    intro hnil
    rw [hnil] at hk
    exact absurd hk (by decide)
  unfold indexRequestParse
  rw [if_neg hne, if_pos hk]

theorem overlong_iff :
    (decide (r.fields.length > 32) || r.fields.any fun line => line.length > 256) = true ↔
      r.fields.length > 32 ∨ ∃ line ∈ r.fields, line.length > 256 := by
  simp

theorem Fits.specified {r : CompleteRequest} (h : r.Fits) :
    r.specified = if r.fields.any isTransferEncoding then .refused 501 else .complete r.path r.body := by
  have hfields := h.fields
  have hlines : ¬ (r.fields.length > 32 ∨ ∃ line ∈ r.fields, line.length > 256) := by
    rintro (hmany | ⟨line, hline, hlong⟩)
    · omega
    · have haccepted := (h.readable.2 line hline).1
      simp only [httpLineMax] at haccepted
      omega
  rw [CompleteRequest.specified, if_neg (Nat.not_lt.mpr h.length), if_neg (by rwa [overlong_iff])]

theorem Overflows.specified {r : CompleteRequest} (h : r.Overflows) : r.specified = .refused 431 := by
  rw [CompleteRequest.specified, if_neg (Nat.not_lt.mpr h.length), if_pos (r.overlong_iff.mpr h.fields)]

/-- A request that is dispatched, or refused for its transfer encoding, is small by the protocol. -/
theorem small_of_specified
    (h : r.specified = if r.fields.any isTransferEncoding then .refused 501 else .complete r.path r.body) :
    r.length ≤ 4095 ∧ r.fields.length ≤ 32 := by
  unfold CompleteRequest.specified at h
  split at h
  · split at h <;> exact nomatch h
  split at h
  · split at h <;> exact nomatch h
  · rename_i hlength hlines
    rw [overlong_iff, not_or] at hlines
    exact ⟨Nat.not_lt.mp hlength, Nat.not_lt.mp hlines.1⟩

theorem overlong_of_specified (h : r.specified = .refused 431) :
    r.length ≤ 4095 ∧ (r.fields.length > 32 ∨ ∃ line ∈ r.fields, line.length > 256) := by
  unfold CompleteRequest.specified at h
  split at h
  · exact nomatch h
  split at h
  · rename_i hlength hlines
    exact ⟨Nat.not_lt.mp hlength, r.overlong_iff.mp hlines⟩
  split at h <;> exact nomatch h

theorem specified_ne_malformed : r.specified ≠ .refused 400 := by
  unfold CompleteRequest.specified
  split
  · simp
  split
  · simp
  split <;> simp

theorem Fits.bytes_length {r : CompleteRequest} (h : r.Fits) : r.bytes.length < httpBufMax := by
  have hlength := r.bytes_length
  have hhead := h.head
  have hbody := h.length
  simp only [httpBufMax, httpBodyMax, bufSize]
  omega

/-- A request within the limits is answered as specified in all its pieces. -/
theorem Fits.parse {r : CompleteRequest} (h : r.Fits) {k : Nat} (hk : k ≤ r.bytes.length) :
    indexRequestParse (r.bytes.take k) = .more ∨ indexRequestParse (r.bytes.take k) = r.specified := by
  have hmax := h.bytes_length
  have hhead := h.head
  by_cases hbefore : k < r.head.length
  · rw [r.parse_head hbefore (by omega), if_neg (by omega)]
    exact Or.inl rfl
  · obtain ⟨n, rfl⟩ := Nat.exists_eq_add_of_le (Nat.not_lt.mp hbefore)
    rw [r.parse_readable h.readable (by rw [List.length_take]; omega), h.specified]
    cases r.fields.any isTransferEncoding with
    | true => exact Or.inr rfl
    | false =>
      simp only [Bool.false_eq_true, if_false]
      by_cases hshort : n < r.length
      · exact Or.inl (if_pos hshort)
      · exact Or.inr (if_neg hshort)

theorem parse_complete (hread : r.Readable) (hmax : r.bytes.length < httpBufMax) :
    indexRequestParse r.bytes =
      if r.fields.any isTransferEncoding then .refused 501 else .complete r.path r.body := by
  have hwhole := r.parse_readable hread (n := r.length) (by rw [List.length_take]; omega)
  rw [← r.bytes_length, List.take_length, if_neg (Nat.lt_irrefl _)] at hwhole
  exact hwhole

theorem Overflows.parse {r : CompleteRequest} (h : r.Overflows) {k : Nat} (hk : k ≤ r.bytes.length) :
    indexRequestParse (r.bytes.take k) = .more ∨ indexRequestParse (r.bytes.take k) = .refused 431 := by
  have hlength := r.bytes_length
  have hbytes := h.bytes
  by_cases hfull : httpBufMax ≤ k
  · exact Or.inr (r.parse_full (by rw [List.length_take]; omega))
  by_cases hbefore : k < r.head.length
  · rw [r.parse_head hbefore (by omega)]
    by_cases hlong : httpLineMax * httpHeadersMax ≤ k
    · exact Or.inr (if_pos hlong)
    · exact Or.inl (if_neg hlong)
  · rcases h.unread with hhead | ⟨hread, hencoding⟩
    · omega
    · have hnone : r.fields.any isTransferEncoding = false := by simpa using hencoding
      obtain ⟨n, rfl⟩ := Nat.exists_eq_add_of_le (Nat.not_lt.mp hbefore)
      rw [r.parse_readable hread (by rw [List.length_take]; omega), hnone, if_neg Bool.false_ne_true, if_pos (by omega)]
      exact Or.inl rfl

end CompleteRequest

/-- The index answers a complete request as the protocol specifies, however it arrives, exactly when the
request keeps all limits, or when its header lines exceed them so far that its buffer fills first. -/
theorem request_limits_iff (r : CompleteRequest) :
    (∀ reads, Segments.Pieces r.bytes reads → connReads [] reads = r.specified) ↔
      r.Fits ∨ r.Overflows := by
  have hlength := r.bytes_length
  have hhead := r.four_lt_head
  rw [connReads_eq_iff (List.ne_nil_of_length_pos (by omega))]
  constructor
  · rintro ⟨hwhole, hprefix⟩
    by_cases hmax : r.bytes.length < httpBufMax
    · left
      have hread : r.Readable := by
        by_contra hnot
        have hrefused := r.parse_unreadable hnot (n := r.length) (by rw [List.length_take]; omega)
        rw [← r.bytes_length, List.take_length, hwhole] at hrefused
        exact r.specified_ne_malformed hrefused
      rw [r.parse_complete hread hmax] at hwhole
      obtain ⟨hbody, hfields⟩ := r.small_of_specified hwhole.symm
      refine ⟨hread, hfields, hbody, ?_⟩
      by_contra hlong
      -- the index has refused the head before its blank line arrives
      have hlimit : httpLineMax * httpHeadersMax = 8192 := by decide
      have hcut := hprefix 8192 (by decide) (by omega)
      rw [r.parse_head (by omega) (by decide), if_pos (Nat.le_of_eq hlimit), ← hwhole] at hcut
      rcases hcut with hcut | hcut
      · exact nomatch hcut
      · split at hcut <;> exact nomatch hcut
    · right
      have hfull := r.parse_full (k := r.bytes.length) (by rw [List.length_take]; omega)
      rw [List.take_length, hwhole] at hfull
      obtain ⟨hbody, hlines⟩ := r.overlong_of_specified hfull
      refine ⟨hlines, hbody, Nat.not_lt.mp hmax, ?_⟩
      by_cases hroom : httpBufMax ≤ r.head.length
      · exact Or.inl hroom
      have hcut := hprefix (r.head.length + 0) (by omega) (by omega)
      rw [hfull] at hcut
      have hread : r.Readable := by
        by_contra hnot
        rw [r.parse_unreadable hnot (by rw [List.length_take]; omega)] at hcut
        rcases hcut with hcut | hcut <;> exact nomatch hcut
      rw [r.parse_readable hread (by rw [List.length_take]; omega)] at hcut
      refine Or.inr ⟨hread, fun line hline => ?_⟩
      by_contra hencoding
      have hany : r.fields.any isTransferEncoding = true :=
        List.any_eq_true.mpr ⟨line, hline, eq_true_of_ne_false hencoding⟩
      rw [hany, if_pos rfl] at hcut
      rcases hcut with hcut | hcut <;> exact nomatch hcut
  · rintro (hfits | hover)
    · refine ⟨?_, fun k _ hk => hfits.parse hk⟩
      rw [r.parse_complete hfits.readable hfits.bytes_length, hfits.specified]
    · rw [hover.specified]
      refine ⟨?_, fun k _ hk => hover.parse hk⟩
      have hfull := r.parse_full (k := r.bytes.length) (by rw [List.take_length]; exact hover.bytes)
      rwa [List.take_length] at hfull

/-- A request whose declared body is too large. -/
def largeRequest : CompleteRequest where
  path := ascii "/"
  version := ascii "HTTP/1.1"
  fields := [ascii "Content-Length: 5000"]
  length := 5000
  body := List.replicate 5000 0x61
  start := ⟨by decide, by decide +kernel, Or.inl rfl⟩
  field_lines := by
    have hbytes : ∀ b ∈ ascii "Content-Length: 5000", 0x20 ≤ b.toNat := by decide +kernel
    simpa using headLine_of_bytes (by decide) hbytes
  declared := by decide +kernel
  undeclared := fun h =>
    absurd (h (ascii "Content-Length: 5000") (List.mem_singleton.mpr rfl)) (by decide +kernel)
  complete := List.length_replicate

/-- A request with one header line too many. -/
def crowdedRequest : CompleteRequest where
  path := ascii "/"
  version := ascii "HTTP/1.1"
  fields := List.replicate 33 (ascii "A: b")
  length := 0
  body := []
  start := ⟨by decide, by decide +kernel, Or.inl rfl⟩
  field_lines := by
    intro line hline
    rw [List.eq_of_mem_replicate hline]
    exact headLine_of_bytes (by decide) (by decide +kernel)
  declared := by
    intro line hline hlength
    rw [List.eq_of_mem_replicate hline] at hlength
    exact absurd hlength (by decide)
  undeclared := fun _ => rfl
  complete := rfl

/-- The index refuses the first as malformed, and dispatches the second. -/
theorem request_limits_differ :
    (largeRequest.specified = .refused 413 ∧
      Segments.Pieces largeRequest.bytes [largeRequest.head, largeRequest.body] ∧
      connReads [] [largeRequest.head, largeRequest.body] = .refused 400) ∧
    (crowdedRequest.specified = .refused 431 ∧
      Segments.Pieces crowdedRequest.bytes [crowdedRequest.bytes] ∧
      connReads [] [crowdedRequest.bytes] = .complete (ascii "/") []) := by
  have hlarge : indexRequestParse largeRequest.head = .refused 400 := by decide +kernel
  refine ⟨⟨rfl, ⟨?_, ?_⟩, ?_⟩, ?_, .single (by decide), by decide +kernel⟩
  · intro piece hpiece
    simp only [List.mem_cons, List.not_mem_nil, or_false] at hpiece
    rcases hpiece with rfl | rfl
    · decide
    · exact List.cons_ne_nil _ _
  · simp [CompleteRequest.bytes]
  · rw [connReads, List.nil_append, hlarge]
  · decide +kernel

end Redp2p
