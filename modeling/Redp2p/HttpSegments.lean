import Redp2p.HttpServer
import Redp2p.Lib.Segments

/-! Requests that arrive in pieces: the index scans all that a connection has buffered after every
read, and its searches for the spaces of the request line are not confined to the head of the
request. -/

namespace Redp2p

open ByteString

/-! ### Searches in a prefix -/

theorem strstr_eq_some_iff {needle : Bytes} (hne : needle ≠ []) {text : Bytes} {i : Nat} :
    strstr needle text = some i ↔ needle <+: text.drop i ∧ ∀ j < i, ¬ needle <+: text.drop j := by
  induction text generalizing i with
  | nil =>
    rw [strstr, if_neg hne, List.drop_nil, List.prefix_nil]
    exact ⟨nofun, fun h => absurd h.1 hne⟩
  | cons b text ih =>
    rw [strstr]
    by_cases hfirst : needle.isPrefixOf (b :: text) = true
    · rw [if_pos hfirst]
      rw [List.isPrefixOf_iff_prefix] at hfirst
      constructor
      · rintro ⟨⟩
        exact ⟨hfirst, fun j hj => absurd hj (Nat.not_lt_zero j)⟩
      · rintro ⟨_, hnot⟩
        cases i with
        | zero => rfl
        | succ i => exact absurd hfirst (hnot 0 (Nat.succ_pos i))
    · rw [if_neg hfirst]
      rw [List.isPrefixOf_iff_prefix] at hfirst
      cases i with
      | zero => simp [hfirst]
      | succ i =>
        simp only [Option.map_eq_some_iff, Nat.add_right_cancel_iff, exists_eq_right, ih,
          List.drop_succ_cons]
        refine and_congr_right fun _ => ⟨fun h j hj => ?_, fun h j hj => h (j + 1) (by omega)⟩
        cases j with
        | zero => exact hfirst
        | succ j => exact h j (by omega)

theorem strstr_eq_none_iff {needle : Bytes} (hne : needle ≠ []) {text : Bytes} :
    strstr needle text = none ↔ ∀ j, ¬ needle <+: text.drop j := by
  constructor
  · intro hnone j
    induction j using Nat.strong_induction_on with
    | _ j ih =>
      intro hj
      rw [(strstr_eq_some_iff hne).mpr ⟨hj, ih⟩] at hnone
      exact nomatch hnone
  · intro h
    cases hfound : strstr needle text with
    | none => rfl
    | some i => exact absurd ((strstr_eq_some_iff hne).mp hfound).1 (h i)

theorem strstr_length {needle text : Bytes} (hne : needle ≠ []) {i : Nat}
    (h : strstr needle text = some i) : i + needle.length ≤ text.length := by
  have hpart := ((strstr_eq_some_iff hne).mp h).1.length_le
  have hpos := List.length_pos_iff.mpr hne
  rw [List.length_drop] at hpart
  omega

theorem prefix_take_drop {needle : Bytes} (hne : needle ≠ []) (text : Bytes) (k j : Nat) :
    needle <+: (text.take k).drop j ↔ needle <+: text.drop j ∧ j + needle.length ≤ k := by
  have hpos := List.length_pos_iff.mpr hne
  rw [List.drop_take, List.prefix_take_iff]
  exact and_congr_right fun _ => by omega

/-- In a prefix a text is found where it is found in the whole, if it is all there. -/
theorem strstr_take {needle : Bytes} (hne : needle ≠ []) (text : Bytes) (k : Nat) :
    strstr needle (text.take k) = (strstr needle text).filter fun i => i + needle.length ≤ k := by
  cases hfound : strstr needle text with
  | none =>
    rw [Option.filter_none, strstr_eq_none_iff hne]
    intro j
    rw [prefix_take_drop hne]
    exact fun h => (strstr_eq_none_iff hne).mp hfound j h.1
  | some i =>
    obtain ⟨hi, hfirst⟩ := (strstr_eq_some_iff hne).mp hfound
    by_cases hfits : i + needle.length ≤ k
    · rw [Option.filter_some, if_pos (by simpa using hfits), strstr_eq_some_iff hne]
      refine ⟨(prefix_take_drop hne text k i).mpr ⟨hi, hfits⟩, fun j hj => ?_⟩
      rw [prefix_take_drop hne]
      exact fun h => hfirst j hj h.1
    · rw [Option.filter_some, if_neg (by simpa using hfits), strstr_eq_none_iff hne]
      intro j
      rw [prefix_take_drop hne]
      rintro ⟨hj, hle⟩
      exact hfirst j (by omega) hj

theorem cstr_take (buf : Bytes) (k : Nat) : cstr (buf.take k) = (cstr buf).take k := by
  induction buf generalizing k with
  | nil => simp [cstr]
  | cons b buf ih =>
    cases k with
    | zero => simp [cstr]
    | succ k =>
      simp only [cstr, List.take_succ_cons, List.takeWhile_cons] at ih ⊢
      split
      · rw [List.take_succ_cons, ih]
      · rfl

theorem takeWhile_take {p : UInt8 → Bool} {text : Bytes} {k : Nat}
    (h : ∃ b ∈ text.take k, p b = false) : (text.take k).takeWhile p = text.takeWhile p := by
  obtain ⟨b, hb, hpb⟩ := h
  conv_rhs => rw [← List.take_append_drop k text]
  rw [List.takeWhile_append, if_neg]
  intro hlength
  have hself := List.takeWhile_eq_self_iff.mp ((List.takeWhile_prefix p).eq_of_length hlength)
  rw [hself b hb] at hpb
  exact nomatch hpb

/-- In a prefix a field is what it is in the whole, if its delimiter is there. -/
theorem parseField_take {delim : UInt8} {text : Bytes} {k : Nat} (cap : Nat)
    (h : delim ∈ text.take k) :
    parseField (text.take k) cap (some delim) =
      (parseField text cap (some delim)).map fun r => (r.1, r.2.take (k - (r.1.length + 1))) := by
  have htake := takeWhile_take (p := (· != delim)) ⟨delim, h, by simp⟩
  have htext := List.mem_of_mem_take h
  unfold parseField
  simp only [htake, List.contains_iff_mem.mpr h, List.contains_iff_mem.mpr htext]
  split
  · rfl
  · simp [List.drop_take]

theorem parseField_missing {delim : UInt8} {text : Bytes} (cap : Nat) (h : delim ∉ text) :
    parseField text cap (some delim) = none := by
  unfold parseField
  simp [h]

/-- A field, and the text that it was taken from. -/
theorem parseField_eq_some {delim : UInt8} {text field rest : Bytes} {cap : Nat}
    (h : parseField text cap (some delim) = some (field, rest)) :
    text = field ++ delim :: rest ∧ delim ∉ field ∧ field ≠ [] ∧ field.length < cap := by
  unfold parseField at h
  dsimp only at h
  split at h
  · exact nomatch h
  · rename_i hnot
    simp only [not_or, Bool.not_eq_true, Bool.not_eq_false', List.contains_iff_mem, not_le] at hnot
    obtain ⟨rfl, rfl⟩ := Prod.mk.inj (Option.some.inj h)
    have hsplit : text.dropWhile (· != delim) ≠ [] := by
      intro hnil
      have hall := List.dropWhile_eq_nil_iff.mp hnil delim hnot.1
      simp at hall
    obtain ⟨b, rest, hrest⟩ := List.exists_cons_of_ne_nil hsplit
    have hb : b = delim := by
      have hhead := List.head?_dropWhile_not (· != delim) text
      rw [hrest] at hhead
      simpa using hhead
    have htext := List.takeWhile_append_dropWhile (p := (· != delim)) (l := text)
    rw [hrest, hb] at htext
    refine ⟨?_, ?_, ?_, hnot.2.2⟩
    · have hdrop := congrArg (List.drop ((text.takeWhile (· != delim)).length + 1)) htext
      rw [List.drop_length_add_append, List.drop_succ_cons, List.drop_zero] at hdrop
      rw [← hdrop, htext]
    · intro hmem
      simpa using List.mem_takeWhile_imp hmem
    · exact fun hnil => hnot.2.1 (by rw [hnil]; rfl)

/-! ### The head of a request -/

def blankLine : Bytes := crlf ++ crlf

/-- The lines of the header region, up to a blank one. Each still ends with its carriage return, and the
last one with that of the blank line behind the region. -/
def headLines (region : Bytes) : List Bytes :=
  ((region ++ [0x0d]).splitOn 0x0a).takeWhile (· != [0x0d])

/-- One header line as it is copied. -/
def copiedLine (headers : RequestHeaders) (line : Bytes) : Option RequestHeaders :=
  if line.length ≥ httpLineMax then none else requestHeader headers (stripReturn line)

/-- A header line that the index does not refuse. -/
def AcceptedLine (line : Bytes) : Prop :=
  line.length < httpLineMax ∧ (requestHeader ⟨none, false⟩ (stripReturn line)).isSome = true

theorem requestHeaders_none (turns : Nat) (cursor : Bytes) (headers : RequestHeaders) :
    requestHeaders turns 0 cursor headers = some headers := by
  cases turns with
  | zero => rfl
  | succ turns => rw [requestHeaders, if_pos (by simp)]

/-- The loop over the header lines reads what stands before the blank line and no more. -/
theorem requestHeaders_region (region rest : Bytes) {turns : Nat} (hturns : region.length ≤ turns)
    (headers : RequestHeaders) :
    requestHeaders turns region.length (region ++ 0x0d :: 0x0a :: rest) headers =
      (headLines region).foldlM copiedLine headers := by
  induction turns generalizing region headers with
  | zero =>
    obtain rfl := List.length_eq_zero_iff.mp (Nat.le_zero.mp hturns)
    rfl
  | succ turns ih =>
    by_cases hnil : region = []
    · subst hnil
      rw [List.length_nil, requestHeaders_none]
      rfl
    have hpos := List.length_pos_iff.mpr hnil
    rw [requestHeaders, if_neg (by simp; omega)]
    dsimp only
    by_cases hfeed : (0x0a : UInt8) ∈ region
    · obtain ⟨line, after, rfl, hline⟩ := List.eq_append_cons_of_mem hfeed
      have htake : (line ++ 0x0a :: after ++ 0x0d :: 0x0a :: rest).takeWhile (· != 0x0a) = line := by
        rw [List.append_assoc, List.takeWhile_append_of_pos fun b hb => by
          simpa using fun heq : b = 0x0a => hline (heq ▸ hb)]
        simp
      have hdrop : (line ++ 0x0a :: after ++ 0x0d :: 0x0a :: rest).drop (line.length + 1) =
          after ++ 0x0d :: 0x0a :: rest := by
        simp
      have hleft : (line ++ 0x0a :: after).length - (line.length + 1) = after.length := by
        rw [List.length_append, List.length_cons]
        omega
      have hsplit : (line ++ 0x0a :: after ++ [0x0d]).splitOn 0x0a =
          line :: (after ++ [0x0d]).splitOn 0x0a := by
        rw [List.append_assoc, List.cons_append, List.splitOn_append_cons_self,
          List.splitOn_eq_singleton hline]
        rfl
      rw [htake, hdrop, hleft]
      unfold headLines
      rw [hsplit]
      by_cases hblank : line = [0x0d]
      · rw [if_pos hblank, List.takeWhile_cons_of_neg (by simp [hblank])]
        rfl
      · rw [if_neg hblank, List.takeWhile_cons_of_pos (by simpa using hblank), List.foldlM_cons]
        unfold copiedLine
        split
        · rfl
        · rw [List.length_append, List.length_cons] at hturns
          exact congrArg _ (funext fun headers => ih after (by omega) headers)
    · have htake : (region ++ 0x0d :: 0x0a :: rest).takeWhile (· != 0x0a) = region ++ [0x0d] := by
        rw [List.takeWhile_append_of_pos fun b hb => by
          simpa using fun heq : b = 0x0a => hfeed (heq ▸ hb)]
        simp
      have hblank : region ++ [0x0d] ≠ [0x0d] := by
        intro heq
        have hlength := congrArg List.length heq
        simp only [List.length_append, List.length_singleton] at hlength
        omega
      have hsingle : headLines region = [region ++ [0x0d]] := by
        unfold headLines
        rw [List.splitOn_eq_singleton (by simpa using hfeed),
          List.takeWhile_cons_of_pos (by simpa using hblank)]
        rfl
      have hleft : region.length - (region.length + 1 + 1) = 0 := by omega
      rw [htake, if_neg hblank, hsingle, List.foldlM_cons, List.length_append, List.length_singleton,
        hleft]
      unfold copiedLine
      rw [List.length_append, List.length_singleton]
      split
      · rfl
      · exact congrArg _ (funext fun headers => requestHeaders_none turns _ headers)

theorem requestHeader_isSome (headers headers' : RequestHeaders) (line : Bytes) :
    (requestHeader headers line).isSome = (requestHeader headers' line).isSome := by
  unfold requestHeader
  split
  · rfl
  dsimp only
  split
  · rfl
  split
  · rw [Option.isSome_map, Option.isSome_map]
  split <;> rfl

/-- A fold whose steps fail by what they read alone succeeds when it reads nothing that fails. -/
theorem foldlM_isSome_iff {σ α : Type} {step : σ → α → Option σ} {accepted : α → Prop}
    (hstep : ∀ s a, (step s a).isSome = true ↔ accepted a) (l : List α) (s : σ) :
    (l.foldlM step s).isSome = true ↔ ∀ a ∈ l, accepted a := by
  induction l generalizing s with
  | nil => simp
  | cons a l ih =>
    rw [List.foldlM_cons, List.forall_mem_cons, ← hstep s a]
    cases step s a with
    | none => simp
    | some s' => simpa using ih s'

/-- The header lines of a request are read when each is accepted. -/
theorem copiedLines_isSome (lines : List Bytes) (headers : RequestHeaders) :
    (lines.foldlM copiedLine headers).isSome = true ↔ ∀ line ∈ lines, AcceptedLine line := by
  refine foldlM_isSome_iff (fun headers line => ?_) lines headers
  unfold copiedLine AcceptedLine
  split
  · simp only [Option.isSome_none, Bool.false_eq_true, false_iff]
    omega
  · rw [requestHeader_isSome headers ⟨none, false⟩]
    exact ⟨fun h => ⟨by omega, h⟩, fun h => h.2⟩

/-- The path that a request line names, or the status that refuses it. -/
def startLine (text : Bytes) : Except Nat Bytes :=
  match parseField text 16 (some 0x20) with
  | none => .error 400
  | some (method, cursor) =>
    if method ≠ ascii "POST" then .error 405
    else
      match parseField cursor 128 (some 0x20) with
      | none => .error 400
      | some (path, cursor) =>
        if !startsWith (ascii "HTTP/1.1") cursor && !startsWith (ascii "HTTP/1.0") cursor then
          .error 400
        else .ok path

/-- The text between the request line and the blank line. -/
def headRegion (text : Bytes) (headerEnd : Nat) : Bytes :=
  match strstr crlf text with
  | none => []
  | some lineEnd => (text.take headerEnd).drop (lineEnd + 2)

/-- What the index makes of a request whose blank line has arrived. -/
def headVerdict (buf : Bytes) (headerEnd : Nat) : Parsed :=
  match startLine (cstr buf) with
  | .error status => .refused status
  | .ok path =>
    match (headLines (headRegion (cstr buf) headerEnd)).foldlM copiedLine ⟨none, false⟩ with
    | none => .refused 400
    | some headers => requestBody buf headerEnd path headers

theorem blankLine_ne : blankLine ≠ [] := by decide

theorem crlf_ne : crlf ≠ [] := by decide

/-- The text at and behind the blank line. -/
theorem drop_headerEnd {text : Bytes} {headerEnd : Nat} (h : strstr blankLine text = some headerEnd) :
    ∃ rest, text.drop headerEnd = 0x0d :: 0x0a :: 0x0d :: 0x0a :: rest := by
  obtain ⟨⟨rest, hrest⟩, _⟩ := (strstr_eq_some_iff blankLine_ne).mp h
  exact ⟨rest, hrest.symm⟩

/-- The request line ends at the blank line or before it. -/
theorem strstr_lineEnd {text : Bytes} {headerEnd : Nat} (h : strstr blankLine text = some headerEnd) :
    ∃ lineEnd, strstr crlf text = some lineEnd ∧ lineEnd ≤ headerEnd := by
  obtain ⟨rest, hrest⟩ := drop_headerEnd h
  have hcrlf : crlf <+: text.drop headerEnd := ⟨0x0d :: 0x0a :: rest, by rw [hrest]; rfl⟩
  cases hfound : strstr crlf text with
  | none => exact absurd hcrlf ((strstr_eq_none_iff crlf_ne).mp hfound headerEnd)
  | some lineEnd =>
    refine ⟨lineEnd, rfl, Nat.le_of_not_lt fun hlt => ?_⟩
    exact ((strstr_eq_some_iff crlf_ne).mp hfound).2 headerEnd hlt hcrlf

theorem indexRequestParse_head {buf : Bytes} (hmax : buf.length < httpBufMax) {headerEnd : Nat}
    (h : strstr blankLine (cstr buf) = some headerEnd) :
    indexRequestParse buf = headVerdict buf headerEnd := by
  have hne : buf ≠ [] := by
    rintro rfl
    exact nomatch h
  obtain ⟨lineEnd, hlineEnd, hle⟩ := strstr_lineEnd h
  obtain ⟨rest, hrest⟩ := drop_headerEnd h
  have hlength := strstr_length blankLine_ne h
  have hregion : headRegion (cstr buf) headerEnd = ((cstr buf).take headerEnd).drop (lineEnd + 2) := by
    rw [headRegion, hlineEnd]
  have hleft : (headRegion (cstr buf) headerEnd).length = headerEnd - (lineEnd + 2) := by
    rw [hregion, List.length_drop, List.length_take]
    omega
  have hheaders : requestHeaders (cstr buf).length (headerEnd - (lineEnd + 2))
      ((cstr buf).drop (lineEnd + 2)) ⟨none, false⟩ =
        (headLines (headRegion (cstr buf) headerEnd)).foldlM copiedLine ⟨none, false⟩ := by
    by_cases hroom : lineEnd + 2 ≤ headerEnd
    · have htext : (cstr buf).drop (lineEnd + 2) =
          headRegion (cstr buf) headerEnd ++ 0x0d :: 0x0a :: 0x0d :: 0x0a :: rest := by
        rw [hregion, ← hrest]
        conv_lhs => rw [← List.take_append_drop headerEnd (cstr buf)]
        rw [List.drop_append_of_le_length (by rw [List.length_take]; omega)]
      rw [htext, ← hleft, requestHeaders_region _ _ (by omega)]
    · have hnone : headerEnd - (lineEnd + 2) = 0 := by omega
      rw [hnone] at hleft ⊢
      rw [requestHeaders_none, List.length_eq_zero_iff.mp hleft]
      rfl
  unfold indexRequestParse headVerdict startLine
  rw [if_neg hne, if_neg (Nat.not_le.mpr hmax), ← blankLine, h]
  dsimp only
  rw [hlineEnd]
  dsimp only
  rw [hheaders]
  cases parseField (cstr buf) 16 (some 0x20) with
  | none => rfl
  | some field =>
    obtain ⟨method, cursor⟩ := field
    dsimp only
    by_cases hmethod : method ≠ ascii "POST"
    · rw [if_pos hmethod, if_pos hmethod]
    · rw [if_neg hmethod, if_neg hmethod]
      cases parseField cursor 128 (some 0x20) with
      | none => rfl
      | some field =>
        obtain ⟨path, cursor⟩ := field
        dsimp only
        cases !startsWith (ascii "HTTP/1.1") cursor && !startsWith (ascii "HTTP/1.0") cursor with
        | true => rfl
        | false => rfl

theorem headRegion_take {text : Bytes} {headerEnd k : Nat} (h : strstr blankLine text = some headerEnd)
    (hk : headerEnd + 4 ≤ k) : headRegion (text.take k) headerEnd = headRegion text headerEnd := by
  obtain ⟨lineEnd, hlineEnd, hle⟩ := strstr_lineEnd h
  have htake : strstr crlf (text.take k) = some lineEnd := by
    rw [strstr_take crlf_ne, hlineEnd, Option.filter_some, if_pos]
    simp [crlf]
    omega
  unfold headRegion
  rw [htake, hlineEnd, List.take_take, Nat.min_eq_left (by omega)]

/-! ### Spaces behind the head -/

def isVersion (text : Bytes) : Bool :=
  startsWith (ascii "HTTP/1.1") text || startsWith (ascii "HTTP/1.0") text

/-- The first space stands behind the head, near enough for a method. -/
def LateMethod (text : Bytes) (headerEnd : Nat) : Prop :=
  ∃ method rest, text = method ++ 0x20 :: rest ∧ 0x20 ∉ method ∧ headerEnd + 4 ≤ method.length ∧
    method.length < 16

/-- The space behind `POST` is followed by another behind the head only, near enough for a path, and
that one by a version. -/
def LatePath (text : Bytes) (headerEnd : Nat) : Prop :=
  ∃ path rest, text = ascii "POST" ++ 0x20 :: (path ++ 0x20 :: rest) ∧ 0x20 ∉ path ∧
    headerEnd + 4 ≤ path.length + 5 ∧ path.length < 128 ∧ isVersion rest = true

theorem parseField_prefix (delim : UInt8) (text : Bytes) (k cap : Nat) :
    parseField (text.take k) cap (some delim) = none ∨
      parseField (text.take k) cap (some delim) =
        (parseField text cap (some delim)).map fun r => (r.1, r.2.take (k - (r.1.length + 1))) := by
  by_cases h : delim ∈ text.take k
  · exact Or.inr (parseField_take cap h)
  · exact Or.inl (parseField_missing cap h)

/-- The request line of a request with the method `POST`. -/
theorem startLine_post {text cursor : Bytes}
    (h : parseField text 16 (some 0x20) = some (ascii "POST", cursor)) :
    startLine text =
      match parseField cursor 128 (some 0x20) with
      | none => .error 400
      | some (path, rest) => if isVersion rest then .ok path else .error 400 := by
  unfold startLine
  rw [h]
  dsimp only
  rw [if_neg (by simp)]
  cases parseField cursor 128 (some 0x20) with
  | none => rfl
  | some field =>
    dsimp only
    rw [← Bool.not_or, ← isVersion]
    cases isVersion field.2 <;> rfl

theorem isVersion_of_take {text : Bytes} {n : Nat} (h : isVersion (text.take n) = true) :
    isVersion text = true := by
  simp only [isVersion, Bool.or_eq_true, startsWith, List.isPrefixOf_iff_prefix] at h ⊢
  exact h.imp (fun h => h.trans (List.take_prefix n text)) fun h => h.trans (List.take_prefix n text)

theorem isVersion_take {text : Bytes} {n : Nat} (hn : 8 ≤ n) (h : isVersion text = true) :
    isVersion (text.take n) = true := by
  simp only [isVersion, Bool.or_eq_true, startsWith, List.isPrefixOf_iff_prefix,
    List.prefix_take_iff] at h ⊢
  have hlengths : (ascii "HTTP/1.1").length = 8 ∧ (ascii "HTTP/1.0").length = 8 := by decide
  exact h.imp (fun h => ⟨h, by omega⟩) fun h => ⟨h, by omega⟩

/-- No carriage return is in a version. -/
theorem isVersion_getElem {text : Bytes} (h : isVersion text = true) {j : Nat} (hj : j < 8) :
    text[j]? ≠ some 0x0d := by
  simp only [isVersion, Bool.or_eq_true, startsWith, List.isPrefixOf_iff_prefix] at h
  have hbytes : ∀ token ∈ [ascii "HTTP/1.1", ascii "HTTP/1.0"], token.length = 8 ∧ 0x0d ∉ token := by
    decide +kernel
  have htoken : ∀ token ∈ [ascii "HTTP/1.1", ascii "HTTP/1.0"], token <+: text →
      text[j]? ≠ some 0x0d := by
    rintro token hmem ⟨rest, rfl⟩ hreturn
    obtain ⟨hlength, hnot⟩ := hbytes token hmem
    rw [List.getElem?_append_left (by omega)] at hreturn
    exact hnot (List.mem_of_getElem? hreturn)
  rcases h with h | h
  · exact htoken _ (by simp) h
  · exact htoken _ (by simp) h

theorem mem_head {text : Bytes} {headerEnd : Nat} {b : UInt8} {k : Nat} (hk : headerEnd + 4 ≤ k) (hb : b ∈ text.take (headerEnd + 4)) :
    b ∈ text.take k := by
  rw [← Nat.min_eq_left hk, ← List.take_take] at hb
  exact List.mem_of_mem_take hb

section Head

variable {text : Bytes} {headerEnd : Nat} (h : strstr blankLine text = some headerEnd)

include h

theorem blankLine_getElem {i : Nat} (hi : i < 4) :
    text[headerEnd + i]? = some 0x0d ∨ text[headerEnd + i]? = some 0x0a := by
  obtain ⟨rest, hrest⟩ := drop_headerEnd h
  rw [← List.getElem?_drop, hrest]
  interval_cases i <;> simp

/-- A version behind a space of the head ends before the blank line. -/
theorem version_in_head {path rest : Bytes} (htext : text = ascii "POST" ++ 0x20 :: (path ++ 0x20 :: rest))
    (hspace : path.length + 5 < headerEnd + 4) (hversion : isVersion rest = true) :
    path.length + 14 ≤ headerEnd := by
  have hlength : (ascii "POST" ++ 0x20 :: path).length = path.length + 5 := by simp [ascii]
  have hsplit : text = (ascii "POST" ++ 0x20 :: path) ++ 0x20 :: rest := by simp [htext]
  have hat : text[path.length + 5]? = some 0x20 := by
    rw [hsplit, List.getElem?_append_right (by omega), hlength, Nat.sub_self]
    rfl
  have hbefore : path.length + 5 < headerEnd := by
    by_contra hnot
    have hblank := blankLine_getElem h (show path.length + 5 - headerEnd < 4 by omega)
    rw [show headerEnd + (path.length + 5 - headerEnd) = path.length + 5 by omega, hat] at hblank
    rcases hblank with hblank | hblank <;> exact absurd (Option.some.inj hblank) (by decide)
  by_contra hnot
  obtain ⟨tail, htail⟩ := drop_headerEnd h
  have hreturn : text[headerEnd]? = some 0x0d := by
    have hhead := congrArg (fun l : Bytes => l[0]?) htail
    simpa [List.getElem?_drop] using hhead
  refine isVersion_getElem hversion (show headerEnd - (path.length + 6) < 8 by omega) ?_
  rw [← hreturn, hsplit, List.getElem?_append_right (by omega), hlength,
    show headerEnd - (path.length + 5) = headerEnd - (path.length + 6) + 1 by omega,
    List.getElem?_cons_succ]

theorem startLine_post_take {cursor : Bytes}
    (hfield : parseField text 16 (some 0x20) = some (ascii "POST", cursor)) {k : Nat}
    (hk : headerEnd + 4 ≤ k)
    (htake : parseField (text.take k) 16 (some 0x20) = some (ascii "POST", cursor.take (k - 5))) :
    startLine (text.take k) = startLine text ∨
      (LatePath text headerEnd ∧ startLine (text.take k) = .error 400) := by
  have htext := (parseField_eq_some hfield).1
  have hpart := parseField_prefix 0x20 cursor (k - 5) 128
  rw [startLine_post hfield, startLine_post htake]
  cases hpath : parseField cursor 128 (some 0x20) with
  | none =>
    rw [hpath, Option.map_none, or_self] at hpart
    rw [hpart]
    exact Or.inl rfl
  | some field =>
    obtain ⟨path, rest⟩ := field
    obtain ⟨hcursor, hnot, _, hshort⟩ := parseField_eq_some hpath
    rw [hpath, Option.map_some] at hpart
    dsimp only at hpart ⊢
    cases hversion : isVersion rest with
    | false =>
      left
      rcases hpart with hpart | hpart
      · rw [hpart]
        rfl
      · have hcut : isVersion (rest.take (k - 5 - (path.length + 1))) = false := by
          by_contra hcut
          rw [isVersion_of_take (eq_true_of_ne_false hcut)] at hversion
          exact nomatch hversion
        rw [hpart]
        dsimp only
        rw [hcut]
    | true =>
      rw [hcursor] at htext
      by_cases hspace : path.length + 5 < headerEnd + 4
      · left
        have hroom := version_in_head h htext hspace hversion
        have hmem : 0x20 ∈ cursor.take (k - 5) := by
          rw [hcursor, List.take_append, List.mem_append]
          right
          rw [show k - 5 - path.length = k - 6 - path.length + 1 by omega]
          simp
        rw [parseField_take 128 hmem, hpath, Option.map_some]
        dsimp only
        rw [isVersion_take (by omega) hversion]
      · have hlate : LatePath text headerEnd :=
          ⟨path, rest, htext, hnot, Nat.not_lt.mp hspace, hshort, hversion⟩
        rcases hpart with hpart | hpart
        · rw [hpart]
          exact Or.inr ⟨hlate, rfl⟩
        · rw [hpart]
          dsimp only
          cases isVersion (rest.take (k - 5 - (path.length + 1))) with
          | true => exact Or.inl rfl
          | false => exact Or.inr ⟨hlate, rfl⟩

/-- The request line of a prefix that holds the head reads as that of the whole, unless a space is
searched for behind the head. -/
theorem startLine_take (hmethod : ¬ LateMethod text headerEnd) {k : Nat} (hk : headerEnd + 4 ≤ k) :
    startLine (text.take k) = startLine text ∨
      (LatePath text headerEnd ∧ startLine (text.take k) = .error 400) := by
  have hpart := parseField_prefix 0x20 text k 16
  cases hfield : parseField text 16 (some 0x20) with
  | none =>
    rw [hfield, Option.map_none, or_self] at hpart
    left
    rw [startLine, startLine, hpart, hfield]
  | some field =>
    obtain ⟨method, cursor⟩ := field
    obtain ⟨htext, hnot, _, hshort⟩ := parseField_eq_some hfield
    have hhead : 0x20 ∈ text.take (headerEnd + 4) := by
      by_contra hmissing
      refine hmethod ⟨method, cursor, htext, hnot, Nat.le_of_not_lt fun hlt => hmissing ?_, hshort⟩
      rw [htext, List.take_append, List.mem_append]
      right
      rw [show headerEnd + 4 - method.length = headerEnd + 3 - method.length + 1 by omega]
      simp
    rw [hfield, parseField_take 16 (mem_head hk hhead), hfield] at hpart
    have htake := parseField_take 16 (mem_head hk hhead)
    rw [hfield, Option.map_some] at htake
    by_cases hpost : method = ascii "POST"
    · subst hpost
      exact startLine_post_take h hfield hk htake
    · left
      rw [startLine, startLine, htake, hfield]
      simp [hpost]

end Head

/-! ### Reads -/

/-- The result of a scan that ends the connection. -/
def Parsed.verdict : Parsed → Option Parsed
  | .more => none
  | result => some result

def scanVerdict (buf : Bytes) : Option Parsed := (indexRequestParse buf).verdict

/-- What a connection comes to after some reads: each is scanned with all that is buffered before. -/
def connReads : Bytes → List Bytes → Parsed
  | _, [] => .more
  | buf, read :: reads =>
    match indexRequestParse (buf ++ read) with
    | .more => connReads (buf ++ read) reads
    | result => result

theorem Parsed.verdict_inj {p q : Parsed} : p.verdict = q.verdict ↔ p = q := by
  refine ⟨fun h => ?_, congrArg Parsed.verdict⟩
  cases p <;> cases q <;> simp_all [Parsed.verdict]

theorem connReads_verdict (buf : Bytes) (reads : List Bytes) :
    (connReads buf reads).verdict = Segments.firstResult scanVerdict buf reads := by
  induction reads generalizing buf with
  | nil => rfl
  | cons read reads ih =>
    rw [connReads, Segments.firstResult, scanVerdict]
    cases indexRequestParse (buf ++ read) with
    | more => exact ih (buf ++ read)
    | refused status => rfl
    | complete path body => rfl

/-- A connection comes to one result however a text is cut into reads, when the whole gives it and every
prefix does or waits for more. -/
theorem connReads_eq_iff {s : Bytes} (hne : s ≠ []) (result : Parsed) :
    (∀ reads, Segments.Pieces s reads → connReads [] reads = result) ↔
      indexRequestParse s = result ∧ ∀ k, 0 < k → k ≤ s.length →
        indexRequestParse (s.take k) = .more ∨ indexRequestParse (s.take k) = result := by
  have hscan : (∀ reads, Segments.Pieces s reads → Segments.firstResult scanVerdict [] reads = result.verdict) ↔
      scanVerdict s = result.verdict ∧ Segments.Settled scanVerdict s result.verdict :=
    Segments.firstResult_eq_iff hne result.verdict
  have hmore : ∀ buf, scanVerdict buf = none ↔ indexRequestParse buf = .more := by
    intro buf
    rw [← Parsed.verdict_inj]
    rfl
  simp only [← connReads_verdict, Parsed.verdict_inj, Segments.Settled, hmore] at hscan
  simp only [scanVerdict, Parsed.verdict_inj] at hscan
  exact hscan

section Prefixes

variable {s : Bytes} (hmax : s.length < httpBufMax)

include hmax

/-- Without a blank line the index waits for one, up to a limit. -/
theorem parse_headless (k : Nat) (hnone : strstr blankLine (cstr s) = none) :
    indexRequestParse (s.take k) =
      if httpLineMax * httpHeadersMax ≤ (s.take k).length then .refused 431 else .more := by
  have hlength : (s.take k).length < httpBufMax := by
    rw [List.length_take]
    omega
  have hcut : strstr (crlf ++ crlf) (cstr (s.take k)) = none := by
    rw [cstr_take, ← blankLine, strstr_take blankLine_ne, hnone]
    rfl
  unfold indexRequestParse
  by_cases hnil : s.take k = []
  · rw [if_pos hnil, if_neg (by rw [hnil]; decide)]
  · rw [if_neg hnil, if_neg (Nat.not_le.mpr hlength), hcut]

variable {headerEnd : Nat} (hhead : strstr blankLine (cstr s) = some headerEnd)

include hhead

theorem parse_before (hfits : headerEnd + 4 ≤ httpLineMax * httpHeadersMax) {k : Nat}
    (hk : k < headerEnd + 4) : indexRequestParse (s.take k) = .more := by
  have hlength : (s.take k).length ≤ k ∧ (s.take k).length ≤ s.length := by
    rw [List.length_take]
    omega
  have hcut : strstr blankLine (cstr (s.take k)) = none := by
    rw [cstr_take, strstr_take blankLine_ne, hhead, Option.filter_some, if_neg]
    simpa [blankLine, crlf] using hk
  have hheadless := parse_headless (s := s.take k) (k := k) (by omega) hcut
  rw [List.take_take, Nat.min_self, if_neg (by omega)] at hheadless
  exact hheadless

theorem parse_after {k : Nat} (hk : headerEnd + 4 ≤ k) :
    indexRequestParse (s.take k) = headVerdict (s.take k) headerEnd := by
  refine indexRequestParse_head (by rw [List.length_take]; omega) ?_
  rw [cstr_take, strstr_take blankLine_ne, hhead, Option.filter_some, if_pos]
  simpa [blankLine, crlf] using hk

theorem parse_whole : indexRequestParse s = headVerdict s headerEnd :=
  indexRequestParse_head hmax hhead

end Prefixes

/-- The body of a prefix is that of the whole, or has not all arrived. -/
theorem requestBody_take (s : Bytes) (k headerEnd : Nat) (path : Bytes) (headers : RequestHeaders) :
    requestBody (s.take k) headerEnd path headers = .more ∨
      requestBody (s.take k) headerEnd path headers = requestBody s headerEnd path headers := by
  unfold requestBody
  dsimp only
  split
  · exact Or.inr rfl
  split
  · exact Or.inr rfl
  by_cases hshort : (s.take k).length < headerEnd + 4 + headers.contentLength.getD 0
  · rw [if_pos hshort]
    exact Or.inl rfl
  · right
    rw [List.length_take] at hshort
    rw [if_neg (by rw [List.length_take]; exact hshort), if_neg (by omega), List.drop_take,
      List.take_take, Nat.min_eq_left (by omega)]

theorem requestBody_ne_malformed (s : Bytes) (headerEnd : Nat) (path : Bytes) (headers : RequestHeaders) :
    requestBody s headerEnd path headers ≠ .refused 400 := by
  unfold requestBody
  dsimp only
  split
  · simp
  split
  · simp
  split <;> simp

section Late

variable {text : Bytes} {headerEnd : Nat} (h : strstr blankLine text = some headerEnd)

include h

theorem headerEnd_getElem : text[headerEnd]? = some 0x0d := by
  obtain ⟨tail, htail⟩ := drop_headerEnd h
  have hhead := congrArg (fun l : Bytes => l[0]?) htail
  simpa [List.getElem?_drop] using hhead

/-- A head that ends before the method does refuses the request as malformed, the whole refuses its
method. -/
theorem startLine_lateMethod (hlate : LateMethod text headerEnd) :
    startLine (text.take (headerEnd + 4)) = .error 400 ∧ startLine text = .error 405 := by
  obtain ⟨method, rest, htext, hnot, hle, hshort⟩ := hlate
  have hhead : 0x20 ∉ text.take (headerEnd + 4) := by
    rw [htext, List.take_append_of_le_length hle]
    exact fun hmem => hnot (List.mem_of_mem_take hmem)
  have hfield : parseField text 16 (some 0x20) = some (method, rest) := by
    rw [htext]
    refine parseField_delim (fun b hb => ne_of_mem_of_not_mem hb hnot) ?_ hshort rest
    rintro rfl
    simp at hle
  have hpost : method ≠ ascii "POST" := by
    rintro rfl
    have hreturn := headerEnd_getElem h
    rw [htext, List.getElem?_append_left (by omega)] at hreturn
    exact absurd (List.mem_of_getElem? hreturn) (by decide)
  constructor
  · rw [startLine, parseField_missing 16 hhead]
  · rw [startLine, hfield]
    simp [hpost]

theorem startLine_latePath (hlate : LatePath text headerEnd) :
    startLine (text.take (headerEnd + 4)) = .error 400 ∧ ∃ path, startLine text = .ok path := by
  obtain ⟨path, rest, htext, hnot, hle, hshort, hversion⟩ := hlate
  have hpost : ∀ rest, parseField (ascii "POST" ++ 0x20 :: rest) 16 (some 0x20) =
      some (ascii "POST", rest) := parseField_delim (by decide +kernel) (by decide +kernel) (by decide +kernel)
  have hfar : 5 ≤ headerEnd := by
    by_contra hnear
    have hreturn := headerEnd_getElem h
    rw [htext, show ascii "POST" ++ 0x20 :: (path ++ 0x20 :: rest) =
      ascii "POST " ++ (path ++ 0x20 :: rest) from rfl, List.getElem?_append_left (by
        have hlength : (ascii "POST ").length = 5 := by decide
        omega)] at hreturn
    exact absurd (List.mem_of_getElem? hreturn) (by decide)
  have hcut : text.take (headerEnd + 4) = ascii "POST" ++ 0x20 :: path.take (headerEnd - 1) := by
    rw [htext, show headerEnd + 4 = headerEnd - 1 + 1 + (ascii "POST").length by
      simp [ascii]; omega, List.take_append, Nat.add_comm _ (ascii "POST").length,
      Nat.add_sub_cancel_left, List.take_succ_cons, List.take_append_of_le_length (by omega),
      List.take_of_length_le (by omega)]
  have hmissing : 0x20 ∉ path.take (headerEnd - 1) := fun hmem => hnot (List.mem_of_mem_take hmem)
  constructor
  · rw [hcut, startLine_post (hpost _), parseField_missing 128 hmissing]
  · have hfield : parseField (path ++ 0x20 :: rest) 128 (some 0x20) = some (path, rest) := by
      refine parseField_delim (fun b hb => ne_of_mem_of_not_mem hb hnot) ?_ hshort rest
      rintro rfl
      simp at hle
      omega
    refine ⟨path, ?_⟩
    rw [htext, startLine_post (hpost _), hfield]
    simp [hversion]

end Late

/-- Both verdicts on the head of a request with one of the late spaces. -/
theorem headVerdict_late {s : Bytes} {headerEnd : Nat}
    (h : strstr blankLine (cstr s) = some headerEnd)
    (hlate : LateMethod (cstr s) headerEnd ∨ LatePath (cstr s) headerEnd ∧
      ∀ line ∈ headLines (headRegion (cstr s) headerEnd), AcceptedLine line) :
    headVerdict (s.take (headerEnd + 4)) headerEnd = .refused 400 ∧
      headVerdict s headerEnd ≠ .refused 400 := by
  rcases hlate with hmethod | ⟨hpath, hlines⟩
  · obtain ⟨hcut, hwhole⟩ := startLine_lateMethod h hmethod
    constructor
    · rw [headVerdict, cstr_take, hcut]
    · rw [headVerdict, hwhole]
      simp
  · obtain ⟨hcut, path, hwhole⟩ := startLine_latePath h hpath
    obtain ⟨headers, hheaders⟩ := Option.isSome_iff_exists.mp ((copiedLines_isSome _ ⟨none, false⟩).mpr hlines)
    constructor
    · rw [headVerdict, cstr_take, hcut]
    · rw [headVerdict, hwhole]
      dsimp only
      rw [hheaders]
      exact requestBody_ne_malformed s headerEnd path headers

/-- Behind its head a request without late spaces is scanned alike however much of it is there. -/
theorem headVerdict_take {s : Bytes} {headerEnd k : Nat}
    (h : strstr blankLine (cstr s) = some headerEnd) (hmethod : ¬ LateMethod (cstr s) headerEnd)
    (hpath : ¬ (LatePath (cstr s) headerEnd ∧
      ∀ line ∈ headLines (headRegion (cstr s) headerEnd), AcceptedLine line))
    (hk : headerEnd + 4 ≤ k) :
    headVerdict (s.take k) headerEnd = .more ∨ headVerdict (s.take k) headerEnd = headVerdict s headerEnd := by
  unfold headVerdict
  rw [cstr_take, headRegion_take h hk]
  rcases startLine_take h hmethod hk with hsame | ⟨hlate, hcut⟩
  · rw [hsame]
    cases startLine (cstr s) with
    | error status => exact Or.inr rfl
    | ok path =>
      dsimp only
      cases (headLines (headRegion (cstr s) headerEnd)).foldlM copiedLine ⟨none, false⟩ with
      | none => exact Or.inr rfl
      | some headers => exact requestBody_take s k headerEnd path headers
  · obtain ⟨_, path, hwhole⟩ := startLine_latePath h hlate
    have hrefused : (headLines (headRegion (cstr s) headerEnd)).foldlM copiedLine ⟨none, false⟩ = none := by
      rw [← Option.not_isSome_iff_eq_none, copiedLines_isSome]
      exact fun hlines => hpath ⟨hlate, hlines⟩
    rw [hcut, hwhole]
    dsimp only
    rw [hrefused]
    exact Or.inr rfl

/-- How a request is cut into reads does not matter exactly when no space that the request line lacks is
found behind its head: the first space of the text, near enough for a method, or the space behind a
path, near enough for one, with a version behind it and all header lines accepted. -/
theorem segmentation_indifferent_iff (s : Bytes) (hmax : s.length < httpBufMax)
    (hfits : ∀ headerEnd, strstr blankLine s = some headerEnd →
      headerEnd + 4 < httpLineMax * httpHeadersMax) :
    (∀ reads reads', Segments.Pieces s reads → Segments.Pieces s reads' →
      connReads [] reads = connReads [] reads') ↔
    ∀ headerEnd, strstr blankLine (cstr s) = some headerEnd →
      ¬ LateMethod (cstr s) headerEnd ∧
      ¬ (LatePath (cstr s) headerEnd ∧
        ∀ line ∈ headLines (headRegion (cstr s) headerEnd), AcceptedLine line) := by
  have hsettled : (∀ reads reads', Segments.Pieces s reads → Segments.Pieces s reads' →
      connReads [] reads = connReads [] reads') ↔ Segments.Settled scanVerdict s (scanVerdict s) := by
    rw [← Segments.firstResult_indifferent_iff]
    simp only [← connReads_verdict, Parsed.verdict_inj]
  have hverdicts : ∀ k, scanVerdict (s.take k) = none ∨ scanVerdict (s.take k) = scanVerdict s ↔
      indexRequestParse (s.take k) = .more ∨ indexRequestParse (s.take k) = indexRequestParse s := by
    intro k
    rw [scanVerdict, scanVerdict, Parsed.verdict_inj, ← Parsed.verdict_inj (q := .more)]
    rfl
  rw [hsettled, Segments.Settled]
  simp only [hverdicts]
  cases hhead : strstr blankLine (cstr s) with
  | none =>
    refine ⟨fun _ _ hnone => (nomatch hnone), fun _ k _ hle => ?_⟩
    have hwhole := parse_headless hmax s.length hhead
    rw [List.take_length] at hwhole
    rw [parse_headless hmax k hhead, hwhole, List.length_take, Nat.min_eq_left hle]
    by_cases hlong : httpLineMax * httpHeadersMax ≤ k
    · rw [if_pos hlong, if_pos (by omega)]
      exact Or.inr rfl
    · rw [if_neg hlong]
      exact Or.inl rfl
  | some headerEnd =>
    have hraw : headerEnd + 4 ≤ httpLineMax * httpHeadersMax := by
      refine Nat.le_of_lt (hfits headerEnd ?_)
      have hcut := strstr_take blankLine_ne s (cstr s).length
      have hpart : cstr s <+: s := List.takeWhile_prefix _
      rw [← List.prefix_iff_eq_take.mp hpart, hhead] at hcut
      exact (Option.filter_eq_some_iff.mp hcut.symm).1
    have hlength := strstr_length blankLine_ne hhead
    have hcstr : (cstr s).length ≤ s.length := (List.takeWhile_prefix _).length_le
    have hblank : blankLine.length = 4 := by decide
    constructor
    · rintro hall _ ⟨⟩
      have hcut := hall (headerEnd + 4) (by omega) (by omega)
      rw [parse_after hmax hhead (Nat.le_refl _), parse_whole hmax hhead] at hcut
      constructor
      · intro hlate
        obtain ⟨hrefused, hother⟩ := headVerdict_late hhead (Or.inl hlate)
        rw [hrefused] at hcut
        rcases hcut with hcut | hcut
        · exact nomatch hcut
        · exact hother hcut.symm
      · intro hlate
        obtain ⟨hrefused, hother⟩ := headVerdict_late hhead (Or.inr hlate)
        rw [hrefused] at hcut
        rcases hcut with hcut | hcut
        · exact nomatch hcut
        · exact hother hcut.symm
    · intro hnot k _ _
      obtain ⟨hmethod, hpath⟩ := hnot headerEnd rfl
      by_cases hk : headerEnd + 4 ≤ k
      · rw [parse_after hmax hhead hk, parse_whole hmax hhead]
        exact headVerdict_take hhead hmethod hpath hk
      · exact Or.inl (parse_before hmax hhead hraw (Nat.not_le.mp hk))

theorem segmentation_indifferent_sample :
    (ascii "POST / HTTP/1.1\r\n\r\n").length < httpBufMax ∧
      ∀ reads reads', Segments.Pieces (ascii "POST / HTTP/1.1\r\n\r\n") reads →
        Segments.Pieces (ascii "POST / HTTP/1.1\r\n\r\n") reads' →
          connReads [] reads = connReads [] reads' := by
  have hhead : strstr blankLine (ascii "POST / HTTP/1.1\r\n\r\n") = some 15 := by decide +kernel
  have hcstr : cstr (ascii "POST / HTTP/1.1\r\n\r\n") = ascii "POST / HTTP/1.1\r\n\r\n" := by
    decide +kernel
  have hlength : (ascii "POST / HTTP/1.1\r\n\r\n").length = 19 := by decide
  refine ⟨by rw [hlength]; decide, (segmentation_indifferent_iff _ (by rw [hlength]; decide) ?_).mpr ?_⟩
  · intro headerEnd h
    rw [hhead] at h
    obtain rfl := Option.some.inj h
    decide
  · intro headerEnd h
    rw [hcstr, hhead] at h
    obtain rfl := Option.some.inj h
    rw [hcstr]
    constructor
    · rintro ⟨method, rest, htext, _, hle, _⟩
      rw [htext, List.length_append, List.length_cons] at hlength
      omega
    · rintro ⟨⟨path, rest, htext, _, hle, _⟩, _⟩
      rw [htext] at hlength
      simp [ascii] at hlength
      omega

/-- A text in two pieces is refused as malformed, and whole for its method or not at all. -/
theorem segmentation_differs :
    connReads [] [ascii "\r\n\r\n", ascii "GET / HTTP/1.1"] = .refused 400 ∧
      connReads [] [ascii "\r\n\r\nGET / HTTP/1.1"] = .refused 405 ∧
      connReads [] [ascii "POST /a\r\n\r\n", ascii " HTTP/1.1"] = .refused 400 ∧
      connReads [] [ascii "POST /a\r\n\r\n HTTP/1.1"] = .complete (ascii "/a\r\n\r\n") [] := by
  decide +kernel

end Redp2p
