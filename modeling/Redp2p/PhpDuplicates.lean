import Redp2p.JsonText
import Redp2p.PhpVips
import Redp2p.Lib.JsonGrammar

/-! The check of the index in PHP for a field that a request has twice: which names of an object it takes for its
fields. -/

namespace Redp2p

open ByteString JsonGrammar

/-! ### The scan -/

/-- `json_decode` of a text between quotes, which decodes it like the index in C, but only when it is UTF-8. -/
def phpJsonString (text : Bytes) : Option Bytes :=
  if text.toByteArray.validateUTF8 then processString text else none

/-- The loop over a string that has begun: the text up to its closing quote, and the text behind it. -/
def phpString : Bytes → Bytes × Bytes
  | [] => ([], [])
  | b :: rest =>
    if b = 0x5c then
      match rest with
      | [] => ([b], [])
      | e :: rest => (b :: e :: (phpString rest).1, (phpString rest).2)
    else if b = 0x22 then ([], rest)
    else (b :: (phpString rest).1, (phpString rest).2)

/-- What the scan skips before a colon. -/
def isBlank (b : UInt8) : Bool := b == 0x20 || b == 0x09

/-- The key that the scan keeps for the text of a name. -/
def phpName (text : Bytes) : PhpKey := phpKey ((phpJsonString text).getD text)

/-- The loop of `hasDuplicateTopKeys`, for as many turns as there are bytes at most. -/
def scanTurns : Nat → Int → List PhpKey → Bytes → Bool
  | 0, _, _, _ => false
  | _ + 1, _, _, [] => false
  | n + 1, depth, keys, c :: rest =>
    if c = 0x22 then
      let (text, rest) := phpString rest
      if depth = 1 ∧ (rest.dropWhile isBlank).head? = some 0x3a then
        if keys.contains (phpName text) then true else scanTurns n depth (keys ++ [phpName text]) rest
      else scanTurns n depth keys rest
    else if c = 0x7b ∨ c = 0x5b then scanTurns n (depth + 1) keys rest
    else if c = 0x7d ∨ c = 0x5d then scanTurns n (depth - 1) keys rest
    else scanTurns n depth keys rest

def scanKeys (depth : Int) (keys : List PhpKey) (json : Bytes) : Bool := scanTurns json.length depth keys json

def hasDuplicateTopKeys (json : Bytes) : Bool := scanKeys 0 [] json

/-! ### Turns -/

theorem phpString_quote (rest : Bytes) : phpString (0x22 :: rest) = ([], rest) := by
  cases rest <;> rfl

theorem phpString_escape (e : UInt8) (rest : Bytes) :
    phpString (0x5c :: e :: rest) = (0x5c :: e :: (phpString rest).1, (phpString rest).2) := rfl

theorem phpString_other {b : UInt8} (hslash : b ≠ 0x5c) (hquote : b ≠ 0x22) (rest : Bytes) :
    phpString (b :: rest) = (b :: (phpString rest).1, (phpString rest).2) := by
  cases rest <;> simp [phpString, hslash, hquote]

theorem phpString_length (text : Bytes) : (phpString text).2.length ≤ text.length := by
  induction text using phpString.induct with
  | case1 => exact Nat.le_refl _
  | case2 => exact Nat.zero_le _
  | case3 e rest ih =>
    simp only [phpString_escape, List.length_cons]
    omega
  | case4 rest _ =>
    simp only [phpString_quote, List.length_cons]
    omega
  | case5 b rest hslash hquote ih =>
    simp only [phpString_other hslash hquote, List.length_cons]
    omega

/-- More turns than bytes change nothing. -/
theorem scanTurns_enough {n : Nat} {depth : Int} {keys : List PhpKey} {text : Bytes} (h : text.length ≤ n) :
    scanTurns n depth keys text = scanKeys depth keys text := by
  have hturns : ∀ (n m : Nat) (depth : Int) (keys : List PhpKey) (text : Bytes), text.length ≤ n →
      text.length ≤ m → scanTurns n depth keys text = scanTurns m depth keys text := by
    intro n
    induction n with
    | zero =>
      intro m depth keys text hn _
      obtain rfl := List.length_eq_zero_iff.mp (Nat.le_zero.mp hn)
      cases m <;> rfl
    | succ n ih =>
      intro m depth keys text hn hm
      cases text with
      | nil => cases m <;> rfl
      | cons c rest =>
        cases m with
        | zero => exact absurd hm (by simp)
        | succ m =>
          simp only [List.length_cons, Nat.add_le_add_iff_right] at hn hm
          have hstring := phpString_length rest
          simp only [scanTurns, ih m _ _ rest hn hm,
            ih m _ _ (phpString rest).2 (Nat.le_trans hstring hn) (Nat.le_trans hstring hm)]
  exact hturns n text.length depth keys text h (Nat.le_refl _)

theorem scanKeys_nil (depth : Int) (keys : List PhpKey) : scanKeys depth keys [] = false := rfl

theorem scanKeys_quote (depth : Int) (keys : List PhpKey) (rest : Bytes) :
    scanKeys depth keys (0x22 :: rest) =
      if depth = 1 ∧ ((phpString rest).2.dropWhile isBlank).head? = some 0x3a then
        keys.contains (phpName (phpString rest).1) ||
          scanKeys depth (keys ++ [phpName (phpString rest).1]) (phpString rest).2
      else scanKeys depth keys (phpString rest).2 := by
  have hrest := phpString_length rest
  simp only [scanKeys, List.length_cons, scanTurns, if_true]
  rw [scanTurns_enough hrest, scanTurns_enough hrest]
  cases keys.contains (phpName (phpString rest).1) <;> rfl

theorem scanKeys_open {c : UInt8} (hc : c = 0x7b ∨ c = 0x5b) (depth : Int) (keys : List PhpKey) (rest : Bytes) :
    scanKeys depth keys (c :: rest) = scanKeys (depth + 1) keys rest := by
  rcases hc with rfl | rfl <;> rfl

theorem scanKeys_close {c : UInt8} (hc : c = 0x7d ∨ c = 0x5d) (depth : Int) (keys : List PhpKey) (rest : Bytes) :
    scanKeys depth keys (c :: rest) = scanKeys (depth - 1) keys rest := by
  rcases hc with rfl | rfl <;> rfl

/-- The scan steps over a text that opens and closes nothing. -/
theorem scanKeys_flat {text : Bytes} (h : Flat text) (depth : Int) (keys : List PhpKey) (rest : Bytes) :
    scanKeys depth keys (text ++ rest) = scanKeys depth keys rest := by
  induction text with
  | nil => rfl
  | cons b text ih =>
    obtain ⟨hb, htext⟩ := List.forall_mem_cons.mp h
    simp only [isBracket, Bool.or_eq_false_iff, beq_eq_false_iff_ne] at hb
    obtain ⟨⟨⟨⟨hquote, hlist⟩, hlistEnd⟩, hobject⟩, hobjectEnd⟩ := hb
    rw [← ih htext, List.cons_append, scanKeys, List.length_cons, scanTurns, if_neg hquote,
      if_neg (by simp [hobject, hlist]), if_neg (by simp [hobjectEnd, hlistEnd])]
    rfl

/-! ### Strings -/

theorem phpString_plain {text : Bytes} (h : ∀ b ∈ text, b ≠ 0x5c ∧ b ≠ 0x22) (rest : Bytes) :
    phpString (text ++ rest) = (text ++ (phpString rest).1, (phpString rest).2) := by
  induction text with
  | nil => rfl
  | cons b text ih =>
    obtain ⟨hb, htext⟩ := List.forall_mem_cons.mp h
    rw [List.cons_append, phpString_other hb.1 hb.2, ih htext]
    rfl

theorem processString_plain {text : Bytes} (h : ∀ b ∈ text, b ≠ 0x5c ∧ 0x20 ≤ b.toNat) (rest : Bytes) :
    processString (text ++ rest) = (processString rest).map (text ++ ·) := by
  induction text with
  | nil => simp
  | cons b text ih =>
    obtain ⟨⟨hslash, hcontrol⟩, htext⟩ := List.forall_mem_cons.mp h
    have hlow : ¬ b < 0x20 := by
      rw [UInt8.lt_iff_toNat_lt]
      exact Nat.not_lt.mpr hcontrol
    have hone : processString (b :: (text ++ rest)) = (processString (text ++ rest)).map (b :: ·) := by
      rw [processString.eq_def]
      simp [hslash, hlow]
    rw [List.cons_append, hone, ih htext, Option.map_map]
    rfl

/-- The bytes of a character that stands for itself in a string. -/
theorem plain_bytes {c : Char} (hcontrol : 0x20 ≤ c.toNat) (hquote : c.toNat ≠ 0x22) (hslash : c.toNat ≠ 0x5c) :
    ∀ b ∈ String.utf8EncodeChar c, b ≠ 0x5c ∧ b ≠ 0x22 ∧ 0x20 ≤ b.toNat := by
  intro b hb
  have hne : b.toNat ≠ 0x5c ∧ b.toNat ≠ 0x22 ∧ 0x20 ≤ b.toNat := by
    rcases utf8EncodeChar_bytes c with ⟨hascii, hbytes⟩ | ⟨-, hbytes⟩
    · rw [hbytes, List.mem_singleton] at hb
      rw [hb, UInt8.toNat_ofNat', Nat.mod_eq_of_lt (by omega)]
      exact ⟨hslash, hquote, hcontrol⟩
    · have hhigh := hbytes b hb
      omega
  refine ⟨?_, ?_, hne.2.2⟩
  · rintro rfl
    exact hne.1 rfl
  · rintro rfl
    exact hne.2.1 rfl

theorem hexCharToInt_of_isHexDigit {b : UInt8} (h : isHexDigit b = true) :
    hexCharToInt b = some (hexDigitValue b) := by
  simp only [isHexDigit, Bool.or_eq_true] at h
  unfold hexCharToInt hexDigitValue
  by_cases hdigit : inRange '0' '9' b = true
  · simp only [hdigit, if_true]
  · by_cases hlower : inRange 'a' 'f' b = true
    · have hbound : 0x61 ≤ b.toNat := by
        simp only [inRange, Bool.and_eq_true, decide_eq_true_eq] at hlower
        exact hlower.1
      simp only [hdigit, hlower, if_true, Bool.false_eq_true, if_false]
      congr 1
      omega
    · have hupper : inRange 'A' 'F' b = true := (h.resolve_left fun h => h.elim hdigit hlower)
      have hbound : 0x41 ≤ b.toNat := by
        simp only [inRange, Bool.and_eq_true, decide_eq_true_eq] at hupper
        exact hupper.1
      simp only [hdigit, hlower, hupper, if_true, Bool.false_eq_true, if_false]
      congr 1
      omega

theorem parseUtf16Hex_codeUnit {digits : Bytes} {n : Nat} (h : CodeUnit digits n) :
    ∃ a b c d, digits = [a, b, c, d] ∧ parseUtf16Hex a b c d = some n := by
  obtain ⟨hlength, hhex, rfl⟩ := h
  match digits, hlength with
  | [a, b, c, d], _ =>
    have hvalue : ∀ x ∈ [a, b, c, d], hexCharToInt x = some (hexDigitValue x) := fun x hx =>
      hexCharToInt_of_isHexDigit (hhex x hx)
    refine ⟨a, b, c, d, rfl, ?_⟩
    simp only [parseUtf16Hex, hvalue a (by simp), hvalue b (by simp), hvalue c (by simp), hvalue d (by simp),
      Option.bind_eq_bind, Option.bind_some, Option.pure_def, List.foldl_cons, List.foldl_nil]
    congr 1
    omega

theorem encodeUtf8_eq {n : Nat} (h : n.isValidChar) : encodeUtf8 n = String.utf8EncodeChar (Char.ofNat n) := by
  have hvalue : (Char.ofNat n).val.toNat = n := by
    have hchar : Char.ofNat n = Char.ofNatAux n h := dif_pos h
    rw [hchar]
    rfl
  have hmax : n < 0x110000 := by
    rcases h with h | ⟨-, h⟩ <;> omega
  unfold encodeUtf8 String.utf8EncodeChar
  simp only [hvalue, Nat.div_one]
  by_cases hone : n < 0x80
  · rw [if_pos hone, if_pos (show n ≤ 0x7f by omega)]
  rw [if_neg hone, if_neg (show ¬ n ≤ 0x7f by omega)]
  by_cases htwo : n < 0x800
  · rw [if_pos htwo, if_pos (show n ≤ 0x7ff by omega), Nat.mod_eq_of_lt (show n / 64 < 0x20 by omega)]
  rw [if_neg htwo, if_neg (show ¬ n ≤ 0x7ff by omega)]
  by_cases hthree : n < 0x10000
  · rw [if_pos hthree, if_pos (show n ≤ 0xffff by omega), Nat.mod_eq_of_lt (show n / 4096 < 0x10 by omega)]
  · rw [if_neg hthree, if_neg (show ¬ n ≤ 0xffff by omega), Nat.mod_eq_of_lt (show n / 262144 < 0x08 by omega)]

/-- ASCII is UTF-8. -/
theorem isValidUTF8_ascii {text : Bytes} (h : ∀ b ∈ text, b.toNat < 0x80) : text.toByteArray.IsValidUTF8 := by
  have htext : text = utf8 (text.map fun b => Char.ofNat b.toNat) := by
    induction text with
    | nil => rfl
    | cons b text ih =>
      obtain ⟨hb, htext⟩ := List.forall_mem_cons.mp h
      have hone := encodeUtf8_eq (Or.inl (show b.toNat < 0xd800 by omega))
      rw [encodeUtf8, if_pos hb, UInt8.ofNat_toNat] at hone
      rw [List.map_cons, utf8, List.flatMap_cons, ← hone, ← utf8, ← ih htext]
      rfl
  exact ⟨_, congrArg List.toByteArray htext⟩

/-- The bytes of an escaped code unit, behind its `u`. -/
theorem isHexDigit_plain {b : UInt8} (h : isHexDigit b = true) : b ≠ 0x5c ∧ b ≠ 0x22 ∧ b.toNat < 0x80 := by
  simp only [isHexDigit, inRange, Bool.or_eq_true, Bool.and_eq_true, decide_eq_true_eq, Char.toNat, Char.reduceVal,
    UInt32.reduceToNat] at h
  refine ⟨?_, ?_, by omega⟩
  · rintro rfl
    exact absurd h (by decide)
  · rintro rfl
    exact absurd h (by decide)

theorem phpString_unit {digits : Bytes} {n : Nat} (h : CodeUnit digits n) (rest : Bytes) :
    phpString (0x5c :: 0x75 :: (digits ++ rest)) =
      (0x5c :: 0x75 :: (digits ++ (phpString rest).1), (phpString rest).2) := by
  have hplain : ∀ b ∈ digits, b ≠ 0x5c ∧ b ≠ 0x22 := fun b hb =>
    ⟨(isHexDigit_plain (h.hex b hb)).1, (isHexDigit_plain (h.hex b hb)).2.1⟩
  rw [phpString_escape, phpString_plain hplain]

/-- The scan passes over every character of a string. -/
theorem phpString_char {text : Bytes} {c : Char} (h : CharText text c) (rest : Bytes) :
    phpString (text ++ rest) = (text ++ (phpString rest).1, (phpString rest).2) := by
  cases h with
  | plain hcontrol hquote hslash =>
    have hplain := plain_bytes hcontrol hquote hslash
    exact phpString_plain (fun b hb => ⟨(hplain b hb).1, (hplain b hb).2.1⟩) rest
  | short he => exact phpString_escape _ rest
  | unit hunit _ => exact phpString_unit hunit rest
  | @pair digits digits' _ _ hunit hunit' _ _ =>
    have htext : 0x5c :: 0x75 :: digits ++ 0x5c :: 0x75 :: digits' ++ rest =
        0x5c :: 0x75 :: (digits ++ 0x5c :: 0x75 :: (digits' ++ rest)) := by simp
    rw [htext, phpString_unit hunit, phpString_unit hunit']
    simp

/-- Every character of a string is decoded to its bytes. -/
theorem processString_char {text : Bytes} {c : Char} (h : CharText text c) (rest : Bytes) :
    processString (text ++ rest) = (processString rest).map (String.utf8EncodeChar c ++ ·) := by
  cases h with
  | plain hcontrol hquote hslash =>
    have hplain := plain_bytes hcontrol hquote hslash
    exact processString_plain (fun b hb => ⟨(hplain b hb).1, (hplain b hb).2.2⟩) rest
  | @short e c he =>
    have htable : ∀ entry ∈ shortEscapes, entry.1 ≠ 0x75 ∧
        (unescape entry.1).map (fun b => [b]) = some (String.utf8EncodeChar entry.2) := by decide +kernel
    obtain ⟨hunicode, hbyte⟩ := htable (e, c) he
    obtain ⟨b, hb, hone⟩ := Option.map_eq_some_iff.mp hbyte
    rw [← hone]
    show processString (0x5c :: e :: rest) = _
    rw [processString.eq_def]
    simp only at hunicode hb
    simp [hunicode, hb]
  | @unit digits n hunit hsurrogate =>
    obtain ⟨x1, x2, x3, x4, rfl, hparse⟩ := parseUtf16Hex_codeUnit hunit
    have hmax : n < 65536 := hunit.lt
    have hvalid : n.isValidChar := by
      rcases hsurrogate with h | h
      · exact Or.inl h
      · exact Or.inr ⟨h, by omega⟩
    show processString (0x5c :: 0x75 :: x1 :: x2 :: x3 :: x4 :: rest) = _
    rw [processString.eq_def]
    simp [hparse, hsurrogate, encodeUtf8_eq hvalid]
  | @pair digits digits' high low hunit hunit' hhigh hlow =>
    obtain ⟨x1, x2, x3, x4, rfl, hparse⟩ := parseUtf16Hex_codeUnit hunit
    obtain ⟨y1, y2, y3, y4, rfl, hparse'⟩ := parseUtf16Hex_codeUnit hunit'
    have hvalid : ((high - 0xd800) * 1024 + (low - 0xdc00) + 0x10000).isValidChar := Or.inr ⟨by omega, by omega⟩
    have hsurrogate : ¬ (high < 0xd800 ∨ 0xdfff < high) := by omega
    have htrail : ¬ (low < 0xdc00 ∨ 0xdfff < low) := by omega
    have hlead : ¬ 0xdbff < high := by omega
    show processString (0x5c :: 0x75 :: x1 :: x2 :: x3 :: x4 :: 0x5c :: 0x75 :: y1 :: y2 :: y3 :: y4 :: rest) = _
    rw [processString.eq_def]
    simp [hparse, hparse', hsurrogate, htrail, hlead, encodeUtf8_eq hvalid]

theorem isValidUTF8_char {text : Bytes} {c : Char} (h : CharText text c) : text.toByteArray.IsValidUTF8 := by
  have hunicode : ∀ {digits : Bytes} {n : Nat}, CodeUnit digits n → ∀ b ∈ (0x5c :: 0x75 :: digits), b.toNat < 0x80 := by
    intro digits n hunit b hb
    rcases List.mem_cons.mp hb with rfl | hb
    · decide
    rcases List.mem_cons.mp hb with rfl | hb
    · decide
    · exact (isHexDigit_plain (hunit.hex b hb)).2.2
  cases h with
  | plain => exact Char.isValidUTF8_toByteArray_utf8EncodeChar
  | @short e c he =>
    have htable : ∀ entry ∈ shortEscapes, entry.1.toNat < 0x80 := by decide +kernel
    refine isValidUTF8_ascii ?_
    intro b hb
    rcases List.mem_cons.mp hb with rfl | hb
    · decide
    · rw [List.mem_singleton.mp hb]
      exact htable (e, c) he
  | unit hunit _ => exact isValidUTF8_ascii (hunicode hunit)
  | pair hunit hunit' _ _ =>
    refine isValidUTF8_ascii ?_
    intro b hb
    rcases List.mem_append.mp hb with hb | hb
    · exact hunicode hunit b hb
    · exact hunicode hunit' b hb

/-- The scan finds the end of a string, and reads the name that it stands for. -/
theorem phpString_text {text : Bytes} {chars : List Char} (h : StringText text chars) (rest : Bytes) :
    phpString (text ++ 0x22 :: rest) = (text, rest) := by
  induction h with
  | nil => exact phpString_quote rest
  | cons hchar _ ih => rw [List.append_assoc, phpString_char hchar, ih]

theorem phpJsonString_text {text : Bytes} {chars : List Char} (h : StringText text chars) :
    phpJsonString text = some (utf8 chars) := by
  have hvalid : text.toByteArray.IsValidUTF8 := by
    induction h with
    | nil => exact isValidUTF8_ascii fun b hb => absurd hb List.not_mem_nil
    | cons hchar _ ih =>
      rw [List.toByteArray_append]
      exact (isValidUTF8_char hchar).append ih
  have hprocess : processString text = some (utf8 chars) := by
    clear hvalid
    induction h with
    | nil => rfl
    | cons hchar _ ih =>
      rw [processString_char hchar, ih]
      rfl
  rw [phpJsonString, if_pos (ByteArray.validateUTF8_eq_true_iff.mpr hvalid), hprocess]

/-! ### Values -/

/-- A string that no colon follows is no name. -/
theorem scanKeys_string {text : Bytes} {chars : List Char} (h : StringText text chars) {depth : Int}
    {keys : List PhpKey} {rest : Bytes} (hrest : ¬ (depth = 1 ∧ (rest.dropWhile isBlank).head? = some 0x3a)) :
    scanKeys depth keys (quote text ++ rest) = scanKeys depth keys rest := by
  have hquote : quote text ++ rest = 0x22 :: (text ++ 0x22 :: rest) := by simp [quote]
  rw [hquote, scanKeys_quote, phpString_text h, if_neg hrest]

/-- The scan comes back from a text between brackets, at the depth where it was, when it passes over what is
between them. -/
theorem scanKeys_brackets {o c : UInt8} (ho : o = 0x7b ∨ o = 0x5b) (hc : c = 0x7d ∨ c = 0x5d) {text : Bytes}
    {depth : Int} {keys : List PhpKey}
    (h : ∀ rest, scanKeys (depth + 1) keys (text ++ rest) = scanKeys (depth + 1) keys rest) (rest : Bytes) :
    scanKeys depth keys (o :: (text ++ [c]) ++ rest) = scanKeys depth keys rest := by
  rw [List.cons_append, List.append_assoc, scanKeys_open ho, h, List.singleton_append, scanKeys_close hc,
    Int.add_sub_cancel]

theorem scanKeys_byte {b : UInt8} (h : isBracket b = false) (depth : Int) (keys : List PhpKey) (rest : Bytes) :
    scanKeys depth keys (b :: rest) = scanKeys depth keys rest :=
  scanKeys_flat (List.forall_mem_singleton.mpr h) depth keys rest

/-- Below the members of the object, the scan passes over whatever the grammar derives. -/
theorem scanKeys_deep {s : Symbol} {text : Bytes} {members : List Member} (h : Derives s text members) {depth : Int}
    (hdepth : 2 ≤ depth) (keys : List PhpKey) (rest : Bytes) :
    scanKeys depth keys (text ++ rest) = scanKeys depth keys rest := by
  have hname : ∀ {name : Bytes} {chars : List Char} {depth : Int} {rest : Bytes}, 2 ≤ depth → StringText name chars →
      scanKeys depth keys (quote name ++ rest) = scanKeys depth keys rest :=
    fun hdepth hname => scanKeys_string hname fun hcolon => absurd hcolon.1 (by omega)
  induction h generalizing depth rest with
  | literal h => exact scanKeys_flat h.flat depth keys rest
  | number h => exact scanKeys_flat h.flat depth keys rest
  | string h => exact hname hdepth h
  | emptyArray h => exact scanKeys_brackets (Or.inr rfl) (Or.inr rfl) (scanKeys_flat h.flat _ keys) rest
  | array _ ih => exact scanKeys_brackets (Or.inr rfl) (Or.inr rfl) (fun rest => ih (by omega) rest) rest
  | emptyObject h => exact scanKeys_brackets (Or.inl rfl) (Or.inl rfl) (scanKeys_flat h.flat _ keys) rest
  | object _ ih => exact scanKeys_brackets (Or.inl rfl) (Or.inl rfl) (fun rest => ih (by omega) rest) rest
  | element hfront _ hback ih =>
    rw [List.append_assoc, List.append_assoc, scanKeys_flat hfront.flat, ih hdepth, scanKeys_flat hback.flat]
  | last _ ih => exact ih hdepth rest
  | next _ _ ih ihrest =>
    rw [List.append_assoc, ih hdepth, List.cons_append, scanKeys_byte rfl, ihrest hdepth]
  | lastMember hfront hstring hgap _ ih =>
    simp only [List.append_assoc, List.cons_append]
    rw [scanKeys_flat hfront.flat, hname hdepth hstring, scanKeys_flat hgap.flat, scanKeys_byte rfl, ih hdepth]
  | nextMember hfront hstring hgap _ _ ih ihrest =>
    simp only [List.append_assoc, List.cons_append]
    rw [scanKeys_flat hfront.flat, hname hdepth hstring, scanKeys_flat hgap.flat, scanKeys_byte rfl, ih hdepth,
      scanKeys_byte rfl, ihrest hdepth]

/-! ### Members -/

/-- Behind space, the scan finds a colon only when the space is blank. -/
theorem head_gap {gap : Bytes} (hgap : IsSpaces gap) {c : UInt8} (hc : isBlank c = false) (rest : Bytes) :
    ((gap ++ c :: rest).dropWhile isBlank).head? = some 0x3a ↔ c = 0x3a ∧ ∀ b ∈ gap, isBlank b = true := by
  induction gap with
  | nil =>
    rw [List.nil_append, List.dropWhile_cons_of_neg (by simp [hc]), List.head?_cons]
    simp
  | cons b gap ih =>
    obtain ⟨hb, hgap⟩ := List.forall_mem_cons.mp hgap
    rw [List.cons_append, List.forall_mem_cons]
    by_cases hblank : isBlank b = true
    · rw [List.dropWhile_cons_of_pos hblank, ih hgap]
      simp [hblank]
    · rw [List.dropWhile_cons_of_neg hblank, List.head?_cons]
      refine iff_of_false ?_ fun h => hblank h.2.1
      rintro ⟨⟩
      exact absurd hb (by decide)

theorem scanKeys_value {text : Bytes} {members : List Member} (h : Derives .value text members)
    (keys : List PhpKey) {rest : Bytes} (hrest : (rest.dropWhile isBlank).head? ≠ some 0x3a) :
    scanKeys 1 keys (text ++ rest) = scanKeys 1 keys rest := by
  have hdeep : (2 : Int) ≤ 1 + 1 := by decide
  cases h with
  | literal h => exact scanKeys_flat h.flat 1 keys rest
  | number h => exact scanKeys_flat h.flat 1 keys rest
  | string h => exact scanKeys_string h fun hcolon => hrest hcolon.2
  | emptyArray h => exact scanKeys_brackets (Or.inr rfl) (Or.inr rfl) (scanKeys_flat h.flat _ keys) rest
  | array h => exact scanKeys_brackets (Or.inr rfl) (Or.inr rfl) (scanKeys_deep h hdeep keys) rest
  | emptyObject h => exact scanKeys_brackets (Or.inl rfl) (Or.inl rfl) (scanKeys_flat h.flat _ keys) rest
  | object h => exact scanKeys_brackets (Or.inl rfl) (Or.inl rfl) (scanKeys_deep h hdeep keys) rest

/-- The scan steps over the value of a member, up to the comma or the brace behind it. -/
theorem scanKeys_element {text : Bytes} (h : Derives .element text []) (keys : List PhpKey) {c : UInt8}
    (hc : isBlank c = false) (hcolon : c ≠ 0x3a) (rest : Bytes) :
    scanKeys 1 keys (text ++ c :: rest) = scanKeys 1 keys (c :: rest) := by
  cases h with
  | element hfront hvalue hback =>
    have hnext := mt (head_gap hback hc rest).mp fun hboth => hcolon hboth.1
    rw [List.append_assoc, List.append_assoc, scanKeys_flat hfront.flat, scanKeys_value hvalue keys hnext,
      scanKeys_flat hback.flat]

/-- A member whose name the scan takes for one: there are only spaces and tabs before its colon. -/
def isSeen (m : Member) : Bool := m.gap.all isBlank

/-- The keys that the scan keeps for some members. -/
def seenKeys (members : List Member) : List PhpKey :=
  (members.filter isSeen).map fun m => phpKey (utf8 m.name)

/-- One of some keys is among those before it. -/
def repeats (keys : List PhpKey) : List PhpKey → Bool
  | [] => false
  | key :: rest => keys.contains key || repeats (keys ++ [key]) rest

theorem repeats_iff {keys rest : List PhpKey} (h : keys.Nodup) :
    repeats keys rest = true ↔ ¬ (keys ++ rest).Nodup := by
  induction rest generalizing keys with
  | nil => simp [repeats, h]
  | cons key rest ih =>
    rw [repeats, Bool.or_eq_true, List.contains_iff_mem]
    by_cases hmem : key ∈ keys
    · refine iff_of_true (Or.inl hmem) ?_
      intro hnodup
      exact (List.nodup_append.mp hnodup).2.2 key hmem key List.mem_cons_self rfl
    · have hnext : (keys ++ [key]).Nodup := by
        rw [List.nodup_append]
        refine ⟨h, List.nodup_singleton key, ?_⟩
        rintro a ha b hb rfl
        exact hmem (List.mem_singleton.mp hb ▸ ha)
      rw [or_iff_right hmem, ih hnext, List.append_assoc, List.singleton_append]

theorem scanKeys_name {front name gap : Bytes} {chars : List Char} (hfront : IsSpaces front)
    (hname : StringText name chars) (hgap : IsSpaces gap) (keys : List PhpKey) (rest : Bytes) :
    scanKeys 1 keys (front ++ quote name ++ gap ++ 0x3a :: rest) =
      (repeats keys (seenKeys [⟨chars, gap⟩]) || scanKeys 1 (keys ++ seenKeys [⟨chars, gap⟩]) rest) := by
  have htext : front ++ quote name ++ gap ++ 0x3a :: rest =
      front ++ 0x22 :: (name ++ 0x22 :: (gap ++ 0x3a :: rest)) := by simp [quote]
  rw [htext, scanKeys_flat hfront.flat, scanKeys_quote, phpString_text hname]
  have hcolon := head_gap hgap (show isBlank 0x3a = false from rfl) rest
  have hkey : phpName name = phpKey (utf8 chars) := by rw [phpName, phpJsonString_text hname, Option.getD_some]
  rw [← List.all_eq_true] at hcolon
  by_cases hseen : isSeen ⟨chars, gap⟩ = true
  · have hkeys : seenKeys [⟨chars, gap⟩] = [phpKey (utf8 chars)] := by simp [seenKeys, hseen]
    rw [if_pos ⟨rfl, hcolon.mpr ⟨rfl, hseen⟩⟩, hkeys, repeats, repeats, Bool.or_false, hkey,
      scanKeys_flat hgap.flat, scanKeys_byte rfl]
  · have hkeys : seenKeys [⟨chars, gap⟩] = [] := by simp [seenKeys, hseen]
    rw [if_neg fun h => hseen (hcolon.mp h.2).2, hkeys, repeats, Bool.false_or, List.append_nil,
      scanKeys_flat hgap.flat, scanKeys_byte rfl]

theorem repeats_append (keys a b : List PhpKey) :
    repeats keys (a ++ b) = (repeats keys a || repeats (keys ++ a) b) := by
  induction a generalizing keys with
  | nil => rw [List.nil_append, List.append_nil, repeats, Bool.false_or]
  | cons key a ih =>
    rw [List.cons_append, repeats, repeats, ih, Bool.or_assoc, List.append_assoc, List.singleton_append]

/-- The scan of the members of the object: it ends at a key that it has kept, or goes on behind the object. -/
theorem scanKeys_members {text : Bytes} {members : List Member} (h : Derives .members text members)
    (keys : List PhpKey) (rest : Bytes) :
    scanKeys 1 keys (text ++ 0x7d :: rest) =
      (repeats keys (seenKeys members) || scanKeys 0 (keys ++ seenKeys members) rest) := by
  generalize hs : Symbol.members = s at h
  induction h generalizing keys with
  | lastMember hfront hname hgap helement =>
    simp only [List.append_assoc, List.cons_append]
    rw [← List.append_assoc, ← List.append_assoc, scanKeys_name hfront hname hgap,
      scanKeys_element helement _ rfl (by decide), scanKeys_close (Or.inl rfl)]
    rfl
  | @nextMember _ _ gap _ _ chars members hfront hname hgap helement _ _ ih =>
    have hsplit : seenKeys (⟨chars, gap⟩ :: members) = seenKeys [⟨chars, gap⟩] ++ seenKeys members := by
      rw [← List.singleton_append, seenKeys, List.filter_append, List.map_append]
      rfl
    simp only [List.append_assoc, List.cons_append]
    rw [← List.append_assoc, ← List.append_assoc, scanKeys_name hfront hname hgap,
      scanKeys_element helement _ rfl (by decide), scanKeys_byte rfl, ih _ hs, hsplit, repeats_append,
      List.append_assoc, Bool.or_assoc]
  | _ => exact nomatch hs

/-- The scan of an object finds a repeated key among those that it keeps. -/
theorem hasDuplicateTopKeys_object {text : Bytes} {members : List Member} (h : IsObject text members) :
    hasDuplicateTopKeys text = repeats [] (seenKeys members) := by
  obtain ⟨front, body, back, rfl, hfront, hback, hbody⟩ := h
  have hend : ∀ keys, scanKeys 0 keys back = false := by
    intro keys
    have hflat := scanKeys_flat hback.flat 0 keys []
    rwa [List.append_nil, scanKeys_nil] at hflat
  rw [hasDuplicateTopKeys, scanKeys_flat hfront.flat, scanKeys_open (Or.inl rfl)]
  rcases hbody with ⟨hspaces, rfl⟩ | hmembers
  · rw [scanKeys_flat hspaces.flat, scanKeys_close (Or.inl rfl)]
    exact hend []
  · refine (scanKeys_members hmembers [] back).trans ?_
    rw [hend, Bool.or_false]

/-- The check finds exactly the names that stand twice before nothing but spaces and tabs. -/
theorem hasDuplicateTopKeys_iff {text : Bytes} {members : List Member} (h : IsObject text members) :
    hasDuplicateTopKeys text = true ↔ ¬ ((members.filter isSeen).map Member.name).Nodup := by
  have hkeys : Function.Injective fun name => phpKey (utf8 name) := fun _ _ heq => utf8_injective (phpKey_injective heq)
  have hmap : seenKeys members = ((members.filter isSeen).map Member.name).map fun name => phpKey (utf8 name) := by
    rw [seenKeys, List.map_map]
    rfl
  rw [hasDuplicateTopKeys_object h, repeats_iff List.nodup_nil, List.nil_append, hmap,
    List.nodup_map_iff hkeys]

/-- The check is right about the names of an object exactly when they are all different, or two of those are equal
that stand before nothing but spaces and tabs. -/
theorem duplicate_names_found_iff {text : Bytes} {members : List Member} (h : IsObject text members) :
    (hasDuplicateTopKeys text = true ↔ ¬ (members.map Member.name).Nodup) ↔
      (members.map Member.name).Nodup ∨ ¬ ((members.filter isSeen).map Member.name).Nodup := by
  have hsublist : ((members.filter isSeen).map Member.name).Sublist (members.map Member.name) :=
    List.filter_sublist.map _
  have hseen : (members.map Member.name).Nodup → ((members.filter isSeen).map Member.name).Nodup :=
    fun hall => hall.sublist hsublist
  rw [hasDuplicateTopKeys_iff h]
  tauto

example : hasDuplicateTopKeys (ascii "\x7b\"op\":[\"op\"],\"\\u006fp\" :\"list\"\x7d") = true := by decide +kernel

/-- A request with two operations, the first of which has its colon on the next line. -/
def brokenRequest : Bytes := ascii "\x7b\"op\"\n:\"lookup\",\"op\":\"list\"\x7d"

def opName : List Char := "op".toList

theorem opName_text : StringText (ascii "op") opName := .ascii (by decide +kernel)

theorem brokenRequest_isObject : IsObject brokenRequest [⟨opName, [0x0a]⟩, ⟨opName, []⟩] := by
  have hnone : IsSpaces [] := fun b hb => absurd hb List.not_mem_nil
  have hline : IsSpaces [0x0a] := by
    intro b hb
    rw [List.mem_singleton.mp hb]
    rfl
  have hlookup : Derives .element ([] ++ quote (ascii "lookup") ++ []) [] :=
    .element hnone (.string (.ascii (by decide +kernel))) hnone
  have hlist : Derives .element ([] ++ quote (ascii "list") ++ []) [] :=
    .element hnone (.string (.ascii (by decide +kernel))) hnone
  exact ⟨[], _, [], by decide +kernel, hnone, hnone,
    Or.inr (.nextMember hnone opName_text hline hlookup (.lastMember hnone opName_text hnone hlist))⟩

/-- The check misses the second operation. -/
theorem duplicate_names_missed :
    IsObject brokenRequest [⟨opName, [0x0a]⟩, ⟨opName, []⟩] ∧
      ¬ ([⟨opName, [0x0a]⟩, ⟨opName, []⟩].map Member.name).Nodup ∧ hasDuplicateTopKeys brokenRequest = false := by
  exact ⟨brokenRequest_isObject, by decide, by decide +kernel⟩

/-- Neither side of the condition holds of this request. -/
theorem duplicate_names_found_sample :
    ¬ (([⟨opName, [0x0a]⟩, ⟨opName, []⟩].map Member.name).Nodup ∨
        ¬ (([⟨opName, [0x0a]⟩, ⟨opName, []⟩].filter isSeen).map Member.name).Nodup) ∧
      ¬ (hasDuplicateTopKeys brokenRequest = true ↔ ¬ ([⟨opName, [0x0a]⟩, ⟨opName, []⟩].map Member.name).Nodup) := by
  have hcondition : ¬ (([⟨opName, [0x0a]⟩, ⟨opName, []⟩].map Member.name).Nodup ∨
      ¬ (([⟨opName, [0x0a]⟩, ⟨opName, []⟩].filter isSeen).map Member.name).Nodup) := by decide
  exact ⟨hcondition, fun hfound => hcondition ((duplicate_names_found_iff brokenRequest_isObject).mp hfound)⟩

end Redp2p
