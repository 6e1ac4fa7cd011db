import Redp2p.Json

/-! The parser of the vendored parson library, and the texts that it reads back. What the C library
makes of a number is a parameter, `strtod`: the value, if it is finite, and how many bytes it took. -/

namespace Redp2p

open ByteString

def maxNesting : Nat := 2048

/-! ### Strings -/

/-- `skip_quotes` behind the opening quote: the text up to the closing quote and what follows it. -/
def skipQuotes : Bytes → Option (Bytes × Bytes)
  | [] => none
  | c :: rest =>
    if c = 0x22 then some ([], rest)
    else if c = 0x5c then
      match rest with
      | [] => none
      | e :: rest => (skipQuotes rest).map fun p => (c :: e :: p.1, p.2)
    else (skipQuotes rest).map fun p => (c :: p.1, p.2)

def hexCharToInt (c : UInt8) : Option Nat :=
  if inRange '0' '9' c then some (c.toNat - 0x30)
  else if inRange 'a' 'f' c then some (c.toNat - 0x61 + 10)
  else if inRange 'A' 'F' c then some (c.toNat - 0x41 + 10)
  else none

/-- `parse_utf16_hex`: the four digits of a code unit. -/
def parseUtf16Hex (a b c d : UInt8) : Option Nat := do
  let x1 ← hexCharToInt a
  let x2 ← hexCharToInt b
  let x3 ← hexCharToInt c
  let x4 ← hexCharToInt d
  return x1 * 4096 + x2 * 256 + x3 * 16 + x4

/-- The UTF-8 bytes that `parse_utf16` writes for a code point. -/
def encodeUtf8 (cp : Nat) : Bytes :=
  let tail (shift : Nat) : UInt8 := UInt8.ofNat (cp / shift % 64 + 0x80)
  if cp < 0x80 then [UInt8.ofNat cp]
  else if cp < 0x800 then [UInt8.ofNat (cp / 64 + 0xc0), tail 1]
  else if cp < 0x10000 then [UInt8.ofNat (cp / 4096 + 0xe0), tail 64, tail 1]
  else [UInt8.ofNat (cp / 262144 + 0xf0), tail 4096, tail 64, tail 1]

/-- The byte that an escape other than `u` stands for. -/
def unescape (e : UInt8) : Option UInt8 :=
  if e = 0x22 then some 0x22
  else if e = 0x5c then some 0x5c
  else if e = 0x2f then some 0x2f
  else if e = 0x62 then some 0x08
  else if e = 0x66 then some 0x0c
  else if e = 0x6e then some 0x0a
  else if e = 0x72 then some 0x0d
  else if e = 0x74 then some 0x09
  else none

/-- `process_string`: the bytes that the text between two quotes stands for. -/
def processString : Bytes → Option Bytes
  | [] => some []
  | c :: rest =>
    if c = 0x5c then
      match rest with
      | [] => none
      | e :: rest =>
        if e = 0x75 then
          match rest with
          | h1 :: h2 :: h3 :: h4 :: rest =>
            match parseUtf16Hex h1 h2 h3 h4 with
            | none => none
            | some cp =>
              if cp < 0xd800 || 0xdfff < cp then (processString rest).map (encodeUtf8 cp ++ ·)
              else if 0xdbff < cp then none
              else
                match rest with
                | b :: u :: t1 :: t2 :: t3 :: t4 :: rest =>
                  if b = 0x5c && u = 0x75 then
                    match parseUtf16Hex t1 t2 t3 t4 with
                    | none => none
                    | some trail =>
                      if trail < 0xdc00 || 0xdfff < trail then none
                      else
                        let joined := (cp - 0xd800) * 1024 + (trail - 0xdc00) + 0x10000
                        (processString rest).map (encodeUtf8 joined ++ ·)
                  else none
                | _ => none
          | _ => none
        else
          match unescape e with
          | none => none
          | some b => (processString rest).map (b :: ·)
    else if c < 0x20 then none
    else (processString rest).map (c :: ·)

/-- `get_quoted_string`. -/
def getQuotedString : Bytes → Option (Bytes × Bytes)
  | [] => none
  | c :: rest =>
    if c ≠ 0x22 then none
    else
      match skipQuotes rest with
      | none => none
      | some (inner, rest) => (processString inner).map fun s => (s, rest)

/-! ### Values -/

/-- `is_decimal`: no leading zero before another digit, and no hexadecimal. -/
def isDecimal (text : Bytes) : Bool :=
  !(text.length > 1 && text.getD 0 0 == 0x30 && text.getD 1 0 != 0x2e) &&
  !(text.length > 2 && text.take 2 == ascii "-0" && text.getD 2 0 != 0x2e) &&
  text.all fun c => c != 0x78 && c != 0x58

/-- What `strtod` makes of the text at a number. -/
abbrev Strtod := Bytes → Option Rat × Nat

def parseNumberValue (strtod : Strtod) (text : Bytes) : Option (Json Rat × Bytes) :=
  let (value, taken) := strtod text
  if isDecimal (text.take taken) then value.map fun n => (.num n, text.drop taken) else none

def parseBooleanValue (text : Bytes) : Option (Json Rat × Bytes) :=
  if (ascii "true").isPrefixOf text then some (.bool true, text.drop 4)
  else if (ascii "false").isPrefixOf text then some (.bool false, text.drop 5)
  else none

def parseNullValue (text : Bytes) : Option (Json Rat × Bytes) :=
  if (ascii "null").isPrefixOf text then some (.null, text.drop 4) else none

def skipWhitespaces (text : Bytes) : Bytes := text.dropWhile isSpace

mutual

/-- `parse_value`. Every turn of the recursion passes a bracket, a comma or a value, so twice the
length of the text bounds the turns. -/
def parseValue (strtod : Strtod) : Nat → Nat → Bytes → Option (Json Rat × Bytes)
  | 0, _, _ => none
  | turns + 1, nesting, text =>
    if nesting > maxNesting then none
    else
      match skipWhitespaces text with
      | [] => none
      | c :: rest =>
        if c = 0x7b then
          let rest := skipWhitespaces rest
          if rest.head? = some 0x7d then some (.obj [], rest.tail)
          else (parseMembers strtod turns (nesting + 1) [] rest).map fun p => (.obj p.1, p.2)
        else if c = 0x5b then
          let rest := skipWhitespaces rest
          if rest.head? = some 0x5d then some (.arr [], rest.tail)
          else (parseItems strtod turns (nesting + 1) rest).map fun p => (.arr p.1, p.2)
        else if c = 0x22 then (getQuotedString (c :: rest)).map fun p => (.str p.1, p.2)
        else if c = 0x66 || c = 0x74 then parseBooleanValue (c :: rest)
        else if c = 0x2d || isDigit c then parseNumberValue strtod (c :: rest)
        else if c = 0x6e then parseNullValue (c :: rest)
        else none

/-- The loop of `parse_object_value`: the members read so far, and the rest of them. -/
def parseMembers (strtod : Strtod) :
    Nat → Nat → JsonObject Rat → Bytes → Option (JsonObject Rat × Bytes)
  | 0, _, _, _ => none
  | turns + 1, nesting, obj, text =>
    match getQuotedString text with
    | none => none
    | some (name, rest) =>
      match skipWhitespaces rest with
      | [] => none
      | colon :: rest =>
        if name.contains 0 || colon ≠ 0x3a then none
        else
          match parseValue strtod turns nesting rest with
          | none => none
          | some (value, rest) =>
            -- `json_object_add` refuses a second member of a name
            if obj.any fun m => m.1 == name then none
            else
              match skipWhitespaces rest with
              | [] => none
              | c :: rest =>
                let obj := obj ++ [(name, value)]
                if c = 0x2c then
                  let rest := skipWhitespaces rest
                  if rest.head? = some 0x7d then some (obj, rest.tail)
                  else parseMembers strtod turns nesting obj rest
                else if c = 0x7d then some (obj, rest)
                else none

/-- The loop of `parse_array_value`. -/
def parseItems (strtod : Strtod) : Nat → Nat → Bytes → Option (List (Json Rat) × Bytes)
  | 0, _, _ => none
  | turns + 1, nesting, text =>
    match parseValue strtod turns nesting text with
    | none => none
    | some (value, rest) =>
      match skipWhitespaces rest with
      | [] => none
      | c :: rest =>
        if c = 0x2c then
          let rest := skipWhitespaces rest
          if rest.head? = some 0x5d then some ([value], rest.tail)
          else (parseItems strtod turns nesting rest).map fun p => (value :: p.1, p.2)
        else if c = 0x5d then some ([value], rest)
        else none

end

/-- `json_parse_string`. What follows the value is not looked at. -/
def jsonParseString (strtod : Strtod) (text : Bytes) : Option (Json Rat) :=
  let text := if [0xef, 0xbb, 0xbf].isPrefixOf text then text.drop 3 else text
  (parseValue strtod (2 * text.length + 2) 0 text).map Prod.fst

/-! ### Strings that were written are read back -/

/-- What is written for a byte: a short escape, a code unit, or the byte itself. -/
inductive Escaped (c : UInt8) : Bytes → Prop where
  | short (e : UInt8) (escape : unescape e = some c) (ne : e ≠ 0x75) : Escaped c [0x5c, e]
  | code (control : c < 0x20) :
      Escaped c [0x5c, 0x75, 0x30, 0x30, hexDigit (c.toNat / 16), hexDigit (c.toNat % 16)]
  | plain (quote : c ≠ 0x22) (backslash : c ≠ 0x5c) (printable : ¬ c < 0x20) : Escaped c [c]

theorem escapeByte_escaped (c : UInt8) : Escaped c (escapeByte c) := by
  unfold escapeByte
  split_ifs with hquote hbackslash hb hf hn hr ht hcontrol hslash
  · exact .short 0x22 (by rw [hquote]; rfl) (by decide)
  · exact .short 0x5c (by rw [hbackslash]; rfl) (by decide)
  · exact .short 0x62 (by rw [hb]; rfl) (by decide)
  · exact .short 0x66 (by rw [hf]; rfl) (by decide)
  · exact .short 0x6e (by rw [hn]; rfl) (by decide)
  · exact .short 0x72 (by rw [hr]; rfl) (by decide)
  · exact .short 0x74 (by rw [ht]; rfl) (by decide)
  · exact .code hcontrol
  · exact .short 0x2f (by rw [hslash]; rfl) (by decide)
  · exact .plain hquote hbackslash hcontrol

theorem skipQuotes_escape (e : UInt8) (text : Bytes) :
    skipQuotes (0x5c :: e :: text) = (skipQuotes text).map fun p => (0x5c :: e :: p.1, p.2) := by
  simp [skipQuotes]

theorem skipQuotes_cons {c : UInt8} (hquote : c ≠ 0x22) (hbackslash : c ≠ 0x5c) (text : Bytes) :
    skipQuotes (c :: text) = (skipQuotes text).map fun p => (c :: p.1, p.2) := by
  cases text <;> simp [skipQuotes, hquote, hbackslash]

theorem skipQuotes_quote (text : Bytes) : skipQuotes (0x22 :: text) = some ([], text) := by
  cases text <;> simp [skipQuotes]

theorem hexDigit_ne_quote {n : Nat} (h : n < 16) : hexDigit n ≠ 0x22 ∧ hexDigit n ≠ 0x5c := by
  have hall : ∀ n < 16, hexDigit n ≠ 0x22 ∧ hexDigit n ≠ 0x5c := by decide
  exact hall n h

theorem skipQuotes_escaped {c : UInt8} {written : Bytes} (h : Escaped c written) (text : Bytes) :
    skipQuotes (written ++ text) = (skipQuotes text).map fun p => (written ++ p.1, p.2) := by
  cases h with
  | short e escape ne => exact skipQuotes_escape e text
  | plain quote backslash printable => exact skipQuotes_cons quote backslash text
  | code control =>
    have hlt := c.toNat_lt
    obtain ⟨hq1, hs1⟩ := hexDigit_ne_quote (n := c.toNat / 16) (by omega)
    obtain ⟨hq2, hs2⟩ := hexDigit_ne_quote (n := c.toNat % 16) (by omega)
    simp only [List.cons_append, List.nil_append]
    rw [skipQuotes_escape, skipQuotes_cons (by decide) (by decide),
      skipQuotes_cons (by decide) (by decide), skipQuotes_cons hq1 hs1, skipQuotes_cons hq2 hs2]
    cases skipQuotes text <;> rfl

theorem skipQuotes_flatMap (s rest : Bytes) :
    skipQuotes (s.flatMap escapeByte ++ 0x22 :: rest) = some (s.flatMap escapeByte, rest) := by
  induction s with
  | nil => exact skipQuotes_quote rest
  | cons c s ih =>
    rw [List.flatMap_cons, List.append_assoc, skipQuotes_escaped (escapeByte_escaped c), ih]
    rfl

theorem parseUtf16Hex_control {c : UInt8} (h : c < 0x20) :
    parseUtf16Hex 0x30 0x30 (hexDigit (c.toNat / 16)) (hexDigit (c.toNat % 16)) =
      some c.toNat := by
  have hall : ∀ n < 32, parseUtf16Hex 0x30 0x30 (hexDigit (n / 16)) (hexDigit (n % 16)) =
      some n := by decide
  exact hall c.toNat (by simpa [UInt8.lt_iff_toNat_lt] using h)

theorem processString_escaped {c : UInt8} {written : Bytes} (h : Escaped c written)
    (text : Bytes) : processString (written ++ text) = (processString text).map (c :: ·) := by
  cases h with
  | short e escape ne =>
    show processString (0x5c :: e :: text) = _
    rw [processString.eq_def]
    simp [ne, escape]
  | plain quote backslash printable =>
    show processString (c :: text) = _
    rw [processString.eq_def]
    simp [backslash, printable]
  | code control =>
    have hlt : c.toNat < 0x20 := by simpa [UInt8.lt_iff_toNat_lt] using control
    have hlow : c.toNat < 0xd800 := by omega
    have hone : encodeUtf8 c.toNat = [c] := by
      rw [encodeUtf8, if_pos (by omega), UInt8.ofNat_toNat]
    simp only [List.cons_append, List.nil_append]
    rw [processString.eq_def]
    simp [parseUtf16Hex_control control, hlow, hone]

theorem processString_flatMap (s : Bytes) : processString (s.flatMap escapeByte) = some s := by
  induction s with
  | nil => rfl
  | cons c s ih =>
    rw [List.flatMap_cons, processString_escaped (escapeByte_escaped c), ih]
    rfl

/-- Any byte string is read back from its JSON text. -/
theorem getQuotedString_serializeString (s rest : Bytes) :
    getQuotedString (serializeString s ++ rest) = some (s, rest) := by
  have htext : serializeString s ++ rest = 0x22 :: (s.flatMap escapeByte ++ 0x22 :: rest) := by
    simp [serializeString]
  rw [htext, getQuotedString]
  simp [skipQuotes_flatMap, processString_flatMap]

/-! ### Values that were written are read back -/

mutual

/-- A value as it is read: its numbers become rational. -/
def asRead : Json Int → Json Rat
  | .null => .null
  | .bool b => .bool b
  | .num n => .num n
  | .str s => .str s
  | .arr items => .arr (asReadItems items)
  | .obj members => .obj (asReadMembers members)

def asReadItems : List (Json Int) → List (Json Rat)
  | [] => []
  | value :: rest => asRead value :: asReadItems rest

def asReadMembers : JsonObject Int → JsonObject Rat
  | [] => []
  | (name, value) :: rest => (name, asRead value) :: asReadMembers rest

end

theorem asReadItems_eq_map (items : List (Json Int)) : asReadItems items = items.map asRead := by
  induction items with
  | nil => rfl
  | cons item items ih => rw [asReadItems, List.map_cons, ih]

mutual

/-- A value without numbers that the parser accepts at a nesting: it is not too deep, and the names
of an object are distinct and hold no NUL. -/
def Readable : Json Int → Nat → Prop
  | .num _, _ => False
  | .arr items, nesting => nesting ≤ maxNesting ∧ ReadableItems items (nesting + 1)
  | .obj members, nesting =>
    nesting ≤ maxNesting ∧ (members.map Prod.fst).Nodup ∧ ReadableMembers members (nesting + 1)
  | _, nesting => nesting ≤ maxNesting

def ReadableItems : List (Json Int) → Nat → Prop
  | [], _ => True
  | value :: rest, nesting => Readable value nesting ∧ ReadableItems rest nesting

def ReadableMembers : JsonObject Int → Nat → Prop
  | [], _ => True
  | (name, value) :: rest, nesting =>
    (∀ b ∈ name, b ≠ 0) ∧ Readable value nesting ∧ ReadableMembers rest nesting

end

theorem skipWhitespaces_cons {c : UInt8} (h : isSpace c = false) (text : Bytes) :
    skipWhitespaces (c :: text) = c :: text := by
  rw [skipWhitespaces, List.dropWhile_cons, if_neg (by simp [h])]

/-- The bytes that a value starts with. -/
def opensValue (c : UInt8) : Bool := !isSpace c && c != 0x5d && c != 0xef

theorem serialize_head {v : Json Int} {nesting : Nat} (h : Readable v nesting) :
    ∃ c text, serialize v = c :: text ∧ opensValue c = true := by
  cases v with
  | null => exact ⟨_, _, rfl, by decide⟩
  | bool b => cases b <;> exact ⟨_, _, rfl, by decide⟩
  | num n => exact h.elim
  | str s => exact ⟨_, _, rfl, by decide⟩
  | arr items => exact ⟨0x5b, serializeItems items ++ [0x5d], rfl, by decide⟩
  | obj members => exact ⟨0x7b, serializeMembers members ++ [0x7d], rfl, by decide⟩

theorem serializeItems_head {items : List (Json Int)} {nesting : Nat} (hne : items ≠ [])
    (h : ReadableItems items nesting) :
    ∃ c text, serializeItems items = c :: text ∧ opensValue c = true := by
  cases items with
  | nil => exact (hne rfl).elim
  | cons v items =>
    obtain ⟨c, text, htext, hopens⟩ := serialize_head h.1
    cases items with
    | nil => exact ⟨c, text, htext, hopens⟩
    | cons w items =>
      refine ⟨c, text ++ [0x2c] ++ serializeItems (w :: items), ?_, hopens⟩
      rw [serializeItems_cons, htext]
      rfl

theorem serializeMembers_head (members : JsonObject Int) (hne : members ≠ []) :
    ∃ text, serializeMembers members = 0x22 :: text := by
  match members with
  | [] => exact (hne rfl).elim
  | [(name, v)] => exact ⟨_, rfl⟩
  | (name, v) :: w :: members => exact ⟨_, rfl⟩

theorem escapeByte_ne_zero (c : UInt8) : ∀ b ∈ escapeByte c, b ≠ 0 := by
  have hhex : ∀ n < 16, hexDigit n ≠ 0 := by decide
  have hlt := c.toNat_lt
  have hwritten := escapeByte_escaped c
  generalize escapeByte c = written at hwritten
  cases hwritten with
  | short e escape ne =>
    have he : e ≠ 0 := by
      rintro rfl
      simp [unescape] at escape
    simp [he]
  | code control =>
    simp [hhex (c.toNat / 16) (by omega), hhex (c.toNat % 16) (by omega)]
  | plain quote backslash printable =>
    have hc : c ≠ 0 := by
      rintro rfl
      exact printable (by decide)
    simp [hc]

theorem serializeString_ne_zero (s : Bytes) : ∀ b ∈ serializeString s, b ≠ 0 := by
  intro b hb
  simp only [serializeString, List.mem_append, List.mem_singleton, List.mem_flatMap] at hb
  rcases hb with (rfl | ⟨c, _, hb⟩) | rfl
  · decide
  · exact escapeByte_ne_zero c b hb
  · decide

mutual

/-- The text of a value is a C string. -/
theorem serialize_ne_zero : ∀ (v : Json Int) (nesting : Nat), Readable v nesting →
    ∀ b ∈ serialize v, b ≠ 0
  | .null, _, _ => by decide +kernel
  | .bool true, _, _ => by decide +kernel
  | .bool false, _, _ => by decide +kernel
  | .num _, _, hread => hread.elim
  | .str s, _, _ => serializeString_ne_zero s
  | .arr items, nesting, hread => by
    have hitems := serializeItems_ne_zero items (nesting + 1) hread.2
    intro b hb
    simp only [serialize, List.mem_append, List.mem_singleton] at hb
    rcases hb with (rfl | hb) | rfl
    · decide
    · exact hitems b hb
    · decide
  | .obj members, nesting, hread => by
    have hmembers := serializeMembers_ne_zero members (nesting + 1) hread.2.2
    intro b hb
    simp only [serialize, List.mem_append, List.mem_singleton] at hb
    rcases hb with (rfl | hb) | rfl
    · decide
    · exact hmembers b hb
    · decide

theorem serializeItems_ne_zero : ∀ (items : List (Json Int)) (nesting : Nat),
    ReadableItems items nesting → ∀ b ∈ serializeItems items, b ≠ 0
  | [], _, _ => by simp [serializeItems]
  | [v], nesting, hread => serialize_ne_zero v nesting hread.1
  | v :: w :: items, nesting, hread => by
    have hvalue := serialize_ne_zero v nesting hread.1
    have hrest := serializeItems_ne_zero (w :: items) nesting hread.2
    intro b hb
    rw [serializeItems_cons] at hb
    simp only [List.mem_append, List.mem_singleton] at hb
    rcases hb with (hb | rfl) | hb
    · exact hvalue b hb
    · decide
    · exact hrest b hb

theorem serializeMembers_ne_zero : ∀ (members : JsonObject Int) (nesting : Nat),
    ReadableMembers members nesting → ∀ b ∈ serializeMembers members, b ≠ 0
  | [], _, _ => by simp [serializeMembers]
  | [(name, v)], nesting, hread => by
    have hvalue := serialize_ne_zero v nesting hread.2.1
    intro b hb
    simp only [serializeMembers, List.mem_append, List.mem_singleton] at hb
    rcases hb with (hb | rfl) | hb
    · exact serializeString_ne_zero name b hb
    · decide
    · exact hvalue b hb
  | (name, v) :: w :: members, nesting, hread => by
    have hvalue := serialize_ne_zero v nesting hread.2.1
    have hrest := serializeMembers_ne_zero (w :: members) nesting hread.2.2
    intro b hb
    rw [serializeMembers_cons] at hb
    simp only [List.mem_append, List.mem_singleton] at hb
    rcases hb with (((hb | rfl) | hb) | rfl) | hb
    · exact serializeString_ne_zero name b hb
    · decide
    · exact hvalue b hb
    · decide
    · exact hrest b hb

end

section Turns

variable {strtod : Strtod} {turns nesting : Nat} {text rest name : Bytes} {value : Json Rat}
  {obj : JsonObject Rat}

theorem parseItems_last (h : parseValue strtod turns nesting text = some (value, 0x5d :: rest)) :
    parseItems strtod (turns + 1) nesting text = some ([value], rest) := by
  rw [parseItems]
  simp [h, skipWhitespaces_cons (c := 0x5d) (by decide)]

theorem parseItems_comma {c : UInt8} (hopens : opensValue c = true)
    (h : parseValue strtod turns nesting text = some (value, 0x2c :: c :: rest)) :
    parseItems strtod (turns + 1) nesting text =
      (parseItems strtod turns nesting (c :: rest)).map fun p => (value :: p.1, p.2) := by
  simp only [opensValue, Bool.and_eq_true, Bool.not_eq_true', bne_iff_ne] at hopens
  rw [parseItems]
  simp [h, skipWhitespaces_cons (c := 0x2c) (by decide), skipWhitespaces_cons hopens.1.1,
    hopens.1.2]

theorem parseMembers_last (hname : ∀ b ∈ name, b ≠ 0) (hfresh : ∀ m ∈ obj, m.1 ≠ name)
    (h : parseValue strtod turns nesting text = some (value, 0x7d :: rest)) :
    parseMembers strtod (turns + 1) nesting obj (serializeString name ++ 0x3a :: text) =
      some (obj ++ [(name, value)], rest) := by
  have hzero : ¬ 0 ∈ name := fun hmem => hname 0 hmem rfl
  rw [parseMembers, getQuotedString_serializeString]
  simp [h, skipWhitespaces_cons (c := 0x3a) (by decide),
    skipWhitespaces_cons (c := 0x7d) (by decide), hzero]
  exact fun v hv => (hfresh _ hv rfl)

theorem parseMembers_comma (hname : ∀ b ∈ name, b ≠ 0) (hfresh : ∀ m ∈ obj, m.1 ≠ name)
    (h : parseValue strtod turns nesting text = some (value, 0x2c :: 0x22 :: rest)) :
    parseMembers strtod (turns + 1) nesting obj (serializeString name ++ 0x3a :: text) =
      parseMembers strtod turns nesting (obj ++ [(name, value)]) (0x22 :: rest) := by
  have hzero : ¬ 0 ∈ name := fun hmem => hname 0 hmem rfl
  rw [parseMembers, getQuotedString_serializeString]
  simp [h, skipWhitespaces_cons (c := 0x3a) (by decide),
    skipWhitespaces_cons (c := 0x2c) (by decide), skipWhitespaces_cons (c := 0x22) (by decide),
    hzero]
  exact fun v hv => (hfresh _ hv rfl).elim

end Turns

mutual

/-- A readable value is read back from its text, whatever follows it. -/
theorem parseValue_serialize (strtod : Strtod) : ∀ (v : Json Int) (turns nesting : Nat)
    (rest : Bytes), Readable v nesting → (serialize v).length ≤ turns →
      parseValue strtod turns nesting (serialize v ++ rest) = some (asRead v, rest)
  | v, 0, nesting, rest, hread, hturns => by
    obtain ⟨c, text, htext, _⟩ := serialize_head hread
    simp [htext] at hturns
  | .null, turns + 1, nesting, rest, hread, _ => by
    have hdeep : ¬ maxNesting < nesting := Nat.not_lt.mpr hread
    show parseValue strtod (turns + 1) nesting (0x6e :: 0x75 :: 0x6c :: 0x6c :: rest) = _
    rw [parseValue, skipWhitespaces_cons (by decide)]
    simp [hdeep]
    rfl
  | .bool true, turns + 1, nesting, rest, hread, _ => by
    have hdeep : ¬ maxNesting < nesting := Nat.not_lt.mpr hread
    show parseValue strtod (turns + 1) nesting (0x74 :: 0x72 :: 0x75 :: 0x65 :: rest) = _
    rw [parseValue, skipWhitespaces_cons (by decide)]
    simp [hdeep]
    rfl
  | .bool false, turns + 1, nesting, rest, hread, _ => by
    have hdeep : ¬ maxNesting < nesting := Nat.not_lt.mpr hread
    show parseValue strtod (turns + 1) nesting (0x66 :: 0x61 :: 0x6c :: 0x73 :: 0x65 :: rest) = _
    rw [parseValue, skipWhitespaces_cons (by decide)]
    simp [hdeep]
    rfl
  | .num n, _ + 1, _, _, hread, _ => hread.elim
  | .str s, turns + 1, nesting, rest, hread, _ => by
    have hdeep : ¬ maxNesting < nesting := Nat.not_lt.mpr hread
    have hquoted := getQuotedString_serializeString s rest
    have htext : serializeString s ++ rest = 0x22 :: (s.flatMap escapeByte ++ 0x22 :: rest) := by
      simp [serializeString]
    rw [htext] at hquoted
    rw [serialize, htext, parseValue, skipWhitespaces_cons (by decide)]
    simp [hdeep, hquoted, asRead]
  | .arr items, turns + 1, nesting, rest, hread, hturns => by
    have hdeep : ¬ maxNesting < nesting := Nat.not_lt.mpr hread.1
    have htext : serialize (.arr items) ++ rest = 0x5b :: (serializeItems items ++ 0x5d :: rest) := by
      simp [serialize]
    simp only [serialize, List.length_append, List.length_cons, List.length_nil] at hturns
    rw [htext, parseValue, skipWhitespaces_cons (by decide)]
    cases items with
    | nil => simp [hdeep, serializeItems, skipWhitespaces_cons (c := 0x5d) (by decide), asRead,
        asReadItems]
    | cons v items =>
      obtain ⟨c, text, hhead, hopens⟩ := serializeItems_head (by simp) hread.2
      simp only [opensValue, Bool.and_eq_true, Bool.not_eq_true', bne_iff_ne] at hopens
      have hitems := parseItems_serialize strtod (v :: items) turns (nesting + 1) rest (by simp)
        hread.2 (by omega)
      rw [hhead] at hitems ⊢
      rw [List.cons_append] at hitems ⊢
      simp [hdeep, skipWhitespaces_cons hopens.1.1, hopens.1.2, hitems, asRead]
  | .obj members, turns + 1, nesting, rest, hread, hturns => by
    have hdeep : ¬ maxNesting < nesting := Nat.not_lt.mpr hread.1
    have htext : serialize (.obj members) ++ rest =
        0x7b :: (serializeMembers members ++ 0x7d :: rest) := by
      simp [serialize]
    simp only [serialize, List.length_append, List.length_cons, List.length_nil] at hturns
    rw [htext, parseValue, skipWhitespaces_cons (by decide)]
    cases members with
    | nil => simp [hdeep, serializeMembers, skipWhitespaces_cons (c := 0x7d) (by decide), asRead,
        asReadMembers]
    | cons m members =>
      obtain ⟨text, hhead⟩ := serializeMembers_head (m :: members) (by simp)
      have hmembers := parseMembers_serialize strtod (m :: members) turns (nesting + 1) [] rest
        (by simp) hread.2.2 hread.2.1 (by simp) (by omega)
      rw [hhead] at hmembers ⊢
      rw [List.cons_append] at hmembers ⊢
      simp [hdeep, skipWhitespaces_cons (c := 0x22) (by decide), hmembers, asRead]

theorem parseItems_serialize (strtod : Strtod) : ∀ (items : List (Json Int)) (turns nesting : Nat)
    (rest : Bytes), items ≠ [] → ReadableItems items nesting →
      (serializeItems items).length + 1 ≤ turns →
        parseItems strtod turns nesting (serializeItems items ++ 0x5d :: rest) =
          some (asReadItems items, rest)
  | [], _, _, _, hne, _, _ => (hne rfl).elim
  | _ :: _, 0, _, _, _, _, hturns => by simp at hturns
  | [v], turns + 1, nesting, rest, _, hread, hturns => by
    refine parseItems_last ?_
    exact parseValue_serialize strtod v turns nesting (0x5d :: rest) hread.1
      (by simpa [serializeItems] using hturns)
  | v :: w :: items, turns + 1, nesting, rest, _, hread, hturns => by
    rw [serializeItems_cons] at hturns ⊢
    simp only [List.length_append, List.length_cons, List.length_nil] at hturns
    obtain ⟨c, text, hhead, hopens⟩ := serializeItems_head (by simp) hread.2
    have hrest := parseItems_serialize strtod (w :: items) turns nesting rest (by simp) hread.2
      (by omega)
    have hvalue := parseValue_serialize strtod v turns nesting
      (0x2c :: (serializeItems (w :: items) ++ 0x5d :: rest)) hread.1 (by omega)
    rw [hhead, List.cons_append] at hvalue hrest
    have hstep := parseItems_comma hopens hvalue
    rw [hrest] at hstep
    simpa [hhead, asReadItems] using hstep

theorem parseMembers_serialize (strtod : Strtod) : ∀ (members : JsonObject Int)
    (turns nesting : Nat) (obj : JsonObject Rat) (rest : Bytes), members ≠ [] →
      ReadableMembers members nesting → (members.map Prod.fst).Nodup →
        (∀ m ∈ members, ∀ o ∈ obj, o.1 ≠ m.1) → (serializeMembers members).length + 1 ≤ turns →
          parseMembers strtod turns nesting obj (serializeMembers members ++ 0x7d :: rest) =
            some (obj ++ asReadMembers members, rest)
  | [], _, _, _, _, hne, _, _, _, _ => (hne rfl).elim
  | _ :: _, 0, _, _, _, _, _, _, _, hturns => by simp at hturns
  | [(name, v)], turns + 1, nesting, obj, rest, _, hread, _, hfresh, hturns => by
    simp only [serializeMembers, List.length_append, List.length_cons, List.length_nil] at hturns
    have hvalue := parseValue_serialize strtod v turns nesting (0x7d :: rest) hread.2.1 (by omega)
    have hstep := parseMembers_last hread.1 (hfresh (name, v) (by simp)) hvalue
    simpa [serializeMembers, asReadMembers] using hstep
  | (name, v) :: w :: members, turns + 1, nesting, obj, rest, _, hread, hnodup, hfresh, hturns => by
    rw [serializeMembers_cons] at hturns ⊢
    simp only [List.length_append, List.length_cons, List.length_nil] at hturns
    obtain ⟨text, hhead⟩ := serializeMembers_head (w :: members) (by simp)
    have hnames := List.nodup_cons.mp hnodup
    have hrest := parseMembers_serialize strtod (w :: members) turns nesting
      (obj ++ [(name, asRead v)]) rest (by simp) hread.2.2 hnames.2 (by
        intro m hm o ho
        rcases List.mem_append.mp ho with ho | ho
        · exact hfresh m (List.mem_cons_of_mem _ hm) o ho
        · rw [List.mem_singleton.mp ho]
          exact fun heq => hnames.1 (heq ▸ List.mem_map_of_mem (f := Prod.fst) hm)) (by omega)
    have hvalue := parseValue_serialize strtod v turns nesting
      (0x2c :: (serializeMembers (w :: members) ++ 0x7d :: rest)) hread.2.1 (by omega)
    rw [hhead, List.cons_append] at hvalue hrest
    have hstep := parseMembers_comma hread.1 (hfresh (name, v) (by simp)) hvalue
    rw [hrest] at hstep
    simpa [hhead, asReadMembers] using hstep

end

/-- What the program writes is what the parser reads. -/
theorem jsonParseString_serialize (strtod : Strtod) {v : Json Int} (h : Readable v 0) :
    jsonParseString strtod (serialize v) = some (asRead v) := by
  obtain ⟨c, text, htext, hopens⟩ := serialize_head h
  simp only [opensValue, Bool.and_eq_true, Bool.not_eq_true', bne_iff_ne] at hopens
  have hmark : ([0xef, 0xbb, 0xbf] : Bytes).isPrefixOf (serialize v) = false := by
    simp [htext, List.isPrefixOf, Ne.symm hopens.2]
  have hvalue := parseValue_serialize strtod v (2 * (serialize v).length + 2) 0 [] h (by omega)
  rw [List.append_nil] at hvalue
  rw [jsonParseString, hmark]
  simp [hvalue]

end Redp2p
