import Redp2p.Lib.Bytes

/-! The grammar of JSON texts: which byte strings are values, and which members an object has. Strings are UTF-8,
and escaped surrogates come in pairs. -/

namespace JsonGrammar

open ByteString

/-! ### Strings -/

/-- The characters with an escape of one letter. -/
def shortEscapes : List (UInt8 × Char) :=
  [(0x22, Char.ofNat 0x22), (0x5c, Char.ofNat 0x5c), (0x2f, Char.ofNat 0x2f), (0x62, Char.ofNat 0x08),
    (0x66, Char.ofNat 0x0c), (0x6e, Char.ofNat 0x0a), (0x72, Char.ofNat 0x0d), (0x74, Char.ofNat 0x09)]

def hexDigitValue (b : UInt8) : Nat :=
  if inRange '0' '9' b then b.toNat - 0x30
  else if inRange 'a' 'f' b then b.toNat - 0x57
  else b.toNat - 0x37

/-- The digits of a code unit. -/
structure CodeUnit (digits : Bytes) (n : Nat) : Prop where
  length : digits.length = 4
  hex : ∀ b ∈ digits, isHexDigit b = true
  value : n = digits.foldl (fun n b => n * 16 + hexDigitValue b) 0

theorem hexDigitValue_lt {b : UInt8} (h : isHexDigit b = true) : hexDigitValue b < 16 := by
  simp only [isHexDigit, inRange, Bool.or_eq_true, Bool.and_eq_true, decide_eq_true_eq, Char.toNat, Char.reduceVal,
    UInt32.reduceToNat] at h
  simp only [hexDigitValue, inRange, Bool.and_eq_true, decide_eq_true_eq, Char.toNat, Char.reduceVal,
    UInt32.reduceToNat]
  split
  · omega
  split
  · omega
  · omega

theorem CodeUnit.lt {digits : Bytes} {n : Nat} (h : CodeUnit digits n) : n < 65536 := by
  obtain ⟨hlength, hhex, rfl⟩ := h
  match digits, hlength with
  | [a, b, c, d], _ =>
    have ha := hexDigitValue_lt (hhex a (by simp))
    have hb := hexDigitValue_lt (hhex b (by simp))
    have hc := hexDigitValue_lt (hhex c (by simp))
    have hd := hexDigitValue_lt (hhex d (by simp))
    simp only [List.foldl_cons, List.foldl_nil]
    omega

/-- A text of one character in a string. -/
inductive CharText : Bytes → Char → Prop
  | plain {c : Char} (hcontrol : 0x20 ≤ c.toNat) (hquote : c.toNat ≠ 0x22) (hbackslash : c.toNat ≠ 0x5c) :
      CharText (String.utf8EncodeChar c) c
  | short {e : UInt8} {c : Char} (h : (e, c) ∈ shortEscapes) : CharText [0x5c, e] c
  | unit {digits : Bytes} {n : Nat} (h : CodeUnit digits n) (hsurrogate : n < 0xd800 ∨ 0xdfff < n) :
      CharText (0x5c :: 0x75 :: digits) (Char.ofNat n)
  | pair {digits digits' : Bytes} {high low : Nat} (h : CodeUnit digits high) (h' : CodeUnit digits' low)
      (hhigh : 0xd800 ≤ high ∧ high ≤ 0xdbff) (hlow : 0xdc00 ≤ low ∧ low ≤ 0xdfff) :
      CharText (0x5c :: 0x75 :: digits ++ 0x5c :: 0x75 :: digits')
        (Char.ofNat ((high - 0xd800) * 1024 + (low - 0xdc00) + 0x10000))

/-- A text between quotes, and the characters that it stands for. -/
inductive StringText : Bytes → List Char → Prop
  | nil : StringText [] []
  | cons {text rest : Bytes} {c : Char} {chars : List Char} (h : CharText text c) (hrest : StringText rest chars) :
      StringText (text ++ rest) (c :: chars)

def quote (text : Bytes) : Bytes := 0x22 :: (text ++ [0x22])

/-! ### Values -/

def isSpace (b : UInt8) : Bool := b == 0x20 || b == 0x09 || b == 0x0a || b == 0x0d

def IsSpaces (text : Bytes) : Prop := ∀ b ∈ text, isSpace b = true

def IsDigits (text : Bytes) : Prop := text ≠ [] ∧ ∀ b ∈ text, isDigit b = true

/-- A number: its sign, its integer part, its fraction and its exponent. -/
def IsNumber (text : Bytes) : Prop :=
  ∃ sign int frac exp, text = sign ++ int ++ frac ++ exp ∧ (sign = [] ∨ sign = [0x2d]) ∧
    (int = [0x30] ∨ (IsDigits int ∧ int.head? ≠ some 0x30)) ∧
    (frac = [] ∨ ∃ digits, IsDigits digits ∧ frac = 0x2e :: digits) ∧
    (exp = [] ∨ ∃ e sign digits, (e = 0x65 ∨ e = 0x45) ∧ (sign = [] ∨ sign = [0x2b] ∨ sign = [0x2d]) ∧
      IsDigits digits ∧ exp = e :: (sign ++ digits))

def IsLiteral (text : Bytes) : Prop := text = ascii "true" ∨ text = ascii "false" ∨ text = ascii "null"

/-- A member of an object: its name, and the space between the name and the colon. -/
structure Member where
  name : List Char
  gap : Bytes

inductive Symbol where
  | value | element | elements | members

/-- The texts of a symbol of the grammar. Those of members, and of an object, have members. -/
inductive Derives : Symbol → Bytes → List Member → Prop
  | literal {text : Bytes} (h : IsLiteral text) : Derives .value text []
  | number {text : Bytes} (h : IsNumber text) : Derives .value text []
  | string {text : Bytes} {chars : List Char} (h : StringText text chars) : Derives .value (quote text) []
  | emptyArray {spaces : Bytes} (h : IsSpaces spaces) : Derives .value (0x5b :: (spaces ++ [0x5d])) []
  | array {text : Bytes} (h : Derives .elements text []) : Derives .value (0x5b :: (text ++ [0x5d])) []
  | emptyObject {spaces : Bytes} (h : IsSpaces spaces) : Derives .value (0x7b :: (spaces ++ [0x7d])) []
  | object {text : Bytes} {members : List Member} (h : Derives .members text members) :
      Derives .value (0x7b :: (text ++ [0x7d])) members
  | element {front text back : Bytes} {members : List Member} (hfront : IsSpaces front)
      (h : Derives .value text members) (hback : IsSpaces back) : Derives .element (front ++ text ++ back) []
  | last {text : Bytes} (h : Derives .element text []) : Derives .elements text []
  | next {text rest : Bytes} (h : Derives .element text []) (hrest : Derives .elements rest []) :
      Derives .elements (text ++ 0x2c :: rest) []
  | lastMember {front name gap text : Bytes} {chars : List Char} (hfront : IsSpaces front)
      (hname : StringText name chars) (hgap : IsSpaces gap) (h : Derives .element text []) :
      Derives .members (front ++ quote name ++ gap ++ 0x3a :: text) [⟨chars, gap⟩]
  | nextMember {front name gap text rest : Bytes} {chars : List Char} {members : List Member}
      (hfront : IsSpaces front) (hname : StringText name chars) (hgap : IsSpaces gap)
      (h : Derives .element text []) (hrest : Derives .members rest members) :
      Derives .members (front ++ quote name ++ gap ++ 0x3a :: (text ++ 0x2c :: rest)) (⟨chars, gap⟩ :: members)

/-- A text of an object with its members. -/
def IsObject (text : Bytes) (members : List Member) : Prop :=
  ∃ front body back, text = front ++ 0x7b :: (body ++ 0x7d :: back) ∧ IsSpaces front ∧ IsSpaces back ∧
    ((IsSpaces body ∧ members = []) ∨ Derives .members body members)

/-! ### Bytes of texts -/

/-- A byte that opens or closes a string, an array or an object. -/
def isBracket (b : UInt8) : Bool := b == 0x22 || b == 0x5b || b == 0x5d || b == 0x7b || b == 0x7d

/-- A text that opens and closes nothing. -/
def Flat (text : Bytes) : Prop := ∀ b ∈ text, isBracket b = false

theorem Flat.append {a b : Bytes} (ha : Flat a) (hb : Flat b) : Flat (a ++ b) := by
  intro c hc
  rcases List.mem_append.mp hc with hc | hc
  · exact ha c hc
  · exact hb c hc

theorem IsSpaces.flat {text : Bytes} (h : IsSpaces text) : Flat text := by
  intro b hb
  have hspace := h b hb
  simp only [isSpace, Bool.or_eq_true, beq_iff_eq] at hspace
  rcases hspace with ((rfl | rfl) | rfl) | rfl <;> rfl

theorem isBracket_of_isDigit {b : UInt8} (h : isDigit b = true) : isBracket b = false := by
  by_contra hbracket
  simp only [Bool.not_eq_false, isBracket, Bool.or_eq_true, beq_iff_eq] at hbracket
  rcases hbracket with (((rfl | rfl) | rfl) | rfl) | rfl <;> exact absurd h (by decide)

theorem IsDigits.flat {text : Bytes} (h : IsDigits text) : Flat text := fun b hb => isBracket_of_isDigit (h.2 b hb)

theorem IsLiteral.flat {text : Bytes} (h : IsLiteral text) : Flat text := by
  have hbytes : ∀ word ∈ [ascii "true", ascii "false", ascii "null"], ∀ b ∈ word, isBracket b = false := by
    decide +kernel
  rcases h with rfl | rfl | rfl
  · exact hbytes _ (by simp)
  · exact hbytes _ (by simp)
  · exact hbytes _ (by simp)

theorem IsNumber.flat {text : Bytes} (h : IsNumber text) : Flat text := by
  have hone : ∀ {b : UInt8} {text : Bytes}, isBracket b = false → Flat text → Flat (b :: text) := by
    intro b text hb htext
    exact List.forall_mem_cons.mpr ⟨hb, htext⟩
  have hnil : Flat [] := fun b hb => absurd hb List.not_mem_nil
  obtain ⟨sign, int, frac, exp, rfl, hsign, hint, hfrac, hexp⟩ := h
  refine ((Flat.append ?_ ?_).append ?_).append ?_
  · rcases hsign with rfl | rfl
    · exact hnil
    · exact hone rfl hnil
  · rcases hint with rfl | hint
    · exact hone rfl hnil
    · exact hint.1.flat
  · rcases hfrac with rfl | ⟨digits, hdigits, rfl⟩
    · exact hnil
    · exact hone rfl hdigits.flat
  · rcases hexp with rfl | ⟨e, sign, digits, he, hsign, hdigits, rfl⟩
    · exact hnil
    · refine hone ?_ (Flat.append ?_ hdigits.flat)
      · rcases he with rfl | rfl <;> rfl
      · rcases hsign with rfl | rfl | rfl
        · exact hnil
        · exact hone rfl hnil
        · exact hone rfl hnil

/-! ### UTF-8 -/

/-- The UTF-8 bytes of some characters. -/
def utf8 (chars : List Char) : Bytes := chars.flatMap String.utf8EncodeChar

theorem utf8_injective {a b : List Char} (h : utf8 a = utf8 b) : a = b := by
  refine String.ofList_injective (String.toByteArray_inj.mp ?_)
  exact congrArg List.toByteArray h

/-- A character is its only byte or has none below 0x80. -/
theorem utf8EncodeChar_bytes (c : Char) :
    (c.toNat < 0x80 ∧ String.utf8EncodeChar c = [UInt8.ofNat c.toNat]) ∨
      (0x80 ≤ c.toNat ∧ ∀ b ∈ String.utf8EncodeChar c, 0x80 ≤ b.toNat) := by
  have hvalue : c.toNat = c.val.toNat := rfl
  have hhigh : ∀ n k m : Nat, 0 < m → k + m ≤ 256 → 0x80 ≤ k → 0x80 ≤ (UInt8.ofNat (n % m + k)).toNat := by
    intro n k m hm hsum hk
    have hlt := Nat.mod_lt n hm
    rw [UInt8.toNat_ofNat', Nat.mod_eq_of_lt (by omega)]
    omega
  unfold String.utf8EncodeChar
  dsimp only
  by_cases hone : c.val.toNat ≤ 0x7f
  · rw [if_pos hone]
    exact Or.inl ⟨by omega, rfl⟩
  · rw [if_neg hone]
    refine Or.inr ⟨by omega, ?_⟩
    split
    · simp only [List.forall_mem_cons]
      exact ⟨hhigh _ _ _ (by decide) (by decide) (by decide), hhigh _ _ _ (by decide) (by decide) (by decide), nofun⟩
    split
    · simp only [List.forall_mem_cons]
      exact ⟨hhigh _ _ _ (by decide) (by decide) (by decide), hhigh _ _ _ (by decide) (by decide) (by decide),
        hhigh _ _ _ (by decide) (by decide) (by decide), nofun⟩
    · simp only [List.forall_mem_cons]
      exact ⟨hhigh _ _ _ (by decide) (by decide) (by decide), hhigh _ _ _ (by decide) (by decide) (by decide),
        hhigh _ _ _ (by decide) (by decide) (by decide), hhigh _ _ _ (by decide) (by decide) (by decide), nofun⟩

/-- An ASCII character other than a quote, a backslash and a control character. -/
def isOwn (c : Char) : Bool := 0x20 ≤ c.toNat && c.toNat < 0x80 && c.toNat != 0x22 && c.toNat != 0x5c

/-- A text of such characters stands for itself. -/
theorem StringText.ascii {text : String} (h : text.toList.all isOwn = true) :
    StringText (ascii text) text.toList := by
  have hchars : ∀ chars : List Char, chars.all isOwn = true →
      StringText (chars.map fun c => UInt8.ofNat c.toNat) chars := by
    intro chars
    induction chars with
    | nil => exact fun _ => .nil
    | cons c chars ih =>
      intro hall
      rw [List.all_cons, Bool.and_eq_true] at hall
      obtain ⟨hown, hrest⟩ := hall
      simp only [isOwn, Bool.and_eq_true, decide_eq_true_eq, bne_iff_ne] at hown
      obtain ⟨⟨⟨hcontrol, hascii⟩, hquote⟩, hslash⟩ := hown
      have hbytes : String.utf8EncodeChar c = [UInt8.ofNat c.toNat] := by
        rcases utf8EncodeChar_bytes c with ⟨-, hbytes⟩ | ⟨hhigh, -⟩
        · exact hbytes
        · omega
      have hone := CharText.plain hcontrol hquote hslash
      rw [hbytes] at hone
      exact .cons hone (ih hrest)
  exact hchars text.toList h

end JsonGrammar
