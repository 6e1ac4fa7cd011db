import Redp2p.Text

/-! JSON values and the operations of the vendored parson library on them. A value that was parsed
from a request carries numbers as the exact rational values of its doubles; a value that the program
builds carries the integers that it converts to doubles. -/

namespace Redp2p

open ByteString

/-- A JSON value with numbers in `N`. A string is the bytes between the quotes, which may hold a
NUL. -/
inductive Json (N : Type) where
  | null
  | bool (b : Bool)
  | num (n : N)
  | str (s : Bytes)
  | arr (items : List (Json N))
  | obj (members : List (Bytes × Json N))

/-- An object: its members in order. The parser refuses two members of one name. -/
abbrev JsonObject (N : Type) := List (Bytes × Json N)

namespace JsonObject

variable {N : Type}

def getValue (obj : JsonObject N) (name : Bytes) : Option (Json N) :=
  (obj.find? fun m => m.1 == name).map Prod.snd

/-- `json_object_get_string`: the C string of a string member. -/
def getString (obj : JsonObject N) (name : Bytes) : Option Bytes :=
  match obj.getValue name with
  | some (.str s) => some (cstr s)
  | _ => none

/-- `json_object_get_number` after `json_object_has_value_of_type(.., JSONNumber)`. -/
def getNumber (obj : JsonObject N) (name : Bytes) : Option N :=
  match obj.getValue name with
  | some (.num n) => some n
  | _ => none

def getArray (obj : JsonObject N) (name : Bytes) : Option (List (Json N)) :=
  match obj.getValue name with
  | some (.arr items) => some items
  | _ => none

/-- `json_object_set_value`: replaces the member of that name or appends a new one. -/
def setValue (obj : JsonObject N) (name : Bytes) (value : Json N) : JsonObject N :=
  if obj.any fun m => m.1 == name then
    obj.map fun m => if m.1 == name then (name, value) else m
  else obj ++ [(name, value)]

end JsonObject

def Json.getObject {N : Type} : Json N → Option (JsonObject N)
  | .obj members => some members
  | _ => none

/-! ### Valid UTF-8 -/

/-- `IS_CONT`: a UTF-8 continuation byte. -/
def isCont (b : UInt8) : Bool := b &&& 0xc0 == 0x80

def numBytesInUtf8Sequence (c : UInt8) : Nat :=
  if c == 0xc0 || c == 0xc1 || c > 0xf4 || isCont c then 0
  else if c &&& 0x80 == 0 then 1
  else if c &&& 0xe0 == 0xc0 then 2
  else if c &&& 0xf0 == 0xe0 then 3
  else if c &&& 0xf8 == 0xf0 then 4
  else 0

/-- The length of the sequence at the start of `s`, read with the NUL that follows it. -/
def verifyUtf8Sequence (s : Bytes) : Option Nat :=
  let at_ (i : Nat) : UInt8 := s.getD i 0
  let low (i : Nat) : Nat := (at_ i &&& 0x3f).toNat
  let len := numBytesInUtf8Sequence (at_ 0)
  let cp : Option Nat :=
    if len = 1 then some (at_ 0).toNat
    else if len = 2 && isCont (at_ 1) then some ((at_ 0 &&& 0x1f).toNat * 64 + low 1)
    else if len = 3 && isCont (at_ 1) && isCont (at_ 2) then
      some (((at_ 0 &&& 0xf).toNat * 64 + low 1) * 64 + low 2)
    else if len = 4 && isCont (at_ 1) && isCont (at_ 2) && isCont (at_ 3) then
      some ((((at_ 0 &&& 0x7).toNat * 64 + low 1) * 64 + low 2) * 64 + low 3)
    else none
  match cp with
  | none => none
  | some cp =>
    if (cp < 0x80 && len > 1) || (cp < 0x800 && len > 2) || (cp < 0x10000 && len > 3) then none
    else if cp > 0x10ffff then none
    else if 0xd800 ≤ cp && cp ≤ 0xdfff then none
    else some len

/-- Every turn passes at least one byte, so the length of the text bounds the turns. -/
def isValidUtf8Loop : Nat → Bytes → Bool
  | _, [] => true
  | 0, _ :: _ => false
  | turns + 1, s =>
    match verifyUtf8Sequence s with
    | none => false
    | some len => isValidUtf8Loop turns (s.drop len)

def isValidUtf8 (s : Bytes) : Bool := isValidUtf8Loop s.length s

theorem verifyUtf8Sequence_ascii {b : UInt8} (h : b.toNat < 0x80) (s : Bytes) :
    verifyUtf8Sequence (b :: s) = some 1 := by
  have hlen : ∀ b : Fin 128, numBytesInUtf8Sequence (UInt8.ofNat b) = 1 := by decide
  have hb := hlen ⟨b.toNat, h⟩
  simp only [UInt8.ofNat_toNat] at hb
  have h1 : ¬ 0x10ffff < b.toNat := by omega
  have h2 : ¬ 0xd800 ≤ b.toNat := by omega
  simp [verifyUtf8Sequence, hb, h1, h2]

theorem isValidUtf8_ascii {s : Bytes} (h : ∀ b ∈ s, b.toNat < 0x80) : isValidUtf8 s = true := by
  unfold isValidUtf8
  induction s with
  | nil => rfl
  | cons b s ih =>
    rw [List.length_cons, isValidUtf8Loop, verifyUtf8Sequence_ascii (h b (by simp))]
    · exact ih fun c hc => h c (by simp [hc])
    · simp

/-! ### Building and writing values -/

/-- `json_value_init_string`: refuses text that is not UTF-8. -/
def initString {N : Type} (s : Bytes) : Option (Json N) := if isValidUtf8 s then some (.str s) else none

namespace JsonObject

/-- `json_object_set_string`: leaves the object as it is when the text is refused. -/
def setString {N : Type} (obj : JsonObject N) (name text : Bytes) : JsonObject N :=
  match initString text with
  | none => obj
  | some value => obj.setValue name value

end JsonObject

/-- `json_array_append_string`. -/
def appendString {N : Type} (items : List (Json N)) (text : Bytes) : List (Json N) :=
  match initString text with
  | none => items
  | some value => items ++ [value]

/-- What `json_serialize_string` writes for one byte. -/
def escapeByte (c : UInt8) : Bytes :=
  if c = 0x22 then [0x5c, 0x22]
  else if c = 0x5c then [0x5c, 0x5c]
  else if c = 0x08 then [0x5c, 0x62]
  else if c = 0x0c then [0x5c, 0x66]
  else if c = 0x0a then [0x5c, 0x6e]
  else if c = 0x0d then [0x5c, 0x72]
  else if c = 0x09 then [0x5c, 0x74]
  else if c < 0x20 then [0x5c, 0x75, 0x30, 0x30] ++ hexEncode [c]
  else if c = 0x2f then [0x5c, 0x2f]
  else [c]

def serializeString (s : Bytes) : Bytes := [0x22] ++ s.flatMap escapeByte ++ [0x22]

/-- `n / unit` rounded to the nearest integer, ties to even. -/
def roundDiv (n unit : Nat) : Nat :=
  let q := n / unit
  if unit < 2 * (n % unit) || (unit == 2 * (n % unit) && q % 2 == 1) then q + 1 else q

/-- The value of `(double)n`: 53 significant bits. -/
def toDouble (n : Nat) : Nat :=
  let unit := 2 ^ (Nat.log2 n - 52)
  roundDiv n unit * unit

/-- The text of an integer under `%1.17g`: its digits below `10 ^ 17`, and from there on 17
significant digits without trailing zeros and an exponent. -/
def formatNat (n : Nat) : Bytes :=
  if n < 10 ^ 17 then decimal n
  else
    let size := (decimal n).length
    let q := roundDiv n (10 ^ (size - 17))
    let exponent := if q = 10 ^ 17 then size else size - 1
    let digits := decimal q
    let fraction := ((digits.tail.take 16).reverse.dropWhile (· == 0x30)).reverse
    digits.take 1 ++ (if fraction = [] then [] else [0x2e] ++ fraction) ++ ascii "e+" ++
      decimal exponent

def formatNumber : Int → Bytes
  | .ofNat n => formatNat (toDouble n)
  | .negSucc n => [0x2d] ++ formatNat (toDouble (n + 1))

mutual

/-- `json_serialize_to_buffer`: the compact text of a value. -/
def serialize : Json Int → Bytes
  | .null => ascii "null"
  | .bool true => ascii "true"
  | .bool false => ascii "false"
  | .num n => formatNumber n
  | .str s => serializeString s
  | .arr items => [0x5b] ++ serializeItems items ++ [0x5d]
  | .obj members => [0x7b] ++ serializeMembers members ++ [0x7d]

def serializeItems : List (Json Int) → Bytes
  | [] => []
  | [value] => serialize value
  | value :: rest => serialize value ++ [0x2c] ++ serializeItems rest

def serializeMembers : List (Bytes × Json Int) → Bytes
  | [] => []
  | [(name, value)] => serializeString name ++ [0x3a] ++ serialize value
  | (name, value) :: rest =>
    serializeString name ++ [0x3a] ++ serialize value ++ [0x2c] ++ serializeMembers rest

end

/-- The size of the text with its NUL. -/
def serializationSize (value : Json Int) : Nat := (serialize value).length + 1

theorem serializeItems_cons (v w : Json Int) (items : List (Json Int)) :
    serializeItems (v :: w :: items) = serialize v ++ [0x2c] ++ serializeItems (w :: items) := rfl

theorem serializeMembers_cons (name : Bytes) (v : Json Int) (m : Bytes × Json Int)
    (members : JsonObject Int) :
    serializeMembers ((name, v) :: m :: members) =
      serializeString name ++ [0x3a] ++ serialize v ++ [0x2c] ++ serializeMembers (m :: members) :=
  rfl

/-! ### Lengths -/

theorem escapeByte_plain {c : UInt8} (h : isPlain c = true) : escapeByte c = [c] := by
  simp only [isPlain, Bool.and_eq_true, decide_eq_true_eq, bne_iff_ne] at h
  have hne : ∀ b : UInt8, c.toNat ≠ b.toNat → c ≠ b := fun b hb heq => hb (by rw [heq])
  have hlt : ¬ c < 0x20 := by
    rw [UInt8.lt_iff_toNat_lt]
    simp
    omega
  have hquote : c ≠ 0x22 := hne _ (by simp; omega)
  have hbackslash : c ≠ 0x5c := hne _ (by simp; omega)
  have hslash : c ≠ 0x2f := hne _ (by simp; omega)
  have hcontrol : ∀ b : UInt8, b.toNat < 0x20 → c ≠ b := fun b hb => hne b (by omega)
  unfold escapeByte
  rw [if_neg hquote, if_neg hbackslash, if_neg (hcontrol _ (by decide)),
    if_neg (hcontrol _ (by decide)), if_neg (hcontrol _ (by decide)),
    if_neg (hcontrol _ (by decide)), if_neg (hcontrol _ (by decide)), if_neg hlt, if_neg hslash]

theorem flatMap_escapeByte_plain {s : Bytes} (h : ∀ b ∈ s, isPlain b = true) :
    s.flatMap escapeByte = s := by
  induction s with
  | nil => rfl
  | cons b s ih =>
    rw [List.flatMap_cons, escapeByte_plain (h b (by simp)), ih fun c hc => h c (by simp [hc])]
    rfl

theorem serializeString_length {s : Bytes} (h : ∀ b ∈ s, isPlain b = true) :
    (serializeString s).length = s.length + 2 := by
  simp [serializeString, flatMap_escapeByte_plain h]

theorem serializeItems_length (items : List (Json Int)) :
    (serializeItems items).length =
      (items.map fun v => (serialize v).length).sum + (items.length - 1) := by
  induction items with
  | nil => simp [serializeItems]
  | cons v rest ih =>
    cases rest with
    | nil => simp [serializeItems]
    | cons w rest =>
      rw [serializeItems_cons]
      simp only [List.length_append, ih, List.map_cons, List.sum_cons, List.length_cons,
        List.length_nil]
      omega

theorem serializeMembers_length (members : List (Bytes × Json Int)) :
    (serializeMembers members).length =
      (members.map fun m => (serializeString m.1).length + 1 + (serialize m.2).length).sum +
        (members.length - 1) := by
  induction members with
  | nil => simp [serializeMembers]
  | cons m rest ih =>
    obtain ⟨name, v⟩ := m
    cases rest with
    | nil => simp [serializeMembers, Nat.add_assoc, Nat.add_comm 1]
    | cons w rest =>
      rw [serializeMembers_cons]
      simp only [List.length_append, ih, List.map_cons, List.sum_cons, List.length_cons,
        List.length_nil]
      omega

theorem toDouble_small {n : Nat} (h : n < 2 ^ 53) : toDouble n = n := by
  have hlog : Nat.log2 n - 52 = 0 := by
    rcases Nat.eq_zero_or_pos n with rfl | hpos
    · rfl
    · have := (Nat.log2_lt (by omega)).mpr h
      omega
  simp [toDouble, hlog, roundDiv, Nat.mod_one]

theorem formatNumber_small {n : Nat} (h : n < 2 ^ 53) : formatNumber (n : Int) = decimal n := by
  change formatNat (toDouble n) = decimal n
  rw [toDouble_small h, formatNat, if_pos (by omega)]

theorem initString_plain {N : Type} {s : Bytes} (h : ∀ b ∈ s, isPlain b = true) :
    initString (N := N) s = some (.str s) := by
  rw [initString, if_pos]
  refine isValidUtf8_ascii fun b hb => ?_
  have := h b hb
  simp only [isPlain, Bool.and_eq_true, decide_eq_true_eq] at this
  omega

end Redp2p
