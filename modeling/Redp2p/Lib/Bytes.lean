import Mathlib.Data.List.TakeWhile
import Mathlib.Data.Nat.Digits.Defs
import Mathlib.Data.Nat.Digits.Lemmas

/-! Byte strings as a C program sees them: ASCII literals, character classes, the text before the
first NUL, bounded copies, and decimal and hexadecimal text. -/

namespace ByteString

abbrev Bytes := List UInt8

/-- The bytes of an ASCII literal. -/
def ascii (s : String) : Bytes := s.toList.map fun c => UInt8.ofNat c.toNat

/-- A check of all bytes of a text goes through the text, not through all values of a byte. -/
instance (priority := 2000) decidableForallMem {p : UInt8 → Prop} [DecidablePred p] (s : Bytes) :
    Decidable (∀ b ∈ s, p b) := List.decidableBAll p s

/-- The C string that starts at the first byte of `s`: the bytes before the first NUL. -/
def cstr (s : Bytes) : Bytes := s.takeWhile (· != 0)

/-- A copy of the C string `src` into a buffer of `cap` bytes, cut to leave room for the NUL. -/
def boundedCopy (cap : Nat) (src : Bytes) : Bytes := src.take (cap - 1)

/-! ### Character classes -/

/-- `b` is one of the characters from `lo` to `hi`. -/
def inRange (lo hi : Char) (b : UInt8) : Bool := lo.toNat ≤ b.toNat && b.toNat ≤ hi.toNat

def isDigit (b : UInt8) : Bool := inRange '0' '9' b

def isAlnum (b : UInt8) : Bool := inRange 'a' 'z' b || inRange 'A' 'Z' b || inRange '0' '9' b

def isHexDigit (b : UInt8) : Bool := inRange '0' '9' b || inRange 'a' 'f' b || inRange 'A' 'F' b

/-- A printable ASCII byte that JSON text carries unescaped. -/
def isPlain (b : UInt8) : Bool :=
  0x20 ≤ b.toNat && b.toNat < 0x7f && b.toNat != 0x22 && b.toNat != 0x5c && b.toNat != 0x2f

theorem isPlain_of_isAlnum {b : UInt8} (h : isAlnum b = true) : isPlain b = true := by
  simp only [isAlnum, inRange, isPlain, Bool.or_eq_true, Bool.and_eq_true, decide_eq_true_eq,
    bne_iff_ne, Char.toNat, Char.reduceVal, UInt32.reduceToNat] at h ⊢
  omega

theorem isAlnum_of_isHexDigit {b : UInt8} (h : isHexDigit b = true) : isAlnum b = true := by
  simp only [isAlnum, isHexDigit, inRange, Bool.or_eq_true, Bool.and_eq_true, decide_eq_true_eq,
    Char.toNat, Char.reduceVal, UInt32.reduceToNat] at h ⊢
  omega

theorem isAlnum_of_isDigit {b : UInt8} (h : isDigit b = true) : isAlnum b = true := by
  simp only [isAlnum, Bool.or_eq_true]
  exact Or.inr h

theorem ne_zero_of_isPlain {b : UInt8} (h : isPlain b = true) : b ≠ 0 := by
  rintro rfl
  exact absurd h (by decide)

/-! ### C strings -/

theorem cstr_eq_self {s : Bytes} (h : ∀ b ∈ s, b ≠ 0) : cstr s = s := by
  rw [cstr, List.takeWhile_eq_self_iff]
  intro b hb
  simpa using h b hb

theorem boundedCopy_eq_self {cap : Nat} {src : Bytes} (h : src.length < cap) :
    boundedCopy cap src = src :=
  List.take_of_length_le (by omega)

/-! ### Decimal text -/

/-- The text that `printf` writes for `n` under `%u`. -/
def decimal (n : Nat) : Bytes :=
  if n = 0 then [0x30] else (Nat.digits 10 n).reverse.map fun d => UInt8.ofNat (0x30 + d)

theorem decimal_isDigit (n : Nat) : ∀ b ∈ decimal n, isDigit b = true := by
  intro b hb
  unfold decimal at hb
  split at hb
  · simp only [List.mem_singleton] at hb
    subst hb
    decide
  · simp only [List.mem_map, List.mem_reverse] at hb
    obtain ⟨d, hd, rfl⟩ := hb
    have hlt : d < 10 := Nat.digits_lt_base (by decide) hd
    simp only [isDigit, inRange, UInt8.toNat_ofNat', Char.toNat, Char.reduceVal,
      UInt32.reduceToNat, Bool.and_eq_true, decide_eq_true_eq]
    omega

theorem decimal_ne_nil (n : Nat) : decimal n ≠ [] := by
  unfold decimal
  split
  · simp
  · rename_i h
    simpa using Nat.digits_ne_nil_iff_ne_zero.mpr h

theorem decimal_length_le {n k : Nat} (hk : 0 < k) (h : n < 10 ^ k) : (decimal n).length ≤ k := by
  unfold decimal
  split
  · exact hk
  · simpa using (Nat.digits_length_le_iff (by decide) n).mpr h

theorem decimal_of_lt {d : Nat} (h : d < 10) : decimal d = [UInt8.ofNat (0x30 + d)] := by
  interval_cases d <;> simp [decimal]

theorem decimal_concat {n : Nat} (h : 10 ≤ n) :
    decimal n = decimal (n / 10) ++ [UInt8.ofNat (0x30 + n % 10)] := by
  have hn : n ≠ 0 := by omega
  have hquot : n / 10 ≠ 0 := by omega
  rw [decimal, if_neg hn, decimal, if_neg hquot, Nat.digits_def' (by decide) (by omega)]
  simp

/-- The digit that a character stands for. -/
theorem toNat_digit {d : Nat} (h : d < 10) : (UInt8.ofNat (0x30 + d)).toNat = 0x30 + d := by
  rw [UInt8.toNat_ofNat']
  omega

theorem isDigit_digit {d : Nat} (h : d < 10) : isDigit (UInt8.ofNat (0x30 + d)) = true := by
  simp only [isDigit, inRange, toNat_digit h, Char.toNat, Char.reduceVal, UInt32.reduceToNat,
    Bool.and_eq_true, decide_eq_true_eq]
  omega

/-! ### Hexadecimal text -/

/-- The lowercase hexadecimal digit of a nibble. -/
def hexDigit (n : Nat) : UInt8 := UInt8.ofNat (if n < 10 then 0x30 + n else 0x57 + n)

/-- The lowercase hexadecimal text of a byte string. -/
def hexEncode : Bytes → Bytes
  | [] => []
  | b :: bs => hexDigit (b.toNat / 16) :: hexDigit (b.toNat % 16) :: hexEncode bs

theorem hexDigit_isHexDigit {n : Nat} (h : n < 16) : isHexDigit (hexDigit n) = true := by
  interval_cases n <;> decide

@[simp] theorem hexEncode_length (s : Bytes) : (hexEncode s).length = 2 * s.length := by
  induction s with
  | nil => rfl
  | cons b s ih => simp [hexEncode, ih]; omega

theorem hexEncode_isHexDigit (s : Bytes) : ∀ b ∈ hexEncode s, isHexDigit b = true := by
  induction s with
  | nil => simp [hexEncode]
  | cons a s ih =>
    intro b hb
    have ha : a.toNat < 256 := a.toNat_lt
    simp only [hexEncode, List.mem_cons] at hb
    rcases hb with rfl | rfl | hb
    · exact hexDigit_isHexDigit (by omega)
    · exact hexDigit_isHexDigit (by omega)
    · exact ih b hb

end ByteString
