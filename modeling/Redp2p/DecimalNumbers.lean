import Redp2p.Cli

/-! The decimal numbers of the library and of the command line program in words of the machine, whose
arithmetic wraps. -/

namespace Redp2p

open ByteString

/-! ### The loop on words -/

section Words

variable {w : Nat}

/-- One turn of the loop of `redp2p_parse_u`, on words of `w` bits. -/
def parseDigitWord (limit value : BitVec w) (ch : UInt8) : Option (BitVec w) :=
  if !isDigit ch then none
  else
    let digit := BitVec.ofNat w (ch.toNat - 0x30)
    if digit > limit then none
    else if value > (limit - digit) / 10 then none
    else some (value * 10 + digit)

/-- The body that `redp2p_parse_u` and `parse_decimal` share, for a `long` of `w` bits: what is returned for
a text that is accepted and for one that is not, and what stands in the output before and after. -/
def parseWord (accepted refused : Int) (text : Bytes) (min max out : BitVec w) : Int × BitVec w :=
  if text.isEmpty || min.slt 0 || max.slt min then (refused, out)
  else
    match text.foldlM (parseDigitWord max) 0 with
    | none => (refused, out)
    | some value => if value < min then (refused, out) else (accepted, value)

def parseUWord (text : Bytes) (min max out : BitVec w) : Int × BitVec w := parseWord 1 0 text min max out

/-- `parse_decimal`, whose results are the other way round. -/
def Cli.parseDecimalWord (text : Bytes) (min max out : BitVec w) : Int × BitVec w :=
  parseWord 0 1 text min max out

theorem isDigit_digit_le {ch : UInt8} (h : isDigit ch = true) : ch.toNat - 0x30 ≤ 9 := by
  simp only [isDigit, inRange, Bool.and_eq_true, decide_eq_true_eq, Char.toNat, Char.reduceVal,
    UInt32.reduceToNat] at h
  omega

/-- The guards of a turn keep its arithmetic from wrapping. -/
theorem parseDigitWord_toNat (hw : 32 ≤ w) (limit value : BitVec w) (ch : UInt8) :
    (parseDigitWord limit value ch).map BitVec.toNat = parseDigit limit.toNat value.toNat ch := by
  have hwide : 2 ^ 32 ≤ 2 ^ w := Nat.pow_le_pow_right (by decide) hw
  unfold parseDigitWord parseDigit
  by_cases hdigit : isDigit ch = true
  · have hle := isDigit_digit_le hdigit
    have hnat : (BitVec.ofNat w (ch.toNat - 0x30)).toNat = ch.toNat - 0x30 := by
      rw [BitVec.toNat_ofNat, Nat.mod_eq_of_lt (by omega)]
    have hten : (10 : BitVec w).toNat = 10 := by
      change (BitVec.ofNat w 10).toNat = 10
      rw [BitVec.toNat_ofNat, Nat.mod_eq_of_lt (by omega)]
    simp only [hdigit, Bool.not_true, Bool.false_eq_true, if_false, gt_iff_lt, BitVec.lt_def, hnat]
    by_cases hover : limit.toNat < ch.toNat - 0x30
    · rw [if_pos hover, if_pos hover, Option.map_none]
    · have hroom : ((limit - BitVec.ofNat w (ch.toNat - 0x30)) / 10).toNat =
          (limit.toNat - (ch.toNat - 0x30)) / 10 := by
        rw [BitVec.toNat_udiv, BitVec.toNat_sub_of_le (by rw [BitVec.le_def, hnat]; omega), hnat, hten]
      rw [if_neg hover, if_neg hover, hroom]
      split
      · rfl
      · have hlimit := limit.isLt
        rw [Option.map_some, BitVec.toNat_add, BitVec.toNat_mul, hnat, hten, Nat.add_mod, Nat.mod_mod,
          ← Nat.add_mod, Nat.mod_eq_of_lt (by omega)]
  · simp [hdigit]

theorem foldlM_parseDigitWord (hw : 32 ≤ w) (limit value : BitVec w) (text : Bytes) :
    (text.foldlM (parseDigitWord limit) value).map BitVec.toNat =
      text.foldlM (parseDigit limit.toNat) value.toNat := by
  induction text generalizing value with
  | nil => rfl
  | cons ch text ih =>
    rw [List.foldlM_cons, List.foldlM_cons, ← parseDigitWord_toNat hw]
    cases parseDigitWord limit value ch with
    | none => rfl
    | some next => exact ih next

/-- The words compute what `redp2p_parse_u` computes on numbers. -/
theorem parseWord_eq (hw : 32 ≤ w) (accepted refused : Int) (text : Bytes) {min max : BitVec w}
    (hmin : 0 ≤ min.toInt) (hmax : min.toInt ≤ max.toInt) (out : BitVec w) :
    parseWord accepted refused text min max out =
      match parseU text min.toNat max.toNat with
      | none => (refused, out)
      | some n => (accepted, BitVec.ofNat w n) := by
  have hpos : min.slt 0 = false := by simpa [BitVec.slt] using hmin
  have hord : max.slt min = false := by simpa [BitVec.slt] using hmax
  have hle : ¬ max.toNat < min.toNat := by
    have hminNat := BitVec.toInt_eq_toNat_of_lt (BitVec.toInt_pos_iff.mp hmin)
    have hmaxNat := BitVec.toInt_eq_toNat_of_lt (BitVec.toInt_pos_iff.mp (Int.le_trans hmin hmax))
    omega
  have hfold := foldlM_parseDigitWord hw max 0 text
  have hzero : (0 : BitVec w).toNat = 0 := BitVec.toNat_zero
  rw [hzero] at hfold
  unfold parseWord parseU
  rw [← hfold]
  simp only [hpos, hord, Bool.or_false, decide_eq_false hle]
  split
  · rfl
  · cases text.foldlM (parseDigitWord max) 0 with
    | none => rfl
    | some value =>
      simp only [Option.map_some, BitVec.lt_def]
      split
      · rfl
      · dsimp only
        rw [BitVec.ofNat_toNat, BitVec.setWidth_eq]

/-! ### Exactness -/

/-- A text of decimal digits whose number lies in a range. -/
def IsDecimalIn (text : Bytes) (min max : Int) : Prop :=
  text ≠ [] ∧ (∀ b ∈ text, isDigit b = true) ∧ min ≤ parseDecimal text ∧ (parseDecimal text : Int) ≤ max

/-- What has been read so far never wraps, and does not exceed the bound. -/
theorem parseDigitWord_prefix (hw : 32 ≤ w) {max value : BitVec w} {front : Bytes}
    (h : front.foldlM (parseDigitWord max) 0 = some value) :
    value.toNat = parseDecimal front ∧ value.toNat ≤ max.toNat := by
  have hfold := foldlM_parseDigitWord hw max 0 front
  have hzero : (0 : BitVec w).toNat = 0 := BitVec.toNat_zero
  rw [h, hzero, Option.map_some] at hfold
  obtain ⟨-, hvalue, hmax⟩ := foldlM_parseDigit hfold.symm (Nat.zero_le _)
  exact ⟨hvalue.symm, hmax⟩

theorem parseWord_decimal (hw : 32 ≤ w) (accepted refused : Int) (text : Bytes) {min max : BitVec w}
    (hmin : 0 ≤ min.toInt) (hmax : min.toInt ≤ max.toInt) (out : BitVec w) :
    (IsDecimalIn text min.toInt max.toInt →
      (parseWord accepted refused text min max out).1 = accepted ∧
        (parseWord accepted refused text min max out).2.toInt = parseDecimal text) ∧
      (¬ IsDecimalIn text min.toInt max.toInt →
        parseWord accepted refused text min max out = (refused, out)) := by
  have hminNat := BitVec.toInt_eq_toNat_of_lt (BitVec.toInt_pos_iff.mp hmin)
  have hsmall := BitVec.toInt_pos_iff.mp (Int.le_trans hmin hmax)
  have hmaxNat := BitVec.toInt_eq_toNat_of_lt hsmall
  rw [parseWord_eq hw accepted refused text hmin hmax out, parseU_eq]
  constructor
  · rintro ⟨hne, hdigits, hlow, hhigh⟩
    have hread : decimalIn text min.toNat max.toNat = some (parseDecimal text) :=
      decimalIn_eq_some_iff.mpr ⟨hne, hdigits, rfl, by omega, by omega⟩
    have hnat : (BitVec.ofNat w (parseDecimal text)).toNat = parseDecimal text := by
      rw [BitVec.toNat_ofNat, Nat.mod_eq_of_lt (by have := max.isLt; omega)]
    rw [hread]
    refine ⟨rfl, ?_⟩
    rw [BitVec.toInt_eq_toNat_of_lt (by rw [hnat]; omega), hnat]
  · intro hnot
    have hrefused : decimalIn text min.toNat max.toNat = none := by
      by_contra hsome
      obtain ⟨n, hn⟩ := Option.ne_none_iff_exists'.mp hsome
      obtain ⟨hne, hdigits, rfl, hlow, hhigh⟩ := decimalIn_eq_some_iff.mp hn
      exact hnot ⟨hne, hdigits, by omega, by omega⟩
    rw [hrefused]

/-- `redp2p_parse_u` accepts the decimal numbers in its range and no other text, and gives their value. No
value on the way exceeds the upper bound. `parse_decimal` accepts the same texts with the same values. -/
theorem decimal_numbers_exact (hw : 32 ≤ w) (text : Bytes) {min max : BitVec w} (hmin : 0 ≤ min.toInt)
    (hmax : min.toInt ≤ max.toInt) (out : BitVec w) :
    ((parseUWord text min max out).1 = 1 ↔ IsDecimalIn text min.toInt max.toInt) ∧
      ((parseUWord text min max out).1 = 1 → (parseUWord text min max out).2.toInt = parseDecimal text) ∧
      (∀ front rest value, text = front ++ rest → front.foldlM (parseDigitWord max) 0 = some value →
        value.toNat = parseDecimal front ∧ (value.toNat : Int) ≤ max.toInt) ∧
      ((Cli.parseDecimalWord text min max out).1 = 0 ↔ (parseUWord text min max out).1 = 1) ∧
      (Cli.parseDecimalWord text min max out).2 = (parseUWord text min max out).2 := by
  obtain ⟨haccepts, hrefuses⟩ := parseWord_decimal hw 1 0 text hmin hmax out
  obtain ⟨haccepts', hrefuses'⟩ := parseWord_decimal hw 0 1 text hmin hmax out
  have hmaxNat := BitVec.toInt_eq_toNat_of_lt (BitVec.toInt_pos_iff.mp (Int.le_trans hmin hmax))
  refine ⟨?_, ?_, ?_, ?_, ?_⟩
  · constructor
    · intro hone
      by_contra hnot
      rw [parseUWord, hrefuses hnot] at hone
      exact absurd hone (show (0 : Int) ≠ 1 by decide)
    · exact fun hin => (haccepts hin).1
  · intro hone
    by_cases hin : IsDecimalIn text min.toInt max.toInt
    · exact (haccepts hin).2
    · rw [parseUWord, hrefuses hin] at hone
      exact absurd hone (show (0 : Int) ≠ 1 by decide)
  · rintro front rest value - hfold
    obtain ⟨hvalue, hle⟩ := parseDigitWord_prefix hw hfold
    exact ⟨hvalue, by omega⟩
  · by_cases hin : IsDecimalIn text min.toInt max.toInt
    · simp [parseUWord, Cli.parseDecimalWord, (haccepts hin).1, (haccepts' hin).1]
    · simp [parseUWord, Cli.parseDecimalWord, hrefuses hin, hrefuses' hin]
  · rw [parseUWord, Cli.parseDecimalWord, parseWord_eq hw 1 0 text hmin hmax out,
      parseWord_eq hw 0 1 text hmin hmax out]
    cases parseU text min.toNat max.toNat <;> rfl

end Words

/-- A port with zeros in front, for a `long` of 64 bits. -/
theorem decimal_numbers_sample :
    ((parseUWord (ascii "0000000000000000000000065535") (1 : BitVec 64) 65535 0).1 = 1 ↔
      IsDecimalIn (ascii "0000000000000000000000065535") 1 65535) :=
  (decimal_numbers_exact (by decide) (ascii "0000000000000000000000065535")
    (show 0 ≤ (1 : BitVec 64).toInt by decide) (show (1 : BitVec 64).toInt ≤ (65535 : BitVec 64).toInt by decide)
    0).1

end Redp2p
