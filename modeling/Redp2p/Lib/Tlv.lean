import Mathlib.Data.List.Infix

/-! Texts of records, each with a kind, a length and a value that is padded to a multiple of four bytes:
the records of a text, how a longer text goes on where a shorter one ended, and the records of a text
that was written. -/

namespace Tlv

structure Record where
  kind : Nat
  value : List UInt8

/-- A number of two bytes, the high one first. -/
def number (high low : UInt8) : Nat := high.toNat * 256 + low.toNat

/-- The bytes from the end of a value to the next record. -/
def padding (n : Nat) : Nat := (4 - n % 4) % 4

/-- The records of a text, until one does not fit. -/
def records : List UInt8 → List Record
  | kindHigh :: kindLow :: lengthHigh :: lengthLow :: rest =>
    let length := number lengthHigh lengthLow
    if rest.length < length then []
    else ⟨number kindHigh kindLow, rest.take length⟩ :: records (rest.drop (length + padding length))
  | _ => []
termination_by text => text.length
decreasing_by
  rw [List.length_drop]
  refine Nat.lt_of_le_of_lt (Nat.sub_le ..) ?_
  show rest.length < rest.length + 4
  exact Nat.lt_add_of_pos_right (by decide)

/-- The first value of a kind. -/
def firstOf (kind : Nat) (text : List UInt8) : Option (List UInt8) :=
  ((records text).find? (·.kind == kind)).map Record.value

/-! ### Longer texts -/

/-- A text that goes on has the records that it had before, and maybe more. -/
theorem records_prefix (text more : List UInt8) : records text <+: records (text ++ more) := by
  induction text using records.induct generalizing more with
  | case1 kindHigh kindLow lengthHigh lengthLow rest length hshort =>
    rw [records, if_pos hshort]
    exact List.nil_prefix
  | case2 kindHigh kindLow lengthHigh lengthLow rest length hfits ih =>
    have hfits' : ¬ (rest ++ more).length < length := by
      rw [List.length_append]
      omega
    have hvalue : (rest ++ more).take length = rest.take length :=
      List.take_append_of_le_length (Nat.not_lt.mp hfits)
    simp only [List.cons_append]
    rw [records, records, if_neg hfits, if_neg hfits', hvalue, List.drop_append]
    exact (List.prefix_cons_inj _).mpr (ih _)
  | case3 text hshort =>
    rw [records]
    · exact List.nil_prefix
    · exact hshort

theorem firstOf_append {kind : Nat} {text value : List UInt8} (h : firstOf kind text = some value)
    (more : List UInt8) : firstOf kind (text ++ more) = some value := by
  obtain ⟨later, hlater⟩ := records_prefix text more
  obtain ⟨record, hrecord, rfl⟩ := Option.map_eq_some_iff.mp h
  rw [firstOf, ← hlater, List.find?_append, hrecord]
  rfl

/-! ### Written texts -/

/-- A record with the bytes behind its value, which are as many as it takes. -/
structure Written extends Record where
  fill : List UInt8
  kind_lt : kind < 65536
  value_lt : value.length < 65536
  fill_length : fill.length = padding value.length

def twoBytes (n : Nat) : List UInt8 := [UInt8.ofNat (n / 256), UInt8.ofNat (n % 256)]

def Written.bytes (w : Written) : List UInt8 :=
  twoBytes w.kind ++ twoBytes w.value.length ++ w.value ++ w.fill

theorem number_twoBytes {n : Nat} (h : n < 65536) :
    number (UInt8.ofNat (n / 256)) (UInt8.ofNat (n % 256)) = n := by
  rw [number, UInt8.toNat_ofNat', UInt8.toNat_ofNat', Nat.mod_eq_of_lt (by omega), Nat.mod_eq_of_lt (by omega)]
  omega

theorem records_bytes (w : Written) (rest : List UInt8) :
    records (w.bytes ++ rest) = w.toRecord :: records rest := by
  have hvalue : (w.value ++ (w.fill ++ rest)).take w.value.length = w.value := List.take_left
  have hrest : (w.value ++ (w.fill ++ rest)).drop (w.value.length + padding w.value.length) = rest := by
    rw [← w.fill_length, ← List.append_assoc, ← List.length_append, List.drop_left]
  have hfits : ¬ (w.value ++ (w.fill ++ rest)).length < w.value.length := by
    rw [List.length_append]
    omega
  simp only [Written.bytes, twoBytes, List.cons_append, List.nil_append, List.append_assoc]
  rw [records]
  simp only [number_twoBytes w.kind_lt, number_twoBytes w.value_lt]
  rw [if_neg hfits, hvalue, hrest]

/-- The first value of a kind behind records of other kinds. -/
theorem firstOf_written {kind : Nat} {before : List Written} (h : ∀ w ∈ before, w.kind ≠ kind)
    (w : Written) (hkind : w.kind = kind) (rest : List UInt8) :
    firstOf kind (before.flatMap Written.bytes ++ (w.bytes ++ rest)) = some w.value := by
  induction before with
  | nil =>
    rw [List.flatMap_nil, List.nil_append, firstOf, records_bytes,
      List.find?_cons_of_pos (by simpa using hkind)]
    rfl
  | cons other before ih =>
    obtain ⟨hother, hbefore⟩ := List.forall_mem_cons.mp h
    rw [List.flatMap_cons, List.append_assoc, firstOf, records_bytes,
      List.find?_cons_of_neg (by simpa using hother)]
    exact ih hbefore

/-- Written records end at a multiple of four bytes. -/
theorem bytes_length_mod (w : Written) : w.bytes.length % 4 = 0 := by
  have hfill := w.fill_length
  simp only [Written.bytes, twoBytes, List.length_append, List.length_cons, List.length_nil, padding] at hfill ⊢
  omega

theorem flatMap_bytes_length_mod (ws : List Written) : (ws.flatMap Written.bytes).length % 4 = 0 := by
  induction ws with
  | nil => rfl
  | cons w ws ih =>
    have hfirst := bytes_length_mod w
    rw [List.flatMap_cons, List.length_append]
    omega

end Tlv
