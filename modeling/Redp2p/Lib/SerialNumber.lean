import Mathlib.Algebra.Group.Int.Defs
import Mathlib.Algebra.Ring.Nat

/-! Serial numbers of 32 bits: their difference is read as a signed word, so it is exact as long as the
two numbers lie less than half of the number space apart. -/

namespace SerialNumber

/-- The difference of two serial numbers as a signed word. -/
def diff (later earlier : UInt32) : Int := (later - earlier).toInt32.toInt

theorem diff_eq_bmod (later earlier : UInt32) :
    diff later earlier = ((later.toNat : Int) - earlier.toNat).bmod (2 ^ 32) := by
  have hword : (later - earlier).toInt32.toInt = (later.toBitVec - earlier.toBitVec).toInt := rfl
  rw [diff, hword, BitVec.toInt_sub, BitVec.toInt_eq_toNat_bmod, BitVec.toInt_eq_toNat_bmod,
    Int.sub_bmod_bmod, Int.bmod_sub_bmod]
  rfl

/-- The difference of numbers that lie less than half of the number space apart. -/
theorem diff_eq {later earlier : UInt32} (hlow : earlier.toNat ≤ later.toNat + 2 ^ 31)
    (hhigh : later.toNat < earlier.toNat + 2 ^ 31) :
    diff later earlier = (later.toNat : Int) - earlier.toNat := by
  rw [diff_eq_bmod]
  exact Int.bmod_eq_of_le (by omega) (by omega)

/-- A difference does not depend on where counting starts. -/
theorem diff_sub (later earlier base : UInt32) : diff (later - base) (earlier - base) = diff later earlier := by
  have hshift : later - base - (earlier - base) = later - earlier := by grind
  rw [diff, diff, hshift]

/-- A word below the half reads as its number. -/
theorem toInt_toInt32 {number : UInt32} (h : number.toNat < 2 ^ 31) : number.toInt32.toInt = number.toNat := by
  have hzero : number - 0 = number := by grind
  have hdiff : diff number 0 = (number.toNat : Int) - (0 : UInt32).toNat :=
    diff_eq (Nat.zero_le _) (by simpa using h)
  rw [diff, hzero] at hdiff
  simpa using hdiff

/-- The difference of two numbers by their distances from a common base. -/
theorem diff_offset (base : UInt32) {later earlier : UInt32} (hlater : (later - base).toNat < 2 ^ 31)
    (hearlier : (earlier - base).toNat < 2 ^ 31) :
    diff later earlier = ((later - base).toNat : Int) - (earlier - base).toNat := by
  rw [← diff_sub later earlier base]
  exact diff_eq (by omega) (by omega)

/-- A number is not behind the base exactly when its distance is less than half of the space. -/
theorem diff_nonneg_iff {number base : UInt32} : 0 ≤ diff number base ↔ (number - base).toNat < 2 ^ 31 := by
  have hlt := (number - base).toNat_lt
  have hvalue : diff number base = ((number - base).toNat : Int).bmod (2 ^ 32) := by
    rw [← diff_sub number base base, diff_eq_bmod]
    simp
  rw [hvalue, Int.bmod_eq_emod, Int.emod_eq_of_lt (by omega) (by omega)]
  split <;> omega

theorem toNat_sub_succ {number base : UInt32} (h : 0 < (number - base).toNat) :
    (number - (base + 1)).toNat = (number - base).toNat - 1 := by
  have hstep : number - (base + 1) = (number - base) - 1 := by grind
  have hle : 1 ≤ number - base := UInt32.le_iff_toNat_le.mpr (show 1 ≤ (number - base).toNat from h)
  rw [hstep, UInt32.toNat_sub_of_le _ _ hle]
  rfl

theorem toNat_succ_sub {number base : UInt32} (h : (number - base).toNat + 1 < 2 ^ 32) :
    (number + 1 - base).toNat = (number - base).toNat + 1 := by
  have hstep : number + 1 - base = (number - base) + 1 := by grind
  rw [hstep, UInt32.toNat_add]
  exact Nat.mod_eq_of_lt h

theorem diff_neg_iff {later earlier : UInt32} (hlow : earlier.toNat ≤ later.toNat + 2 ^ 31)
    (hhigh : later.toNat < earlier.toNat + 2 ^ 31) :
    diff later earlier < 0 ↔ later.toNat < earlier.toNat := by
  rw [diff_eq hlow hhigh]
  omega

theorem diff_pos_iff {later earlier : UInt32} (hlow : earlier.toNat ≤ later.toNat + 2 ^ 31)
    (hhigh : later.toNat < earlier.toNat + 2 ^ 31) :
    0 < diff later earlier ↔ earlier.toNat < later.toNat := by
  rw [diff_eq hlow hhigh]
  omega

/-- The difference by the distance: numbers that are more than half of the space ahead are behind. -/
theorem diff_eq_ite (later earlier : UInt32) : diff later earlier =
    if (later - earlier).toNat < 2 ^ 31 then ((later - earlier).toNat : Int)
    else (later - earlier).toNat - 2 ^ 32 := by
  have hlt := (later - earlier).toNat_lt
  have hvalue : diff later earlier = ((later - earlier).toNat : Int).bmod (2 ^ 32) := by
    rw [← diff_sub later earlier earlier, diff_eq_bmod]
    simp
  rw [hvalue, Int.bmod_eq_emod, Int.emod_eq_of_lt (by omega) (by omega)]
  split <;> split <;> omega

/-- A number that is ahead by less than half of the number space. -/
theorem toNat_sub_of_diff_neg {later earlier : UInt32} (h : diff earlier later < 0)
    (hnear : -2 ^ 31 < diff earlier later) : ((later - earlier).toNat : Int) = -diff earlier later := by
  have hlt := (earlier - later).toNat_lt
  have hback : later - earlier = 0 - (earlier - later) := by grind
  have hword : (later - earlier).toNat = (2 ^ 32 - (earlier - later).toNat) % 2 ^ 32 := by
    rw [hback, UInt32.toNat_sub]
    simp
  rw [hword]
  rw [diff_eq_ite] at h hnear ⊢
  split at h <;> omega

theorem toNat_ofInt {number : Int} (hlow : 0 ≤ number) (hhigh : number < 2 ^ 32) :
    (UInt32.ofInt number).toNat = number.toNat := by
  have hmod : number % 2 ^ 32 = number := Int.emod_eq_of_lt hlow hhigh
  rw [UInt32.ofInt, hmod, UInt32.toNat_ofNat']
  omega

end SerialNumber
