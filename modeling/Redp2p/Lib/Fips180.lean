import Mathlib.Data.Nat.Find
import Mathlib.Data.Nat.NthRoot.Defs
import Mathlib.Data.Nat.Prime.Basic
import Mathlib.Data.List.Basic
import Mathlib.Tactic.Ring

/-! The SHA-256 of FIPS 180-4, as the standard defines it: on bit strings, with words of 32 bits, and with
constants from the roots of prime numbers. The HMAC of RFC 2104 over any hash of byte strings. -/

/-! ### Bit strings -/

namespace BitString

/-- The bits of a byte, the highest first. -/
def ofByte (b : UInt8) : List Bool := (List.range 8).map fun i => b.toNat.testBit (7 - i)

def ofBytes (bytes : List UInt8) : List Bool := bytes.flatMap ofByte

/-- The number that a bit string stands for. -/
def toNat (bits : List Bool) : Nat := bits.foldl (fun n bit => 2 * n + bit.toNat) 0

@[simp] theorem ofByte_length (b : UInt8) : (ofByte b).length = 8 := by simp [ofByte]

theorem ofBytes_cons (b : UInt8) (bytes : List UInt8) : ofBytes (b :: bytes) = ofByte b ++ ofBytes bytes := rfl

@[simp] theorem ofBytes_append (front back : List UInt8) :
    ofBytes (front ++ back) = ofBytes front ++ ofBytes back := List.flatMap_append

@[simp] theorem ofBytes_length (bytes : List UInt8) : (ofBytes bytes).length = 8 * bytes.length := by
  induction bytes with
  | nil => rfl
  | cons b bytes ih =>
    rw [ofBytes_cons, List.length_append, ofByte_length, ih, List.length_cons]
    omega

theorem ofBytes_zeros (count : Nat) : ofBytes (List.replicate count 0) = List.replicate (8 * count) false := by
  have hzero : ofByte 0 = List.replicate 8 false := by decide
  induction count with
  | zero => rfl
  | succ count ih =>
    rw [List.replicate_succ, ofBytes_cons, ih, hzero, List.replicate_append_replicate, Nat.mul_succ, Nat.add_comm]

theorem ofBytes_drop (bytes : List UInt8) (n : Nat) : (ofBytes bytes).drop (8 * n) = ofBytes (bytes.drop n) := by
  induction n generalizing bytes with
  | zero => rfl
  | succ n ih =>
    cases bytes with
    | nil => simp [ofBytes]
    | cons b bytes =>
      rw [ofBytes_cons, List.drop_succ_cons, ← ih bytes, List.drop_append, ofByte_length,
        List.drop_eq_nil_of_le (by rw [ofByte_length]; omega), List.nil_append]
      congr 1

theorem ofBytes_take (bytes : List UInt8) (n : Nat) : (ofBytes bytes).take (8 * n) = ofBytes (bytes.take n) := by
  induction n generalizing bytes with
  | zero => rfl
  | succ n ih =>
    cases bytes with
    | nil => simp [ofBytes]
    | cons b bytes =>
      rw [ofBytes_cons, List.take_succ_cons, ofBytes_cons, ← ih bytes, List.take_append, ofByte_length,
        List.take_of_length_le (by rw [ofByte_length]; omega)]
      congr 2

theorem foldl_bits (bits : List Bool) (acc : Nat) :
    bits.foldl (fun n bit => 2 * n + bit.toNat) acc = acc * 2 ^ bits.length + toNat bits := by
  unfold toNat
  induction bits generalizing acc with
  | nil => simp
  | cons bit bits ih =>
    rw [List.foldl_cons, List.foldl_cons, ih, ih (2 * 0 + bit.toNat), List.length_cons, pow_succ]
    ring

theorem toNat_ofByte (b : UInt8) : toNat (ofByte b) = b.toNat := by
  have hall : ∀ n : Fin 256, toNat (ofByte (UInt8.ofNat n)) = (n : Nat) := by decide +kernel
  simpa using hall ⟨b.toNat, b.toNat_lt⟩

/-- The bits of bytes are the digits of one number. -/
theorem toNat_ofBytes (bytes : List UInt8) :
    toNat (ofBytes bytes) = bytes.foldl (fun n b => n * 256 + b.toNat) 0 := by
  have hfold : ∀ (bytes : List UInt8) (acc : Nat),
      (ofBytes bytes).foldl (fun n bit => 2 * n + bit.toNat) acc =
        bytes.foldl (fun n b => n * 256 + b.toNat) acc := by
    intro bytes
    induction bytes with
    | nil => exact fun _ => rfl
    | cons b bytes ih =>
      intro acc
      have hbyte := foldl_bits (ofByte b) acc
      rw [ofByte_length, toNat_ofByte] at hbyte
      rw [ofBytes_cons, List.foldl_append, hbyte, ih]
      rfl
  exact hfold bytes 0

end BitString

/-! ### SHA-256 -/

namespace Fips180

open BitString

abbrev Word := BitVec 32

/-! The functions of section 4.1.2. -/

def ch (x y z : Word) : Word := (x &&& y) ^^^ (~~~x &&& z)
def maj (x y z : Word) : Word := (x &&& y) ^^^ (x &&& z) ^^^ (y &&& z)
def bigSigma0 (x : Word) : Word := x.rotateRight 2 ^^^ x.rotateRight 13 ^^^ x.rotateRight 22
def bigSigma1 (x : Word) : Word := x.rotateRight 6 ^^^ x.rotateRight 11 ^^^ x.rotateRight 25
def smallSigma0 (x : Word) : Word := x.rotateRight 7 ^^^ x.rotateRight 18 ^^^ (x >>> 3)
def smallSigma1 (x : Word) : Word := x.rotateRight 17 ^^^ x.rotateRight 19 ^^^ (x >>> 10)

/-- The first sixty-four prime numbers. -/
def primes : List Nat := (List.range 312).filter Nat.Prime

theorem prime_iff_of_lt {p : Nat} (h : p < 18 * 18) :
    p.Prime ↔ 2 ≤ p ∧ ∀ m < 18, 2 ≤ m → m < p → p % m ≠ 0 := by
  constructor
  · intro hp
    refine ⟨hp.two_le, fun m _ htwo hlt hmod => ?_⟩
    rcases (Nat.dvd_prime hp).mp (Nat.dvd_of_mod_eq_zero hmod) with rfl | rfl <;> omega
  · rintro ⟨htwo, hfactors⟩
    by_contra hp
    have hsmall : p.minFac < 18 := by
      refine Nat.lt_of_not_le fun hlarge => ?_
      have hsq := Nat.minFac_sq_le_self (by omega) hp
      have hmul := Nat.mul_le_mul hlarge hlarge
      rw [sq] at hsq
      omega
    exact hfactors _ hsmall (Nat.minFac_prime (show p ≠ 1 by omega)).two_le
      ((Nat.not_prime_iff_minFac_lt htwo).mp hp) (Nat.mod_eq_zero_of_dvd p.minFac_dvd)

theorem primes_eq : primes = [
    2, 3, 5, 7, 11, 13, 17, 19, 23, 29, 31, 37, 41, 43, 47, 53, 59, 61, 67, 71, 73, 79, 83, 89, 97, 101, 103,
    107, 109, 113, 127, 131, 137, 139, 149, 151, 157, 163, 167, 173, 179, 181, 191, 193, 197, 199, 211, 223,
    227, 229, 233, 239, 241, 251, 257, 263, 269, 271, 277, 281, 283, 293, 307, 311] := by
  have hfilter : primes =
      (List.range 312).filter fun p => 2 ≤ p ∧ ∀ m < 18, 2 ≤ m → m < p → p % m ≠ 0 := by
    refine List.filter_congr fun p hp => ?_
    rw [decide_eq_decide]
    exact prime_iff_of_lt (Nat.lt_trans (List.mem_range.mp hp) (by decide))
  rw [hfilter]
  decide +kernel

/-- The first 32 bits of the fractional part of a root of a prime, which is that of the integer below the
root of the prime with 32 more bits for each degree. -/
def fractionBits (degree prime : Nat) : Word := BitVec.ofNat 32 (Nat.nthRoot degree (prime * 2 ^ (32 * degree)))

/-- The constant of a round (section 4.2.2), from the cube root. -/
def k (t : Nat) : Word := fractionBits 3 (primes.getD t 0)

/-- The eight words of a hash value, or the working variables. -/
@[ext]
structure Words where
  a : Word
  b : Word
  c : Word
  d : Word
  e : Word
  f : Word
  g : Word
  h : Word
  deriving DecidableEq

/-- The initial hash value (section 5.3.3), from the square roots. -/
def initial : Words where
  a := fractionBits 2 (primes.getD 0 0)
  b := fractionBits 2 (primes.getD 1 0)
  c := fractionBits 2 (primes.getD 2 0)
  d := fractionBits 2 (primes.getD 3 0)
  e := fractionBits 2 (primes.getD 4 0)
  f := fractionBits 2 (primes.getD 5 0)
  g := fractionBits 2 (primes.getD 6 0)
  h := fractionBits 2 (primes.getD 7 0)

/-- There is a padding (section 5.1.1) for a message of any length in bits. -/
theorem exists_zeros (length : Nat) : ∃ zeros, (length + 1 + zeros) % 512 = 448 :=
  ⟨(959 - length % 512) % 512, by omega⟩

/-- The smallest number of zeros that leaves 64 bits of a block. -/
def zeros (length : Nat) : Nat := Nat.find (exists_zeros length)

/-- The length in 64 bits. -/
def lengthBits (length : Nat) : List Bool := (List.range 64).map fun i => length.testBit (63 - i)

def pad (message : List Bool) : List Bool :=
  message ++ true :: List.replicate (zeros message.length) false ++ lengthBits message.length

/-- A word of a block of 512 bits. -/
def word (block : List Bool) (t : Nat) : Word := BitVec.ofNat 32 (toNat ((block.drop (32 * t)).take 32))

/-- The message schedule (section 6.2.2, step 1). -/
def schedule (m : Nat → Word) (t : Nat) : Word :=
  if t < 16 then m t
  else smallSigma1 (schedule m (t - 2)) + schedule m (t - 7) + smallSigma0 (schedule m (t - 15)) +
    schedule m (t - 16)

/-- Step 3 for one `t`. -/
def step (w : Nat → Word) (v : Words) (t : Nat) : Words :=
  let t1 := v.h + bigSigma1 v.e + ch v.e v.f v.g + k t + w t
  let t2 := bigSigma0 v.a + maj v.a v.b v.c
  { a := t1 + t2, b := v.a, c := v.b, d := v.c, e := v.d + t1, f := v.e, g := v.f, h := v.g }

def Words.add (x y : Words) : Words :=
  ⟨x.a + y.a, x.b + y.b, x.c + y.c, x.d + y.d, x.e + y.e, x.f + y.f, x.g + y.g, x.h + y.h⟩

/-- The hash value after one more block. -/
def compress (h : Words) (block : List Bool) : Words :=
  ((List.range 64).foldl (step (schedule (word block))) h).add h

/-- The hash value after all blocks of the padded message. -/
def hash (message : List Bool) : Words :=
  let padded := pad message
  (List.range (padded.length / 512)).foldl
    (fun h i => compress h ((padded.drop (512 * i)).take 512)) initial

def wordBytes (w : Word) : List UInt8 :=
  [UInt8.ofBitVec (w.extractLsb' 24 8), UInt8.ofBitVec (w.extractLsb' 16 8),
    UInt8.ofBitVec (w.extractLsb' 8 8), UInt8.ofBitVec (w.extractLsb' 0 8)]

def Words.bytes (v : Words) : List UInt8 :=
  [v.a, v.b, v.c, v.d, v.e, v.f, v.g, v.h].flatMap wordBytes

/-- The digest of a byte string. -/
def sha256 (message : List UInt8) : List UInt8 := (hash (ofBytes message)).bytes

theorem zeros_bytes {length count : Nat} (hfill : (length + 1 + count) % 64 = 56) (hcount : count < 64) :
    zeros (8 * length) = 7 + 8 * count := by
  refine (Nat.find_eq_iff _).mpr ⟨by omega, fun other hlt => ?_⟩
  omega

/-- On whole bytes the padding is a byte, zero bytes and the length. -/
theorem pad_ofBytes {message : List UInt8} {count : Nat} (hfill : (message.length + 1 + count) % 64 = 56)
    (hcount : count < 64) :
    pad (ofBytes message) =
      ofBytes (message ++ 0x80 :: List.replicate count 0) ++ lengthBits (8 * message.length) := by
  have hone : ofByte 0x80 = true :: List.replicate 7 false := by decide
  rw [pad, ofBytes_length, zeros_bytes hfill hcount, ofBytes_append, ofBytes_cons, hone, ofBytes_zeros,
    List.replicate_add]
  simp

/-- The length field has the low 64 bits of the length. -/
theorem lengthBits_mod (length : Nat) : lengthBits (length % 2 ^ 64) = lengthBits length := by
  refine List.map_congr_left fun i _ => ?_
  rw [Nat.testBit_mod_two_pow, decide_eq_true (by omega), Bool.true_and]

end Fips180

/-! ### HMAC -/

namespace Rfc2104

/-- The key, hashed if it is longer than a block, and zeros up to a block. -/
def blockKey (hash : List UInt8 → List UInt8) (blockLength : Nat) (key : List UInt8) : List UInt8 :=
  let short := if key.length > blockLength then hash key else key
  short ++ List.replicate (blockLength - short.length) 0

def hmac (hash : List UInt8 → List UInt8) (blockLength : Nat) (key text : List UInt8) : List UInt8 :=
  let block := blockKey hash blockLength key
  hash (block.map (· ^^^ 0x5c) ++ hash (block.map (· ^^^ 0x36) ++ text))

end Rfc2104
