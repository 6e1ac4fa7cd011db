import Redp2p.Sha256
import Redp2p.Candidate
import Redp2p.Lib.Fips180

/-! The proof of work of a registration, over any keyed digest: the publisher tries the counters of 32
bits in order, and the index accepts what it finds. -/

namespace Redp2p

open ByteString BitString

/-! ### Leading zero bits -/

theorem leadingZeros_ofByte {b : UInt8} (hb : b ≠ 0) :
    leadingZeros 8 b = ((ofByte b).takeWhile (!·)).length ∧ (ofByte b).any id = true := by
  have hall : ∀ n : Fin 256, UInt8.ofNat n ≠ 0 →
      leadingZeros 8 (UInt8.ofNat n) = ((ofByte (UInt8.ofNat n)).takeWhile (!·)).length ∧
        (ofByte (UInt8.ofNat n)).any id = true := by decide +kernel
  simpa using hall ⟨b.toNat, b.toNat_lt⟩ (by simpa using hb)

/-- The count over whole bytes and the last bits is the number of zeros before the first one. -/
theorem countLeadingZeroBits_eq (digest : Bytes) :
    countLeadingZeroBits digest = ((ofBytes digest).takeWhile (!·)).length := by
  induction digest with
  | nil => rfl
  | cons b rest ih =>
    rw [countLeadingZeroBits, ofBytes_cons]
    by_cases hb : b = 0
    · have hzeros : ∀ bit ∈ ofByte b, (!bit) = true := by
        rw [hb]
        decide
      rw [if_pos (by simpa using hb), List.takeWhile_append_of_pos hzeros, List.length_append, ofByte_length, ih]
    · obtain ⟨hcount, hone⟩ := leadingZeros_ofByte hb
      rw [if_neg (by simpa using hb), hcount, List.takeWhile_append, if_neg]
      intro hlength
      obtain ⟨bit, hbit, hset⟩ := List.any_eq_true.mp hone
      have hall := List.takeWhile_eq_self_iff.mp ((List.takeWhile_prefix (!·)).eq_of_length hlength) bit hbit
      simp only [id_eq] at hset
      simp [hset] at hall

/-! ### The solver and the verifier -/

/-- A digest of 32 bytes under a password. -/
abbrev KeyedDigest := Bytes → Bytes → Vector UInt8 32

/-- `snprintf` with `"%08x"`. -/
def counterText (counter : UInt32) : Bytes := hexEncode (Sha256.wordBytes counter)

section Work

variable (hmac : KeyedDigest) (pass nonceHex id : Bytes) (bits : Int)

def registerDigest (solutionHex : Bytes) : Bytes :=
  (hmac pass (appendPart (appendPart (appendPart [] nonceHex) id) solutionHex)).toList

/-- `redp2p_hex_encode` into a buffer. -/
def hexEncodeInto (cap : Nat) (hash : Bytes) : Option Bytes :=
  if cap < hash.length * 2 + 1 then none else some (hexEncode hash)

theorem counter_succ {counter : UInt32} (h : counter + 1 ≠ 0) : (counter + 1).toNat = counter.toNat + 1 := by
  have hlt := counter.toNat_lt
  have hne : (counter + 1).toNat ≠ 0 := fun hzero => h (UInt32.toNat_inj.mp hzero)
  rw [UInt32.toNat_add, UInt32.toNat_one] at hne ⊢
  omega

/-- The loop of `redp2p_solve_register_pow` from a counter on. `stop` tells at which counters a stop is
requested; it is asked every 2^20 turns. -/
def solveFrom (stop : UInt32 → Bool) (proofCap : Nat) (counter : UInt32) : Option (Bytes × Bytes) :=
  let buf := counterText counter
  let hash := registerDigest hmac pass nonceHex id buf
  if bits ≤ countLeadingZeroBits hash then (hexEncodeInto proofCap hash).map fun proof => (buf, proof)
  else if counter + 1 = 0 then none
  else if (counter + 1) &&& 0xfffff = 0 ∧ stop (counter + 1) = true then none
  else solveFrom stop proofCap (counter + 1)
termination_by 2 ^ 32 - counter.toNat
decreasing_by
  rename_i hwrap _
  have hlt := counter.toNat_lt
  rw [counter_succ hwrap]
  omega

def solveRegisterPow (stop : UInt32 → Bool) (solCap proofCap : Nat) : Option (Bytes × Bytes) :=
  if solCap < 17 ∨ proofCap < 65 then none else solveFrom hmac pass nonceHex id bits stop proofCap 0

/-- `redp2p_verify_register_pow`. -/
def verifyRegisterProof (solutionHex proofHex : Bytes) : Bool :=
  if proofHex.length ≠ 64 then false
  else
    let hash := registerDigest hmac pass nonceHex id solutionHex
    let diff := (List.zipWith (· ^^^ ·) proofHex (hexEncode hash)).foldl (· ||| ·) 0
    if diff != 0 then false else bits ≤ countLeadingZeroBits hash

end Work

def hmacDigest : KeyedDigest := fun key msg => ⟨(hmacSha256 key msg).toArray, by simp⟩

/-- The index verifies with HMAC-SHA256. -/
theorem verifyRegisterProof_hmac (pass nonceHex id solutionHex proofHex : Bytes) (bits : Int) :
    verifyRegisterProof hmacDigest pass nonceHex id bits solutionHex proofHex =
      verifyRegisterPow pass nonceHex id solutionHex proofHex bits := rfl

/-! ### The texts of counters -/

theorem parseHex_hexEncode (s : Bytes) :
    parseHex (hexEncode s) = s.foldl (fun n b => n * 256 + b.toNat) 0 := by
  have hfold : ∀ (s : Bytes) (acc : Nat), (hexEncode s).foldl (fun n b => n * 16 + hexValue b) acc =
      s.foldl (fun n b => n * 256 + b.toNat) acc := by
    intro s
    induction s with
    | nil => exact fun _ => rfl
    | cons b s ih =>
      intro acc
      have hb := b.toNat_lt
      have hstep : (acc * 16 + b.toNat / 16) * 16 + b.toNat % 16 = acc * 256 + b.toNat := by omega
      rw [hexEncode, List.foldl_cons, List.foldl_cons, List.foldl_cons, hexValue_hexDigit (by omega),
        hexValue_hexDigit (by omega), hstep, ih]
  exact hfold s 0

/-- The text of a counter is its number in hexadecimal, on eight digits. -/
theorem parseHex_counterText (counter : UInt32) : parseHex (counterText counter) = counter.toNat := by
  have hlt := counter.toNat_lt
  rw [counterText, parseHex_hexEncode]
  simp only [Sha256.wordBytes, List.foldl_cons, List.foldl_nil, UInt32.toNat_toUInt8, UInt32.toNat_shiftRight,
    Nat.shiftRight_eq_div_pow, UInt32.reduceToNat, Nat.reduceMod, Nat.reducePow]
  omega

theorem counterText_length (counter : UInt32) : (counterText counter).length = 8 := by
  rw [counterText, hexEncode_length]
  rfl

/-! ### Agreement -/

section Agreement

variable {hmac : KeyedDigest} {pass nonceHex id : Bytes} {bits : Int}

/-- The digest of a counter has enough leading zero bits. -/
def Solves (hmac : KeyedDigest) (pass nonceHex id : Bytes) (bits : Int) (counter : UInt32) : Prop :=
  bits ≤ countLeadingZeroBits (registerDigest hmac pass nonceHex id (counterText counter))

theorem registerDigest_length (solutionHex : Bytes) :
    (registerDigest hmac pass nonceHex id solutionHex).length = 32 := by
  simp [registerDigest]

theorem le_cases {counter k : UInt32} (h : counter ≤ k) : k = counter ∨ counter + 1 ≠ 0 ∧ counter + 1 ≤ k := by
  rcases UInt32.lt_or_eq_of_le h with hlt | rfl
  · have hwrap : counter + 1 ≠ 0 := by
      intro hzero
      have hsum := congrArg UInt32.toNat hzero
      have hk := k.toNat_lt
      have hcounter := UInt32.lt_iff_toNat_lt.mp hlt
      rw [UInt32.toNat_add, UInt32.toNat_one, UInt32.toNat_zero] at hsum
      omega
    refine Or.inr ⟨hwrap, ?_⟩
    rw [UInt32.le_iff_toNat_le, counter_succ hwrap]
    exact UInt32.lt_iff_toNat_lt.mp hlt
  · exact Or.inl rfl

/-- What the loop finds is the first counter that solves. -/
theorem solveFrom_some {stop : UInt32 → Bool} {proofCap : Nat} {counter : UInt32} {solution proof : Bytes}
    (h : solveFrom hmac pass nonceHex id bits stop proofCap counter = some (solution, proof)) :
    ∃ k, solution = counterText k ∧ proof = hexEncode (registerDigest hmac pass nonceHex id solution) ∧
      Solves hmac pass nonceHex id bits k ∧
      ∀ j, counter ≤ j → j < k → ¬ Solves hmac pass nonceHex id bits j := by
  fun_induction solveFrom hmac pass nonceHex id bits stop proofCap counter with
  | case1 counter buf hash hsolves =>
    obtain ⟨text, htext, heq⟩ := Option.map_eq_some_iff.mp h
    obtain ⟨rfl, rfl⟩ := Prod.mk.inj heq
    refine ⟨counter, rfl, ?_, hsolves, fun j hj hlt => absurd hj (UInt32.not_le.mpr hlt)⟩
    unfold hexEncodeInto at htext
    split at htext
    · exact nomatch htext
    · exact (Option.some.inj htext).symm
  | case2 => exact nomatch h
  | case3 => exact nomatch h
  | case4 counter buf hash hfails hwrap hstop ih =>
    obtain ⟨k, hsolution, hproof, hsolves, hleast⟩ := ih h
    refine ⟨k, hsolution, hproof, hsolves, fun j hj hlt => ?_⟩
    rcases le_cases hj with rfl | ⟨-, hnext⟩
    · exact hfails
    · exact hleast j hnext hlt

/-- Without a stop the loop finds a counter if there is one. -/
theorem solveFrom_isSome {proofCap : Nat} (hcap : 65 ≤ proofCap) {counter k : UInt32} (hk : counter ≤ k)
    (hsolves : Solves hmac pass nonceHex id bits k) :
    (solveFrom hmac pass nonceHex id bits (fun _ => false) proofCap counter).isSome = true := by
  fun_induction solveFrom hmac pass nonceHex id bits (fun _ => false) proofCap counter with
  | case1 counter buf hash _ =>
    have hlength : hash.length = 32 := registerDigest_length buf
    rw [Option.isSome_map, hexEncodeInto, if_neg (by omega)]
    rfl
  | case2 counter buf hash hfails hwrap =>
    rcases le_cases hk with rfl | ⟨hne, -⟩
    · exact absurd hsolves hfails
    · exact absurd hwrap hne
  | case3 counter buf hash hfails hwrap hstop => exact absurd hstop.2 (by simp)
  | case4 counter buf hash hfails hwrap hstop ih =>
    rcases le_cases hk with rfl | ⟨-, hnext⟩
    · exact absurd hsolves hfails
    · exact ih hnext

theorem verifyRegisterProof_iff {solutionHex proofHex : Bytes} :
    verifyRegisterProof hmac pass nonceHex id bits solutionHex proofHex = true ↔
      proofHex = hexEncode (registerDigest hmac pass nonceHex id solutionHex) ∧
        bits ≤ countLeadingZeroBits (registerDigest hmac pass nonceHex id solutionHex) :=
  acceptsDigits_iff (registerDigest_length solutionHex) proofHex bits

/-- Nothing is cut off behind the digits of a nonce and an identifier, up to 17 characters. -/
theorem registerDigest_eq (hnonce : isHexToken nonceHex 16 = true) (hid : isValidId id = true)
    {solutionHex : Bytes} (hsolution : solutionHex.length ≤ 17) :
    registerDigest hmac pass nonceHex id solutionHex = (hmac pass (nonceHex ++ id ++ solutionHex)).toList := by
  have hnonceLength := (isHexToken_iff.mp hnonce).1
  have hidLength := (isValidId_iff.mp hid).2.1
  rw [registerDigest, appendParts_eq, List.take_of_length_le]
  simp only [List.length_append, idMax] at hidLength ⊢
  omega

end Agreement

/-- Solver and verifier over any keyed digest. Without a stop the solver finds a solution exactly when
some counter has a digest with enough leading zero bits. Whatever it finds, stop or not, is the first such
counter, and the verifier accepts it. A solution of up to 17 characters, which is more than the index
lets through, is accepted exactly with the digits of the digest of the whole message. -/
theorem proof_of_work_agrees (hmac : KeyedDigest) (pass nonceHex id : Bytes) (bits : Int)
    (hnonce : isHexToken nonceHex 16 = true) (hid : isValidId id = true) :
    let digest (solution : Bytes) : Bytes := (hmac pass (nonceHex ++ id ++ solution)).toList
    let enough (solution : Bytes) : Prop := bits ≤ ((ofBytes (digest solution)).takeWhile (!·)).length
    ((solveRegisterPow hmac pass nonceHex id bits (fun _ => false) 17 65).isSome = true ↔
      ∃ counter : UInt32, enough (counterText counter)) ∧
    (∀ (stop : UInt32 → Bool) (solution proof : Bytes),
      solveRegisterPow hmac pass nonceHex id bits stop 17 65 = some (solution, proof) →
        (∃ counter, solution = counterText counter ∧ enough solution ∧
          ∀ other < counter, ¬ enough (counterText other)) ∧
        verifyRegisterProof hmac pass nonceHex id bits solution proof = true) ∧
    ∀ solution proof : Bytes, solution.length ≤ 17 →
      (verifyRegisterProof hmac pass nonceHex id bits solution proof = true ↔
        proof = hexEncode (digest solution) ∧ enough solution) := by
  intro digest enough
  have hdigest : ∀ solution : Bytes, solution.length ≤ 17 →
      registerDigest hmac pass nonceHex id solution = digest solution :=
    fun _ hsolution => registerDigest_eq hnonce hid hsolution
  have hsolves : ∀ counter, Solves hmac pass nonceHex id bits counter ↔ enough (counterText counter) := by
    intro counter
    rw [Solves, hdigest _ (by rw [counterText_length]; decide), countLeadingZeroBits_eq]
  have hstart : ∀ stop, solveRegisterPow hmac pass nonceHex id bits stop 17 65 =
      solveFrom hmac pass nonceHex id bits stop 65 0 := fun _ => if_neg (by decide)
  refine ⟨?_, fun stop solution proof h => ?_, fun solution proof hsolution => ?_⟩
  · rw [hstart]
    constructor
    · intro h
      obtain ⟨⟨solution, proof⟩, hsome⟩ := Option.isSome_iff_exists.mp h
      obtain ⟨counter, -, -, hcounter, -⟩ := solveFrom_some hsome
      exact ⟨counter, (hsolves counter).mp hcounter⟩
    · rintro ⟨counter, hcounter⟩
      exact solveFrom_isSome (Nat.le_refl 65) UInt32.zero_le ((hsolves counter).mpr hcounter)
  · rw [hstart] at h
    obtain ⟨counter, rfl, hproof, hcounter, hleast⟩ := solveFrom_some h
    refine ⟨⟨counter, rfl, (hsolves counter).mp hcounter, fun other hlt => ?_⟩, ?_⟩
    · exact fun henough => hleast other UInt32.zero_le hlt ((hsolves other).mpr henough)
    · exact verifyRegisterProof_iff.mpr ⟨hproof, hcounter⟩
  · rw [verifyRegisterProof_iff, hdigest solution hsolution, countLeadingZeroBits_eq]

/-- The challenge of an index with difficulty 8 for the identifier `pub`. -/
theorem proof_of_work_sample :
    (solveRegisterPow hmacDigest [] (ascii "0123456789abcdef") (ascii "pub") 8 (fun _ => false) 17 65).isSome =
        true ↔
      ∃ counter : UInt32, 8 ≤ ((ofBytes (hmacDigest []
        (ascii "0123456789abcdef" ++ ascii "pub" ++ counterText counter)).toList).takeWhile (!·)).length := by
  have h := (proof_of_work_agrees hmacDigest [] (ascii "0123456789abcdef") (ascii "pub") 8 (by decide +kernel)
    (by decide +kernel)).1
  simpa using h

end Redp2p
