import Redp2p.Text

/-! SHA-256, HMAC-SHA256 and the proof of work of a registration. -/

namespace Redp2p

open ByteString

/-! ### SHA-256 -/

def sha256K : Array UInt32 := #[
  0x428a2f98, 0x71374491, 0xb5c0fbcf, 0xe9b5dba5, 0x3956c25b, 0x59f111f1, 0x923f82a4, 0xab1c5ed5,
  0xd807aa98, 0x12835b01, 0x243185be, 0x550c7dc3, 0x72be5d74, 0x80deb1fe, 0x9bdc06a7, 0xc19bf174,
  0xe49b69c1, 0xefbe4786, 0x0fc19dc6, 0x240ca1cc, 0x2de92c6f, 0x4a7484aa, 0x5cb0a9dc, 0x76f988da,
  0x983e5152, 0xa831c66d, 0xb00327c8, 0xbf597fc7, 0xc6e00bf3, 0xd5a79147, 0x06ca6351, 0x14292967,
  0x27b70a85, 0x2e1b2138, 0x4d2c6dfc, 0x53380d13, 0x650a7354, 0x766a0abb, 0x81c2c92e, 0x92722c85,
  0xa2bfe8a1, 0xa81a664b, 0xc24b8b70, 0xc76c51a3, 0xd192e819, 0xd6990624, 0xf40e3585, 0x106aa070,
  0x19a4c116, 0x1e376c08, 0x2748774c, 0x34b0bcb5, 0x391c0cb3, 0x4ed8aa4a, 0x5b9cca4f, 0x682e6ff3,
  0x748f82ee, 0x78a5636f, 0x84c87814, 0x8cc70208, 0x90befffa, 0xa4506ceb, 0xbef9a3f7, 0xc67178f2]

namespace Sha256

def ror (x n : UInt32) : UInt32 := (x >>> n) ||| (x <<< (32 - n))
def ch (x y z : UInt32) : UInt32 := (x &&& y) ^^^ (~~~x &&& z)
def maj (x y z : UInt32) : UInt32 := (x &&& y) ^^^ (x &&& z) ^^^ (y &&& z)
def bigS0 (x : UInt32) : UInt32 := ror x 2 ^^^ ror x 13 ^^^ ror x 22
def bigS1 (x : UInt32) : UInt32 := ror x 6 ^^^ ror x 11 ^^^ ror x 25
def smallS0 (x : UInt32) : UInt32 := ror x 7 ^^^ ror x 18 ^^^ (x >>> 3)
def smallS1 (x : UInt32) : UInt32 := ror x 17 ^^^ ror x 19 ^^^ (x >>> 10)

/-- The eight words `a` to `h` of the chaining state. -/
structure State where
  a : UInt32
  b : UInt32
  c : UInt32
  d : UInt32
  e : UInt32
  f : UInt32
  g : UInt32
  h : UInt32

def State.words (s : State) : List UInt32 := [s.a, s.b, s.c, s.d, s.e, s.f, s.g, s.h]

/-- The words `W[0]` to `W[63]` of a block. -/
def schedule (block : Bytes) : Array UInt32 :=
  let byte (i : Nat) : UInt32 := (block.getD i 0).toUInt32
  let first := (List.range 16).map fun t =>
    (byte (t * 4) <<< 24) ||| (byte (t * 4 + 1) <<< 16) ||| (byte (t * 4 + 2) <<< 8) |||
      byte (t * 4 + 3)
  (List.range' 16 48).foldl
    (fun w t => w.push (smallS1 (w.getD (t - 2) 0) + w.getD (t - 7) 0 +
      smallS0 (w.getD (t - 15) 0) + w.getD (t - 16) 0))
    first.toArray

def round (w : Array UInt32) (s : State) (t : Nat) : State :=
  let t1 := s.h + bigS1 s.e + ch s.e s.f s.g + sha256K.getD t 0 + w.getD t 0
  let t2 := bigS0 s.a + maj s.a s.b s.c
  { a := t1 + t2, b := s.a, c := s.b, d := s.c, e := s.d + t1, f := s.e, g := s.f, h := s.g }

/-- `redp2p_sha256_transform`. -/
def transform (s : State) (block : Bytes) : State :=
  let r := (List.range 64).foldl (round (schedule block)) s
  { a := s.a + r.a, b := s.b + r.b, c := s.c + r.c, d := s.d + r.d,
    e := s.e + r.e, f := s.f + r.f, g := s.g + r.g, h := s.h + r.h }

/-- The context of a digest in progress. `buf` holds the bytes of the unfinished block, which are
the first `count & 63` bytes of the buffer. -/
structure Ctx where
  state : State
  count : UInt64
  buf : Bytes

def init : Ctx where
  state := { a := 0x6a09e667, b := 0xbb67ae85, c := 0x3c6ef372, d := 0xa54ff53a,
             e := 0x510e527f, f := 0x9b05688c, g := 0x1f83d9ab, h := 0x5be0cd19 }
  count := 0
  buf := []

def updateByte (ctx : Ctx) (b : UInt8) : Ctx :=
  let buf := ctx.buf ++ [b]
  let count := ctx.count + 1
  if count &&& 63 == 0 then { state := transform ctx.state buf, count := count, buf := [] }
  else { ctx with count := count, buf := buf }

def update (ctx : Ctx) (data : Bytes) : Ctx := data.foldl updateByte ctx

def wordBytes (w : UInt32) : Bytes :=
  [(w >>> 24).toUInt8, (w >>> 16).toUInt8, (w >>> 8).toUInt8, w.toUInt8]

def lengthBytes (bits : UInt64) : Bytes :=
  [(bits >>> 56).toUInt8, (bits >>> 48).toUInt8, (bits >>> 40).toUInt8, (bits >>> 32).toUInt8,
    (bits >>> 24).toUInt8, (bits >>> 16).toUInt8, (bits >>> 8).toUInt8, bits.toUInt8]

def final (ctx : Ctx) : Bytes :=
  let buf := ctx.buf ++ [0x80]
  let padded :=
    if buf.length > 56 then
      (transform ctx.state (buf ++ List.replicate (64 - buf.length) 0), ([] : Bytes))
    else (ctx.state, buf)
  let last := padded.2 ++ List.replicate (56 - padded.2.length) 0 ++ lengthBytes (ctx.count * 8)
  (transform padded.1 last).words.flatMap wordBytes

theorem update_append (ctx : Ctx) (data rest : Bytes) :
    update ctx (data ++ rest) = update (update ctx data) rest :=
  List.foldl_append

@[simp] theorem final_length (ctx : Ctx) : (final ctx).length = 32 := by
  simp [final, State.words, wordBytes]

end Sha256

def sha256 (data : Bytes) : Bytes := Sha256.final (Sha256.update Sha256.init data)

example : hexEncode (sha256 (ascii "abc")) =
    ascii "ba7816bf8f01cfea414140de5dae2223b00361a396177a9cb410ff61f20015ad" := by
  decide +kernel

/-! ### HMAC-SHA256 -/

def hmacSha256 (key msg : Bytes) : Bytes :=
  let key := if key.length > 64 then sha256 key else key
  let keyBlock := key ++ List.replicate (64 - key.length) 0
  let inner := Sha256.update Sha256.init (keyBlock.map (· ^^^ 0x36))
  let outer := Sha256.update Sha256.init (keyBlock.map (· ^^^ 0x5c))
  Sha256.final (Sha256.update outer (Sha256.final (Sha256.update inner msg)))

@[simp] theorem hmacSha256_length (key msg : Bytes) : (hmacSha256 key msg).length = 32 := by
  simp [hmacSha256]

/-! ### The proof of a registration -/

/-- Appends as much of `part` as the message buffer still holds. -/
def appendPart (msg part : Bytes) : Bytes := msg ++ part.take (idMax + 33 - msg.length)

def hashRegisterOnce (pass nonceHex id solutionHex : Bytes) : Bytes :=
  hmacSha256 pass (appendPart (appendPart (appendPart [] nonceHex) id) solutionHex)

/-- The leading zero bits of a byte that is not zero. -/
def leadingZeros : Nat → UInt8 → Nat
  | 0, _ => 0
  | turns + 1, b => if b &&& 0x80 == 0 then 1 + leadingZeros turns (b <<< 1) else 0

def countLeadingZeroBits : Bytes → Nat
  | [] => 0
  | b :: rest => if b == 0 then 8 + countLeadingZeroBits rest else leadingZeros 8 b

def verifyRegisterPow (pass nonceHex id solutionHex proofHex : Bytes) (bits : Int) : Bool :=
  if proofHex.length ≠ 64 then false
  else
    let hash := hashRegisterOnce pass nonceHex id solutionHex
    let diff := (List.zipWith (· ^^^ ·) proofHex (hexEncode hash)).foldl (· ||| ·) 0
    if diff != 0 then false else bits ≤ countLeadingZeroBits hash

theorem appendPart_take (msg part : Bytes) :
    appendPart (msg.take (idMax + 33)) part = (msg ++ part).take (idMax + 33) := by
  rw [appendPart, List.take_append, List.length_take]
  congr 2
  omega

/-- The parts of a message, as far as they fit its buffer. -/
theorem appendParts_eq (nonceHex id solutionHex : Bytes) :
    appendPart (appendPart (appendPart [] nonceHex) id) solutionHex =
      (nonceHex ++ id ++ solutionHex).take (idMax + 33) := by
  have hnonce := appendPart_take [] nonceHex
  rw [List.take_nil, List.nil_append] at hnonce
  rw [hnonce, appendPart_take, appendPart_take]

/-- The message of a proof fits its buffer. -/
theorem hashRegisterOnce_eq {nonceHex id solutionHex : Bytes} (pass : Bytes)
    (h : nonceHex.length + id.length + solutionHex.length ≤ 96) :
    hashRegisterOnce pass nonceHex id solutionHex =
      hmacSha256 pass (nonceHex ++ id ++ solutionHex) := by
  rw [hashRegisterOnce, appendParts_eq, List.take_of_length_le]
  simp only [List.length_append, idMax]
  omega

@[simp] theorem hashRegisterOnce_length (pass nonceHex id solutionHex : Bytes) :
    (hashRegisterOnce pass nonceHex id solutionHex).length = 32 :=
  hmacSha256_length _ _

theorem foldl_or_eq_zero_iff (l : Bytes) (acc : UInt8) :
    l.foldl (· ||| ·) acc = 0 ↔ acc = 0 ∧ ∀ b ∈ l, b = 0 := by
  induction l generalizing acc with
  | nil => simp
  | cons b l ih => simp [ih, and_assoc]

theorem zipWith_xor_zero_iff {l m : Bytes} (h : l.length = m.length) :
    (∀ b ∈ List.zipWith (· ^^^ ·) l m, b = 0) ↔ l = m := by
  induction l generalizing m with
  | nil =>
    cases m with
    | nil => simp
    | cons => simp at h
  | cons a l ih =>
    cases m with
    | nil => simp at h
    | cons b m => simp [ih (m := m) (by simpa using h)]

/-- The comparison that reads every digit accepts exactly the digits of the digest. -/
theorem acceptsDigits_iff {hash : Bytes} (hhash : hash.length = 32) (proofHex : Bytes) (bits : Int) :
    (if proofHex.length ≠ 64 then false
      else if (List.zipWith (· ^^^ ·) proofHex (hexEncode hash)).foldl (· ||| ·) 0 != 0 then false
      else decide (bits ≤ countLeadingZeroBits hash)) = true ↔
      proofHex = hexEncode hash ∧ bits ≤ countLeadingZeroBits hash := by
  have hdigits : (hexEncode hash).length = 64 := by rw [hexEncode_length, hhash]
  by_cases hlen : proofHex.length = 64
  · have hdiff := foldl_or_eq_zero_iff (List.zipWith (· ^^^ ·) proofHex (hexEncode hash)) 0
    rw [zipWith_xor_zero_iff (hlen.trans hdigits.symm)] at hdiff
    simp [hlen, hdiff]
  · have hne : proofHex ≠ hexEncode hash := by
      rintro rfl
      exact hlen hdigits
    simp [hlen, hne]

theorem verifyRegisterPow_iff (pass nonceHex id solutionHex proofHex : Bytes) (bits : Int) :
    verifyRegisterPow pass nonceHex id solutionHex proofHex bits = true ↔
      proofHex = hexEncode (hashRegisterOnce pass nonceHex id solutionHex) ∧
        bits ≤ countLeadingZeroBits (hashRegisterOnce pass nonceHex id solutionHex) :=
  acceptsDigits_iff (hashRegisterOnce_length pass nonceHex id solutionHex) proofHex bits

end Redp2p
