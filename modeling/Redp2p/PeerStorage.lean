import Redp2p.Peers

/-! The growth of the publisher table in words of the machine: it ends, no product wraps, and the table
stays within its limit. -/

namespace Redp2p

open Context

variable {w : Nat}

/-! ### Sizes as words -/

/-- What must not happen while the table grows: a product that wraps, or a loop that takes more turns than a
word has bits. -/
inductive StorageFault where
  | wraps | endless
  deriving DecidableEq

/-- A product of two sizes. -/
def checkedMul (a b : BitVec w) : Except StorageFault (BitVec w) :=
  if a.toNat * b.toNat < 2 ^ w then .ok (a * b) else .error .wraps

/-- The doubling loop of `redp2p_ensure_peer_storage`. -/
def growStorage (limit need : BitVec w) : Nat → BitVec w → Except StorageFault (BitVec w)
  | 0, cap => if cap < need then .error .endless else .ok cap
  | turns + 1, cap =>
    if cap < need then do
      let cap ← if cap > limit / 2 then pure limit else checkedMul cap 2
      growStorage limit need turns cap
    else .ok cap

/-- The limit of the table: the seats, or as many records of a size as a word can count the bytes of. -/
def storageWords (size : BitVec w) (seats : Option (BitVec w)) : BitVec w :=
  match seats with
  | some seats => seats
  | none => BitVec.allOnes w / size

/-- `redp2p_ensure_peer_storage` for a `size_t` of `w` bits and records of a size: the allocation it leaves
and its status. -/
def ensureStorage (size : BitVec w) (seats : Option (BitVec w)) (alloc need : BitVec w) (reallocOk : Bool) :
    Except StorageFault (BitVec w × Status) :=
  let limit := storageWords size seats
  if need > limit then .ok (alloc, .efull)
  else if need ≤ alloc then .ok (alloc, .ok)
  else do
    let cap := if alloc > 0 then alloc else 8
    let cap ← growStorage limit need w (if cap > limit then limit else cap)
    if cap > BitVec.allOnes w / size then return (alloc, .error)
    let _bytes ← checkedMul cap size
    if reallocOk then return (cap, .ok) else return (alloc, .error)

/-! ### The loop -/

theorem checkedMul_ok {a b : BitVec w} (h : a.toNat * b.toNat < 2 ^ w) :
    checkedMul a b = .ok (a * b) ∧ (a * b).toNat = a.toNat * b.toNat := by
  refine ⟨if_pos h, ?_⟩
  rw [BitVec.toNat_mul, Nat.mod_eq_of_lt h]

theorem word_toNat {n : Nat} (hw : 16 ≤ w) (hn : n < 2 ^ 16) : (BitVec.ofNat w n).toNat = n := by
  have hwide : 2 ^ 16 ≤ 2 ^ w := Nat.pow_le_pow_right (by decide) hw
  rw [BitVec.toNat_ofNat, Nat.mod_eq_of_lt (by omega)]

theorem growCap_le {limit need turns cap : Nat} (hcap : cap ≤ limit) : growCap limit need turns cap ≤ limit := by
  induction turns generalizing cap with
  | zero => exact hcap
  | succ turns ih =>
    unfold growCap
    split
    · refine ih ?_
      split <;> omega
    · exact hcap

/-- The loop ends with the capacity that it reaches on numbers. A capacity below its limit is doubled in
every turn but the last, and what is doubled is at most half of the limit. -/
theorem growStorage_ok (hw : 16 ≤ w) {limit need : BitVec w} (hneed : need ≤ limit) (turns : Nat)
    {cap : BitVec w} (hcap : cap ≤ limit) (hturns : need.toNat ≤ cap.toNat * 2 ^ turns) :
    ∃ reached, growStorage limit need turns cap = .ok reached ∧
      reached.toNat = growCap limit.toNat need.toNat turns cap.toNat := by
  induction turns generalizing cap with
  | zero =>
    have hdone : ¬ cap < need := by
      rw [BitVec.lt_def]
      omega
    exact ⟨cap, if_neg hdone, rfl⟩
  | succ turns ih =>
    have htwo : (2 : BitVec w).toNat = 2 := word_toNat hw (by decide)
    have hhalf : (limit / 2).toNat = limit.toNat / 2 := by rw [BitVec.toNat_udiv, htwo]
    unfold growStorage growCap
    by_cases hless : cap < need
    · have hnat : cap.toNat < need.toNat := BitVec.lt_def.mp hless
      rw [if_pos hless, if_pos hnat]
      by_cases hlast : cap > limit / 2
      · have hlastNat : cap.toNat > limit.toNat / 2 := by
          rwa [gt_iff_lt, BitVec.lt_def, hhalf] at hlast
        rw [if_pos hlast, if_pos hlastNat]
        refine ih (BitVec.le_refl limit) ?_
        exact Nat.le_trans (BitVec.le_def.mp hneed) (Nat.le_mul_of_pos_right _ (Nat.two_pow_pos turns))
      · have hlastNat : ¬ cap.toNat > limit.toNat / 2 := by
          rwa [gt_iff_lt, BitVec.lt_def, hhalf] at hlast
        have hlimit := limit.isLt
        obtain ⟨hmul, hmulNat⟩ := checkedMul_ok (a := cap) (b := 2) (by rw [htwo]; omega)
        rw [htwo] at hmulNat
        rw [if_neg hlast, if_neg hlastNat, hmul, ← hmulNat]
        refine ih ?_ ?_
        · rw [BitVec.le_def, hmulNat]
          omega
        · rwa [hmulNat, Nat.mul_assoc, ← Nat.pow_succ']
    · have hnat : ¬ cap.toNat < need.toNat := by rwa [BitVec.lt_def] at hless
      rw [if_neg hless, if_neg hnat]
      exact ⟨cap, rfl, rfl⟩

/-! ### Bounds -/

/-- The capacity that a table takes for a request that it has no room for. -/
theorem growStorage_start (hw : 16 ≤ w) {limit need alloc : BitVec w} (hneed : need ≤ limit) (hfull : alloc < need) :
    let cap := if alloc > 0 then alloc else 8
    ∃ reached, growStorage limit need w (if cap > limit then limit else cap) = .ok reached ∧
      need ≤ reached ∧ reached ≤ limit ∧
      reached.toNat = growCap limit.toNat need.toNat w
        (min (if alloc.toNat > 0 then alloc.toNat else 8) limit.toNat) := by
  have height : (8 : BitVec w).toNat = 8 := word_toNat hw (by decide)
  have hzero : (0 : BitVec w).toNat = 0 := BitVec.toNat_zero
  rw [BitVec.le_def] at hneed
  rw [BitVec.lt_def] at hfull
  intro cap
  have hcap : cap.toNat = if alloc.toNat > 0 then alloc.toNat else 8 := by
    simp only [cap, gt_iff_lt, BitVec.lt_def, hzero]
    split
    · rfl
    · exact height
  have hpos : 0 < cap.toNat := by
    rw [hcap]
    split <;> omega
  generalize hstart : (if cap > limit then limit else cap) = start
  have hstartNat : start.toNat = min cap.toNat limit.toNat := by
    rw [← hstart]
    simp only [gt_iff_lt, BitVec.lt_def]
    split <;> omega
  have hturns : need.toNat ≤ start.toNat * 2 ^ w := by
    have hlt := need.isLt
    have hone := Nat.mul_le_mul_right (2 ^ w) (show 1 ≤ start.toNat by omega)
    omega
  have hbelow : start ≤ limit := by
    rw [BitVec.le_def]
    omega
  obtain ⟨reached, hgrow, hreached⟩ := growStorage_ok hw (show need ≤ limit by rwa [BitVec.le_def]) w hbelow hturns
  refine ⟨reached, hgrow, ?_, ?_, ?_⟩
  · rw [BitVec.le_def, hreached]
    exact growCap_ge hneed w _ hturns
  · rw [BitVec.le_def, hreached]
    exact growCap_le (by omega)
  · rw [hreached, hstartNat, hcap]

/-- The table grows without a product that wraps and without a loop that goes on. A request that succeeds has
its room, the table never grows past its limit, and it is full exactly when the request exceeds the limit. -/
theorem peer_storage_bounded (hw : 16 ≤ w) (size : BitVec w) (seats : Option (BitVec w)) (alloc need : BitVec w)
    (reallocOk : Bool) :
    ∃ alloc' status, ensureStorage size seats alloc need reallocOk = .ok (alloc', status) ∧
      (status = .ok → need ≤ alloc') ∧
      (alloc' = alloc ∨ (alloc < alloc' ∧ alloc' ≤ storageWords size seats)) ∧
      (status = .efull ↔ storageWords size seats < need) := by
  unfold ensureStorage
  dsimp only
  by_cases hlimit : need > storageWords size seats
  · rw [if_pos hlimit]
    exact ⟨alloc, .efull, rfl, nofun, Or.inl rfl, iff_of_true rfl hlimit⟩
  rw [if_neg hlimit]
  have hnotfull : ∀ status : Status, status ≠ .efull → (status = .efull ↔ storageWords size seats < need) :=
    fun status hne => iff_of_false hne hlimit
  by_cases hroom : need ≤ alloc
  · rw [if_pos hroom]
    exact ⟨alloc, .ok, rfl, fun _ => hroom, Or.inl rfl, hnotfull _ nofun⟩
  rw [if_neg hroom]
  have hfull : alloc < need := BitVec.not_le.mp hroom
  obtain ⟨reached, hgrow, hneed, hmax, -⟩ := growStorage_start hw (BitVec.not_lt.mp hlimit) hfull
  rw [hgrow]
  by_cases hbytes : reached > BitVec.allOnes w / size
  · refine ⟨alloc, .error, ?_, nofun, Or.inl rfl, hnotfull _ nofun⟩
    simp only [bind, Except.bind, if_pos hbytes, pure, Except.pure]
  -- The bytes of the table are at most the quotient times the size of a record.
  have hproduct : reached.toNat * size.toNat < 2 ^ w := by
    have hle := BitVec.le_def.mp (BitVec.not_lt.mp hbytes)
    rw [BitVec.toNat_udiv, BitVec.toNat_allOnes] at hle
    have hquotient := Nat.mul_le_mul_right size.toNat hle
    have hdiv := Nat.div_mul_le_self (2 ^ w - 1) size.toNat
    have hword := Nat.two_pow_pos w
    omega
  have hmul := (checkedMul_ok hproduct).1
  cases reallocOk with
  | false =>
    refine ⟨alloc, .error, ?_, nofun, Or.inl rfl, hnotfull _ nofun⟩
    simp [bind, Except.bind, hmul, pure, Except.pure]
  | true =>
    refine ⟨reached, .ok, ?_, fun _ => hneed, Or.inr ⟨?_, hmax⟩, hnotfull _ nofun⟩
    · simp [bind, Except.bind, if_neg hbytes, hmul, pure, Except.pure]
    · rw [BitVec.lt_def] at hfull ⊢
      rw [BitVec.le_def] at hneed
      omega

/-- The words do what `redp2p_ensure_peer_storage` does on numbers, in a context whose sizes are words. -/
theorem ensurePeerStorage_words {ctx : Context} {need : Nat} (halloc : ctx.peersAlloc < 2 ^ 64)
    (hseats : ctx.nPeersCap < 2 ^ 64) (hneed : need < 2 ^ 64) (reallocOk : Bool) :
    ensureStorage (BitVec.ofNat 64 peerSize)
        (if ctx.seatsSet then some (BitVec.ofNat 64 ctx.nPeersCap) else none)
        (BitVec.ofNat 64 ctx.peersAlloc) (BitVec.ofNat 64 need) reallocOk =
      .ok (BitVec.ofNat 64 (ctx.ensurePeerStorage reallocOk need).1.peersAlloc,
        (ctx.ensurePeerStorage reallocOk need).2) := by
  have hnat : ∀ {n : Nat}, n < 2 ^ 64 → (BitVec.ofNat 64 n).toNat = n := fun h => by
    rw [BitVec.toNat_ofNat, Nat.mod_eq_of_lt h]
  have hquotient : (BitVec.allOnes 64 / BitVec.ofNat 64 peerSize).toNat = sizeMax / peerSize := by decide +kernel
  have hlimit : (storageWords (BitVec.ofNat 64 peerSize)
      (if ctx.seatsSet then some (BitVec.ofNat 64 ctx.nPeersCap) else none)).toNat = ctx.storageLimit := by
    unfold storageWords storageLimit
    cases ctx.seatsSet
    · simp only [Bool.false_eq_true, if_false, hquotient]
    · simp only [if_true, hnat hseats]
  unfold ensureStorage ensurePeerStorage
  dsimp only
  by_cases hfull : need > ctx.storageLimit
  · rw [if_pos (by rwa [gt_iff_lt, BitVec.lt_def, hlimit, hnat hneed]), if_pos hfull]
  rw [if_neg (by rwa [gt_iff_lt, BitVec.lt_def, hlimit, hnat hneed]), if_neg hfull]
  by_cases hroom : need ≤ ctx.peersAlloc
  · rw [if_pos (by rwa [BitVec.le_def, hnat hneed, hnat halloc]), if_pos hroom]
  rw [if_neg (by rwa [BitVec.le_def, hnat hneed, hnat halloc]), if_neg hroom]
  have hfits : BitVec.ofNat 64 need ≤ storageWords (BitVec.ofNat 64 peerSize)
      (if ctx.seatsSet then some (BitVec.ofNat 64 ctx.nPeersCap) else none) := by
    rw [BitVec.le_def, hlimit, hnat hneed]
    omega
  have hgrows : BitVec.ofNat 64 ctx.peersAlloc < BitVec.ofNat 64 need := by
    rw [BitVec.lt_def, hnat hneed, hnat halloc]
    omega
  obtain ⟨reached, hgrow, -, -, hreached⟩ := growStorage_start (by decide) hfits hgrows
  rw [hlimit, hnat hneed, hnat halloc] at hreached
  have hcap : reached.toNat = ctx.storageCap need := by
    rw [storageCap, hreached]
  rw [hgrow]
  by_cases hbytes : ctx.storageCap need > sizeMax / peerSize
  · have hword : reached > BitVec.allOnes 64 / BitVec.ofNat 64 peerSize := by
      rwa [gt_iff_lt, BitVec.lt_def, hquotient, hcap]
    simp only [bind, Except.bind, pure, Except.pure, if_pos hbytes, if_pos hword]
  · have hword : ¬ reached > BitVec.allOnes 64 / BitVec.ofNat 64 peerSize := by
      rwa [gt_iff_lt, BitVec.lt_def, hquotient, hcap]
    have hsize : (BitVec.ofNat 64 peerSize).toNat = peerSize := by decide
    have hproduct : reached.toNat * (BitVec.ofNat 64 peerSize).toNat < 2 ^ 64 := by
      have hle := Nat.mul_le_mul_right peerSize (Nat.not_lt.mp hbytes)
      have hmax : sizeMax / peerSize * peerSize < 2 ^ 64 := by decide
      rw [hsize, hcap]
      omega
    have hmul := (checkedMul_ok hproduct).1
    have hback : reached = BitVec.ofNat 64 (ctx.storageCap need) := by
      rw [← hcap, BitVec.ofNat_toNat, BitVec.setWidth_eq]
    simp only [bind, Except.bind, pure, Except.pure, if_neg hbytes, if_neg hword, hmul]
    cases reallocOk
    · simp only [Bool.false_eq_true, if_false]
    · simp only [if_true, hback]

/-- Five records where two are allocated and six are allowed. -/
theorem peer_storage_sample :
    ∃ alloc' status, ensureStorage (608 : BitVec 64) (some 6) 2 5 true = .ok (alloc', status) ∧
      (status = .ok → (5 : BitVec 64) ≤ alloc') ∧
      (alloc' = 2 ∨ ((2 : BitVec 64) < alloc' ∧ alloc' ≤ storageWords 608 (some 6))) ∧
      (status = .efull ↔ storageWords 608 (some 6) < (5 : BitVec 64)) :=
  peer_storage_bounded (by decide) 608 (some 6) 2 5 true

end Redp2p
