import Redp2p.KcpFlush

/-! When a KCP end has to be updated again: until the time that `ikcp_check` names an update does nothing,
whatever was sent and received in between. -/

namespace Redp2p.Kcp

open ByteString

/-- Whether the clock of an end runs, and when it flushes next. -/
def Ikcpcb.clock (k : Ikcpcb) : Bool × UInt32 := (k.updated, k.tsFlush)

/-! ### Calls that leave the clock alone -/

theorem send_clock (k : Ikcpcb) (buffer : Bytes) : (send k buffer).1.clock = k.clock := by
  unfold send
  obtain ⟨queue, rest, sent⟩ := extendStream k buffer
  dsimp only
  split
  · rfl
  · split <;> rfl

theorem moveReady_clock (buf : List Segment) (k : Ikcpcb) : (moveReady buf k).clock = k.clock := by
  induction buf generalizing k with
  | nil => rfl
  | cons seg buf ih =>
    rw [moveReady]
    split
    · exact ih _
    · rfl

theorem recv_clock (k : Ikcpcb) (cap : Nat) : (recv k cap).1.clock = k.clock := by
  unfold recv
  split
  · rfl
  · split
    · rfl
    · split
      · rfl
      · have hmoved := moveReady_clock k.rcvBuf { k with rcvQueue := (takeMessage k.rcvQueue).2 }
        dsimp only
        split <;> exact hmoved

theorem updateAck_clock (k : Ikcpcb) (rtt : Int32) : (updateAck k rtt).clock = k.clock := by
  unfold updateAck
  split <;> rfl

theorem parseAck_clock (k : Ikcpcb) (sn : UInt32) : (parseAck k sn).clock = k.clock := by
  unfold parseAck
  split <;> rfl

theorem inputAck_clock (run : InputRun) (seg : Segment) : (inputAck run seg).kcp.clock = run.kcp.clock := by
  unfold inputAck
  dsimp only
  split
  · exact (parseAck_clock _ _).trans (updateAck_clock _ _)
  · exact parseAck_clock _ _

theorem inputPush_clock (k : Ikcpcb) (seg : Segment) : (inputPush k seg).clock = k.clock := by
  unfold inputPush parseData
  dsimp only
  split
  · split
    · split
      · rfl
      · exact moveReady_clock _ _
    · rfl
  · rfl

theorem inputSegment_clock (run : InputRun) (seg : Segment) :
    (inputSegment run seg).kcp.clock = run.kcp.clock := by
  unfold inputSegment
  dsimp only
  split
  · exact inputAck_clock _ seg
  · split
    · exact inputPush_clock _ seg
    · split <;> rfl

theorem inputLoop_clock (turns : Nat) (run : InputRun) (data : Bytes) :
    (inputLoop turns run data).1.kcp.clock = run.kcp.clock := by
  induction turns generalizing run data with
  | zero => rfl
  | succ turns ih =>
    rw [inputLoop]
    dsimp only
    split
    · rfl
    · split
      · rfl
      · split
        · rfl
        · split
          · rfl
          · rw [ih, inputSegment_clock]

theorem growCwnd_clock (k : Ikcpcb) : (growCwnd k).clock = k.clock := by
  have hraise : (raiseCwnd k).clock = k.clock := by
    unfold raiseCwnd
    dsimp only
    split <;> rfl
  unfold growCwnd
  split
  · dsimp only
    split <;> exact hraise
  · rfl

theorem inputDone_clock (prevUna : UInt32) (run : InputRun) : (inputDone prevUna run).clock = run.kcp.clock := by
  have hpass : (passAcked run).clock = run.kcp.clock := by
    unfold passAcked parseFastack
    split
    · rfl
    · split <;> rfl
  unfold inputDone
  dsimp only
  split
  · exact (growCwnd_clock _).trans hpass
  · exact hpass

theorem input_clock (k : Ikcpcb) (data : Bytes) : (input k data).1.clock = k.clock := by
  have hloop := inputLoop_clock data.length ⟨k, none⟩ data
  unfold input
  split
  · rfl
  · generalize inputLoop data.length ⟨k, none⟩ data = result at hloop
    obtain ⟨run, code⟩ := result
    dsimp only at hloop ⊢
    split
    · exact (inputDone_clock _ _).trans hloop
    · exact hloop

/-- What an end becomes through calls other than updates. -/
inductive Used (k : Ikcpcb) : Ikcpcb → Prop where
  | refl : Used k k
  | send {k' : Ikcpcb} (before : Used k k') (buffer : Bytes) : Used k (send k' buffer).1
  | input {k' : Ikcpcb} (before : Used k k') (data : Bytes) : Used k (input k' data).1
  | recv {k' : Ikcpcb} (before : Used k k') (cap : Nat) : Used k (recv k' cap).1

theorem Used.clock {k k' : Ikcpcb} (h : Used k k') : k'.clock = k.clock := by
  induction h with
  | refl => rfl
  | send before buffer ih => exact (send_clock _ _).trans ih
  | input before data ih => exact (input_clock _ _).trans ih
  | recv before cap ih => exact (recv_clock _ _).trans ih

/-! ### The time that a check names -/

theorem nextResend_pos {current : UInt32} {buf : List Segment} {least next : Int} (hleast : 0 < least)
    (h : nextResend current buf least = some next) : 0 < next := by
  induction buf generalizing least with
  | nil =>
    rw [nextResend] at h
    cases h
    exact hleast
  | cons seg buf ih =>
    rw [nextResend] at h
    split at h
    · cases h
    · apply ih _ h
      split <;> omega

/-- The time that a check names is at most an interval ahead, and not after the next flush. -/
theorem check_ahead {k : Ikcpcb} (hupdated : k.updated = true) (current : UInt32) :
    (check k current - current).toNat ≤ k.interval.toNat ∧
      ((check k current - current).toNat = 0 ∨
        -10000 ≤ itimediff current k.tsFlush ∧ itimediff current k.tsFlush < 0 ∧
          (check k current - current).toNat ≤ (k.tsFlush - current).toNat) := by
  have hnow : current - current = 0 := by grind
  have hsame : itimediff current current = 0 := by
    rw [itimediff, SerialNumber.diff, hnow]
    rfl
  unfold check
  rw [if_neg (by simp [hupdated])]
  dsimp only
  by_cases hjump : 10000 ≤ itimediff current k.tsFlush ∨ itimediff current k.tsFlush < -10000
  · rw [if_pos hjump, hsame, if_pos (by omega), hnow]
    exact ⟨Nat.zero_le _, .inl rfl⟩
  · rw [if_neg hjump]
    by_cases hdue : 0 ≤ itimediff current k.tsFlush
    · rw [if_pos hdue, hnow]
      exact ⟨Nat.zero_le _, .inl rfl⟩
    · rw [if_neg hdue]
      cases hnext : nextResend current k.sndBuf 0x7fffffff with
      | none =>
        dsimp only
        rw [hnow]
        exact ⟨Nat.zero_le _, .inl rfl⟩
      | some tmPacket =>
        have hpacket : 0 < tmPacket := nextResend_pos (by decide) hnext
        have hflush : ((k.tsFlush - current).toNat : Int) = -itimediff current k.tsFlush :=
          SerialNumber.toNat_sub_of_diff_neg (show itimediff current k.tsFlush < 0 by omega)
            (show -2 ^ 31 < itimediff current k.tsFlush by omega)
        have hahead : itimediff k.tsFlush current = (k.tsFlush - current).toNat := by
          have hdiff := SerialNumber.diff_offset current (show (k.tsFlush - current).toNat < 2 ^ 31 by omega)
            (show (current - current).toNat < 2 ^ 31 by rw [hnow]; decide)
          rw [hnow] at hdiff
          simpa [itimediff] using hdiff
        dsimp only
        generalize hleast : (if tmPacket < itimediff k.tsFlush current then tmPacket
          else itimediff k.tsFlush current) = least
        have hbounds : 0 < least ∧ least ≤ (k.tsFlush - current).toNat := by
          rw [← hleast]
          split <;> omega
        have hlt := (k.tsFlush - current).toNat_lt
        have hword : (UInt32.ofInt least).toNat = least.toNat :=
          SerialNumber.toNat_ofInt (by omega) (by omega)
        have hcancel : ∀ wait : UInt32, current + wait - current = wait := by
          intro wait
          grind
        rw [hcancel]
        split
        · rename_i hle
          have hle := UInt32.le_iff_toNat_le.mp hle
          exact ⟨Nat.le_refl _, .inr ⟨by omega, by omega, by omega⟩⟩
        · rename_i hlt
          have hlt := UInt32.lt_iff_toNat_lt.mp (UInt32.not_le.mp hlt)
          exact ⟨by omega, .inr ⟨by omega, by omega, by omega⟩⟩

/-- A check is kept: until the time that it names, which is at most an interval ahead, an update sends
nothing and changes nothing but the time, whatever the end has sent and received since the check. -/
theorem early_update_idle {k k' : Ikcpcb} {current time : UInt32} (hused : Used k k')
    (hearly : (time - current).toNat < (check k current - current).toNat) :
    (time - current).toNat < k.interval.toNat ∧ update k' time = ({ k' with current := time }, []) := by
  have hupdated : k.updated = true := by
    by_contra hnot
    rw [check, if_pos (by simp [hnot])] at hearly
    simp at hearly
  obtain ⟨hinterval, hzero | ⟨hlow, hneg, hahead⟩⟩ := check_ahead hupdated current
  · omega
  · have hclock := hused.clock
    have hupdated' : k'.updated = true := (congrArg Prod.fst hclock).trans hupdated
    have hflush : k'.tsFlush = k.tsFlush := congrArg Prod.snd hclock
    have hdistance : ((k.tsFlush - current).toNat : Int) = -itimediff current k.tsFlush :=
      SerialNumber.toNat_sub_of_diff_neg hneg (show -2 ^ 31 < itimediff current k.tsFlush by omega)
    have hslap : itimediff time k'.tsFlush = ((time - current).toNat : Int) - (k.tsFlush - current).toNat := by
      rw [hflush]
      exact SerialNumber.diff_offset current (by omega) (by omega)
    have hstart : startClock k' time = { k' with current := time } := by
      unfold startClock
      rw [if_pos hupdated']
    refine ⟨by omega, ?_⟩
    unfold update
    rw [hstart]
    dsimp only
    rw [hslap, if_neg (by omega), if_neg (by omega)]

/-- Bytes that are sent after a flush wait for the next one. -/
theorem early_update_idle_sample : (update (send (update (create 7) 1000).1 [1, 2, 3]).1 1042).2 = [] := by
  have hearly : ((1042 : UInt32) - 1000).toNat < (check (update (create 7) 1000).1 1000 - 1000).toNat := by
    decide
  have hidle := early_update_idle (.send .refl [1, 2, 3]) hearly
  exact congrArg Prod.snd hidle.2

end Redp2p.Kcp
