import Redp2p.KcpDelivery

/-! What uses the numbers of a KCP end: only an update does, one for each segment that waits, and a stream
queues at most one segment for each byte. -/

namespace Redp2p.Kcp

open ByteString ByteChannel

theorem inputSegment_numbers (run : InputRun) (seg : Segment) :
    (inputSegment run seg).kcp.sndNxt = run.kcp.sndNxt ∧
      (inputSegment run seg).kcp.sndQueue = run.kcp.sndQueue := by
  unfold inputSegment
  dsimp only
  split
  · have hthin : Thinned (fun _ => True) (inputUna run.kcp seg.wnd seg.una)
        (inputAck { run with kcp := inputUna run.kcp seg.wnd seg.una } seg).kcp :=
      inputAck_thinned { run with kcp := inputUna run.kcp seg.wnd seg.una } seg trivial
    exact ⟨hthin.nxt, hthin.queue⟩
  · split
    · have hkept := (inputPush_kept (inputUna run.kcp seg.wnd seg.una) seg).sendSide
      exact ⟨congrArg SendSide.nxt hkept, congrArg SendSide.queue hkept⟩
    · split <;> exact ⟨rfl, rfl⟩

theorem inputLoop_numbers (turns : Nat) (run : InputRun) (data : Bytes) :
    (inputLoop turns run data).1.kcp.sndNxt = run.kcp.sndNxt ∧
      (inputLoop turns run data).1.kcp.sndQueue = run.kcp.sndQueue := by
  induction turns generalizing run data with
  | zero => exact ⟨rfl, rfl⟩
  | succ turns ih =>
    rw [inputLoop]
    split
    · exact ⟨rfl, rfl⟩
    · dsimp only
      split
      · exact ⟨rfl, rfl⟩
      · split
        · exact ⟨rfl, rfl⟩
        · split
          · exact ⟨rfl, rfl⟩
          · obtain ⟨hnxt, hqueue⟩ := inputSegment_numbers run
              ((decodeHeader data).segment ((data.drop overhead).take (decodeHeader data).len.toNat))
            obtain ⟨hnxt', hqueue'⟩ := ih (inputSegment run
              ((decodeHeader data).segment ((data.drop overhead).take (decodeHeader data).len.toNat)))
              ((data.drop overhead).drop (decodeHeader data).len.toNat)
            exact ⟨hnxt'.trans hnxt, hqueue'.trans hqueue⟩

/-- No datagram uses a number. -/
theorem input_numbers (k : Ikcpcb) (data : Bytes) :
    (input k data).1.sndNxt = k.sndNxt ∧ (input k data).1.sndQueue = k.sndQueue := by
  obtain ⟨hnxt, hqueue⟩ := inputLoop_numbers data.length ⟨k, none⟩ data
  have hdone : Thinned (fun _ => True) (inputLoop data.length ⟨k, none⟩ data).1.kcp
      (inputDone k.sndUna (inputLoop data.length ⟨k, none⟩ data).1) := inputDone_thinned _ _ _
  unfold input
  split
  · exact ⟨rfl, rfl⟩
  · dsimp only
    split
    · exact ⟨hdone.nxt.trans hnxt, hdone.queue.trans hqueue⟩
    · exact ⟨hnxt, hqueue⟩

theorem fillWindow_numbers (wnd cwnd : UInt32) (queue : List Segment) (k : Ikcpcb) :
    (fillWindow wnd cwnd queue k).sndNxt.toNat + (fillWindow wnd cwnd queue k).sndQueue.length ≤
      k.sndNxt.toNat + queue.length := by
  induction queue generalizing k with
  | nil => exact Nat.le_refl _
  | cons seg queue ih =>
    rw [fillWindow]
    split
    · have hrest := ih { k with sndBuf := k.sndBuf ++ [numberSegment k wnd seg], sndNxt := k.sndNxt + 1 }
      have hnext : (k.sndNxt + 1).toNat ≤ k.sndNxt.toNat + 1 := by
        rw [UInt32.toNat_add]
        exact Nat.mod_le _ _
      dsimp only at hrest
      rw [List.length_cons]
      omega
    · exact Nat.le_refl _

/-- An update gives numbers only to what waits. -/
theorem update_numbers (k : Ikcpcb) (current : UInt32) :
    (update k current).1.sndNxt.toNat + (update k current).1.sndQueue.length ≤
      k.sndNxt.toNat + k.sndQueue.length := by
  have hsame : ∀ {k k' : Ikcpcb}, Kept k k' → k'.sndNxt = k.sndNxt ∧ k'.sndQueue = k.sndQueue :=
    fun hkept => ⟨congrArg SendSide.nxt hkept.sendSide, congrArg SendSide.queue hkept.sendSide⟩
  have hflush : ∀ k, (flush k).1.sndNxt.toNat + (flush k).1.sndQueue.length ≤
      k.sndNxt.toNat + k.sndQueue.length := by
    intro k
    unfold flush
    split
    · exact Nat.le_refl _
    · have hnxt : (flushControl k).1.sndNxt = k.sndNxt := (hsame (flushControl_kept k)).1
      have hqueue : (flushControl k).1.sndQueue = k.sndQueue := (hsame (flushControl_kept k)).2
      have hfill : (flushFill (flushControl k).1).sndNxt.toNat + (flushFill (flushControl k).1).sndQueue.length ≤
          (flushControl k).1.sndNxt.toNat + (flushControl k).1.sndQueue.length := fillWindow_numbers _ _ _ _
      obtain ⟨hnxt', hqueue'⟩ := hsame (settleCwnd_kept k.cwnd
        (flushData (flushFill (flushControl k).1) (flushControl k).2).2
        (flushData (flushFill (flushControl k).1) (flushControl k).2).1)
      rw [hnxt, hqueue] at hfill
      dsimp only
      rw [hnxt', hqueue']
      exact hfill
  obtain ⟨k', hkept, hstill | hflushed⟩ := update_cases k current
  · rw [hstill, (hsame hkept).1, (hsame hkept).2]
  · rw [hflushed, ← (hsame hkept).1, ← (hsame hkept).2]
    exact hflush k'

theorem extendLast_length (mss : Nat) (queue : List Segment) (buffer : Bytes) :
    (extendLast mss queue buffer).1.length = queue.length ∧
      (extendLast mss queue buffer).2.1.length ≤ buffer.length := by
  unfold extendLast
  split
  · exact ⟨rfl, Nat.le_refl _⟩
  · rename_i old hlast
    split
    · have hne : queue ≠ [] := by
        rintro rfl
        simp at hlast
      have hpos := List.length_pos_iff.mpr hne
      simp only [List.length_append, List.length_dropLast, List.length_cons, List.length_nil, List.length_drop]
      omega
    · exact ⟨rfl, Nat.le_refl _⟩

theorem fragments_length (stream : Bool) (mss count : Nat) (buffer : Bytes) :
    (fragments stream mss count buffer).length = count := by
  induction count generalizing buffer with
  | zero => rfl
  | succ count ih =>
    rw [fragments, List.length_cons, ih]

theorem fragmentCount_le {mss : Nat} {buffer : Bytes} (h : buffer.length ≠ 0) :
    fragmentCount mss buffer ≤ buffer.length := by
  unfold fragmentCount
  split
  · omega
  · rcases Nat.eq_zero_or_pos mss with rfl | hmss
    · simp
    · obtain ⟨length, hlength⟩ := Nat.exists_eq_succ_of_ne_zero h
      have hle : length ≤ mss * length := Nat.le_mul_of_pos_left length hmss
      refine Nat.div_le_of_le_mul ?_
      rw [hlength, Nat.succ_eq_add_one, Nat.mul_succ]
      omega

/-- A stream queues at most one segment for each byte. -/
theorem send_queued {k : Ikcpcb} (hstream : k.stream = true) (buffer : Bytes) :
    (send k buffer).1.sndQueue.length ≤ k.sndQueue.length + buffer.length := by
  obtain ⟨hqueue, hrest⟩ := extendLast_length k.mss.toNat k.sndQueue buffer
  unfold send extendStream
  rw [hstream, if_pos rfl]
  generalize extendLast k.mss.toNat k.sndQueue buffer = extended at hqueue hrest
  obtain ⟨queue, rest, sent⟩ := extended
  dsimp only at hqueue hrest ⊢
  split
  · dsimp only
    omega
  · rename_i hsome
    split
    · dsimp only
      omega
    · have hcount : fragmentCount k.mss.toNat rest ≤ rest.length := fragmentCount_le (by simpa using hsome)
      dsimp only
      rw [List.length_append, fragments_length]
      omega

theorem send_nxt (k : Ikcpcb) (buffer : Bytes) : (send k buffer).1.sndNxt = k.sndNxt := by
  unfold send
  dsimp only
  split
  · rfl
  · split <;> rfl

/-- Only an update numbers segments. -/
theorem confined : Confined Roomy ops where
  create conv := by
    have hnxt : (ops.create conv).sndNxt = 0 := rfl
    rw [Roomy, hnxt]
    decide
  send {k} hroomy data := by
    have hnxt : (ops.send k data).1.sndNxt = k.sndNxt := send_nxt k data
    rwa [Roomy, hnxt]
  input {k} hroomy datagram := by
    have hnxt : (ops.input k datagram).1.sndNxt = k.sndNxt := (input_numbers k datagram).1
    rwa [Roomy, hnxt]
  recv {k} hroomy cap := by
    have hnxt : (ops.recv k cap).1.sndNxt = k.sndNxt := congrArg SendSide.nxt (recv_kept k cap).1.sendSide
    rwa [Roomy, hnxt]

end Redp2p.Kcp
