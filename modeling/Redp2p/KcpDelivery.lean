import Redp2p.KcpBounds

/-! KCP delivers: over a network that loses, repeats, delays and reorders datagrams, an end hands out
the bytes of the other in order, and what is no longer waited for has arrived. The serial numbers of a
run stay below half of the number space, less a window. -/

namespace Redp2p.Kcp

open ByteString ByteChannel

/-- An end has numbers left: the window after the next number stays below half of the number space. -/
def Roomy (k : Ikcpcb) : Prop := k.sndNxt.toNat + 128 ≤ 2 ^ 31

instance : DecidablePred Roomy := fun k => inferInstanceAs (Decidable (k.sndNxt.toNat + 128 ≤ 2 ^ 31))

/-! ### Receiving -/

/-- A number was received: it is below the next one, or buffered. -/
def Got (r : RecvSide) (n : Nat) : Prop := n < r.nxt.toNat ∨ ∃ seg ∈ r.buf, seg.sn.toNat = n

/-- The receiving side only gains. -/
structure Gains (r r' : RecvSide) : Prop where
  nxt : r.nxt.toNat ≤ r'.nxt.toNat
  got : ∀ n, Got r n → Got r' n

theorem Gains.refl (r : RecvSide) : Gains r r := ⟨Nat.le_refl _, fun _ h => h⟩

theorem Gains.trans {r r' r'' : RecvSide} (h : Gains r r') (h' : Gains r' r'') : Gains r r'' :=
  ⟨h.nxt.trans h'.nxt, fun n hn => h'.got n (h.got n hn)⟩

/-- A received segment carries the bytes that were numbered so, in one piece. -/
def Arrived (log : List Bytes) (seg : Segment) : Prop := seg.frg = 0 ∧ log[seg.sn.toNat]? = some seg.data

/-- Of the numbered chunks, those below the next number were handed out or wait in the queue, and
those in the buffer arrived as they are. -/
structure Receives (log : List Bytes) (r : RecvSide) (handed : Bytes) : Prop where
  nxt : r.nxt.toNat ≤ log.length
  taken : handed ++ r.queue.flatMap (·.data) = (log.take r.nxt.toNat).flatten
  whole : ∀ seg ∈ r.queue, seg.frg = 0
  buf : ∀ seg ∈ r.buf, Arrived log seg

/-- The first buffered segment is out of order, unless the queue is full. -/
def Blocked (r : RecvSide) : Prop := ∀ seg ∈ r.buf.head?, seg.sn = r.nxt → 128 ≤ r.queue.length

theorem chunk_append {log : List Bytes} {n : Nat} {data : Bytes} (h : log[n]? = some data)
    (more : List Bytes) : (log ++ more)[n]? = some data := by
  rw [List.getElem?_append_left (List.getElem?_eq_some_iff.mp h).1, h]

theorem Receives.mono {log : List Bytes} {r : RecvSide} {handed : Bytes} (h : Receives log r handed)
    (more : List Bytes) : Receives (log ++ more) r handed where
  nxt := by
    have hnxt := h.nxt
    rw [List.length_append]
    omega
  taken := by rw [List.take_append_of_le_length h.nxt, h.taken]
  whole := h.whole
  buf seg hseg := ⟨(h.buf seg hseg).1, chunk_append (h.buf seg hseg).2 more⟩

theorem flatten_take_succ {log : List Bytes} {n : Nat} {data : Bytes} (h : log[n]? = some data) :
    (log.take (n + 1)).flatten = (log.take n).flatten ++ data := by
  rw [List.take_add_one, h, List.flatten_append]
  simp

/-- Moving what is in order from the buffer to the queue loses nothing. -/
theorem moveReady_receives {log : List Bytes} {handed : Bytes} {buf : List Segment} {k : Ikcpcb}
    (hlog : log.length < 2 ^ 32) (hwnd : k.rcvWnd = 128) (h : Receives log ⟨k.rcvNxt, k.rcvQueue, buf⟩ handed) :
    Receives log (moveReady buf k).recvSide handed ∧ Blocked (moveReady buf k).recvSide ∧
      Gains ⟨k.rcvNxt, k.rcvQueue, buf⟩ (moveReady buf k).recvSide := by
  induction buf generalizing k with
  | nil => exact ⟨h, fun seg hseg => (by cases hseg), .refl _⟩
  | cons seg buf ih =>
    rw [moveReady]
    split
    · rename_i hnext
      obtain ⟨hsn, hroom⟩ := hnext
      have hseg := h.buf seg (by simp)
      have hchunk : log[k.rcvNxt.toNat]? = some seg.data := hsn ▸ hseg.2
      have hlt : k.rcvNxt.toNat < log.length := (List.getElem?_eq_some_iff.mp hchunk).1
      have hsucc : (k.rcvNxt + 1).toNat = k.rcvNxt.toNat + 1 := by
        rw [UInt32.toNat_add]
        exact Nat.mod_eq_of_lt (by simp only [UInt32.reduceToNat]; omega)
      have hstep : Receives log ⟨k.rcvNxt + 1, k.rcvQueue ++ [seg], buf⟩ handed := by
        refine ⟨by rw [hsucc]; exact hlt, ?_, ?_, fun s hs => h.buf s (List.mem_cons_of_mem _ hs)⟩
        · have htaken := h.taken
          dsimp only at htaken ⊢
          rw [hsucc, flatten_take_succ hchunk, List.flatMap_append, ← List.append_assoc, htaken]
          simp
        · intro s hs
          rcases List.mem_append.mp hs with hs | hs
          · exact h.whole s hs
          · rw [List.mem_singleton.mp hs]
            exact hseg.1
      have hgains : Gains ⟨k.rcvNxt, k.rcvQueue, seg :: buf⟩ ⟨k.rcvNxt + 1, k.rcvQueue ++ [seg], buf⟩ := by
        refine ⟨by rw [hsucc]; exact Nat.le_succ _, ?_⟩
        rintro n (hn | ⟨s, hs, rfl⟩)
        · exact .inl (by rw [hsucc]; exact Nat.lt_succ_of_lt hn)
        · rcases List.mem_cons.mp hs with rfl | hs
          · exact .inl (by rw [hsucc, hsn]; exact Nat.lt_succ_self _)
          · exact .inr ⟨s, hs, rfl⟩
      obtain ⟨hreceives, hblocked, hmore⟩ := ih (k := { k with
        rcvQueue := k.rcvQueue ++ [seg], rcvNxt := k.rcvNxt + 1 }) hwnd hstep
      exact ⟨hreceives, hblocked, hgains.trans hmore⟩
    · rename_i hstop
      refine ⟨h, ?_, .refl _⟩
      intro s hs hsn
      obtain rfl : seg = s := by simpa [Ikcpcb.recvSide] using hs
      rw [not_and, hwnd] at hstop
      exact Nat.not_lt.mp (hstop hsn)

theorem insertSegment_has (new : Segment) (buf : List Segment) :
    (∃ seg ∈ insertSegment new buf, seg.sn = new.sn) ∧ ∀ seg ∈ buf, seg ∈ insertSegment new buf := by
  induction buf with
  | nil => exact ⟨⟨new, by simp [insertSegment], rfl⟩, by simp⟩
  | cons first buf ih =>
    rw [insertSegment]
    split
    · rename_i hsame
      exact ⟨⟨first, by simp, hsame⟩, fun _ hs => hs⟩
    · split
      · exact ⟨⟨new, by simp, rfl⟩, fun _ hs => List.mem_cons_of_mem _ hs⟩
      · obtain ⟨⟨seg, hseg, hsn⟩, hall⟩ := ih
        refine ⟨⟨seg, List.mem_cons_of_mem _ hseg, hsn⟩, fun s hs => ?_⟩
        rcases List.mem_cons.mp hs with rfl | hs
        · simp
        · exact List.mem_cons_of_mem _ (hall s hs)

/-- What a data segment does to the receiving side. -/
structure Taken (log : List Bytes) (handed : Bytes) (sn : UInt32) (k k' : Ikcpcb) : Prop where
  receives : Receives log k'.recvSide handed
  blocked : Blocked k'.recvSide
  gains : Gains k.recvSide k'.recvSide
  acklist : ∀ ack ∈ k'.acklist, ack ∈ k.acklist ∨ Got k'.recvSide ack.1.toNat

theorem parseData_receives {log : List Bytes} {handed : Bytes} {k : Ikcpcb} {new : Segment}
    (hlog : log.length < 2 ^ 32) (hwnd : k.rcvWnd = 128) (h : Receives log k.recvSide handed)
    (hnew : Arrived log new) (hhigh : ¬ 0 ≤ itimediff new.sn (k.rcvNxt + k.rcvWnd))
    (hlow : ¬ itimediff new.sn k.rcvNxt < 0) :
    Receives log (parseData k new).recvSide handed ∧ Blocked (parseData k new).recvSide ∧
      Gains k.recvSide (parseData k new).recvSide ∧ Got (parseData k new).recvSide new.sn.toNat := by
  rw [parseData, if_neg (not_or.mpr ⟨hhigh, hlow⟩)]
  have hhas := insertSegment_has new k.rcvBuf.reverse
  have hbuffered : Receives log ⟨k.rcvNxt, k.rcvQueue, (insertSegment new k.rcvBuf.reverse).reverse⟩ handed := by
    refine ⟨h.nxt, h.taken, h.whole, fun seg hseg => ?_⟩
    rcases mem_insertSegment (List.mem_reverse.mp hseg) with rfl | hseg
    · exact hnew
    · exact h.buf seg (List.mem_reverse.mp hseg)
  obtain ⟨hreceives, hblocked, hgains⟩ := moveReady_receives hlog hwnd hbuffered
  have hinserted : Gains k.recvSide
      ⟨k.rcvNxt, k.rcvQueue, (insertSegment new k.rcvBuf.reverse).reverse⟩ := by
    refine ⟨Nat.le_refl _, ?_⟩
    rintro n (hn | ⟨seg, hseg, rfl⟩)
    · exact .inl hn
    · exact .inr ⟨seg, List.mem_reverse.mpr (hhas.2 seg (List.mem_reverse.mpr hseg)), rfl⟩
  obtain ⟨seg, hseg, hsn⟩ := hhas.1
  refine ⟨hreceives, hblocked, hinserted.trans hgains, hgains.got _ ?_⟩
  exact .inr ⟨seg, List.mem_reverse.mpr hseg, by rw [hsn]⟩

theorem inputPush_taken (seg : Segment) {log : List Bytes} {handed : Bytes} {k : Ikcpcb}
    (hlog : log.length + 128 ≤ 2 ^ 31) (hwnd : k.rcvWnd = 128) (h : Receives log k.recvSide handed)
    (hblocked : Blocked k.recvSide) (hseg : Arrived log seg) :
    Taken log handed seg.sn k (inputPush k seg) := by
  have hsn : seg.sn.toNat < log.length := (List.getElem?_eq_some_iff.mp hseg.2).1
  have hnxt : k.rcvNxt.toNat ≤ log.length := h.nxt
  unfold inputPush
  split
  · rename_i hhigh
    dsimp only
    split
    · rename_i hlow
      obtain ⟨hreceives, hstopped, hgains, hgot⟩ := parseData_receives (k := ackPush k seg.sn seg.ts)
        (by omega) hwnd h hseg (Int.not_le.mpr hhigh) (Int.not_lt.mpr hlow)
      have hacks : (parseData (ackPush k seg.sn seg.ts) seg).acklist = k.acklist ++ [(seg.sn, seg.ts)] := by
        unfold parseData
        split
        · rfl
        · exact (moveReady_kept _ _).2
      refine ⟨hreceives, hstopped, hgains, fun ack hack => ?_⟩
      rw [hacks] at hack
      rcases List.mem_append.mp hack with hack | hack
      · exact .inl hack
      · rw [List.mem_singleton.mp hack]
        exact .inr hgot
    · rename_i hold
      refine ⟨h, hblocked, .refl _, fun ack hack => ?_⟩
      rcases List.mem_append.mp hack with hack | hack
      · exact .inl hack
      · rw [List.mem_singleton.mp hack]
        have hbelow : seg.sn.toNat < k.rcvNxt.toNat :=
          (SerialNumber.diff_neg_iff (by omega) (by omega)).mp (Int.not_le.mp hold)
        exact .inr (.inl hbelow)
  · exact ⟨h, hblocked, .refl _, fun ack hack => .inl hack⟩

/-- Taking a message hands out the next chunk that waits. -/
theorem recv_receives {log : List Bytes} {handed data : Bytes} {k : Ikcpcb} {cap : Nat}
    (hlog : log.length < 2 ^ 32) (hwnd : k.rcvWnd = 128) (h : Receives log k.recvSide handed)
    (hdata : (recv k cap).2.toOption = some data) :
    Receives log (recv k cap).1.recvSide (handed ++ data) ∧ Blocked (recv k cap).1.recvSide ∧
      Gains k.recvSide (recv k cap).1.recvSide := by
  unfold recv at hdata ⊢
  split at hdata
  · cases hdata
  · rename_i hne
    split at hdata
    · cases hdata
    · rename_i hpeek
      split at hdata
      · cases hdata
      · rename_i hcap
        rw [if_neg hne, if_neg hpeek, if_neg hcap]
        obtain ⟨seg, queue, hqueue⟩ := List.exists_cons_of_ne_nil hne
        have hwhole : seg.frg = 0 := h.whole seg (by simp [Ikcpcb.recvSide, hqueue])
        have hmessage : takeMessage k.rcvQueue = (seg.data, queue) := by
          rw [hqueue, takeMessage, if_pos hwhole]
        obtain rfl : seg.data = data := by
          rw [hmessage] at hdata
          exact Option.some.inj hdata
        have hqueued : Receives log ⟨k.rcvNxt, queue, k.rcvBuf⟩ (handed ++ seg.data) := by
          refine ⟨h.nxt, ?_, fun s hs => h.whole s (by simp [Ikcpcb.recvSide, hqueue, hs]), h.buf⟩
          have htaken := h.taken
          simp only [Ikcpcb.recvSide, hqueue, List.flatMap_cons] at htaken
          rw [List.append_assoc]
          exact htaken
        obtain ⟨hreceives, hblocked, hgains⟩ :=
          moveReady_receives (k := { k with rcvQueue := queue }) hlog hwnd hqueued
        rw [hmessage]
        dsimp only
        split <;> exact ⟨hreceives, hblocked, hgains.nxt, hgains.got⟩

/-! ### Acknowledging -/

/-- Only segments whose numbers satisfy `gone` leave the send buffer, and the others keep what they
carry. -/
structure Thinned (gone : Nat → Prop) (k k' : Ikcpcb) : Prop where
  kept : RecvKept k k'
  nxt : k'.sndNxt = k.sndNxt
  queue : k'.sndQueue = k.sndQueue
  old : ∀ seg ∈ k'.sndBuf, ∃ before ∈ k.sndBuf, seg.core = before.core
  left : ∀ seg ∈ k.sndBuf, (∃ after ∈ k'.sndBuf, after.sn = seg.sn) ∨ gone seg.sn.toNat

theorem Kept.thinned {gone : Nat → Prop} {k k' : Ikcpcb} (h : Kept k k') : Thinned gone k k' := by
  have hbuf : k'.sndBuf = k.sndBuf := congrArg SendSide.buf h.sendSide
  refine ⟨h.recv, congrArg SendSide.nxt h.sendSide, congrArg SendSide.queue h.sendSide,
    fun seg hseg => ⟨seg, hbuf ▸ hseg, rfl⟩, fun seg hseg => .inl ⟨seg, hbuf.symm ▸ hseg, rfl⟩⟩

theorem Thinned.trans {gone : Nat → Prop} {k k' k'' : Ikcpcb} (h : Thinned gone k k')
    (h' : Thinned gone k' k'') : Thinned gone k k'' where
  kept := h.kept.trans h'.kept
  nxt := h'.nxt.trans h.nxt
  queue := h'.queue.trans h.queue
  old seg hseg := by
    obtain ⟨middle, hmiddle, hcore⟩ := h'.old seg hseg
    obtain ⟨before, hbefore, hcore'⟩ := h.old middle hmiddle
    exact ⟨before, hbefore, hcore.trans hcore'⟩
  left seg hseg := by
    rcases h.left seg hseg with ⟨middle, hmiddle, hsn⟩ | hgone
    · rw [← hsn]
      exact h'.left middle hmiddle
    · exact .inr hgone

/-- A sublist of the send buffer, from which only acknowledged segments are missing. -/
theorem Thinned.sublist {gone : Nat → Prop} {k k' : Ikcpcb} (hkept : RecvKept k k') (hnxt : k'.sndNxt = k.sndNxt)
    (hqueue : k'.sndQueue = k.sndQueue) (hsub : k'.sndBuf.Sublist k.sndBuf)
    (hleft : ∀ seg ∈ k.sndBuf, seg ∈ k'.sndBuf ∨ gone seg.sn.toNat) : Thinned gone k k' where
  kept := hkept
  nxt := hnxt
  queue := hqueue
  old seg hseg := ⟨seg, hsub.subset hseg, rfl⟩
  left seg hseg := (hleft seg hseg).imp_left fun hin => ⟨seg, hin, rfl⟩

theorem dropAcked_left (sn : UInt32) {buf : List Segment} :
    ∀ seg ∈ buf, seg ∈ dropAcked sn buf ∨ seg.sn = sn := by
  induction buf with
  | nil => simp
  | cons first buf ih =>
    intro seg hseg
    rw [dropAcked]
    split
    · rename_i hsame
      rcases List.mem_cons.mp hseg with rfl | hseg
      · exact .inr hsame.symm
      · exact .inl hseg
    · split
      · exact .inl hseg
      · rcases List.mem_cons.mp hseg with rfl | hseg
        · exact .inl (by simp)
        · exact (ih seg hseg).imp_left (List.mem_cons_of_mem _)

theorem shrinkAck_thinned {gone : Nat → Prop} (k : Ikcpcb) {sn : UInt32} (hgone : gone sn.toNat) :
    Thinned gone k (shrinkBuf (parseAck k sn)) := by
  refine .sublist ((parseAck_kept k sn).trans (shrinkBuf_kept _)) ?_ ?_ ?_ ?_ <;>
    unfold parseAck <;> split
  · rfl
  · rfl
  · rfl
  · rfl
  · exact dropAcked_sublist sn _
  · exact .refl _
  · intro seg hseg
    rcases dropAcked_left sn seg hseg with hin | rfl
    · exact .inl hin
    · exact .inr hgone
  · exact fun seg hseg => .inl hseg

theorem dropWhile_left {α : Type} {p : α → Bool} {l : List α} :
    ∀ a ∈ l, a ∈ l.dropWhile p ∨ p a = true := by
  induction l with
  | nil => simp
  | cons first l ih =>
    intro a ha
    rw [List.dropWhile_cons]
    split
    · rename_i hp
      rcases List.mem_cons.mp ha with rfl | ha
      · exact .inr hp
      · exact ih a ha
    · exact .inl ha

/-- The segments below a number that the peer has reached leave the send buffer. -/
theorem inputUna_thinned {gone : Nat → Prop} {k : Ikcpcb} {wnd una : UInt32}
    (hsmall : una.toNat < 2 ^ 31 ∧ ∀ seg ∈ k.sndBuf, seg.sn.toNat < 2 ^ 31)
    (hgone : ∀ n < una.toNat, gone n) : Thinned gone k (inputUna k wnd una) := by
  refine .sublist (inputUna_kept k wnd una) rfl rfl (List.dropWhile_sublist _) fun seg hseg => ?_
  refine (dropWhile_left seg hseg).imp_right fun hpast => hgone _ ?_
  have hsn := hsmall.2 seg hseg
  exact (SerialNumber.diff_pos_iff (by omega) (by omega)).mp (of_decide_eq_true hpast)

theorem passAcked_thinned {gone : Nat → Prop} (run : InputRun) : Thinned gone run.kcp (passAcked run) := by
  have hsame : ∀ k : Ikcpcb, Thinned gone k k := fun k => (Kept.refl k).thinned
  unfold passAcked
  split
  · exact hsame _
  · rename_i sn ts _
    have hkept := parseFastack_kept run.kcp sn ts
    unfold parseFastack at hkept ⊢
    split
    · rename_i hflight
      rw [if_pos hflight] at hkept
      have hcore := passSegments_core sn ts run.kcp.sndBuf
      refine ⟨hkept, rfl, rfl, fun seg hseg => ?_, fun seg hseg => .inl ?_⟩
      · have hmem : seg.core ∈ run.kcp.sndBuf.map Segment.core := hcore ▸ List.mem_map_of_mem hseg
        obtain ⟨before, hbefore, heq⟩ := List.mem_map.mp hmem
        exact ⟨before, hbefore, heq.symm⟩
      · have hmem : seg.core ∈ (passSegments sn ts run.kcp.sndBuf).map Segment.core :=
          hcore.symm ▸ List.mem_map_of_mem hseg
        obtain ⟨after, hafter, heq⟩ := List.mem_map.mp hmem
        exact ⟨after, hafter, (sameCore heq).sn⟩
    · exact hsame _

theorem inputDone_thinned (gone : Nat → Prop) (prevUna : UInt32) (run : InputRun) :
    Thinned gone run.kcp (inputDone prevUna run) := by
  unfold inputDone
  dsimp only
  split
  · exact (passAcked_thinned run).trans (growCwnd_kept _).thinned
  · exact passAcked_thinned run

theorem inputAck_thinned {gone : Nat → Prop} (run : InputRun) (seg : Segment) (hgone : gone seg.sn.toNat) :
    Thinned gone run.kcp (inputAck run seg).kcp := by
  unfold inputAck
  dsimp only
  split
  · exact (updateAck_kept run.kcp _).thinned.trans (shrinkAck_thinned _ hgone)
  · exact shrinkAck_thinned _ hgone

/-! ### Numbering -/

/-- The numbers given so far are those of the log, and the send buffer holds chunks of it. -/
structure Numbers (log : List Bytes) (k : Ikcpcb) : Prop where
  nxt : k.sndNxt.toNat = log.length
  buf : ∀ seg ∈ k.sndBuf, log[seg.sn.toNat]? = some seg.data

/-- Numbering moves chunks from the queue to the end of the log. -/
structure Numbered (log more : List Bytes) (queue : List Segment) (k k' : Ikcpcb) : Prop where
  numbers : Numbers (log ++ more) k'
  queue : queue.flatMap (·.data) = more.flatten ++ k'.sndQueue.flatMap (·.data)
  old : ∀ seg ∈ k.sndBuf, ∃ after ∈ k'.sndBuf, after.sn = seg.sn
  new : ∀ n, log.length ≤ n → n < (log ++ more).length → ∃ seg ∈ k'.sndBuf, seg.sn.toNat = n

theorem Numbered.refl {log : List Bytes} {queue : List Segment} {k : Ikcpcb} (h : Numbers log k) :
    Numbered log [] queue k { k with sndQueue := queue } where
  numbers := ⟨by rw [List.append_nil]; exact h.nxt, by rw [List.append_nil]; exact h.buf⟩
  queue := rfl
  old seg hseg := ⟨seg, hseg, rfl⟩
  new n hlow hhigh := by
    rw [List.append_nil] at hhigh
    omega

theorem fillWindow_numbered {conv wnd cwnd : UInt32} {queue : List Segment} {k : Ikcpcb} {log : List Bytes}
    (hconv : k.conv = conv) (hcwnd : cwnd.toNat ≤ 64)
    (h : SendBound conv ⟨k.sndUna, k.sndNxt, queue, k.sndBuf⟩)
    (hroom : k.sndNxt.toNat + 128 ≤ 2 ^ 31 + (k.sndNxt - k.sndUna).toNat) (hnumbers : Numbers log k) :
    ∃ more, Numbered log more queue k (fillWindow wnd cwnd queue k) := by
  induction queue generalizing k log with
  | nil => exact ⟨[], Numbered.refl hnumbers⟩
  | cons seg queue ih =>
    rw [fillWindow]
    split
    · rename_i hopen
      have hused := h.behind_le.2
      have hfree := room_of_window hused hcwnd hopen
      dsimp only at hused hfree
      have hnxt := hnumbers.nxt
      have hsucc : (k.sndNxt + 1).toNat = k.sndNxt.toNat + 1 := by
        rw [UInt32.toNat_add]
        exact Nat.mod_eq_of_lt (by simp only [UInt32.reduceToNat]; omega)
      have hahead : (k.sndNxt + 1 - k.sndUna).toNat = (k.sndNxt - k.sndUna).toNat + 1 :=
        SerialNumber.toNat_succ_sub (by omega)
      have hlast : (log ++ [seg.data])[k.sndNxt.toNat]? = some seg.data := by
        rw [hnxt, List.getElem?_append_right (Nat.le_refl _)]
        simp
      have hnumbered : Numbers (log ++ [seg.data]) { k with
          sndBuf := k.sndBuf ++ [numberSegment k wnd seg], sndNxt := k.sndNxt + 1 } := by
        refine ⟨by dsimp only; rw [hsucc, hnxt, List.length_append]; rfl, fun s hs => ?_⟩
        rcases List.mem_append.mp hs with hs | hs
        · exact chunk_append (hnumbers.buf s hs) _
        · rw [List.mem_singleton.mp hs]
          exact hlast
      obtain ⟨more, hmore⟩ := ih (k := { k with
          sndBuf := k.sndBuf ++ [numberSegment k wnd seg], sndNxt := k.sndNxt + 1 }) hconv
        (h.number (by omega) rfl hconv rfl rfl rfl) (by dsimp only; rw [hsucc, hahead]; omega) hnumbered
      refine ⟨seg.data :: more, ?_, ?_, fun s hs => hmore.old s (List.mem_append_left _ hs), ?_⟩
      · rw [List.append_cons]
        exact hmore.numbers
      · rw [List.flatMap_cons, hmore.queue, List.flatten_cons, List.append_assoc]
      · intro n hlow hhigh
        rw [List.append_cons] at hhigh
        rcases Nat.eq_or_lt_of_le hlow with heq | hlt
        · obtain ⟨after, hafter, hsn⟩ := hmore.old (numberSegment k wnd seg) (by simp)
          exact ⟨after, hafter, by rw [hsn]; exact hnxt.trans heq⟩
        · exact hmore.new n (by rw [List.length_append]; exact hlt) hhigh
    · exact ⟨[], Numbered.refl hnumbers⟩

/-- After a flush the send buffer holds the same chunks as after the numbering. -/
theorem flushData_old (k : Ikcpcb) (out : Output) :
    (∀ seg ∈ (flushData k out).1.sndBuf, ∃ before ∈ k.sndBuf, seg.core = before.core) ∧
      ∀ seg ∈ k.sndBuf, ∃ after ∈ (flushData k out).1.sndBuf, after.core = seg.core := by
  have hcore : (flushData k out).1.sndBuf.map Segment.core = k.sndBuf.map Segment.core :=
    flushSegments_core _ _ _ _
  constructor
  · intro seg hseg
    have hmem : seg.core ∈ k.sndBuf.map Segment.core := hcore ▸ List.mem_map_of_mem hseg
    obtain ⟨before, hbefore, heq⟩ := List.mem_map.mp hmem
    exact ⟨before, hbefore, heq.symm⟩
  · intro seg hseg
    have hmem : seg.core ∈ (flushData k out).1.sndBuf.map Segment.core := hcore.symm ▸ List.mem_map_of_mem hseg
    obtain ⟨after, hafter, heq⟩ := List.mem_map.mp hmem
    exact ⟨after, hafter, heq⟩

/-- A flush numbers chunks and empties the list of acknowledgements. -/
theorem flush_numbered {conv : UInt32} {k : Ikcpcb} {log : List Bytes} (h : Bounded conv k) (hroom : Roomy k)
    (hnumbers : Numbers log k) (hupdated : k.updated = true) :
    ∃ more, Numbered log more k.sndQueue k (flushFill (flushControl k).1) ∧
      Numbered log more k.sndQueue k (flush k).1 ∧ (flush k).1.recvSide = k.recvSide ∧
      (flush k).1.acklist = [] := by
  have hcontrol := flushControl_kept k
  have hbounded := flushControl_bounded h
  have hbuf : (flushControl k).1.sndBuf = k.sndBuf := congrArg SendSide.buf hcontrol.sendSide
  have hqueue : (flushControl k).1.sndQueue = k.sndQueue := congrArg SendSide.queue hcontrol.sendSide
  have hnxt : (flushControl k).1.sndNxt = k.sndNxt := congrArg SendSide.nxt hcontrol.sendSide
  have hcarried : Numbers log (flushControl k).1 := ⟨hnxt ▸ hnumbers.nxt, hbuf ▸ hnumbers.buf⟩
  obtain ⟨more, hmore⟩ : ∃ more, Numbered log more (flushControl k).1.sndQueue (flushControl k).1
      (flushFill (flushControl k).1) :=
    fillWindow_numbered hbounded.conv_eq (sendWindow_le hbounded.sndWnd_eq) hbounded.send
      (by unfold Roomy at hroom; rw [hnxt]; omega) hcarried
  have hfill := (fillWindow_kept (wndUnused (flushControl k).1) (sendWindow (flushControl k).1)
    (flushControl k).1.sndQueue (flushControl k).1).1
  have hfilled : Numbered log more k.sndQueue k (flushFill (flushControl k).1) :=
    ⟨hmore.numbers, hqueue ▸ hmore.queue, hbuf ▸ hmore.old, hmore.new⟩
  refine ⟨more, hfilled, ?_⟩
  have hflush : (flush k).1 = settleCwnd k.cwnd
      (flushData (flushFill (flushControl k).1) (flushControl k).2).2
      (flushData (flushFill (flushControl k).1) (flushControl k).2).1 := by
    rw [flush, hupdated]
    rfl
  have hsettle := settleCwnd_kept k.cwnd (flushData (flushFill (flushControl k).1) (flushControl k).2).2
    (flushData (flushFill (flushControl k).1) (flushControl k).2).1
  rw [← hflush] at hsettle
  have hsent : (flush k).1.sndBuf = (flushData (flushFill (flushControl k).1) (flushControl k).2).1.sndBuf :=
    congrArg SendSide.buf hsettle.sendSide
  obtain ⟨hback, hforth⟩ := flushData_old (flushFill (flushControl k).1) (flushControl k).2
  rw [← hsent] at hback hforth
  refine ⟨⟨⟨?_, ?_⟩, ?_, ?_, ?_⟩, ?_, ?_⟩
  · exact (congrArg (fun s => s.nxt.toNat) hsettle.sendSide).trans hfilled.numbers.nxt
  · intro seg hseg
    obtain ⟨before, hbefore, hcore⟩ := hback seg hseg
    rw [(sameCore hcore).sn, (sameCore hcore).data]
    exact hfilled.numbers.buf before hbefore
  · have hqueued : (flush k).1.sndQueue = (flushFill (flushControl k).1).sndQueue :=
      congrArg SendSide.queue hsettle.sendSide
    rw [hqueued]
    exact hfilled.queue
  · intro seg hseg
    obtain ⟨middle, hmiddle, hsn⟩ := hfilled.old seg hseg
    obtain ⟨after, hafter, hcore⟩ := hforth middle hmiddle
    exact ⟨after, hafter, (sameCore hcore).sn.trans hsn⟩
  · intro n hlow hhigh
    obtain ⟨middle, hmiddle, hsn⟩ := hfilled.new n hlow hhigh
    obtain ⟨after, hafter, hcore⟩ := hforth middle hmiddle
    exact ⟨after, hafter, by rw [(sameCore hcore).sn, hsn]⟩
  · exact hsettle.recvSide.trans (hfill.recvSide.trans hcontrol.recvSide)
  · exact hsettle.acklist.trans (hfill.acklist.trans hcontrol.acklist)

end Redp2p.Kcp
