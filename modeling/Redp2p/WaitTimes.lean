import Redp2p.Consumer
import Redp2p.Environment
import Redp2p.KcpStream
import Redp2p.Lib.Deadline
import Redp2p.Lib.SerialNumber
import Redp2p.Publisher

/-! How long the loops of a publisher and a consumer sleep: until the first of their streams has to greet
its peer or to update KCP, or the index has to be asked again. -/

namespace Redp2p

open ByteString

variable {κ : Type}

/-- `redp2p_stream_wait_ms`. -/
def streamWaitMs (st : StreamState κ) (now : UInt64) : UInt32 :=
  if !st.ready then
    if !st.initiator then 1000
    else if !st.helloSent || now - st.lastHelloMs ≥ streamHelloMs then 0
    else (streamHelloMs - (now - st.lastHelloMs)).toUInt32
  else
    let difference := SerialNumber.diff st.nextUpdateMs now.toUInt32
    if difference ≤ 0 then 0 else if 1000 < difference then 1000 else UInt32.ofInt difference

/-- The loop over the sessions in the wait of either side. -/
def linksWaitMs (now : UInt64) : List (Link κ) → UInt32 → UInt32
  | [], wait => wait
  | .udp _ :: links, wait => linksWaitMs now links wait
  | .tcp party :: links, wait =>
    if !party.active then linksWaitMs now links wait
    else
      linksWaitMs now links (if streamWaitMs party.st now < wait then streamWaitMs party.st now else wait)

/-- `redp2p_publisher_wait_ms`. -/
def Publisher.waitMs (p : Publisher κ) (lastPunchPoll punchPollMs now : UInt64) : UInt32 :=
  let untilPoll := (lastPunchPoll + punchPollMs - now).toInt64.toInt
  let untilPoll := if untilPoll < 1 then 1 else untilPoll
  linksWaitMs now (p.sessions.map Session.link) (if untilPoll < 1000 then UInt32.ofInt untilPoll else 1000)

/-- `redp2p_consumer_wait_ms`. -/
def Consumer.waitMs (c : Consumer κ) (now : UInt64) : UInt32 :=
  linksWaitMs now (c.sessions.map fun s => s.link) 1000

/-! ### What is due -/

/-- What a stream has to do at a time: greet its peer, or update KCP. -/
def StreamState.Due (st : StreamState κ) (now : UInt64) : Prop :=
  st.initiator = true ∧ st.ready = false ∧ (st.helloSent = false ∨ streamHelloMs ≤ now - st.lastHelloMs) ∨
    st.ready = true ∧ (now.toUInt32 - st.nextUpdateMs).toNat < 2 ^ 31

/-- A tick with nothing due neither greets the peer nor updates KCP. -/
theorem streamTick_idle (kcp : ByteChannel.Ops κ) (env : StreamEnv) {st : StreamState κ}
    (h : ¬ st.Due env.now) : streamTick kcp env st =
      if st.sendError then .failed st else (streamTickClose kcp env st).andThen (streamTickKeepalive env) := by
  have hhello : streamTickHello env st = .done st := by
    unfold streamTickHello
    rw [if_neg]
    intro hgreet
    exact h (.inl (by simpa [and_assoc] using hgreet))
  have hupdate : streamTickUpdate kcp env st = .done st := by
    unfold streamTickUpdate
    dsimp only
    rw [if_neg]
    intro hrun
    exact h (.inr (by simpa using hrun))
  unfold streamTick
  rw [hhello, done_andThen, hupdate, done_andThen]

theorem delayed_zero (now : UInt64) : now + UInt64.ofNat 0 = now := by
  have hzero : UInt64.ofNat 0 = 0 := rfl
  rw [hzero, UInt64.add_zero]

theorem delayed_sub {now before : UInt64} {delay : Nat} (hdelay : delay ≤ 1000)
    (helapsed : (now - before).toNat < 2 ^ 63) :
    (now + UInt64.ofNat delay - before).toNat = (now - before).toNat + delay := by
  have hsame : now + UInt64.ofNat delay - before = (now - before) + UInt64.ofNat delay := by grind
  rw [hsame, UInt64.toNat_add, UInt64.toNat_ofNat']
  omega

theorem delayed_sub32 (now : UInt64) (next : UInt32) (delay : Nat) :
    ((now + UInt64.ofNat delay).toUInt32 - next).toNat =
      ((now.toUInt32 - next).toNat + delay) % 2 ^ 32 := by
  have hword : (now + UInt64.ofNat delay).toUInt32 = now.toUInt32 + UInt32.ofNat delay := by
    rw [UInt64.toUInt32_add, UInt64.toUInt32_ofNat']
  have hsame : now.toUInt32 + UInt32.ofNat delay - next = (now.toUInt32 - next) + UInt32.ofNat delay := by grind
  rw [hword, hsame, UInt32.toNat_add, UInt32.toNat_ofNat']
  omega

/-- Whether a session has something to do for its stream. -/
def Link.Due (link : Link κ) (now : UInt64) : Prop :=
  match link with
  | .udp _ => False
  | .tcp party => party.active = true ∧ party.st.Due now

/-- The next update of a stream is not exactly half a number space away, where its sign is lost. -/
def Link.Near (link : Link κ) (now : UInt64) : Prop :=
  match link with
  | .udp _ => True
  | .tcp party => party.st.ready = true → (party.st.nextUpdateMs - now.toUInt32).toNat ≠ 2 ^ 31

/-! ### Waits -/

/-- A stream that has to greet its peer wakes when it has to. -/
theorem greeting_exact {st : StreamState κ} {now : UInt64} (hready : st.ready = false) :
    Deadline.Exact 1000 (fun delay => st.Due (now + UInt64.ofNat delay)) (streamWaitMs st now).toNat := by
  have hhello : streamHelloMs.toNat = 500 := rfl
  unfold streamWaitMs
  rw [if_pos (by simp [hready])]
  by_cases hinit : st.initiator = true
  · rw [if_neg (by simp [hinit])]
    by_cases hgreet : st.helloSent = false ∨ streamHelloMs ≤ now - st.lastHelloMs
    · rw [if_pos (by simpa using hgreet)]
      have hdue : st.Due now := .inl ⟨hinit, hready, hgreet⟩
      apply Deadline.Exact.now
      rwa [delayed_zero]
    · rw [if_neg (by simpa using hgreet)]
      have helapsed : (now - st.lastHelloMs).toNat < 500 := by
        have hlt := UInt64.lt_iff_toNat_lt.mp (UInt64.not_le.mp (not_or.mp hgreet).2)
        omega
      have hwait : (streamHelloMs - (now - st.lastHelloMs)).toUInt32.toNat =
          min (500 - (now - st.lastHelloMs).toNat) 1000 := by
        rw [UInt64.toNat_toUInt32, UInt64.toNat_sub_of_le _ _ (UInt64.le_iff_toNat_le.mpr (by omega)), hhello]
        omega
      rw [hwait]
      apply Deadline.Exact.moment
      intro delay hdelay
      have hlater := delayed_sub hdelay (show (now - st.lastHelloMs).toNat < 2 ^ 63 by omega)
      have hsent : st.helloSent = true := by simpa using (not_or.mp hgreet).1
      have hdue : st.Due (now + UInt64.ofNat delay) ↔
          streamHelloMs ≤ now + UInt64.ofNat delay - st.lastHelloMs := by
        simp [StreamState.Due, hinit, hready, hsent]
      rw [hdue, UInt64.le_iff_toNat_le, hlater]
      omega
  · rw [if_pos (by simpa using hinit)]
    apply (Deadline.Exact.never 1000).congr
    intro delay _
    simp [StreamState.Due, hready, hinit]

/-- A stream that runs wakes when its KCP has to be updated. -/
theorem updating_exact {st : StreamState κ} {now : UInt64} (hready : st.ready = true)
    (hfar : (st.nextUpdateMs - now.toUInt32).toNat ≠ 2 ^ 31) :
    Deadline.Exact 1000 (fun delay => st.Due (now + UInt64.ofNat delay)) (streamWaitMs st now).toNat := by
  have hdiff := SerialNumber.diff_eq_ite st.nextUpdateMs now.toUInt32
  have hbehind : (now.toUInt32 - st.nextUpdateMs).toNat =
      (2 ^ 32 - (st.nextUpdateMs - now.toUInt32).toNat) % 2 ^ 32 := by
    have hneg : now.toUInt32 - st.nextUpdateMs = 0 - (st.nextUpdateMs - now.toUInt32) := by grind
    rw [hneg, UInt32.toNat_sub]
    simp
  have hlt := (st.nextUpdateMs - now.toUInt32).toNat_lt
  have hdue : ∀ delay ≤ 1000, st.Due (now + UInt64.ofNat delay) ↔
      ((now.toUInt32 - st.nextUpdateMs).toNat + delay) % 2 ^ 32 < 2 ^ 31 := by
    intro delay _
    rw [← delayed_sub32]
    simp [StreamState.Due, hready]
  unfold streamWaitMs
  rw [if_neg (by simp [hready])]
  dsimp only
  by_cases hlate : SerialNumber.diff st.nextUpdateMs now.toUInt32 ≤ 0
  · rw [if_pos hlate]
    apply Deadline.Exact.now
    rw [hdue 0 (by omega)]
    split at hdiff <;> omega
  · rw [if_neg hlate]
    have hahead : SerialNumber.diff st.nextUpdateMs now.toUInt32 = (st.nextUpdateMs - now.toUInt32).toNat := by
      split at hdiff <;> omega
    have hwait : (if 1000 < SerialNumber.diff st.nextUpdateMs now.toUInt32 then (1000 : UInt32)
        else UInt32.ofInt (SerialNumber.diff st.nextUpdateMs now.toUInt32)).toNat =
          min (st.nextUpdateMs - now.toUInt32).toNat 1000 := by
      split
      · rw [Nat.min_eq_right (by omega)]
        rfl
      · rw [SerialNumber.toNat_ofInt (by omega) (by omega)]
        omega
    rw [hwait]
    apply Deadline.Exact.moment
    intro delay hdelay
    rw [hdue delay hdelay]
    omega

theorem streamWaitMs_exact {st : StreamState κ} {now : UInt64}
    (hfar : st.ready = true → (st.nextUpdateMs - now.toUInt32).toNat ≠ 2 ^ 31) :
    Deadline.Exact 1000 (fun delay => st.Due (now + UInt64.ofNat delay)) (streamWaitMs st now).toNat := by
  cases hready : st.ready with
  | false => exact greeting_exact hready
  | true => exact updating_exact hready (hfar hready)

/-- The loop over the sessions takes the earliest of their waits. -/
theorem linksWaitMs_exact {now : UInt64} {links : List (Link κ)} (hnear : ∀ link ∈ links, link.Near now)
    {due : Nat → Prop} {wait : UInt32} (h : Deadline.Exact 1000 due wait.toNat) :
    Deadline.Exact 1000 (fun delay => due delay ∨ ∃ link ∈ links, link.Due (now + UInt64.ofNat delay))
      (linksWaitMs now links wait).toNat := by
  induction links generalizing due wait with
  | nil =>
    apply h.congr
    intro delay _
    simp
  | cons link links ih =>
    have hrest : ∀ link ∈ links, link.Near now := fun link hlink => hnear link (List.mem_cons_of_mem _ hlink)
    cases link with
    | udp udpEnd =>
      apply (ih hrest h).congr
      intro delay _
      simp [Link.Due]
    | tcp party =>
      rw [linksWaitMs]
      split
      · rename_i hidle
        apply (ih hrest h).congr
        intro delay _
        have hinactive : party.active = false := by simpa using hidle
        simp [Link.Due, hinactive]
      · rename_i hbusy
        have hactive : party.active = true := by simpa using hbusy
        have hstream := streamWaitMs_exact (hnear (.tcp party) List.mem_cons_self)
        have hmin : (if streamWaitMs party.st now < wait then streamWaitMs party.st now else wait).toNat =
            min wait.toNat (streamWaitMs party.st now).toNat := by
          simp only [UInt32.lt_iff_toNat_lt]
          split <;> omega
        have hboth := h.or hstream
        rw [← hmin] at hboth
        apply (ih hrest hboth).congr
        intro delay _
        simp [Link.Due, hactive, or_assoc]

theorem toInt_sub_of_lt {later earlier : UInt64} (hlater : later.toNat < 2 ^ 62)
    (hearlier : earlier.toNat < 2 ^ 62) :
    (later - earlier).toInt64.toInt = (later.toNat : Int) - earlier.toNat := by
  have hword : (later - earlier).toInt64.toInt = (later.toBitVec - earlier.toBitVec).toInt := rfl
  rw [hword, BitVec.toInt_sub, BitVec.toInt_eq_toNat_bmod, BitVec.toInt_eq_toNat_bmod, Int.sub_bmod_bmod,
    Int.bmod_sub_bmod]
  exact Int.bmod_eq_of_le (by simp; omega) (by simp; omega)

/-- The part of the wait that is due to the index. A poll that is overdue is made after a millisecond. -/
theorem pollWait_exact {lastPunchPoll punchPollMs now : UInt64} (hpoll : punchPollMs.toNat < 2 ^ 62)
    (hclock : (now - lastPunchPoll).toNat < 2 ^ 62) :
    Deadline.Exact 1000
      (fun delay => 0 < delay ∧ punchPollMs ≤ now + UInt64.ofNat delay - lastPunchPoll)
      (min (max 1 (lastPunchPoll + punchPollMs - now).toInt64.toInt.toNat) 1000) := by
  have huntil : (lastPunchPoll + punchPollMs - now).toInt64.toInt =
      (punchPollMs.toNat : Int) - (now - lastPunchPoll).toNat := by
    have hsame : lastPunchPoll + punchPollMs - now = punchPollMs - (now - lastPunchPoll) := by grind
    rw [hsame]
    exact toInt_sub_of_lt hpoll hclock
  rw [huntil]
  apply Deadline.Exact.moment
  intro delay hdelay
  rw [UInt64.le_iff_toNat_le, delayed_sub hdelay (by omega)]
  omega

/-- The setting of the poll interval is a number of seconds at most. -/
theorem punchPollMs_lt (getenv : Environment) : (openTiming getenv).punchPollMs.toNat < 2 ^ 62 := by
  have hsetting : (openSetting getenv .punchPollMs).toNat < 2 ^ 62 := by
    cases hget : getenv TimingSetting.punchPollMs.name with
    | none =>
      simp only [openSetting, hget]
      decide
    | some env =>
      rw [openSetting_given hget]
      split <;> decide
  exact hsetting

/-- A publisher sleeps exactly until it has something to do, for a second at most: nothing that a stream
has to do, and no poll, becomes due before its wait is over, and a wait of less than a second ends when
one does. -/
theorem publisher_wakes_in_time (p : Publisher κ) (getenv : Environment) {lastPunchPoll now : UInt64}
    (hclock : (now - lastPunchPoll).toNat < 2 ^ 62) (hnear : ∀ s ∈ p.sessions, s.link.Near now) :
    Deadline.Exact 1000
      (fun delay => 0 < delay ∧ (openTiming getenv).punchPollMs ≤ now + UInt64.ofNat delay - lastPunchPoll ∨
        ∃ s ∈ p.sessions, s.link.Due (now + UInt64.ofNat delay))
      (p.waitMs lastPunchPoll (openTiming getenv).punchPollMs now).toNat := by
  have hpoll := pollWait_exact (punchPollMs_lt getenv) hclock
  have hlinks : ∀ link ∈ p.sessions.map Session.link, link.Near now := by
    intro link hlink
    obtain ⟨s, hs, rfl⟩ := List.mem_map.mp hlink
    exact hnear s hs
  unfold Publisher.waitMs
  dsimp only
  generalize (lastPunchPoll + (openTiming getenv).punchPollMs - now).toInt64.toInt = untilPoll at hpoll ⊢
  have hraised : (if untilPoll < 1 then 1 else untilPoll) = max 1 untilPoll := by
    split <;> omega
  have hwait : (if max 1 untilPoll < 1000 then UInt32.ofInt (max 1 untilPoll) else 1000).toNat =
      min (max 1 untilPoll.toNat) 1000 := by
    split
    · rw [SerialNumber.toNat_ofInt (by omega) (by omega)]
      omega
    · have hsecond : (1000 : UInt32).toNat = 1000 := rfl
      omega
  rw [hraised]
  rw [← hwait] at hpoll
  apply (linksWaitMs_exact hlinks hpoll).congr
  intro delay _
  simp

/-- A stream whose next update is seven milliseconds after 1200. -/
def waitingParty : Party Kcp.Ikcpcb :=
  let party := Party.opened Kcp.ops false (Vector.replicate 16 7) 1000
  { party with st := { party.st with ready := true, nextUpdateMs := 1207 } }

def waitingPublisher : Publisher Kcp.Ikcpcb :=
  { (Publisher.start .tcp (ascii "pub") 9000 0 : Publisher Kcp.Ikcpcb) with
    sessions := [⟨.inet [10, 0, 0, 7] 4000, .tcp waitingParty, 1, 1⟩] }

theorem publisher_wakes_in_time_sample : (¬ ∃ s ∈ waitingPublisher.sessions, s.link.Due 1206) ∧
    ∃ s ∈ waitingPublisher.sessions, s.link.Due 1207 := by
  have hclock : ((1200 : UInt64) - 1000).toNat < 2 ^ 62 := by decide
  have hnear : ∀ s ∈ waitingPublisher.sessions, s.link.Near 1200 := by
    intro s hs
    rw [List.mem_singleton.mp hs]
    intro hready
    decide
  have hwait : (waitingPublisher.waitMs 1000 (openTiming fun _ => none).punchPollMs 1200).toNat = 7 := by
    decide
  have hwakes := publisher_wakes_in_time waitingPublisher (fun _ => none) hclock hnear
  rw [hwait] at hwakes
  refine ⟨fun hdue => hwakes.asleep 6 (by decide) (.inr hdue), ?_⟩
  rcases hwakes.woken (by decide) with ⟨-, hpoll⟩ | hdue
  · exact absurd hpoll (by decide)
  · exact hdue

/-- A consumer sleeps exactly until one of its streams has something to do, for a second at most. -/
theorem Consumer.waitMs_exact (c : Consumer κ) {now : UInt64} (hnear : ∀ s ∈ c.sessions, s.link.Near now) :
    Deadline.Exact 1000 (fun delay => ∃ s ∈ c.sessions, s.link.Due (now + UInt64.ofNat delay))
      (c.waitMs now).toNat := by
  have hlinks : ∀ link ∈ c.sessions.map (fun s => s.link), link.Near now := by
    intro link hlink
    obtain ⟨s, hs, rfl⟩ := List.mem_map.mp hlink
    exact hnear s hs
  have hsecond : Deadline.Exact 1000 (fun _ => False) (1000 : UInt32).toNat := .never 1000
  apply (linksWaitMs_exact hlinks hsecond).congr
  intro delay _
  simp

end Redp2p
