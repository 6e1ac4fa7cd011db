import Redp2p.LiveSessions
import Redp2p.Lib.Watchdog

/-! Whether a peer that fell silent is noticed: what sets the last sign of life of a session at either side,
and which sessions a maintenance closes. -/

namespace Redp2p

open ByteString
open Watchdog (Mark)

/-- The session forwards datagrams. -/
def Link.forwards {κ : Type} : Link κ → Bool
  | .udp _ => true
  | .tcp _ => false

namespace Session

variable {κ : Type} {kcp : ByteChannel.Ops κ}

instance (s : Session κ) (data : Bytes) : Decidable (s.Takes data) :=
  match hlink : s.link with
  | .udp _ => decidable_of_iff (isPunchControl data = false ∧ data.length ≤ udpPayloadMax)
      (by simp [Takes, hlink])
  | .tcp _ => decidable_of_iff (isPunchControl data = false) (by simp [Takes, hlink])

/-- The second of the last sign of life. -/
def timer (s : Session κ) : Nat := s.lastRx.toNat

/-- What a call leaves of a session that it is no sign of the peer for. -/
def Still (s s' : Session κ) : Prop := s'.link.forwards = s.link.forwards ∧ s'.lastRx = s.lastRx

theorem Still.refl (s : Session κ) : Still s s := ⟨rfl, rfl⟩

theorem shut_forwards (link : Link κ) : link.shut.forwards = link.forwards := by
  cases link <;> rfl

/-- A datagram that a session takes is a sign of life. -/
theorem receive_takes {s : Session κ} {data : Bytes} (h : s.Takes data) (kcp : ByteChannel.Ops κ) (env : StreamEnv) :
    (s.receive kcp env data).1.link.forwards = s.link.forwards ∧
      (s.receive kcp env data).1.lastRx = nowS env := by
  obtain ⟨-, -, hrx, hlink⟩ := receive_processed kcp h env
  refine ⟨?_, hrx⟩
  cases hold : s.link with
  | udp u =>
    simp only [hold] at hlink
    rw [hlink]
    split <;> rfl
  | tcp party =>
    simp only [hold] at hlink
    rw [hlink]
    rfl

/-- Other datagrams change nothing. -/
theorem receive_refuses {s : Session κ} {data : Bytes} (h : ¬ s.Takes data) (env : StreamEnv) :
    (s.receive kcp env data).1 = s := by
  have hkeepalive : isKeepalive data = true → isPunchControl data = false := by
    intro hka
    obtain rfl : data = ctrtokKa := by simpa [isKeepalive] using hka
    decide +kernel
  unfold receive
  cases hlink : s.link with
  | udp u =>
    have hrefused : data.length ≤ udpPayloadMax → isPunchControl data = true := by
      intro hlength
      by_contra hcontrol
      exact h ⟨eq_false_of_ne_true hcontrol, by rw [hlink]; exact hlength⟩
    dsimp only
    split
    · rfl
    rename_i hlength
    have hcontrol := hrefused (Nat.not_lt.mp hlength)
    split
    · rename_i hka
      exact absurd (hkeepalive hka) (by simp [hcontrol])
    · rfl
  | tcp party =>
    have hcontrol : isPunchControl data = true := by
      by_contra hcontrol
      exact h ⟨eq_false_of_ne_true hcontrol, by rw [hlink]; trivial⟩
    dsimp only
    rw [if_pos hcontrol]

theorem pump_still (s : Session κ) (env : StreamEnv) (read : TcpRead) : s.Still (s.pump kcp env read) := by
  refine ⟨?_, s.pump_lastRx env read⟩
  unfold pump
  split
  · rfl
  · rename_i hlink
    rw [hlink]
    rfl

theorem expire_still (s : Session κ) (env : StreamEnv) : s.Still (s.expire env).1 := by
  refine ⟨?_, s.expire_lastRx env⟩
  unfold expire
  dsimp only
  split <;> split <;> first | rfl | exact shut_forwards _

theorem maintain_still (s : Session κ) (env : StreamEnv) : s.Still (s.maintain kcp env).1 := by
  refine ⟨?_, s.maintain_lastRx env⟩
  unfold maintain
  split
  · exact (s.expire_still env).1
  · rename_i hlink
    rw [hlink]
    dsimp only
    split
    · rfl
    · exact (expire_still _ env).1

theorem close_still (s : Session κ) (env : StreamEnv) : s.Still (s.close kcp env) := by
  refine ⟨?_, s.close_lastRx env⟩
  unfold close
  split
  · unfold Link.close
    split
    · rename_i hlink
      rw [hlink]
      rfl
    · rename_i hlink
      rw [hlink]
      split <;> rfl
  · rfl

/-! ### Maintenance -/

/-- A session that was heard too long ago is not active after its maintenance. -/
theorem maintain_expired {s : Session κ} {env : StreamEnv} (hle : s.lastRx ≤ nowS env)
    (hlate : s.lastRx.toNat + disconnectS.toNat < (nowS env).toNat) :
    (s.maintain kcp env).1.link.active = false := by
  have hshut : ∀ link : Link κ, link.shut.active = false := by
    intro link
    cases link <;> rfl
  have hexpire : ∀ x : Session κ, x.lastRx = s.lastRx → (x.expire env).1.link.active = false := by
    intro x hx
    have hage : nowS env - x.lastRx > disconnectS := by
      rw [hx, gt_iff_lt, UInt64.lt_iff_toNat_lt, UInt64.toNat_sub_of_le _ _ hle]
      omega
    unfold expire
    dsimp only
    split
    · exact hshut _
    · exact hshut _
  unfold maintain
  split
  · exact hexpire s rfl
  · dsimp only
    split
    · rfl
    · exact hexpire _ rfl

/-- A maintenance at this time notices that the peer is silent, and does not close the session for a peer
that is not. -/
def Detects (kcp : ByteChannel.Ops κ) (env : StreamEnv) (m : Mark) (s s' : Session κ) : Prop :=
  (m.Silent 1000 disconnectS.toNat env.now.toNat → s'.link.active = false) ∧
    (m.Recent 1000 disconnectS.toNat env.now.toNat → s.link.active = true → ¬ s.StreamOver kcp env →
      s'.link.active = true)

/-- A session in use that is kept alive by the datagrams it forwards for its local application, while its
peer is silent. -/
def Pinned (env : StreamEnv) (m : Mark) (s : Session κ) : Prop :=
  s.link.active = true ∧ s.link.forwards = true ∧ m.Pinned 1000 disconnectS.toNat env.now.toNat

theorem nowS_toNat (env : StreamEnv) : (nowS env).toNat = env.now.toNat / 1000 := by
  rw [nowS, UInt64.toNat_div]
  rfl

/-- The maintenance of a session whose timer is right. -/
theorem detects_iff {env : StreamEnv} {m : Mark} {s s' : Session κ}
    (htimer : s.lastRx.toNat = m.latest / 1000) (hpast : m.latest ≤ env.now.toNat)
    (hfed : m.fed ≠ none → s.link.forwards = true)
    (hs' : s' = if s.link.active then (s.maintain kcp env).1 else s) :
    s.Detects kcp env m s' ↔ ¬ s.Pinned env m := by
  have hle : s.lastRx ≤ nowS env := by
    rw [UInt64.le_iff_toNat_le, htimer, nowS_toNat]
    exact Nat.div_le_div_right hpast
  cases hactive : s.link.active with
  | false =>
    rw [hactive] at hs'
    simp only [Bool.false_eq_true, if_false] at hs'
    subst hs'
    refine iff_of_true ⟨fun _ => hactive, fun _ h => ?_⟩ fun h => ?_
    · rw [hactive] at h
      exact nomatch h
    · exact absurd h.1 (by simp [hactive])
  | true =>
    rw [hactive] at hs'
    simp only [if_true] at hs'
    subst hs'
    have hrecent : m.Recent 1000 disconnectS.toNat env.now.toNat → ¬ s.StreamOver kcp env →
        (s.maintain kcp env).1.link.active = true := by
      intro h hover
      refine maintain_active hactive hover hle ?_
      rw [nowS_toNat, htimer]
      exact h.within (by decide)
    constructor
    · rintro ⟨hsilent, -⟩ ⟨-, hforwards, hpinned⟩
      obtain ⟨fed, hfed, hwithin⟩ := hpinned.2
      have hover : ¬ s.StreamOver kcp env := by
        rintro ⟨party, hlink, -⟩
        rw [hlink] at hforwards
        exact nomatch hforwards
      have hlatest : fed / 1000 ≤ m.latest / 1000 := Nat.div_le_div_right (Mark.fed_le_latest hfed)
      have hkept : (s.maintain kcp env).1.link.active = true := by
        refine maintain_active hactive hover hle ?_
        rw [nowS_toNat, htimer]
        omega
      exact absurd (hsilent hpinned.1) (by simp [hkept])
    · intro hfree
      refine ⟨fun hsilent => maintain_expired hle ?_, fun h _ hover => hrecent h hover⟩
      rw [nowS_toNat, htimer]
      refine (hsilent.overdue_iff (by decide)).mpr fun hpinned => ?_
      obtain ⟨fed, hmem, -⟩ := hpinned.2
      have hne : m.fed ≠ none := fun hnone => nomatch hnone.symm.trans hmem
      exact hfree ⟨hactive, hfed hne, hpinned⟩

end Session

/-! ### Signs of life at the publisher -/

section Stays

variable {κ : Type} {kcp : ByteChannel.Ops κ} {l l' : List (Session κ)}

/-- No session shows a sign of life, and none is added. -/
def Stays (l l' : List (Session κ)) : Prop :=
  ∀ (i : Nat) (s' : Session κ), l'[i]? = some s' → ∃ s, l[i]? = some s ∧ s.Still s'

theorem Stays.refl (l : List (Session κ)) : Stays l l := fun _ s' hs' => ⟨s', hs', .refl s'⟩

theorem Stays.close (l : List (Session κ)) (kcp : ByteChannel.Ops κ) (env : StreamEnv) :
    Stays l (l.map fun s => s.close kcp env) := by
  intro i s' hs'
  rw [List.getElem?_map] at hs'
  obtain ⟨s, hs, rfl⟩ := Option.map_eq_some_iff.mp hs'
  exact ⟨s, hs, s.close_still env⟩

theorem Stays.set {index : Nat} {s s' : Session κ} (hs : l[index]? = some s) (h : s.Still s') :
    Stays l (l.set index s') := by
  intro i x hx
  by_cases heq : index = i
  · subst heq
    rw [List.getElem?_set_self (List.getElem?_eq_some_iff.mp hs).1] at hx
    obtain rfl := Option.some.inj hx
    exact ⟨s, hs, h⟩
  · rw [List.getElem?_set_ne heq] at hx
    exact ⟨x, hx, .refl x⟩

section Entry

variable {σ ε : Type} (sys : Watchdog.System σ ε (Session κ)) {s : σ} {e : ε} {i : Nat} {b : Session κ}

/-- An event that is a sign for no session. -/
theorem Stays.entry (h : Stays (sys.entries s) (sys.entries (sys.step s e)))
    (htimer : sys.timer = Session.timer) (hfeedable : sys.feedable = fun s => s.link.forwards)
    (hhears : sys.hears s e = none) (hfeeds : sys.feeds s e = none)
    (hb : (sys.entries (sys.step s e))[i]? = some b) : sys.Entry 1000 s e i b := by
  obtain ⟨a, ha, hstill⟩ := h i b hb
  refine .kept a ha (by rw [hfeedable]; exact hstill.1) ?_ ?_
    (by rw [htimer]; exact congrArg UInt64.toNat hstill.2)
  · exact fun h => nomatch hhears.symm.trans h
  · exact fun h => nomatch hfeeds.symm.trans h

/-- An event that opens a session. -/
theorem opened_entry {opened : Session κ} {env : StreamEnv}
    (h : sys.entries (sys.step s e) = sys.entries s ++ [opened])
    (hrx : opened.lastRx = Session.nowS env) (htimer : sys.timer = Session.timer)
    (hhears : sys.hears s e = none) (hfeeds : sys.feeds s e = none)
    (hclock : sys.clock e = some env.now.toNat) (hb : (sys.entries (sys.step s e))[i]? = some b) :
    sys.Entry 1000 s e i b := by
  rw [h, List.getElem?_append] at hb
  split at hb
  · exact .kept b hb rfl (fun h => nomatch hhears.symm.trans h) (fun h => nomatch hfeeds.symm.trans h) rfl
  · rename_i hbound
    refine .opened env.now.toNat (Nat.not_lt.mp hbound) hclock ?_
    obtain ⟨_, hlast⟩ := List.getElem?_eq_some_iff.mp hb
    rw [List.getElem_singleton] at hlast
    rw [htimer, Session.timer, ← hlast, hrx, Session.nowS_toNat]

end Entry

/-- An event is a sign of life for one session at most, in a session that forwards datagrams when it is
fed. -/
inductive Signed (env : StreamEnv) (fed : Bool) (sign : Option Nat) (l l' : List (Session κ)) : Prop
  | quiet (hsign : sign = none) (hstays : Stays l l')
  | heard (index : Nat) (s s' : Session κ) (hsign : sign = some index) (hs : l[index]? = some s)
      (hsame : s'.link.forwards = s.link.forwards) (hfed : fed = true → s.link.forwards = true)
      (hrx : s'.lastRx = Session.nowS env) (hset : l' = l.set index s')

theorem Signed.entry {σ ε : Type} (sys : Watchdog.System σ ε (Session κ)) {env : StreamEnv} {fed : Bool}
    {sign : Option Nat} {s : σ} {e : ε}
    (h : Signed env fed sign (sys.entries s) (sys.entries (sys.step s e)))
    (htimer : sys.timer = Session.timer) (hfeedable : sys.feedable = fun s => s.link.forwards)
    (hhears : sys.hears s e = if fed then none else sign)
    (hfeeds : sys.feeds s e = if fed then sign else none)
    (hclock : sys.clock e = some env.now.toNat) {i : Nat} {b : Session κ}
    (hb : (sys.entries (sys.step s e))[i]? = some b) : sys.Entry 1000 s e i b := by
  cases h with
  | quiet hsign hstays =>
    subst hsign
    simp only [ite_self] at hhears hfeeds
    exact hstays.entry sys htimer hfeedable hhears hfeeds hb
  | heard index a a' hsign ha hsame hfed hrx hset =>
    subst hsign
    refine Watchdog.System.entry_of_set hset (fun j hj => ?_) (.reset a env.now.toNat ha ?_ ?_ ?_ hclock ?_) hb
    · rw [hhears, hfeeds] at hj
      cases fed with
      | true => exact (Option.some.inj (hj.resolve_left nofun)).symm
      | false => exact (Option.some.inj (hj.resolve_right nofun)).symm
    · rw [hfeedable]
      exact hsame
    · rw [hhears, hfeeds]
      cases fed with
      | true => exact Or.inr rfl
      | false => exact Or.inl rfl
    · intro hfeed
      rw [hfeeds] at hfeed
      rw [hfeedable]
      cases fed with
      | true => exact hfed rfl
      | false => exact nomatch hfeed
    · rw [htimer, Session.timer, hrx, Session.nowS_toNat]

end Stays

/-- The time that an event reads off the clock, in milliseconds. -/
def PublisherEvent.clock : PublisherEvent → Option Nat
  | .poll env _ => some env.now.toNat
  | .round => none
  | .hear env _ _ => some env.now.toNat
  | .giveUp => none
  | .receive env _ => some env.now.toNat
  | .read env _ _ => some env.now.toNat
  | .datagram env _ _ _ => some env.now.toNat
  | .maintain env _ => some env.now.toNat
  | .close env => some env.now.toNat

namespace Publisher

variable {κ : Type} (kcp : ByteChannel.Ops κ)

/-- The session whose peer is heard: the loop reads a datagram of the peer and processes it. -/
def hears (p : Publisher κ) : PublisherEvent → Option Nat
  | .receive _ arrival =>
    if arrival.data.length > bufSize then none
    else
      match p.locate arrival.source arrival.data with
      | none => none
      | some index =>
        match p.sessions[index]? with
        | none => none
        | some s => if s.Takes arrival.data then some index else none
  | _ => none

/-- The session that forwards a datagram of the backend to its peer. -/
def feeds (p : Publisher κ) : PublisherEvent → Option Nat
  | .datagram _ index source _ =>
    if source ≠ .inet loopback p.bindPort then none
    else
      match p.sessions[index]? with
      | none => none
      | some s => if s.link.active && s.link.forwards then some index else none
  | _ => none

/-- The publisher as a table of timers. -/
def watchdog : Watchdog.System (Publisher κ) (Option PunchCall × PublisherEvent) (Session κ) where
  step p event := p.step kcp event.1 event.2
  entries p := p.sessions
  timer := Session.timer
  feedable s := s.link.forwards
  clock event := event.2.clock
  hears p event := p.hears event.2
  feeds p event := p.feeds event.2

variable {kcp}

theorem after_stays {l : List (Session κ)} {q : Publisher κ} (h : Stays l q.sessions) (env : StreamEnv)
    (stage : Stage) : Stays l (Publisher.after kcp env (q, stage)).sessions := by
  cases stage with
  | failed status =>
    intro i s' hs'
    obtain ⟨x, hx, hstill⟩ := Stays.close q.sessions kcp env i s' hs'
    obtain ⟨s, hs, hstill'⟩ := h i x hx
    exact ⟨s, hs, hstill.1.trans hstill'.1, hstill.2.trans hstill'.2⟩
  | proceed => exact h
  | skip => exact h

theorem update_cases (p : Publisher κ) (index : Nat)
    (change : Session κ → Session κ × List (SockAddr × Bytes)) :
    p.update index change = p ∨ ∃ s, p.sessions[index]? = some s ∧ s.link.active = true ∧
      (p.update index change).sessions = p.sessions.set index (change s).1 := by
  unfold update
  split
  · exact Or.inl rfl
  rename_i s hs
  split
  · rename_i hactive
    exact Or.inr ⟨s, hs, hactive, rfl⟩
  · exact Or.inl rfl

theorem update_stays (p : Publisher κ) (index : Nat)
    {change : Session κ → Session κ × List (SockAddr × Bytes)} (h : ∀ s : Session κ, s.Still (change s).1) :
    Stays p.sessions (p.update index change).sessions := by
  rcases p.update_cases index change with hsame | ⟨s, hs, -, hset⟩
  · rw [hsame]
    exact .refl _
  · rw [hset]
    exact .set hs (h s)

/-- A punch changes no session, and opens one at most, at its time. -/
theorem punchHear_sessions (p : Publisher κ) (kcp : ByteChannel.Ops κ) (env : StreamEnv) (backendOk : Bool)
    (arrival : Arrival) :
    (p.punchHear kcp env backendOk arrival).sessions = p.sessions ∨
      ∃ s : Session κ, s.lastRx = Session.nowS env ∧
        (p.punchHear kcp env backendOk arrival).sessions = p.sessions ++ [s] := by
  have hopen : ∀ (q : Publisher κ) (sessionId : SessionId) (peerAddr : SockAddr),
      q.sessions = p.sessions →
      (q.openSession kcp env backendOk sessionId peerAddr).1.sessions = p.sessions ∨
        ∃ s : Session κ, s.lastRx = Session.nowS env ∧
          (q.openSession kcp env backendOk sessionId peerAddr).1.sessions = p.sessions ++ [s] := by
    intro q sessionId peerAddr hq
    unfold openSession
    dsimp only
    generalize (if q.proto = .tcp then some sessionId else none) = wanted
    split
    · exact Or.inl hq
    split
    · exact Or.inl hq
    · refine Or.inr ⟨.opened env peerAddr (newLink kcp env q.proto sessionId), rfl, ?_⟩
      show q.sessions ++ _ = _
      rw [hq]
  unfold punchHear
  split
  · exact Or.inl rfl
  split
  · exact Or.inl rfl
  · dsimp only
    split <;> exact hopen _ _ _ rfl

/-- A datagram that the loop reads is a sign of life for the session that takes it. -/
theorem receivePeer_signed (p : Publisher κ) (kcp : ByteChannel.Ops κ) (env : StreamEnv) (arrival : Arrival) :
    Signed env false (p.hears (.receive env arrival)) p.sessions
      (p.step kcp none (.receive env arrival)).sessions := by
  have hquiet : Stays p.sessions (p.receivePeer kcp env arrival.source arrival.data).1.sessions →
      Stays p.sessions (p.step kcp none (.receive env arrival)).sessions := fun hstays =>
    after_stays hstays env (p.receivePeer kcp env arrival.source arrival.data).2
  by_cases hlong : arrival.data.length > bufSize
  · refine .quiet (if_pos hlong) (hquiet ?_)
    rw [receivePeer, if_pos hlong]
    exact .refl _
  cases hlocate : p.locate arrival.source arrival.data with
  | none =>
    refine .quiet (by simp [hears, hlocate]) (hquiet ?_)
    rw [receivePeer, if_neg hlong, hlocate]
    exact .refl _
  | some index =>
    cases hs : p.sessions[index]? with
    | none =>
      refine .quiet (by simp [hears, hlocate, hs]) (hquiet ?_)
      simp only [receivePeer, if_neg hlong, hlocate, hs]
      exact .refl _
    | some s =>
      by_cases htakes : s.Takes arrival.data
      · obtain ⟨hforwards, hrx⟩ := Session.receive_takes htakes kcp env
        have hskip : (s.receive kcp env arrival.data).2 = false :=
          (Session.receive_processed kcp htakes env).1
        refine .heard index s _ ?_ hs hforwards (by simp) hrx ?_
        · simp only [hears, if_neg hlong, hlocate, hs, if_pos htakes]
        · simp [Publisher.step, receivePeer, if_neg hlong, hlocate, hs, hskip, Publisher.after]
      · refine .quiet (by simp only [hears, if_neg hlong, hlocate, hs, if_neg htakes]) (hquiet ?_)
        simp only [receivePeer, if_neg hlong, hlocate, hs]
        rw [Session.receive_refuses htakes env]
        exact .set hs (.refl s)

/-- A datagram of the backend is a sign of life for the session that forwards it. -/
theorem receiveBackend_signed (p : Publisher κ) (env : StreamEnv) (index : Nat) (source : SockAddr)
    (data : Bytes) :
    Signed env true (p.feeds (.datagram env index source data)) p.sessions
      (p.receiveBackend env index source data).sessions := by
  unfold receiveBackend feeds
  dsimp only
  split
  · exact .quiet rfl (.refl _)
  unfold update
  cases hs : p.sessions[index]? with
  | none => exact .quiet rfl (.refl _)
  | some s =>
    dsimp only
    cases hactive : s.link.active with
    | false => exact .quiet (by simp) (.refl _)
    | true =>
      cases hlink : s.link with
      | tcp party => exact .quiet (by simp [Link.forwards]) (.set hs (.refl s))
      | udp u =>
        refine .heard index s _ (by simp [Link.forwards]) hs ?_ (fun _ => ?_) ?_ rfl
        · rw [hlink]
          rfl
        · rw [hlink]
          rfl
        · rfl

theorem watchdog_timely : (watchdog kcp).Timely 1000 := by
  intro p event i s' hs'
  obtain ⟨polled, event⟩ := event
  have hquiet : p.hears event = none → p.feeds event = none →
      Stays p.sessions (p.step kcp polled event).sessions →
      (watchdog kcp).Entry 1000 p (polled, event) i s' := fun hheard hfed hstays =>
    Stays.entry (watchdog kcp) hstays rfl rfl hheard hfed hs'
  cases event with
  | poll env index =>
    refine hquiet rfl rfl ?_
    cases polled with
    | none => exact .refl _
    | some call =>
      have htaken : Stays p.sessions (p.takeCall call).1.sessions := by
        rw [takeCall_sessions]
        exact .refl _
      exact after_stays htaken env (p.takeCall call).2
  | round =>
    refine hquiet rfl rfl ?_
    show Stays p.sessions p.punchRound.sessions
    unfold punchRound
    split <;> exact .refl _
  | hear env backendOk arrival =>
    rcases punchHear_sessions p kcp env backendOk arrival with hsame | ⟨s, hrx, happend⟩
    · refine hquiet rfl rfl ?_
      show Stays p.sessions (p.punchHear kcp env backendOk arrival).sessions
      rw [hsame]
      exact .refl _
    · exact opened_entry (watchdog kcp) happend hrx rfl rfl rfl rfl hs'
  | giveUp => exact hquiet rfl rfl (.refl _)
  | receive env arrival =>
    exact (receivePeer_signed p kcp env arrival).entry (watchdog kcp)
      rfl rfl rfl rfl rfl hs'
  | read env index read => exact hquiet rfl rfl (p.update_stays index fun s => s.pump_still env read)
  | datagram env index source data =>
    exact (p.receiveBackend_signed env index source data).entry (watchdog kcp)
      rfl rfl rfl rfl rfl hs'
  | maintain env index => exact hquiet rfl rfl (p.update_stays index fun s => s.maintain_still env)
  | close env => exact hquiet rfl rfl (.close p.sessions kcp env)

end Publisher

/-! ### Signs of life at the consumer -/

/-- The time that an event reads off the clock, in milliseconds. -/
def ConsumerEvent.clock : ConsumerEvent → Option Nat
  | .accept _ _ _ => none
  | .datagram env _ _ _ _ _ => some env.now.toNat
  | .read env _ _ => some env.now.toNat
  | .round => none
  | .hear env _ _ => some env.now.toNat
  | .giveUp => none
  | .receive env _ _ => some env.now.toNat
  | .maintain env _ => some env.now.toNat
  | .close env => some env.now.toNat

namespace Consumer

variable {κ : Type} (kcp : ByteChannel.Ops κ)

/-- What the sessions of the consumer share with those of the publisher. -/
def table (c : Consumer κ) : List (Session κ) := c.sessions.map fun s => s.toSession

/-- The session whose peer is heard: a datagram of the peer that the session processes. -/
def hears (c : Consumer κ) : ConsumerEvent → Option Nat
  | .receive _ index arrival =>
    match c.table[index]? with
    | none => none
    | some s =>
      if s.link.active ∧ arrival.source = s.peerAddr ∧ s.Takes (arrival.data.take bufSize) then some index
      else none
  | _ => none

/-- The session that forwards a datagram of its local client to its peer. -/
def feeds (c : Consumer κ) : ConsumerEvent → Option Nat
  | .datagram _ client data _ _ _ =>
    if c.proto = .tcp ∨ (data.take bufSize).length > udpPayloadMax then none
    else
      match c.sessionFind client with
      | none => none
      | some index =>
        match c.table[index]? with
        | none => none
        | some s => if s.link.active && s.link.forwards then some index else none
  | _ => none

/-- The consumer as a table of timers. -/
def watchdog : Watchdog.System (Consumer κ) ConsumerEvent (Session κ) where
  step c event := (c.step kcp event).1
  entries c := c.table
  timer := Session.timer
  feedable s := s.link.forwards
  clock event := event.clock
  hears c event := c.hears event
  feeds c event := c.feeds event

variable {kcp}

theorem update_cases (c : Consumer κ) (index : Nat)
    (change : Session κ → Session κ × List (SockAddr × Bytes)) :
    (c.update index change = c ∧ ∀ s, c.table[index]? = some s → s.link.active = false) ∨
      ∃ s, c.table[index]? = some s ∧ s.link.active = true ∧
        (c.update index change).table = c.table.set index (change s).1 := by
  cases hs : c.sessions[index]? with
  | none =>
    refine Or.inl ⟨by rw [update, hs], fun s hs' => ?_⟩
    rw [table, List.getElem?_map, hs] at hs'
    exact nomatch hs'
  | some s =>
    have hs' : c.table[index]? = some s.toSession := by rw [table, List.getElem?_map, hs, Option.map_some]
    cases hactive : s.link.active with
    | false =>
      refine Or.inl ⟨?_, fun x hx => ?_⟩
      · simp only [update, hs, hactive, Bool.false_eq_true, if_false]
      · obtain rfl := Option.some.inj (hx.symm.trans hs')
        exact hactive
    | true =>
      refine Or.inr ⟨s.toSession, hs', hactive, ?_⟩
      simp only [update, hs, hactive, if_true, table, List.map_set]

theorem update_stays (c : Consumer κ) (index : Nat)
    {change : Session κ → Session κ × List (SockAddr × Bytes)} (h : ∀ s : Session κ, s.Still (change s).1) :
    Stays c.table (c.update index change).table := by
  rcases c.update_cases index change with ⟨hsame, -⟩ | ⟨s, hs, -, hset⟩
  · rw [hsame]
    exact .refl _
  · rw [hset]
    exact .set hs (h s)

theorem establish_sessions (c : Consumer κ) (random : SessionId) (candidates : List Candidate)
    (accepted : Bool) (client : LocalClient) :
    (c.establish random candidates accepted client).1.sessions = c.sessions := by
  unfold establish
  dsimp only
  split <;> rfl

/-- A punch changes no session, and opens one at most, at its time. -/
theorem punchHear_table (c : Consumer κ) (kcp : ByteChannel.Ops κ) (env : StreamEnv) (initOk : Bool)
    (arrival : Arrival) :
    (c.punchHear kcp env initOk arrival).table = c.table ∨
      ∃ s : Session κ, s.lastRx = Session.nowS env ∧
        (c.punchHear kcp env initOk arrival).table = c.table ++ [s] := by
  have hinit : ∀ (session : Establishing) (peerAddr : SockAddr),
      (sessionInit kcp env session peerAddr).1.lastRx = Session.nowS env := by
    intro session peerAddr
    unfold sessionInit
    split <;> rfl
  unfold punchHear
  split
  · exact Or.inl rfl
  rename_i session _
  split
  · exact Or.inl rfl
  · rename_i _ peerAddr _ _
    dsimp only
    split
    · refine Or.inr ⟨_, hinit session peerAddr, ?_⟩
      simp [table, sessionInsert]
    · exact Or.inl rfl

/-- A datagram on the socket of a session is a sign of life if the session takes it. -/
theorem peerReceive_signed (c : Consumer κ) (kcp : ByteChannel.Ops κ) (env : StreamEnv) (index : Nat) (arrival : Arrival) :
    Signed env false (c.hears (.receive env index arrival)) c.table
      (c.peerReceive kcp env index arrival.source arrival.data).table := by
  unfold peerReceive hears
  dsimp only
  rcases c.update_cases index fun s =>
    if arrival.source = s.peerAddr then ((s.receive kcp env (arrival.data.take bufSize)).1, [])
    else (s, []) with ⟨hsame, hclosed⟩ | ⟨s, hs, hactive, hset⟩
  · rw [hsame]
    refine .quiet ?_ (.refl _)
    cases hs : c.table[index]? with
    | none => rfl
    | some s => exact if_neg fun h => by simp [hclosed s hs] at h
  · rw [hset, hs]
    dsimp only
    by_cases hsource : arrival.source = s.peerAddr
    · rw [if_pos hsource]
      by_cases htakes : s.Takes (arrival.data.take bufSize)
      · obtain ⟨hforwards, hrx⟩ := Session.receive_takes htakes kcp env
        exact .heard index s _ (if_pos ⟨hactive, hsource, htakes⟩) hs hforwards nofun hrx rfl
      · refine .quiet (if_neg fun h => htakes h.2.2) ?_
        rw [Session.receive_refuses htakes env]
        exact .set hs (.refl s)
    · rw [if_neg hsource]
      exact .quiet (if_neg fun h => hsource h.2.1) (.set hs (.refl s))

/-- A datagram of a local client is a sign of life for the session that forwards it. -/
theorem udpReceive_signed (c : Consumer κ) (env : StreamEnv) (client : SockAddr) (data : Bytes)
    (random : SessionId) (candidates : List Candidate) (confirmed : Bool) :
    Signed env true (c.feeds (.datagram env client data random candidates confirmed)) c.table
      (c.udpReceive env client data random candidates confirmed).1.table := by
  unfold udpReceive feeds
  by_cases htcp : c.proto = .tcp
  · simp only [htcp, true_or, if_true]
    exact .quiet rfl (.refl _)
  by_cases hlong : (data.take bufSize).length > udpPayloadMax
  · simp only [if_neg htcp, hlong, or_true, if_true]
    exact .quiet rfl (.refl _)
  simp only [htcp, hlong, or_self, if_false]
  cases hfind : c.sessionFind client with
  | none =>
    refine .quiet rfl ?_
    simp only [table, establish_sessions]
    exact .refl _
  | some index =>
    dsimp only
    rcases c.update_cases index fun s => forward env s data with
      ⟨hsame, hclosed⟩ | ⟨s, hs, hactive, hset⟩
    · rw [hsame]
      refine .quiet ?_ (.refl _)
      cases hs : c.table[index]? with
      | none => rfl
      | some s => simp [hclosed s hs]
    · rw [hset, hs]
      dsimp only
      cases hlink : s.link with
      | tcp party =>
        rw [forward, hlink]
        exact .quiet (by simp [Link.forwards]) (.set hs (.refl s))
      | udp u =>
        rw [hlink] at hactive
        refine .heard index s _ (by simp [Link.forwards, hactive]) hs ?_ (fun _ => ?_) ?_ rfl
        · rw [forward, hlink]
          rfl
        · rw [hlink]
          rfl
        · rw [forward, hlink]

theorem watchdog_timely : (watchdog kcp).Timely 1000 := by
  intro c event i s' hs'
  have hquiet : c.hears event = none → c.feeds event = none → Stays c.table (c.step kcp event).1.table →
      (watchdog kcp).Entry 1000 c event i s' := fun hheard hfed hstays =>
    Stays.entry (watchdog kcp) hstays rfl rfl hheard hfed hs'
  cases event with
  | accept random candidates confirmed =>
    refine hquiet rfl rfl ?_
    show Stays c.table (c.tcpAccept random candidates confirmed).1.table
    unfold tcpAccept
    split
    · simp only [table, establish_sessions]
      exact .refl _
    · exact .refl _
  | datagram env client data random candidates confirmed =>
    exact (c.udpReceive_signed env client data random candidates confirmed).entry (watchdog kcp)
      rfl rfl rfl rfl rfl hs'
  | read env index read => exact hquiet rfl rfl (c.update_stays index fun s => s.pump_still env read)
  | round =>
    refine hquiet rfl rfl ?_
    show Stays c.table c.punchRound.table
    unfold punchRound
    split <;> exact .refl _
  | hear env initOk arrival =>
    rcases punchHear_table c kcp env initOk arrival with hsame | ⟨s, hrx, happend⟩
    · refine hquiet rfl rfl ?_
      show Stays c.table (c.punchHear kcp env initOk arrival).table
      rw [hsame]
      exact .refl _
    · exact opened_entry (watchdog kcp) happend hrx rfl rfl rfl rfl hs'
  | giveUp => exact hquiet rfl rfl (.refl _)
  | receive env index arrival =>
    exact (peerReceive_signed c kcp env index arrival).entry (watchdog kcp)
      rfl rfl rfl rfl rfl hs'
  | maintain env index => exact hquiet rfl rfl (c.update_stays index fun s => s.maintain_still env)
  | close env =>
    refine hquiet rfl rfl ?_
    show Stays c.table (c.closeAll kcp env).table
    simp only [table, closeAll, List.map_map]
    have hclose := Stays.close (c.sessions.map fun s => s.toSession) kcp env
    rwa [List.map_map] at hclose

end Consumer

/-! ### Detection -/

section Detection

variable {κ : Type} (kcp : ByteChannel.Ops κ)

namespace Publisher

/-- A maintenance detects whether the peer of the session is alive. -/
def Detects (w : Publisher κ × List Mark) : Option PunchCall × PublisherEvent → Prop
  | (_, .maintain env index) => ∀ (s s' : Session κ) (m : Mark), w.1.sessions[index]? = some s →
      (w.1.maintain kcp env index).sessions[index]? = some s' → w.2[index]? = some m →
        s.Detects kcp env m s'
  | _ => True

/-- A maintenance meets no session that is kept alive from the local side alone. -/
def Unpinned (w : Publisher κ × List Mark) : Option PunchCall × PublisherEvent → Prop
  | (_, .maintain env index) => ∀ (s : Session κ) (m : Mark), w.1.sessions[index]? = some s →
      w.2[index]? = some m → ¬ s.Pinned env m
  | _ => True

end Publisher

namespace Consumer

def Detects (w : Consumer κ × List Mark) : ConsumerEvent → Prop
  | .maintain env index => ∀ (s s' : Session κ) (m : Mark), w.1.table[index]? = some s →
      (w.1.maintain kcp env index).table[index]? = some s' → w.2[index]? = some m →
        s.Detects kcp env m s'
  | _ => True

def Unpinned (w : Consumer κ × List Mark) : ConsumerEvent → Prop
  | .maintain env index => ∀ (s : Session κ) (m : Mark), w.1.table[index]? = some s →
      w.2[index]? = some m → ¬ s.Pinned env m
  | _ => True

end Consumer

variable {kcp}

/-- What a maintenance leaves of the session at its index. -/
theorem Publisher.maintain_get {p : Publisher κ} {env : StreamEnv} {index : Nat} {s : Session κ}
    (hs : p.sessions[index]? = some s) : (p.maintain kcp env index).sessions[index]? =
      some (if s.link.active then (s.maintain kcp env).1 else s) := by
  unfold Publisher.maintain
  cases hactive : s.link.active with
  | true => rw [update_get hs hactive, if_pos rfl]
  | false =>
    rw [if_neg nofun]
    simp [update, hs, hactive]

theorem Consumer.maintain_get {c : Consumer κ} {env : StreamEnv} {index : Nat} {s : Session κ}
    (hs : c.table[index]? = some s) : (c.maintain kcp env index).table[index]? =
      some (if s.link.active then (s.maintain kcp env).1 else s) := by
  unfold Consumer.maintain
  rcases c.update_cases index fun s => s.maintain kcp env with
    ⟨hsame, hclosed⟩ | ⟨x, hx, hactive, hset⟩
  · rw [hsame, if_neg (by simp [hclosed s hs]), hs]
  · obtain rfl := Option.some.inj (hs.symm.trans hx)
    rw [hset, if_pos hactive, List.getElem?_set_self (List.getElem?_eq_some_iff.mp hs).1]

/-- A maintenance detects whether the peers of a table are alive exactly when it meets no session that is
pinned. -/
theorem Session.detects_maintained {σ ε : Type} {sys : Watchdog.System σ ε (Session κ)}
    (htimer : sys.timer = Session.timer) (hfeedable : sys.feedable = fun s => s.link.forwards)
    {env : StreamEnv} {t index : Nat} {w : σ × List Mark} (hw : Watchdog.System.Dated sys 1000 t w)
    (hlater : t ≤ env.now.toNat) {after : List (Session κ)}
    (hget : ∀ s, (sys.entries w.1)[index]? = some s →
      after[index]? = some (if s.link.active then (s.maintain kcp env).1 else s)) :
    (∀ (s s' : Session κ) (m : Mark), (sys.entries w.1)[index]? = some s → after[index]? = some s' →
      w.2[index]? = some m → s.Detects kcp env m s') ↔
    ∀ (s : Session κ) (m : Mark), (sys.entries w.1)[index]? = some s → w.2[index]? = some m →
      ¬ s.Pinned env m := by
  have hdetects : ∀ (s : Session κ) (m : Mark), (sys.entries w.1)[index]? = some s → w.2[index]? = some m →
      (s.Detects kcp env m (if s.link.active then (s.maintain kcp env).1 else s) ↔ ¬ s.Pinned env m) := by
    intro s m hs hm
    have hset := hw.timer index s m hs hm
    have hfed := hw.fed index s m hs hm
    rw [htimer] at hset
    rw [hfeedable] at hfed
    exact Session.detects_iff hset (Nat.le_trans (hw.past index m hm) hlater) hfed rfl
  constructor
  · exact fun h s m hs hm => (hdetects s m hs hm).mp (h s _ m hs (hget s hs) hm)
  · intro h s s' m hs hs' hm
    obtain rfl := Option.some.inj (hs'.symm.trans (hget s hs))
    exact (hdetects s m hs hm).mpr (h s m hs hm)

theorem Publisher.detects_along_iff {p : Publisher κ} (hp : p.sessions = [])
    {events : List (Option PunchCall × PublisherEvent)}
    (hclock : Transition.Timed (fun event => event.2.clock) 0 events) :
    (watchdog kcp).Along (Detects kcp) p events ↔ (watchdog kcp).Along Unpinned p events := by
  refine Watchdog.System.along_congr watchdog_timely (fun t w event hw hlater => ?_) hp hclock
  obtain ⟨polled, event⟩ := event
  cases event with
  | maintain env index => exact Session.detects_maintained rfl rfl hw hlater fun s hs => maintain_get hs
  | _ => exact Iff.rfl

theorem Consumer.detects_along_iff {c : Consumer κ} (hc : c.table = []) {events : List ConsumerEvent}
    (hclock : Transition.Timed ConsumerEvent.clock 0 events) :
    (watchdog kcp).Along (Detects kcp) c events ↔ (watchdog kcp).Along Unpinned c events := by
  refine Watchdog.System.along_congr watchdog_timely (fun t w event hw hlater => ?_) hc hclock
  cases event with
  | maintain env index => exact Session.detects_maintained rfl rfl hw hlater fun s hs => maintain_get hs
  | _ => exact Iff.rfl

end Detection

/-- In every run of a clock that does not go back, every maintenance at either side notices that a peer is
silent, and closes no session for a peer that is not, exactly when none of them meets a session whose peer
is silent while it forwarded a datagram of its own side a short time ago. -/
theorem dead_peers_detected_iff {κ : Type} (kcp : ByteChannel.Ops κ) :
    (∀ (proto : Proto) (selfId : Bytes) (bindPort : UInt16) (sweep : Nat)
      (events : List (Option PunchCall × PublisherEvent)),
      Transition.Timed (fun event => event.2.clock) 0 events →
        ((Publisher.watchdog kcp).Along (Publisher.Detects kcp) (.start proto selfId bindPort sweep) events ↔
          (Publisher.watchdog kcp).Along Publisher.Unpinned (.start proto selfId bindPort sweep) events)) ∧
    ∀ (proto : Proto) (selfId targetId : Bytes) (sweep : Nat) (peerCandidates : List Candidate)
      (events : List ConsumerEvent), Transition.Timed ConsumerEvent.clock 0 events →
        ((Consumer.watchdog kcp).Along (Consumer.Detects kcp)
            (.start proto selfId targetId sweep peerCandidates) events ↔
          (Consumer.watchdog kcp).Along Consumer.Unpinned
            (.start proto selfId targetId sweep peerCandidates) events) :=
  ⟨fun _ _ _ _ _ hclock => Publisher.detects_along_iff rfl hclock,
    fun _ _ _ _ _ _ hclock => Consumer.detects_along_iff rfl hclock⟩

/-! ### A session that is never given up -/

def pinnedToken : Bytes := Consumer.sessionToken .udp (Vector.replicate 16 0)

def pinnedCandidates : List Candidate := [⟨.candHost, ascii "127.0.0.1", 9, 0⟩]

/-- What arrives from the other side. -/
def pinnedArrival (text : Bytes) : Arrival := ⟨.inet [127, 0, 0, 1] 9, text⟩

def pinnedPublisher : Publisher Unit := .start .udp (ascii "pub") 9000 0

def pinnedConsumer : Consumer Unit := .start .udp (ascii "con") (ascii "pub") 0 pinnedCandidates

/-- A consumer is served at second 0 and is never heard again, but the backend goes on sending. -/
def pinnedPublisherEvents : List (Option PunchCall × PublisherEvent) :=
  [(some ⟨ascii "con", pinnedToken, pinnedCandidates⟩, .poll (quietEnv 0) 0),
    (none, .hear (quietEnv 0) true (pinnedArrival (punchPing pinnedToken (ascii "con") (ascii "pub")))),
    (none, .datagram (quietEnv 10) 0 (.inet Publisher.loopback 9000) [0x61])]

/-- A local client sends a datagram at second 0, for which a session is opened, and goes on sending. The
publisher is never heard again. -/
def pinnedConsumerEvents : List ConsumerEvent :=
  let client : SockAddr := .inet [127, 0, 0, 1] 4000
  let random : SessionId := Vector.replicate 16 0
  let pong := punchText ctrtokPunchPong pinnedToken (ascii "con") (ascii "pub") (ascii "\n")
  [.datagram (quietEnv 0) client [0x61] random pinnedCandidates true,
    .hear (quietEnv 0) true (pinnedArrival pong),
    .datagram (quietEnv 10) client [0x61] random pinnedCandidates true]

/-- A session that was fed at second 10 after its peer was heard at second 0 is pinned at second 20. -/
theorem pinned_of_states (l : List (Session Unit)) (marks : List Mark)
    (hl : l.map (fun s => (s.link.active, s.link.forwards)) = [(true, true)])
    (hmarks : marks = [⟨0, some 10000⟩]) :
    ∃ s m, l[0]? = some s ∧ marks[0]? = some m ∧ s.Pinned (quietEnv 20) m := by
  obtain ⟨s, rfl, hs⟩ := List.map_eq_singleton_iff.mp hl
  obtain ⟨hactive, hforwards⟩ := Prod.mk.inj hs
  subst hmarks
  refine ⟨s, _, rfl, rfl, hactive, hforwards, ?_, 10000, rfl, ?_⟩
  · show 0 + (disconnectS.toNat + 1) * 1000 ≤ (quietEnv 20).now.toNat
    decide
  · show (quietEnv 20).now.toNat / 1000 ≤ 10000 / 1000 + disconnectS.toNat
    decide

/-- Twenty seconds after the last sign of the peer both sessions are still active. -/
theorem dead_peers_undetected :
    ¬ (∀ events : List (Option PunchCall × PublisherEvent),
      Transition.Timed (fun event => event.2.clock) 0 events →
        (Publisher.watchdog sampleChannel).Along (Publisher.Detects sampleChannel) pinnedPublisher events) ∧
    ¬ ∀ events : List ConsumerEvent, Transition.Timed ConsumerEvent.clock 0 events →
        (Consumer.watchdog sampleChannel).Along (Consumer.Detects sampleChannel) pinnedConsumer events := by
  constructor
  · intro h
    have hclock : Transition.Timed (fun event => event.2.clock) 0
        (pinnedPublisherEvents ++ [((none : Option PunchCall), PublisherEvent.maintain (quietEnv 20) 0)]) :=
      Transition.timed_of_pairwise (fun _ _ => Nat.zero_le _) (by decide +kernel)
    have hlast := ((Publisher.detects_along_iff rfl hclock).mp (h _ hclock)).last
    obtain ⟨s, m, hs, hm, hpinned⟩ := pinned_of_states
      ((Publisher.watchdog sampleChannel).run pinnedPublisher pinnedPublisherEvents).1.sessions
      ((Publisher.watchdog sampleChannel).run pinnedPublisher pinnedPublisherEvents).2 (by decide +kernel) (by decide +kernel)
    exact hlast s m hs hm hpinned
  · intro h
    have hclock : Transition.Timed ConsumerEvent.clock 0
        (pinnedConsumerEvents ++ [ConsumerEvent.maintain (quietEnv 20) 0]) :=
      Transition.timed_of_pairwise (fun _ _ => Nat.zero_le _) (by decide +kernel)
    have hlast := ((Consumer.detects_along_iff rfl hclock).mp (h _ hclock)).last
    obtain ⟨s, m, hs, hm, hpinned⟩ := pinned_of_states
      ((Consumer.watchdog sampleChannel).run pinnedConsumer pinnedConsumerEvents).1.table
      ((Consumer.watchdog sampleChannel).run pinnedConsumer pinnedConsumerEvents).2 (by decide +kernel) (by decide +kernel)
    exact hlast s m hs hm hpinned

/-- Without the late datagram the consumer gives its session up. -/
theorem dead_peers_detected_sample :
    (Consumer.watchdog sampleChannel).Along (Consumer.Detects sampleChannel) pinnedConsumer
      (pinnedConsumerEvents.take 2 ++ [.maintain (quietEnv 20) 0]) := by
  have hclock : Transition.Timed ConsumerEvent.clock 0
      (pinnedConsumerEvents.take 2 ++ [ConsumerEvent.maintain (quietEnv 20) 0]) :=
    Transition.timed_of_pairwise (fun _ _ => Nat.zero_le _) (by decide +kernel)
  have hmarks : ((Consumer.watchdog sampleChannel).run pinnedConsumer (pinnedConsumerEvents.take 2)).2 =
      [⟨0, none⟩] := by decide +kernel
  refine ((dead_peers_detected_iff sampleChannel).2 .udp (ascii "con") (ascii "pub") 0 pinnedCandidates _
    hclock).mpr ⟨trivial, trivial, fun s m _ hm hpinned => ?_, trivial⟩
  have hm' : ((Consumer.watchdog sampleChannel).run pinnedConsumer
      (pinnedConsumerEvents.take 2)).2[0]? = some m := hm
  rw [hmarks] at hm'
  obtain rfl := Option.some.inj hm'
  obtain ⟨fed, hfed, -⟩ := hpinned.2.2.2
  exact nomatch hfed

end Redp2p
