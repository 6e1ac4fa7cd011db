import Mathlib.Data.List.Forall2
import Redp2p.SessionTable

/-! A table that only grows, and the slots behind it: whatever happens to the slots, a publisher that never
uses one again has the same sessions in use and sends the same datagrams. -/

namespace Redp2p

open ByteString SlotTable

variable {κ : Type} {kcp : ByteChannel.Ops κ} {proto : Proto}

/-- An event at a publisher whose table only grows. -/
def Publisher.tableStep (kcp : ByteChannel.Ops κ) (p : Publisher κ) : TableEvent → Publisher κ
  | .opens env backendOk _ sessionId peerAddr => (p.openSession kcp env backendOk sessionId peerAddr).1
  | .receive env source data => (p.receivePeer kcp env source data).1
  | .read env index read => p.pumpBackend kcp env index read
  | .datagram env index source data => p.receiveBackend env index source data
  | .maintain env index => p.maintain kcp env index
  | .unselectable env index => p.dropBackend kcp env index
  | .close env => p.closeAll kcp env

/-- The same event, at the index that its session has in a table that only grows. A session for which there
is no slot is one for which there is no backend. -/
inductive TableEvent.Placed : TableEvent → TableEvent → Prop where
  | opens (env : StreamEnv) {backendOk backendOk' : Bool} (grows : Bool) (sessionId : SessionId)
      (peerAddr : SockAddr) (h : backendOk' = true → backendOk = true) :
      Placed (.opens env backendOk grows sessionId peerAddr) (.opens env backendOk' grows sessionId peerAddr)
  | receive (env : StreamEnv) (source : SockAddr) (data : Bytes) :
      Placed (.receive env source data) (.receive env source data)
  | read (env : StreamEnv) (index index' : Nat) (read : TcpRead) :
      Placed (.read env index read) (.read env index' read)
  | datagram (env : StreamEnv) (index index' : Nat) (source : SockAddr) (data : Bytes) :
      Placed (.datagram env index source data) (.datagram env index' source data)
  | maintain (env : StreamEnv) (index index' : Nat) : Placed (.maintain env index) (.maintain env index')
  | unselectable (env : StreamEnv) (index index' : Nat) :
      Placed (.unselectable env index) (.unselectable env index')
  | close (env : StreamEnv) : Placed (.close env) (.close env)

abbrev Session.used (s : Session κ) : Bool := s.link.active

/-- Two publishers differ only in the order of their sessions and in those that are closed. -/
structure Mirrors (q p : Publisher κ) : Prop where
  rest : q = { p with sessions := q.sessions }
  used : (inUse Session.used q.sessions).Perm (inUse Session.used p.sessions)

namespace Mirrors

variable {q p : Publisher κ}

theorem mem {s : Session κ} (h : Mirrors q p) (hactive : s.link.active = true) :
    s ∈ q.sessions ↔ s ∈ p.sessions := by
  have hmem := h.used.mem_iff (a := s)
  rw [mem_inUse, mem_inUse] at hmem
  simpa [Session.used, hactive] using hmem

/-- The sessions in use stay the same. -/
theorem next (h : Mirrors q p) {sessions sessions' : List (Session κ)}
    (hsessions : (inUse Session.used sessions).Perm (inUse Session.used sessions')) :
    Mirrors { q with sessions } { p with sessions := sessions' } := by
  refine ⟨?_, hsessions⟩
  rw [h.rest]

/-- Both send the same. -/
theorem sends (h : Mirrors q p) (more : List (SockAddr × Bytes)) :
    Mirrors { q with sent := q.sent ++ more } { p with sent := p.sent ++ more } := by
  refine ⟨?_, h.used⟩
  rw [h.rest]

/-- A change of one session of the one table is that of a session of the other. -/
theorem update (h : Mirrors q p) (index : Nat) (change : Session κ → Session κ × List (SockAddr × Bytes)) :
    ∃ index', Mirrors (q.update index change) (p.update index' change) := by
  have hstill : p.update p.sessions.length change = p := by
    simp [Publisher.update]
  unfold Publisher.update
  cases hs : q.sessions[index]? with
  | none => exact ⟨_, hstill.symm ▸ h⟩
  | some s =>
    dsimp only
    split
    · rename_i hactive
      obtain ⟨index', hbound, hs'⟩ := List.mem_iff_getElem.mp ((h.mem hactive).mp (List.mem_of_getElem? hs))
      have hget : p.sessions[index']? = some s := List.getElem?_eq_some_iff.mpr ⟨hbound, hs'⟩
      refine ⟨index', ?_⟩
      rw [hget]
      dsimp only
      rw [if_pos hactive]
      exact (h.next (inUse_change h.used hs hget hactive (change s).1)).sends (change s).2
    · exact ⟨_, hstill.symm ▸ h⟩

theorem sessionFind (h : Mirrors q p) (peerAddr : SockAddr) (sessionId : Option SessionId) :
    (q.sessionFind peerAddr sessionId).isSome = (p.sessionFind peerAddr sessionId).isSome := by
  unfold Publisher.sessionFind
  rw [List.findIdx?_isSome, List.findIdx?_isSome, Bool.eq_iff_iff, List.any_eq_true, List.any_eq_true]
  constructor
  · rintro ⟨s, hs, hmatch⟩
    have hactive : s.link.active = true := by simp_all
    exact ⟨s, (h.mem hactive).mp hs, hmatch⟩
  · rintro ⟨s, hs, hmatch⟩
    have hactive : s.link.active = true := by simp_all
    exact ⟨s, (h.mem hactive).mpr hs, hmatch⟩

theorem locate_isSome (h : Mirrors q p) (source : SockAddr) (data : Bytes) :
    (q.locate source data).isSome = (p.locate source data).isSome := by
  have hproto : q.proto = p.proto := by rw [h.rest]
  unfold Publisher.locate
  rw [hproto]
  split
  · split
    · rfl
    · exact h.sessionFind _ _
  · exact h.sessionFind _ _

end Mirrors

/-- Sessions in use that a datagram is for are one session. -/
theorem SessionTable.Keyed.located {t : SessionTable κ} (h : t.Keyed proto) {p : Publisher κ}
    (hmirrors : Mirrors t.publisher p) {source : SockAddr} {data : Bytes} {index index' : Nat}
    (hlocate : t.publisher.locate source data = some index) (hlocate' : p.locate source data = some index') :
    ∃ s, t.slots[index]? = some s ∧ p.sessions[index']? = some s ∧ s.link.active = true := by
  obtain ⟨s, hs, hactive, haddr, hid⟩ := SessionTable.locate_some hlocate
  obtain ⟨s', hs', hactive', haddr', hid'⟩ := SessionTable.locate_some hlocate'
  have hmode : p.proto = t.publisher.proto := by rw [hmirrors.rest]
  have hmem : s' ∈ t.slots := (hmirrors.mem hactive').mpr (List.mem_of_getElem? hs')
  obtain ⟨place, hbound, hplace⟩ := List.mem_iff_getElem.mp hmem
  have hget : t.slots[place]? = some s' := List.getElem?_eq_some_iff.mpr ⟨hbound, hplace⟩
  have hkey : s.key = s'.key := by
    refine Prod.ext (haddr.trans haddr'.symm) ?_
    show s.link.id = s'.link.id
    cases hproto : t.publisher.proto with
    | tcp =>
      obtain ⟨envelope, hunpack, hsame⟩ := hid hproto
      obtain ⟨envelope', hunpack', hsame'⟩ := hid' (hmode.trans hproto)
      rw [hsame, hsame', Option.some.inj (hunpack.symm.trans hunpack')]
    | udp =>
      have hnone : ∀ x ∈ t.slots, x.link.id = none := by
        intro x hx
        have hfits := h.fits x hx
        rw [← h.mode, hproto] at hfits
        cases hlink : x.link with
        | udp => rfl
        | tcp =>
          rw [hlink] at hfits
          exact nomatch hfits.1
      rw [hnone s (List.mem_of_getElem? hs), hnone s' hmem]
  obtain rfl := h.distinct index place s s' hs hget hactive hactive' hkey
  obtain rfl := Option.some.inj (hs.symm.trans hget)
  exact ⟨s, hs, hs', hactive⟩

namespace Mirrors

variable {t : SessionTable κ} {p : Publisher κ}

theorem receivePeer (h : Mirrors t.publisher p) (hkeyed : t.Keyed proto) (env : StreamEnv) (source : SockAddr)
    (data : Bytes) : Mirrors (t.publisher.receivePeer kcp env source data).1
      (p.receivePeer kcp env source data).1 := by
  have hsome := h.locate_isSome source data
  unfold Publisher.receivePeer
  split
  · exact h
  cases hlocate : t.publisher.locate source data with
  | none =>
    rw [hlocate, Option.isSome_none, eq_comm, Option.isSome_eq_false_iff, Option.isNone_iff_eq_none] at hsome
    rw [hsome]
    exact h.sends ((Publisher.pingAnswer data).toList.map fun pong => (source, pong))
  | some index =>
    rw [hlocate, Option.isSome_some, eq_comm] at hsome
    obtain ⟨index', hlocate'⟩ := Option.isSome_iff_exists.mp hsome
    obtain ⟨s, hs, hs', hactive⟩ := hkeyed.located h hlocate hlocate'
    rw [hlocate']
    change t.publisher.sessions[index]? = some s at hs
    dsimp only
    rw [hs, hs']
    dsimp only
    exact h.next (inUse_change h.used hs hs' hactive (s.receive kcp env data).1)

theorem closeAll (h : Mirrors t.publisher p) (env : StreamEnv) :
    Mirrors (t.publisher.closeAll kcp env) (p.closeAll kcp env) := by
  have hclosed : ∀ s : Session κ, s.used = false → (s.close kcp env).used = false := by
    intro s hs
    rw [s.close_inactive hs env]
    exact hs
  exact h.next (inUse_map hclosed h.used)

theorem openSession (h : Mirrors t.publisher p) (kcp : ByteChannel.Ops κ) (env : StreamEnv)
    (backendOk grows : Bool) (sessionId : SessionId) (peerAddr : SockAddr) : ∃ backendOk', (backendOk' = true → backendOk = true) ∧
      Mirrors (t.openSession kcp env backendOk grows sessionId peerAddr).1.publisher
        (p.openSession kcp env backendOk' sessionId peerAddr).1 := by
  have hproto : t.publisher.proto = p.proto := by rw [h.rest]
  unfold SessionTable.openSession Publisher.openSession
  dsimp only
  rw [hproto]
  generalize (if p.proto = .tcp then some sessionId else none) = wanted
  rw [h.sessionFind]
  by_cases hfound : (p.sessionFind peerAddr wanted).isSome = true
  · simp only [if_pos hfound]
    exact ⟨false, by simp, h⟩
  simp only [if_neg hfound]
  by_cases hbackend : (!backendOk) = true
  · rw [if_pos hbackend]
    exact ⟨false, by simp, h⟩
  rw [if_neg hbackend]
  generalize hnew : Session.opened env peerAddr (Publisher.newLink kcp env p.proto sessionId) = session
  have hactive : session.used = true := by
    rw [← hnew]
    cases p.proto <;> rfl
  unfold SessionTable.sessionInsert
  dsimp only
  split
  · exact ⟨false, by simp, h⟩
  · refine ⟨true, fun _ => by simpa using hbackend, ?_⟩
    exact h.next ((inUse_insert t.publisher.sessions hactive).trans
      ((h.used.cons session).trans (inUse_concat p.sessions hactive).symm))

/-- Whatever happens to the slots happens to a table that only grows, at a session of its own index. -/
theorem step (h : Mirrors t.publisher p) (hkeyed : t.Keyed proto) (event : TableEvent) :
    ∃ event', event.Placed event' ∧ Mirrors (t.step kcp event).publisher (p.tableStep kcp event') := by
  cases event with
  | opens env backendOk grows sessionId peerAddr =>
    obtain ⟨backendOk', hbackend, hnext⟩ := h.openSession kcp env backendOk grows sessionId peerAddr
    exact ⟨_, .opens env grows sessionId peerAddr hbackend, hnext⟩
  | receive env source data => exact ⟨_, .receive env source data, h.receivePeer hkeyed env source data⟩
  | read env index read =>
    obtain ⟨index', hnext⟩ := h.update index fun s => (s.pump kcp env read, [])
    exact ⟨_, .read env index index' read, hnext⟩
  | datagram env index source data =>
    have hport : t.publisher.bindPort = p.bindPort := by rw [h.rest]
    by_cases hsource : source ≠ .inet Publisher.loopback t.publisher.bindPort
    · refine ⟨_, .datagram env index index source data, ?_⟩
      show Mirrors (t.publisher.receiveBackend env index source data) (p.receiveBackend env index source data)
      unfold Publisher.receiveBackend
      rw [if_pos hsource, if_pos (hport ▸ hsource)]
      exact h
    · obtain ⟨index', hnext⟩ := h.update index _
      refine ⟨_, .datagram env index index' source data, ?_⟩
      show Mirrors (t.publisher.receiveBackend env index source data) (p.receiveBackend env index' source data)
      unfold Publisher.receiveBackend
      rw [if_neg hsource, if_neg (hport ▸ hsource)]
      exact hnext
  | maintain env index =>
    obtain ⟨index', hnext⟩ := h.update index fun s => s.maintain kcp env
    exact ⟨_, .maintain env index index', hnext⟩
  | unselectable env index =>
    obtain ⟨index', hnext⟩ := h.update index _
    exact ⟨_, .unselectable env index index', hnext⟩
  | close env => exact ⟨_, .close env, h.closeAll env⟩

/-- Every run of the slots is a run of a table that only grows. -/
theorem run (h : Mirrors t.publisher p) (hkeyed : t.Keyed proto) (events : List TableEvent) :
    ∃ events', List.Forall₂ TableEvent.Placed events events' ∧
      Mirrors (t.run kcp events).publisher (events'.foldl (Publisher.tableStep kcp) p) := by
  induction events generalizing t p with
  | nil => exact ⟨[], .nil, h⟩
  | cons event events ih =>
    obtain ⟨event', hplaced, hnext⟩ := h.step hkeyed event
    obtain ⟨events', hall, hlast⟩ := ih hnext (hkeyed.step event)
    exact ⟨event' :: events', .cons hplaced hall, hlast⟩

end Mirrors

/-- The slots refine a table that only grows: the same events, each at the index that its session has there,
lead to the same sessions in use and to the same datagrams. -/
theorem slots_refine (kcp : ByteChannel.Ops κ) (proto : Proto) (selfId : Bytes) (bindPort : UInt16) (sweep : Nat)
    (events : List TableEvent) : ∃ events', List.Forall₂ TableEvent.Placed events events' ∧
      Mirrors ((SessionTable.start proto selfId bindPort sweep).run kcp events).publisher
        (events'.foldl (Publisher.tableStep kcp) (.start proto selfId bindPort sweep)) := by
  have hstart : Mirrors (SessionTable.start (κ := κ) proto selfId bindPort sweep).publisher
      (.start proto selfId bindPort sweep) := ⟨rfl, List.Perm.refl _⟩
  exact hstart.run (SessionTable.start_keyed proto selfId bindPort sweep) events

end Redp2p
