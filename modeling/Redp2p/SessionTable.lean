import Redp2p.Handshake
import Redp2p.PunchAnswers
import Redp2p.Lib.SlotTable

/-! The table that a publisher keeps its sessions in: a session takes the first slot that is free, and the
array behind the table grows when there is none. -/

namespace Redp2p

/-- `redp2p_publisher_build_fdset` for a session whose backend descriptor does not fit the set. -/
def Publisher.dropBackend {κ : Type} (kcp : ByteChannel.Ops κ) (env : StreamEnv) (p : Publisher κ)
    (index : Nat) : Publisher κ :=
  p.update index fun s =>
    match s.link with
    | .udp _ => ({ s with link := s.link.shut }, [])
    | .tcp party =>
      if !streamCanSendData kcp party.st then (s, []) else ({ s with link := .tcp (party.close env) }, [])

/-- A publisher whose sessions lie in slots, with the size of the array behind them. -/
structure SessionTable (κ : Type) where
  publisher : Publisher κ
  capacity : Nat

/-- What opens, changes or closes sessions. `grows` tells whether there is memory for a larger array. -/
inductive TableEvent where
  | opens (env : StreamEnv) (backendOk grows : Bool) (sessionId : SessionId) (peerAddr : SockAddr)
  | receive (env : StreamEnv) (source : SockAddr) (data : ByteString.Bytes)
  | read (env : StreamEnv) (index : Nat) (read : TcpRead)
  | datagram (env : StreamEnv) (index : Nat) (source : SockAddr) (data : ByteString.Bytes)
  | maintain (env : StreamEnv) (index : Nat)
  | unselectable (env : StreamEnv) (index : Nat)
  | close (env : StreamEnv)

namespace TableEvent

def opening : TableEvent → Bool
  | .opens _ _ _ _ _ => true
  | _ => false

theorem opening_cases (event : TableEvent) : event.opening = false ∨
    ∃ env backendOk grows sessionId peerAddr, event = .opens env backendOk grows sessionId peerAddr := by
  cases event with
  | opens env backendOk grows sessionId peerAddr => exact Or.inr ⟨_, _, _, _, _, rfl⟩
  | receive => exact Or.inl rfl
  | read => exact Or.inl rfl
  | datagram => exact Or.inl rfl
  | maintain => exact Or.inl rfl
  | unselectable => exact Or.inl rfl
  | close => exact Or.inl rfl

end TableEvent

namespace SessionTable

variable {κ : Type} (kcp : ByteChannel.Ops κ)

open ByteString

def start (proto : Proto) (selfId : Bytes) (bindPort : UInt16) (sweep : Nat) : SessionTable κ :=
  ⟨.start proto selfId bindPort sweep, 0⟩

def slots (t : SessionTable κ) : List (Session κ) := t.publisher.sessions

/-- `redp2p_publisher_session_insert`, and whether it has a slot for the session. -/
def sessionInsert (t : SessionTable κ) (grows : Bool) (session : Session κ) : SessionTable κ × Bool :=
  let full : Bool := (SlotTable.freeSlot (fun s : Session κ => s.link.active) t.slots).isNone &&
    t.slots.length ≥ t.capacity
  if full && !grows then (t, false)
  else
    ({ publisher := { t.publisher with
        sessions := SlotTable.insert (fun s : Session κ => s.link.active) t.slots session }
       capacity := if full then (if t.capacity = 0 then 8 else t.capacity * 2) else t.capacity }, true)

/-- `redp2p_publisher_open_session`. -/
def openSession (t : SessionTable κ) (env : StreamEnv) (backendOk grows : Bool) (sessionId : SessionId)
    (peerAddr : SockAddr) : SessionTable κ × Bool :=
  let wanted := if t.publisher.proto = .tcp then some sessionId else none
  if (t.publisher.sessionFind peerAddr wanted).isSome then (t, true)
  else if !backendOk then (t, false)
  else t.sessionInsert grows (.opened env peerAddr (Publisher.newLink kcp env t.publisher.proto sessionId))

def step (t : SessionTable κ) : TableEvent → SessionTable κ
  | .opens env backendOk grows sessionId peerAddr =>
    (t.openSession kcp env backendOk grows sessionId peerAddr).1
  | .receive env source data => { t with publisher := (t.publisher.receivePeer kcp env source data).1 }
  | .read env index read => { t with publisher := t.publisher.pumpBackend kcp env index read }
  | .datagram env index source data =>
    { t with publisher := t.publisher.receiveBackend env index source data }
  | .maintain env index => { t with publisher := t.publisher.maintain kcp env index }
  | .unselectable env index => { t with publisher := t.publisher.dropBackend kcp env index }
  | .close env => { t with publisher := t.publisher.closeAll kcp env }

def run : SessionTable κ → List TableEvent → SessionTable κ := List.foldl (step kcp)

end SessionTable

/-! ### What a session keeps -/

/-- The session of a publisher in this mode. -/
def Link.Fits {κ : Type} (proto : Proto) : Link κ → Prop
  | .udp _ => proto = .udp
  | .tcp party => proto = .tcp ∧ party.st.transportProtocol = UInt8.ofNat protoTcp

namespace Session

variable {κ : Type} {kcp : ByteChannel.Ops κ} {proto : Proto}

/-- What a session is found by. -/
def key (s : Session κ) : SockAddr × Option SessionId := (s.peerAddr, s.link.id)

/-- The second session is the first one later on. -/
structure Continues (proto : Proto) (s s' : Session κ) : Prop where
  key : s'.key = s.key
  fits : s'.link.Fits proto

theorem Continues.refl {s : Session κ} (h : s.link.Fits proto) : Continues proto s s := ⟨rfl, h⟩

theorem Continues.trans {s s' s'' : Session κ} (h : Continues proto s s') (h' : Continues proto s' s'') :
    Continues proto s s'' := ⟨h'.key.trans h.key, h'.fits⟩

/-- A stream that moves on stays the same stream. -/
theorem Continues.of_moves (greets : Prop) {s s' : Session κ} {party party' : Party κ}
    (hlink : s.link = .tcp party) (h : s.link.Fits proto) (hmoves : Moves greets party party')
    (haddr : s'.peerAddr = s.peerAddr) (hlink' : s'.link = .tcp party') : Continues proto s s' := by
  rw [hlink] at h
  have hsame := hmoves.keeps.same
  refine ⟨?_, ?_⟩
  · rw [Session.key, Session.key, haddr, hlink, hlink', Link.id, Link.id, hsame.sessionId]
  · rw [hlink']
    exact ⟨h.1, hsame.transportProtocol.trans h.2⟩

theorem Continues.shut {s s' : Session κ} (h : Continues proto s s') :
    Continues proto s { s' with link := s'.link.shut } := by
  obtain ⟨hkey, hfits⟩ := h
  have hid : s'.link.shut.id = s'.link.id := by cases s'.link <;> rfl
  refine ⟨?_, ?_⟩
  · rw [← hkey, Session.key, Session.key, hid]
  · show s'.link.shut.Fits proto
    cases hlink : s'.link <;> rw [hlink] at hfits <;> exact hfits

theorem receive_continues {s : Session κ} (h : s.link.Fits proto) (env : StreamEnv)
    (data : ByteString.Bytes) : Continues proto s (s.receive kcp env data).1 := by
  unfold receive
  split
  · rename_i u hlink
    rw [hlink] at h
    have hsame : ∀ s' : Session κ, s'.peerAddr = s.peerAddr → (∃ u', s'.link = .udp u') →
        Continues proto s s' := by
      rintro s' haddr ⟨u', hlink'⟩
      refine ⟨?_, ?_⟩
      · rw [Session.key, Session.key, haddr, hlink, hlink']
        rfl
      · rw [hlink']
        exact h
    split
    · exact hsame _ rfl ⟨u, hlink⟩
    split
    · exact hsame _ rfl ⟨u, hlink⟩
    split
    · exact hsame _ rfl ⟨u, hlink⟩
    · exact hsame _ rfl ⟨_, rfl⟩
  · rename_i party hlink
    split
    · exact .refl h
    · have hprotocol : party.st.transportProtocol = UInt8.ofNat protoTcp := by
        rw [hlink] at h
        exact h.2
      exact .of_moves _ hlink h (absorb_moves env (process_conduct kcp env hprotocol data) hprotocol) rfl rfl

theorem pump_continues {s : Session κ} (h : s.link.Fits proto) (env : StreamEnv) (read : TcpRead) :
    Continues proto s (s.pump kcp env read) := by
  unfold pump
  split
  · exact .refl h
  · rename_i party hlink
    have hprotocol : party.st.transportProtocol = UInt8.ofNat protoTcp := by
      rw [hlink] at h
      exact h.2
    have hpump : Moves True { party with
        readBytes := party.readBytes ++ streamPumped kcp party.st read } _ :=
      absorb_moves env (pump_conduct kcp env read) hprotocol
    exact .of_moves _ hlink h ⟨hpump.keeps, hpump.said, hpump.spoken⟩ rfl rfl

theorem expire_continues {s : Session κ} (h : s.link.Fits proto) (env : StreamEnv) :
    Continues proto s (s.expire env).1 := by
  have hnoted : ∀ lastKa, Continues proto s { s with lastKa } := fun _ => ⟨rfl, h⟩
  unfold expire
  dsimp only
  split
  · split
    · exact (hnoted _).shut
    · exact hnoted _
  · split
    · exact (Continues.refl h).shut
    · exact .refl h

theorem maintain_continues {s : Session κ} (h : s.link.Fits proto) (env : StreamEnv) :
    Continues proto s (s.maintain kcp env).1 := by
  unfold maintain
  split
  · exact expire_continues h env
  · rename_i party hlink
    have hprotocol : party.st.transportProtocol = UInt8.ofNat protoTcp := by
      rw [hlink] at h
      exact h.2
    have htick : Continues proto s
        { s with link := .tcp (party.absorb env (streamTick kcp env party.st)) } :=
      .of_moves True hlink h (absorb_moves env (tick_conduct kcp env hprotocol) hprotocol) rfl rfl
    dsimp only
    split
    · exact htick.shut
    · exact htick.trans (expire_continues htick.fits env)

theorem close_continues {s : Session κ} (h : s.link.Fits proto) (env : StreamEnv) :
    Continues proto s (s.close kcp env) := by
  unfold close
  split
  · unfold Link.close
    split
    · rename_i u hlink
      have hshut := (Continues.refl h).shut
      rwa [hlink] at hshut
    · rename_i party hlink
      have hprotocol : party.st.transportProtocol = UInt8.ofNat protoTcp := by
        rw [hlink] at h
        exact h.2
      split
      · have hshut := (Continues.refl h).shut
        rwa [hlink] at hshut
      · exact .of_moves True hlink h (close_moves env hprotocol) rfl rfl
  · exact .refl h

theorem close_inactive {s : Session κ} (h : s.link.active = false) (env : StreamEnv) :
    s.close kcp env = s := by
  unfold close
  rw [h]
  rfl

end Session

/-! ### The invariant of the table -/

namespace SessionTable

variable {κ : Type} {kcp : ByteChannel.Ops κ} {proto : Proto}

/-- The slots in use hold sessions of the mode of the publisher, no two of them with the same key, and the
array is large enough for the slots. -/
structure Keyed (proto : Proto) (t : SessionTable κ) : Prop where
  mode : t.publisher.proto = proto
  fits : ∀ s ∈ t.slots, s.link.Fits proto
  distinct : SlotTable.Distinct (fun s : Session κ => s.link.active) Session.key t.slots
  within : t.slots.length ≤ t.capacity

/-- The sessions of a publisher go on or stay as they are. -/
structure Onward (proto : Proto) (p q : Publisher κ) : Prop where
  mode : q.proto = p.proto
  evolved : SlotTable.Evolved (fun s : Session κ => s.link.active) Session.key p.sessions q.sessions
  fits : (∀ s ∈ p.sessions, s.link.Fits proto) → ∀ s ∈ q.sessions, s.link.Fits proto

theorem Onward.refl (p : Publisher κ) : Onward proto p p := ⟨rfl, .refl _, id⟩

/-- One session in use goes on. -/
theorem Onward.set {p q : Publisher κ} {index : Nat} {s s' : Session κ} (hs : p.sessions[index]? = some s)
    (hactive : s.link.active = true) (hnext : s.Continues proto s') (hproto : q.proto = p.proto)
    (hset : q.sessions = p.sessions.set index s') : Onward proto p q := by
  refine ⟨hproto, ?_, fun hfits x hx => ?_⟩
  · rw [hset]
    exact .set hs hactive hnext.key
  · rw [hset] at hx
    rcases List.mem_or_eq_of_mem_set hx with hold | rfl
    · exact hfits x hold
    · exact hnext.fits

theorem update_onward {p : Publisher κ} (hfits : ∀ s ∈ p.sessions, s.link.Fits proto) (index : Nat)
    {change : Session κ → Session κ × List (SockAddr × ByteString.Bytes)}
    (h : ∀ s : Session κ, s.link.Fits proto → s.Continues proto (change s).1) :
    Onward proto p (p.update index change) := by
  unfold Publisher.update
  split
  · exact .refl p
  rename_i s hs
  split
  · rename_i hactive
    exact .set hs hactive (h s (hfits s (List.mem_of_getElem? hs))) rfl rfl
  · exact .refl p

/-- The session that a datagram belongs to is in use and has the key that the datagram names. -/
theorem locate_some {p : Publisher κ} {source : SockAddr} {data : ByteString.Bytes} {index : Nat}
    (h : p.locate source data = some index) :
    ∃ s, p.sessions[index]? = some s ∧ s.link.active = true ∧ s.peerAddr = source ∧
      (p.proto = .tcp → ∃ envelope, streamUnpack data = some envelope ∧
        s.link.id = some envelope.sessionId) := by
  have hfound : ∀ wanted : Option SessionId, p.sessionFind source wanted = some index →
      ∃ s, p.sessions[index]? = some s ∧ s.link.active = true ∧ s.peerAddr = source ∧
        s.link.serves wanted = true := by
    intro wanted hfind
    obtain ⟨hbound, hmatch, -⟩ := List.findIdx?_eq_some_iff_getElem.mp hfind
    simp only [Bool.and_eq_true, beq_iff_eq] at hmatch
    exact ⟨_, List.getElem?_eq_getElem hbound, hmatch.1.1, hmatch.1.2, hmatch.2⟩
  unfold Publisher.locate at h
  split at h
  · rename_i hproto
    split at h
    · exact nomatch h
    rename_i envelope hunpack
    obtain ⟨s, hs, hactive, haddr, hserves⟩ := hfound _ h
    refine ⟨s, hs, hactive, haddr, fun _ => ⟨envelope, hunpack, ?_⟩⟩
    cases hlink : s.link with
    | udp u =>
      rw [hlink] at hserves
      exact nomatch hserves
    | tcp party =>
      rw [hlink] at hserves
      simp only [Link.serves, beq_iff_eq] at hserves
      exact hserves.symm
  · rename_i hproto
    obtain ⟨s, hs, hactive, haddr, -⟩ := hfound _ h
    exact ⟨s, hs, hactive, haddr, fun htcp => nomatch hproto.symm.trans htcp⟩

/-- A datagram changes no session but the one that it belongs to. -/
theorem receivePeer_sessions (p : Publisher κ) (kcp : ByteChannel.Ops κ) (env : StreamEnv) (source : SockAddr)
    (data : ByteString.Bytes) :
    (p.receivePeer kcp env source data).1.proto = p.proto ∧
    ((p.receivePeer kcp env source data).1.sessions = p.sessions ∨
      ∃ index s, p.locate source data = some index ∧ p.sessions[index]? = some s ∧
        (p.receivePeer kcp env source data).1.sessions =
          p.sessions.set index (s.receive kcp env data).1) := by
  unfold Publisher.receivePeer
  split
  · exact ⟨rfl, Or.inl rfl⟩
  split
  · exact ⟨rfl, Or.inl rfl⟩
  rename_i index hlocate
  split
  · exact ⟨rfl, Or.inl rfl⟩
  rename_i s hs
  exact ⟨rfl, Or.inr ⟨index, s, hlocate, hs, rfl⟩⟩

theorem receivePeer_onward {p : Publisher κ} (hfits : ∀ s ∈ p.sessions, s.link.Fits p.proto)
    (env : StreamEnv) (source : SockAddr) (data : ByteString.Bytes) :
    Onward p.proto p (p.receivePeer kcp env source data).1 := by
  obtain ⟨hproto, hsame | ⟨index, s, hlocate, hs, hset⟩⟩ :=
    receivePeer_sessions p kcp env source data
  · refine ⟨hproto, ?_, ?_⟩
    · rw [hsame]
      exact .refl _
    · rw [hsame]
      exact id
  · obtain ⟨s', hs', hactive, -, -⟩ := locate_some hlocate
    obtain rfl := Option.some.inj (hs.symm.trans hs')
    exact .set hs hactive (s.receive_continues (hfits s (List.mem_of_getElem? hs)) env data) hproto hset

/-- Every event but an opening lets sessions go on or leaves them as they are. -/
theorem step_onward {t : SessionTable κ} (h : Keyed proto t) (kcp : ByteChannel.Ops κ) (event : TableEvent)
    (hevent : event.opening = false) :
    Onward proto t.publisher (t.step kcp event).publisher ∧ (t.step kcp event).capacity = t.capacity := by
  refine ⟨?_, ?_⟩
  · cases event with
    | opens env backendOk grows sessionId peerAddr => exact nomatch hevent
    | receive env source data =>
      obtain rfl := h.mode
      exact receivePeer_onward h.fits env source data
    | read env index read => exact update_onward h.fits index fun s hs => s.pump_continues hs env read
    | datagram env index source data =>
      show Onward proto t.publisher (t.publisher.receiveBackend env index source data)
      unfold Publisher.receiveBackend
      split
      · exact .refl _
      · refine update_onward h.fits index fun s hs => ?_
        split
        · exact .refl hs
        · rename_i u hlink
          rw [hlink] at hs
          exact ⟨by simp [Session.key, hlink, Link.id], hs⟩
    | maintain env index => exact update_onward h.fits index fun s hs => s.maintain_continues hs env
    | unselectable env index =>
      refine update_onward h.fits index fun s hs => ?_
      split
      · exact (Session.Continues.refl hs).shut
      · rename_i party hlink
        have hprotocol : party.st.transportProtocol = UInt8.ofNat protoTcp := by
          rw [hlink] at hs
          exact hs.2
        split
        · exact .refl hs
        · exact .of_moves True hlink hs (close_moves env hprotocol) rfl rfl
    | close env =>
      refine ⟨rfl, .map fun s hs => ?_, fun hfits x hx => ?_⟩
      · cases hactive : s.link.active with
        | false => exact Or.inl (s.close_inactive hactive env)
        | true => exact Or.inr ⟨rfl, (s.close_continues (h.fits s hs) env).key⟩
      · obtain ⟨s, hs, rfl⟩ := List.mem_map.mp hx
        exact (s.close_continues (hfits s hs) env).fits
  · cases event with
    | opens env backendOk grows sessionId peerAddr => exact nomatch hevent
    | receive => rfl
    | read => rfl
    | datagram => rfl
    | maintain => rfl
    | unselectable => rfl
    | close => rfl

theorem newLink_fits (proto : Proto) (env : StreamEnv) (sessionId : SessionId) :
    (Publisher.newLink kcp env proto sessionId).Fits proto := by
  cases proto with
  | tcp => exact ⟨rfl, rfl⟩
  | udp => rfl

/-- An insertion fails and changes nothing, or takes a slot. -/
theorem sessionInsert_cases (t : SessionTable κ) (grows : Bool) (session : Session κ) :
    t.sessionInsert grows session = (t, false) ∨
      (t.sessionInsert grows session).2 = true ∧
      (t.sessionInsert grows session).1.publisher.proto = t.publisher.proto ∧
      (t.sessionInsert grows session).1.slots =
        SlotTable.insert (fun s : Session κ => s.link.active) t.slots session ∧
      (t.slots.length ≤ t.capacity → (t.sessionInsert grows session).1.slots.length ≤
        (t.sessionInsert grows session).1.capacity) := by
  unfold sessionInsert
  dsimp only
  split
  · exact Or.inl rfl
  refine Or.inr ⟨rfl, rfl, rfl, fun hwithin => ?_⟩
  show (SlotTable.insert _ t.slots session).length ≤ _
  unfold SlotTable.insert
  cases hfree : SlotTable.freeSlot (fun s : Session κ => s.link.active) t.slots with
  | some index => simpa using hwithin
  | none =>
    simp only [Option.isNone_none, Bool.true_and, decide_eq_true_eq, List.length_append,
      List.length_singleton]
    split
    · split <;> omega
    · omega

/-- An opening that finds no session of its key inserts one, if it can. -/
theorem openSession_cases (kcp : ByteChannel.Ops κ) (t : SessionTable κ) (env : StreamEnv)
    (backendOk grows : Bool) (sessionId : SessionId) (peerAddr : SockAddr) :
    (t.openSession kcp env backendOk grows sessionId peerAddr).1 = t ∨
      (∀ s ∈ t.slots, s.link.Fits t.publisher.proto → s.link.active = true →
        s.key ≠ (Session.opened env peerAddr
          (Publisher.newLink kcp env t.publisher.proto sessionId)).key) ∧
      t.openSession kcp env backendOk grows sessionId peerAddr = t.sessionInsert grows
        (.opened env peerAddr (Publisher.newLink kcp env t.publisher.proto sessionId)) := by
  unfold openSession
  dsimp only
  generalize hwanted : (if t.publisher.proto = .tcp then some sessionId else none) = wanted
  split
  · exact Or.inl rfl
  rename_i hnone
  split
  · exact Or.inl rfl
  refine Or.inr ⟨fun s hs hfits hactive hkey => ?_, rfl⟩
  subst hwanted
  have habsent := List.findIdx?_eq_none_iff.mp (Option.not_isSome_iff_eq_none.mp hnone) s hs
  obtain ⟨haddr, hid⟩ := Prod.mk.inj hkey
  rw [hactive, show s.peerAddr = peerAddr from haddr] at habsent
  simp only [Bool.true_and, beq_self_eq_true] at habsent
  cases hproto : t.publisher.proto with
  | tcp =>
    rw [hproto] at habsent hid hfits
    cases hlink : s.link with
    | udp u =>
      rw [hlink] at hfits
      exact nomatch hfits
    | tcp party =>
      rw [hlink] at habsent hid
      have hsame : party.st.sessionId = sessionId := Option.some.inj hid
      simp [Link.serves, hsame] at habsent
  | udp =>
    rw [hproto] at habsent hfits
    cases hlink : s.link with
    | udp u =>
      rw [hlink] at habsent
      simp [Link.serves] at habsent
    | tcp party =>
      rw [hlink] at hfits
      exact nomatch hfits.1

/-- Every event keeps the invariant. -/
theorem Keyed.step {t : SessionTable κ} (h : Keyed proto t) (event : TableEvent) :
    Keyed proto (t.step kcp event) := by
  rcases event.opening_cases with hevent | ⟨env, backendOk, grows, sessionId, peerAddr, rfl⟩
  · obtain ⟨honward, hcapacity⟩ := step_onward h kcp event hevent
    refine ⟨honward.mode.trans h.mode, honward.fits h.fits, h.distinct.evolved honward.evolved, ?_⟩
    rw [hcapacity]
    exact Nat.le_trans (Nat.le_of_eq honward.evolved.length) h.within
  · show Keyed proto (t.openSession kcp env backendOk grows sessionId peerAddr).1
    rcases openSession_cases kcp t env backendOk grows sessionId peerAddr with hsame | ⟨hfresh, hinsert⟩
    · rw [hsame]
      exact h
    rw [hinsert]
    rcases sessionInsert_cases t grows
      (.opened env peerAddr (Publisher.newLink kcp env t.publisher.proto sessionId)) with
      hfull | ⟨-, hproto, hslots, hwithin⟩
    · rw [hfull]
      exact h
    · refine ⟨hproto.trans h.mode, ?_, ?_, hwithin h.within⟩
      · rw [hslots]
        intro s hs
        rcases SlotTable.mem_insert hs with rfl | hold
        · rw [← h.mode]
          exact newLink_fits _ env sessionId
        · exact h.fits s hold
      · rw [hslots]
        refine h.distinct.insert fun s hs hactive => hfresh s hs ?_ hactive
        rw [h.mode]
        exact h.fits s hs

theorem Keyed.run {t : SessionTable κ} (h : Keyed proto t) (events : List TableEvent) :
    Keyed proto (t.run kcp events) := by
  induction events generalizing t with
  | nil => exact h
  | cons event rest ih => exact ih (h.step event)

theorem start_keyed (proto : Proto) (selfId : ByteString.Bytes) (bindPort : UInt16) (sweep : Nat) :
    Keyed proto (start (κ := κ) proto selfId bindPort sweep) :=
  ⟨rfl, fun _ h => (List.not_mem_nil h).elim, fun i _ _ _ h => by simp [start, slots, Publisher.start] at h,
    Nat.le_refl _⟩

/-- An opening changes no session that is in use. -/
theorem opening_keeps {t : SessionTable κ} (event : TableEvent) (hevent : event.opening = true) {i : Nat}
    {s : Session κ} (hs : t.slots[i]? = some s) (hactive : s.link.active = true) :
    (t.step kcp event).slots[i]? = some s := by
  rcases event.opening_cases with hother | ⟨env, backendOk, grows, sessionId, peerAddr, rfl⟩
  · exact absurd hevent (by simp [hother])
  show (t.openSession kcp env backendOk grows sessionId peerAddr).1.slots[i]? = some s
  rcases openSession_cases kcp t env backendOk grows sessionId peerAddr with hsame | ⟨-, hinsert⟩
  · rw [hsame, hs]
  rw [hinsert]
  rcases sessionInsert_cases t grows
    (.opened env peerAddr (Publisher.newLink kcp env t.publisher.proto sessionId)) with
    hfull | ⟨-, -, hslots, -⟩
  · rw [hfull, hs]
  · rw [hslots]
    exact SlotTable.insert_keeps hs hactive

/-- What an event does to a session in use: it is the same session afterwards. -/
theorem step_inUse {t : SessionTable κ} (h : Keyed proto t) (kcp : ByteChannel.Ops κ) (event : TableEvent) {i : Nat}
    {s : Session κ} (hs : t.slots[i]? = some s) (hactive : s.link.active = true) :
    ∃ s', (t.step kcp event).slots[i]? = some s' ∧ s'.key = s.key := by
  rcases event.opening_cases with hevent | ⟨env, backendOk, grows, sessionId, peerAddr, rfl⟩
  · obtain ⟨s', hs', hcases⟩ := (step_onward h kcp event hevent).1.evolved.slot i s hs
    exact ⟨s', hs', hcases.elim (fun heq => heq ▸ rfl) And.right⟩
  · exact ⟨s, opening_keeps _ rfl hs hactive, rfl⟩

/-- A slot that is not in use changes only when a session is opened. -/
theorem step_unused {t : SessionTable κ} (h : Keyed proto t) {event : TableEvent}
    (hevent : event.opening = false) {i : Nat} {s : Session κ} (hs : t.slots[i]? = some s)
    (hunused : s.link.active = false) : (t.step kcp event).slots[i]? = some s := by
  obtain ⟨s', hs', hsame | ⟨hactive, -⟩⟩ :=
    (step_onward h kcp event hevent).1.evolved.slot i s hs
  · rw [← hsame]
    exact hs'
  · exact absurd hunused (by simp [hactive])

end SessionTable

/-- In every state that a publisher reaches no two sessions in use have the same peer address and, with
streams, the same session identifier. A session in use stays in its slot until it is closed: an opening
leaves it as it is, and nothing else fills a slot. A datagram changes no session but the one in use that
its source and, with streams, its session identifier name. -/
theorem sessions_keyed {κ : Type} (kcp : ByteChannel.Ops κ) (proto : Proto) (selfId : ByteString.Bytes)
    (bindPort : UInt16) (sweep : Nat) (events : List TableEvent) :
    let t := (SessionTable.start proto selfId bindPort sweep).run kcp events
    (∀ (i j : Nat) (s s' : Session κ), t.slots[i]? = some s → t.slots[j]? = some s' →
      s.link.active = true → s'.link.active = true → s.peerAddr = s'.peerAddr →
        (proto = .tcp → s.link.id = s'.link.id) → i = j) ∧
    (∀ (event : TableEvent) (i : Nat) (s : Session κ), t.slots[i]? = some s →
      (s.link.active = true → (∃ s', (t.step kcp event).slots[i]? = some s' ∧
        s'.peerAddr = s.peerAddr ∧ s'.link.id = s.link.id) ∧
        (event.opening = true → (t.step kcp event).slots[i]? = some s)) ∧
      (s.link.active = false → event.opening = false → (t.step kcp event).slots[i]? = some s)) ∧
    ∀ (env : StreamEnv) (source : SockAddr) (data : ByteString.Bytes) (i : Nat) (s : Session κ),
      t.slots[i]? = some s → (t.step kcp (.receive env source data)).slots[i]? ≠ some s →
        s.link.active = true ∧ s.peerAddr = source ∧
          (proto = .tcp → ∃ envelope, streamUnpack data = some envelope ∧
            s.link.id = some envelope.sessionId) := by
  intro t
  have h : SessionTable.Keyed proto t :=
    (SessionTable.start_keyed proto selfId bindPort sweep).run events
  refine ⟨?_, fun event i s hs => ⟨fun hactive => ⟨?_, fun hopening => ?_⟩, fun hunused hevent => ?_⟩, ?_⟩
  · intro i j s s' hs hs' hactive hactive' haddr hid
    refine h.distinct i j s s' hs hs' hactive hactive' (Prod.ext haddr ?_)
    show s.link.id = s'.link.id
    cases hproto : proto with
    | tcp => exact hid hproto
    | udp =>
      -- No session of a publisher that forwards datagrams has an identifier.
      have hnone : ∀ x ∈ t.slots, x.link.id = none := by
        intro x hx
        have hfits := h.fits x hx
        rw [hproto] at hfits
        cases hlink : x.link with
        | udp => rfl
        | tcp =>
          rw [hlink] at hfits
          exact nomatch hfits.1
      rw [hnone s (List.mem_of_getElem? hs), hnone s' (List.mem_of_getElem? hs')]
  · obtain ⟨s', hs', hkey⟩ := SessionTable.step_inUse h kcp event hs hactive
    obtain ⟨haddr, hid⟩ := Prod.mk.inj hkey
    exact ⟨s', hs', haddr, hid⟩
  · exact SessionTable.opening_keeps event hopening hs hactive
  · exact SessionTable.step_unused h hevent hs hunused
  · intro env source data i s hs hchanged
    obtain ⟨-, hsame | ⟨index, x, hlocate, hx, hset⟩⟩ :=
      SessionTable.receivePeer_sessions t.publisher kcp env source data
    · refine absurd ?_ hchanged
      show (t.publisher.receivePeer kcp env source data).1.sessions[i]? = some s
      rw [hsame]
      exact hs
    by_cases heq : index = i
    · subst heq
      obtain rfl := Option.some.inj (hs.symm.trans hx)
      obtain ⟨x, hx', hactive, haddr, hid⟩ := SessionTable.locate_some hlocate
      obtain rfl := Option.some.inj (hs.symm.trans hx')
      exact ⟨hactive, haddr, fun hproto => hid (h.mode.trans hproto)⟩
    · refine absurd ?_ hchanged
      show (t.publisher.receivePeer kcp env source data).1.sessions[i]? = some s
      rw [hset, List.getElem?_set_ne heq]
      exact hs

/-- The host of the sample, at so many milliseconds. -/
def tableEnv (now : UInt64) : StreamEnv := ⟨now, fun _ => true, List.length⟩

/-- The sample publisher opens a session for a peer of this port. -/
def tableOpens (now : UInt64) (port : UInt16) : TableEvent :=
  .opens (tableEnv now) true true (Vector.replicate 16 0) (.inet [10, 0, 0, 1] port)

/-- Two peers are served, the first one falls silent, and a third one takes its slot. -/
def tableEvents : List TableEvent :=
  [tableOpens 0 1, tableOpens 0 2, .maintain (tableEnv 11000) 0, tableOpens 11000 3]

theorem sessions_keyed_sample :
    let t := (SessionTable.start .udp (ByteString.ascii "pub") 9000 0).run sampleChannel tableEvents
    t.slots.map (fun s => (s.peerAddr, s.link.active)) =
        [(.inet [10, 0, 0, 1] 3, true), (.inet [10, 0, 0, 1] 2, true)] ∧
      ∀ (i : Nat) (s : Session Unit), t.slots[i]? = some s →
        (t.step sampleChannel (.receive (tableEnv 11000) (.inet [10, 0, 0, 1] 3) [0x61])).slots[i]? ≠ some s →
          s.peerAddr = .inet [10, 0, 0, 1] 3 := by
  refine ⟨by decide +kernel, fun i s hs hchanged => ?_⟩
  exact ((sessions_keyed sampleChannel .udp (ByteString.ascii "pub") 9000 0 tableEvents).2.2
    (tableEnv 11000) (.inet [10, 0, 0, 1] 3) [0x61] i s hs hchanged).2.1

end Redp2p
