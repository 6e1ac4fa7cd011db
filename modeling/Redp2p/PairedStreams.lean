import Redp2p.GracefulClose
import Redp2p.PeerSteps

/-! Stream sessions in two tables, paired by their session identifiers: each pair is one session of
linked ends, whether or not both sides have opened it yet. -/

namespace Redp2p

open ByteString ByteChannel

variable {κ : Type} {kcp : Ops κ}

/-- The end of a session in a table, or the end that the session would begin with. -/
def partyAt (kcp : Ops κ) (initiator : Bool) (links : List (Link κ)) (sessionId : SessionId)
    (now : UInt64) : Party κ :=
  match Keyed.lookup Link.id (some sessionId) links with
  | some (.tcp party) => party
  | _ => Party.opened kcp initiator sessionId now

theorem partyAt_mem {initiator : Bool} {links : List (Link κ)} {party : Party κ}
    (hunique : Keyed.Unique Link.id links) (hmem : .tcp party ∈ links) (now : UInt64) :
    partyAt kcp initiator links party.st.sessionId now = party := by
  have hlookup : Keyed.lookup Link.id (some party.st.sessionId) links = some (.tcp party) :=
    (Keyed.lookup_eq_some_iff hunique).mpr ⟨hmem, rfl⟩
  rw [partyAt, hlookup]

theorem partyAt_absent {initiator : Bool} {links : List (Link κ)} {sessionId : SessionId}
    (habsent : Keyed.lookup Link.id (some sessionId) links = none) (now : UInt64) :
    partyAt kcp initiator links sessionId now = Party.opened kcp initiator sessionId now := by
  rw [partyAt, habsent]

/-- Two tables of stream sessions whose ends are linked. The first holds the ends of one role. -/
structure Paired (kcp : Ops κ) (initiator : Bool) (left right : List (Link κ)) : Prop where
  streams : ∀ link ∈ left, ∃ party, link = .tcp party
  peerStreams : ∀ link ∈ right, ∃ party, link = .tcp party
  unique : Keyed.Unique Link.id left
  peerUnique : Keyed.Unique Link.id right
  linked : ∀ sessionId t₁ t₂, ∃ m p, Linked kcp (partyAt kcp initiator left sessionId t₁)
    (partyAt kcp (!initiator) right sessionId t₂) m p

namespace Paired

variable {initiator : Bool} {left right : List (Link κ)} {me me' : Party κ}

theorem symm (h : Paired kcp initiator left right) : Paired kcp (!initiator) right left where
  streams := h.peerStreams
  peerStreams := h.streams
  unique := h.peerUnique
  peerUnique := h.unique
  linked := by
    intro sessionId t₁ t₂
    obtain ⟨m, p, hlinked⟩ := h.linked sessionId t₂ t₁
    rw [Bool.not_not]
    exact ⟨p, m, hlinked.symm⟩

theorem nil (kcp : Ops κ) : Paired kcp true [] [] := by
  have hlinked : ∀ sessionId t₁ t₂, ∃ m p, Linked kcp (partyAt kcp true [] sessionId t₁)
      (partyAt kcp false [] sessionId t₂) m p := by
    intro sessionId t₁ t₂
    rw [partyAt_absent (Keyed.lookup_nil _), partyAt_absent (Keyed.lookup_nil _)]
    exact ⟨_, _, opened_linked kcp sessionId t₁ t₂⟩
  exact ⟨by simp, by simp, by simp [Keyed.Unique], by simp [Keyed.Unique], hlinked⟩

/-- One end of a pair moves on. -/
theorem set {i : Nat} (h : Paired kcp initiator left right) (hme : left[i]? = some (.tcp me))
    (hstep : ∀ t m p, Linked kcp me (partyAt kcp (!initiator) right me.st.sessionId t) m p →
      ∃ m', Linked kcp me' (partyAt kcp (!initiator) right me.st.sessionId t) m' p) :
    Paired kcp initiator (left.set i (.tcp me')) right ∧
      (left.set i (.tcp me')).map Link.id = left.map Link.id := by
  have hmem : .tcp me ∈ left := List.mem_of_getElem? hme
  have hmine : ∀ t, ∃ m p, Linked kcp me (partyAt kcp (!initiator) right me.st.sessionId t) m p := by
    intro t
    obtain ⟨m, p, hlinked⟩ := h.linked me.st.sessionId t t
    rw [partyAt_mem h.unique hmem] at hlinked
    exact ⟨m, p, hlinked⟩
  have hid : me'.st.sessionId = me.st.sessionId := by
    obtain ⟨m, p, hlinked⟩ := hmine 0
    obtain ⟨m', hlinked'⟩ := hstep 0 m p hlinked
    exact hlinked'.sessionId.symm.trans hlinked.sessionId
  have hkey : Link.id (.tcp me') = Link.id (.tcp me) := congrArg some hid
  refine ⟨⟨?_, h.peerStreams, Keyed.unique_set h.unique hme hkey, h.peerUnique, ?_⟩,
    Keyed.map_set hme hkey⟩
  · intro link hlink
    rcases List.mem_or_eq_of_mem_set hlink with hold | rfl
    · exact h.streams link hold
    · exact ⟨me', rfl⟩
  · intro sessionId t₁ t₂
    have hlookup := Keyed.lookup_set (k := some sessionId) h.unique hme hkey
    by_cases heq : me.st.sessionId = sessionId
    · subst heq
      obtain ⟨m, p, hlinked⟩ := hmine t₂
      obtain ⟨m', hlinked'⟩ := hstep t₂ m p hlinked
      have hmine : Link.id (.tcp me) = some me.st.sessionId := rfl
      rw [if_pos hmine] at hlookup
      rw [partyAt, hlookup]
      exact ⟨m', p, hlinked'⟩
    · have hother : Link.id (.tcp me) ≠ some sessionId := fun hsome => heq (Option.some.inj hsome)
      rw [if_neg hother] at hlookup
      rw [partyAt, hlookup]
      exact h.linked sessionId t₁ t₂

/-- A side opens its end of a session. -/
theorem concat {sessionId : SessionId} (h : Paired kcp initiator left right)
    (habsent : Keyed.lookup Link.id (some sessionId) left = none) (now : UInt64) :
    Paired kcp initiator (left ++ [.tcp (Party.opened kcp initiator sessionId now)]) right where
  streams := by
    intro link hlink
    rcases List.mem_append.mp hlink with hold | hnew
    · exact h.streams link hold
    · exact ⟨_, List.mem_singleton.mp hnew⟩
  peerStreams := h.peerStreams
  unique := Keyed.unique_concat h.unique habsent
  peerUnique := h.peerUnique
  linked := by
    intro other t₁ t₂
    have hkey : Link.id (.tcp (Party.opened kcp initiator sessionId now)) = some sessionId := rfl
    by_cases heq : sessionId = other
    · subst heq
      have hnow := h.linked sessionId now t₂
      rw [partyAt_absent habsent] at hnow
      rw [partyAt, Keyed.lookup_concat, habsent, hkey, if_pos rfl]
      exact hnow
    · rw [partyAt, Keyed.lookup_concat, hkey, if_neg fun hsome => heq (Option.some.inj hsome),
        Option.or_none]
      exact h.linked other t₁ t₂

/-- All ends of one side move on. -/
theorem map {f : Link κ → Link κ} (h : Paired kcp initiator left right)
    (hf : ∀ me, ∃ me', f (.tcp me) = .tcp me' ∧
      ∀ peer m p, Linked kcp me peer m p → ∃ m', Linked kcp me' peer m' p)
    (hid : ∀ link, Link.id (f link) = Link.id link) : Paired kcp initiator (left.map f) right where
  streams := by
    intro link hlink
    obtain ⟨old, hold, rfl⟩ := List.mem_map.mp hlink
    obtain ⟨me, rfl⟩ := h.streams old hold
    obtain ⟨me', heq, _⟩ := hf me
    exact ⟨me', heq⟩
  peerStreams := h.peerStreams
  unique := Keyed.unique_map hid h.unique
  peerUnique := h.peerUnique
  linked := by
    intro sessionId t₁ t₂
    obtain ⟨m, p, hlinked⟩ := h.linked sessionId t₁ t₂
    rw [partyAt] at hlinked
    rw [partyAt, Keyed.lookup_map hid]
    cases hlookup : Keyed.lookup Link.id (some sessionId) left with
    | none =>
      rw [hlookup] at hlinked
      exact ⟨m, p, hlinked⟩
    | some link =>
      obtain ⟨me, rfl⟩ := h.streams link (Keyed.lookup_some hlookup).1
      obtain ⟨me', heq, hstep⟩ := hf me
      rw [hlookup] at hlinked
      rw [Option.map_some, heq]
      obtain ⟨m', hlinked'⟩ := hstep _ m p hlinked
      exact ⟨m', p, hlinked'⟩

/-- What a datagram is to a side whose peer has these sessions: no envelope, or one of a stream. -/
def Known (links : List (Link κ)) (data : Bytes) : Prop :=
  streamUnpack data = none ∨ ∃ link ∈ links, data ∈ link.sent

theorem process_ignored {env : StreamEnv} {data : Bytes}
    (hdone : streamProcessPacket kcp env me.st data = .done me.st) :
    me.absorb env (streamProcessPacket kcp env me.st data) = me := by
  rw [hdone]
  simp [Party.absorb, Outcome.done]

/-- A datagram reaches the end of a session. One of another session is ignored. -/
theorem receive (h : Paired kcp initiator left right) (hkcp : Reliable kcp) (env : StreamEnv)
    (hactive : me.active = true) {data : Bytes} (hdata : Known right data)
    (t : UInt64) {m p : End κ}
    (hlinked : Linked kcp me (partyAt kcp (!initiator) right me.st.sessionId t) m p) :
    ∃ m', Linked kcp (me.absorb env (streamProcessPacket kcp env me.st data))
      (partyAt kcp (!initiator) right me.st.sessionId t) m' p := by
  rcases hdata with hnone | ⟨link, hlink, hsent⟩
  · have hdone : streamProcessPacket kcp env me.st data = .done me.st := by
      rw [streamProcessPacket, hnone]
    rw [process_ignored hdone]
    exact ⟨m, hlinked⟩
  · obtain ⟨peer, rfl⟩ := h.peerStreams link hlink
    by_cases hours : peer.st.sessionId = me.st.sessionId
    · have hpeer : partyAt kcp (!initiator) right peer.st.sessionId t = peer :=
        partyAt_mem h.peerUnique hlink t
      rw [hours] at hpeer
      rw [hpeer] at hlinked ⊢
      exact hlinked.packet hkcp env hactive hsent
    · -- The envelope names the session of its sender.
      obtain ⟨m₂, p₂, hother⟩ := h.linked peer.st.sessionId t t
      rw [partyAt_mem h.peerUnique hlink] at hother
      obtain ⟨type, payload, hframe, hlength, hempty, _⟩ := hother.there.frames data hsent
      have hdone : streamProcessPacket kcp env me.st data = .done me.st := by
        rw [streamProcessPacket, hframe, streamUnpack_frame hlength hempty]
        exact if_pos (Or.inr (Or.inr hours))
      rw [process_ignored hdone]
      exact ⟨m, hlinked⟩

/-- What an end wrote is a prefix of what the other end of its session read. -/
theorem clean (h : Paired kcp initiator left right) (hkcp : Reliable kcp) :
    ∀ link ∈ left, link.Clean right := by
  intro link hlink
  obtain ⟨me, rfl⟩ := h.streams link hlink
  obtain ⟨m, p, hlinked⟩ := h.linked me.st.sessionId 0 0
  rw [partyAt_mem h.unique hlink] at hlinked
  have hwritten : me.written <+: (partyAt kcp (!initiator) right me.st.sessionId 0).readBytes :=
    (hlinked.here.handed.trans (hkcp.inOrder hlinked.reachable.symm)).trans hlinked.there.given
  cases hlookup : Keyed.lookup Link.id (some me.st.sessionId) right with
  | none =>
    rw [partyAt_absent hlookup] at hwritten
    exact Or.inl (List.prefix_nil.mp hwritten)
  | some other =>
    obtain ⟨hmem, hid⟩ := Keyed.lookup_some hlookup
    obtain ⟨peer, rfl⟩ := h.peerStreams other hmem
    have hsame : peer.st.sessionId = me.st.sessionId := Option.some.inj hid
    rw [partyAt, hlookup] at hwritten
    exact Or.inr ⟨peer, hmem, hsame, hwritten⟩

/-- Every datagram of a stream fits a buffer. -/
theorem frames_short (h : Paired kcp initiator left right) {link : Link κ} (hlink : link ∈ right)
    {data : Bytes} (hsent : data ∈ link.sent) : data.length ≤ bufSize := by
  obtain ⟨peer, rfl⟩ := h.peerStreams link hlink
  obtain ⟨m, p, hlinked⟩ := h.linked peer.st.sessionId 0 0
  rw [partyAt_mem h.peerUnique hlink] at hlinked
  obtain ⟨type, payload, hframe, hlength, _⟩ := hlinked.there.frames data hsent
  have hsize : data.length = 24 + payload.length := by
    rw [hframe]
    simp [streamFrame]
    omega
  simp only [streamKcpMtu, bufSize] at hlength ⊢
  omega

end Paired

/-! ### Steps of a side -/

theorem close_sessionId (env : StreamEnv) (me : Party κ) :
    (me.close env).st.sessionId = me.st.sessionId := by
  simp only [Party.close, streamFail]
  split
  · rfl
  · unfold streamSendControl
    split
    · rfl
    · split <;> rfl

/-- A side whose sessions are streams paired with those of its peer. Beside them it sends control
datagrams only. -/
structure StreamSide (kcp : Ops κ) (initiator : Bool) (s : Side κ) (right : List (Link κ)) : Prop where
  paired : Paired kcp initiator s.links right
  said : ∀ data ∈ s.sent, Control data

namespace StreamSide

variable {initiator : Bool} {s s' other : Side κ} {right : List (Link κ)} {opens : Link κ → Prop}
  {heard : List Bytes}

/-- What a peer hears of such a side. -/
theorem known (h : StreamSide kcp initiator s right) :
    ∀ data ∈ s.emitted, Paired.Known s.links (data.take bufSize) := by
  intro data hdata
  rcases List.mem_append.mp hdata with hsaid | hstream
  · exact Or.inl (streamUnpack_control (control_take (h.said data hsaid)))
  · obtain ⟨link, hlink, hsent⟩ := List.mem_flatMap.mp hstream
    rw [List.take_of_length_le (h.paired.symm.frames_short hlink hsent)]
    exact Or.inr ⟨link, hlink, hsent⟩

/-- A step keeps the streams paired, and the table as it is unless it may open a session. -/
theorem step (h : StreamSide kcp initiator s right) (hkcp : Reliable kcp)
    (hheard : ∀ data ∈ heard, Paired.Known right (data.take bufSize))
    (hopens : ∀ link, opens link →
      ∃ sessionId now, link = .tcp (Party.opened kcp initiator sessionId now))
    (hstep : SideStep kcp opens heard s s') :
    StreamSide kcp initiator s' right ∧
      (s'.links.map Link.id = s.links.map Link.id ∨ ∃ link, opens link) := by
  have hput : ∀ {i : Nat} {me me' : Party κ}, s.links[i]? = some (.tcp me) →
      (∀ t m p, Linked kcp me (partyAt kcp (!initiator) right me.st.sessionId t) m p →
        ∃ m', Linked kcp me' (partyAt kcp (!initiator) right me.st.sessionId t) m' p) →
      StreamSide kcp initiator (s.put i (.tcp me')) right ∧
        ((s.put i (.tcp me')).links.map Link.id = s.links.map Link.id ∨ ∃ link, opens link) := by
    intro i me me' hme hmoves
    obtain ⟨hpaired, hids⟩ := h.paired.set hme hmoves
    exact ⟨⟨hpaired, h.said⟩, Or.inl hids⟩
  have hnot : ∀ {i : Nat} {u : UdpEnd}, s.links[i]? ≠ some (.udp u) := by
    intro i u hu
    obtain ⟨party, hparty⟩ := h.paired.streams _ (List.mem_of_getElem? hu)
    exact nomatch hparty
  cases hstep with
  | say data control =>
    refine ⟨⟨h.paired, ?_⟩, Or.inl rfl⟩
    intro d hd
    rcases List.mem_append.mp hd with hold | hnew
    · exact h.said d hold
    · rw [List.mem_singleton.mp hnew]
      exact control
  | pump env read mine active =>
    exact hput mine fun t m p hlinked => hlinked.pump hkcp env active read
  | tick env mine active =>
    refine hput mine fun t m p hlinked => ?_
    obtain ⟨m', hcall⟩ := tick_call env hlinked.reachable (hlinked.here.state active) hlinked.protocol
    exact ⟨m', hlinked.absorb hkcp env active hcall nofun nofun⟩
  | packet env data mine active sent =>
    exact hput mine fun t m p hlinked => h.paired.receive hkcp env active (hheard data sent) t hlinked
  | shut mine =>
    rename_i i link
    obtain ⟨me, rfl⟩ := h.paired.streams link (List.mem_of_getElem? mine)
    exact hput mine fun t m p hlinked => ⟨m, hlinked.drop⟩
  | close env =>
    have hid : ∀ link : Link κ,
        Link.id (if link.active then link.close kcp env else link) = Link.id link := by
      intro link
      split
      · cases link with
        | udp u => rfl
        | tcp me =>
          simp only [Link.close]
          split
          · rfl
          · exact congrArg some (close_sessionId env me)
      · rfl
    refine ⟨⟨h.paired.map ?_ hid, h.said⟩, Or.inl ?_⟩
    · intro me
      cases hactive : me.active with
      | false => exact ⟨me, by simp [Link.active, hactive], fun peer m p hlinked => ⟨m, hlinked⟩⟩
      | true =>
        simp only [Link.active, hactive, if_true, Link.close]
        split
        · exact ⟨_, rfl, fun peer m p hlinked => ⟨m, hlinked.drop⟩⟩
        · exact ⟨_, rfl, fun peer m p hlinked => ⟨m, hlinked.close env⟩⟩
    · simp [Function.comp_def, hid]
  | deliver data mine sent short other => exact (hnot mine).elim
  | gather data mine => exact (hnot mine).elim
  | opened link may fresh =>
    obtain ⟨sessionId, now, rfl⟩ := hopens link may
    exact ⟨⟨h.paired.concat (fresh sessionId rfl) now, h.said⟩, Or.inr ⟨_, may⟩⟩

theorem steps (h : StreamSide kcp initiator s right) (hkcp : Reliable kcp)
    (hheard : ∀ data ∈ heard, Paired.Known right (data.take bufSize))
    (hopens : ∀ link, opens link →
      ∃ sessionId now, link = .tcp (Party.opened kcp initiator sessionId now))
    (hsteps : SideSteps kcp opens heard s s') :
    StreamSide kcp initiator s' right ∧
      (s'.links.map Link.id = s.links.map Link.id ∨ ∃ link, opens link) := by
  induction hsteps with
  | refl => exact ⟨h, Or.inl rfl⟩
  | tail _ hstep ih =>
    obtain ⟨hside, hids⟩ := ih
    obtain ⟨hside', hids'⟩ := hside.step hkcp hheard hopens hstep
    refine ⟨hside', ?_⟩
    rcases hids with hids | hopen
    · rw [← hids]
      exact hids'
    · exact Or.inr hopen

end StreamSide

end Redp2p
