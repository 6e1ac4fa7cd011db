import Redp2p.PeerNet

/-! What one event does to a side, in either mode and at either peer: a few kinds of steps, each of
which says what it needs and what it changes. -/

namespace Redp2p

open ByteString

/-! ### Control datagrams -/

/-- A datagram that REDP2P takes for its own. -/
def Control (data : Bytes) : Prop := isPunchControl data = true ∨ isKeepalive data = true

theorem startsWith_append (token rest : Bytes) : startsWith token (token ++ rest) = true := by
  simp [startsWith]

theorem control_ka : Control ctrtokKa := Or.inr (by decide)

theorem control_server : Control ctrtokPunchServer := Or.inl (by decide)

/-- Every punch packet is a control datagram, whatever its fields are. -/
theorem control_punchText {token : Bytes} (htoken : IsPunchToken token)
    (session fromId toId ending : Bytes) : Control (punchText token session fromId toId ending) := by
  have hlength : token.length = 25 := by rcases htoken with rfl | rfl <;> rfl
  have htext : punchText token session fromId toId ending =
      token ++ (session ++ (ascii ":" ++ (fromId ++ (ascii ":" ++ (toId ++ ending))))).take 230 := by
    have hcount : 256 - 1 = token.length + 230 := by rw [hlength]
    simp only [punchText, boundedCopy, List.append_assoc]
    rw [hcount, List.take_length_add_append]
  have hstart := startsWith_append token
    ((session ++ (ascii ":" ++ (fromId ++ (ascii ":" ++ (toId ++ ending))))).take 230)
  left
  rw [htext, isPunchControl]
  rcases htoken with rfl | rfl
  · rw [hstart]
    simp
  · rw [hstart]
    simp

theorem startsWith_iff {token data : Bytes} :
    startsWith token data = true ↔ ∃ rest, data = token ++ rest := by
  rw [startsWith, List.isPrefixOf_iff_prefix]
  constructor
  · rintro ⟨rest, h⟩
    exact ⟨rest, h.symm⟩
  · rintro ⟨rest, h⟩
    exact ⟨rest, h.symm⟩

theorem startsWith_take {token data : Bytes} {n : Nat} (hn : token.length ≤ n)
    (h : startsWith token data = true) : startsWith token (data.take n) = true := by
  obtain ⟨rest, rfl⟩ := startsWith_iff.mp h
  rw [List.take_append, List.take_of_length_le hn]
  exact startsWith_append _ _

/-- A control datagram is one also as far as it fits a buffer. -/
theorem control_take {data : Bytes} (h : Control data) : Control (data.take bufSize) := by
  rcases h with h | h
  · left
    rw [isPunchControl, Bool.or_eq_true, Bool.or_eq_true] at h ⊢
    rcases h with (h | h) | h
    · exact Or.inl (Or.inl (startsWith_take (by decide) h))
    · exact Or.inl (Or.inr (startsWith_take (by decide) h))
    · exact Or.inr (startsWith_take (by decide) h)
  · rw [isKeepalive, beq_iff_eq] at h
    rw [h]
    exact control_ka

/-- No control datagram is an envelope. -/
theorem streamUnpack_control {data : Bytes} (h : Control data) : streamUnpack data = none := by
  have hmagic : loadU32Le data ≠ streamMagic := by
    have hword : ∀ token rest : Bytes, 4 ≤ token.length →
        loadU32Le (token ++ rest) = loadU32Le token := by
      intro token rest hlength
      simp only [loadU32Le, List.getD_eq_getElem?_getD]
      rw [List.getElem?_append_left (by omega), List.getElem?_append_left (by omega),
        List.getElem?_append_left (by omega), List.getElem?_append_left (by omega)]
    rcases h with h | h
    · rw [isPunchControl, Bool.or_eq_true, Bool.or_eq_true] at h
      rcases h with (h | h) | h <;> obtain ⟨rest, rfl⟩ := startsWith_iff.mp h
      · rw [hword _ _ (by decide)]
        decide
      · rw [hword _ _ (by decide)]
        decide
      · rw [hword _ _ (by decide)]
        decide
    · rw [isKeepalive, beq_iff_eq] at h
      rw [h]
      decide
  unfold streamUnpack
  split
  · rfl
  · rw [if_pos (Or.inl hmagic)]

theorem round_control (punching : Punching) :
    ∀ data ∈ punching.round.2.map Prod.snd, Control data := by
  intro data hdata
  unfold Punching.round at hdata
  split at hdata
  · simp at hdata
  · simp only [List.map_map, List.mem_map, Function.comp_apply] at hdata
    obtain ⟨_, _, rfl⟩ := hdata
    exact control_punchText (Or.inl rfl) _ _ _ _

theorem hear_control (punching : Punching) (arrival : Arrival) :
    ∀ data ∈ (punching.hear arrival).2.2.map Prod.snd, Control data := by
  intro data hdata
  unfold Punching.hear at hdata
  split at hdata
  · simp at hdata
  · simp at hdata
  · simp at hdata
  · rename_i pong hcheck
    cases pong with
    | none => simp at hdata
    | some text =>
      obtain rfl : data = text := by simpa using hdata
      unfold punchCheck at hcheck
      dsimp only at hcheck
      split at hcheck
      · exact nomatch hcheck
      split at hcheck
      · split at hcheck <;> exact nomatch hcheck
      split at hcheck
      · split at hcheck
        · obtain rfl := Option.some.inj (PunchVerdict.accepted.inj hcheck)
          exact control_punchText (Or.inr rfl) _ _ _ _
        · exact nomatch hcheck
      · exact nomatch hcheck

theorem pingAnswer_control {data pong : Bytes} (h : Publisher.pingAnswer data = some pong) :
    Control pong := by
  unfold Publisher.pingAnswer at h
  split at h
  · obtain ⟨ping, _, rfl⟩ := Option.map_eq_some_iff.mp h
    exact control_punchText (Or.inr rfl) _ _ _ _
  · exact nomatch h

/-! ### Steps of a side -/

section Steps

variable {κ : Type}

/-- A side with one session in another state. -/
def Side.put (s : Side κ) (i : Nat) (link : Link κ) : Side κ := { s with links := s.links.set i link }

theorem Side.put_self {s : Side κ} {i : Nat} {link : Link κ} (h : s.links[i]? = some link) :
    s.put i link = s := by
  obtain ⟨hbound, helem⟩ := List.getElem?_eq_some_iff.mp h
  rw [Side.put, ← helem, List.set_getElem_self]

theorem Side.put_get {s : Side κ} {i : Nat} {link : Link κ} (h : s.links[i]? = some link)
    (link' : Link κ) : (s.put i link').links[i]? = some link' := by
  obtain ⟨hbound, _⟩ := List.getElem?_eq_some_iff.mp h
  simp [Side.put, hbound]

theorem Side.put_put (s : Side κ) (i : Nat) (link link' : Link κ) :
    (s.put i link).put i link' = s.put i link' := by
  simp [Side.put]

/-- What a side may do. `opens` tells which sessions it may open, and `heard` what its peer sent. -/
inductive SideStep (kcp : ByteChannel.Ops κ) (opens : Link κ → Prop) (heard : List Bytes)
    (s : Side κ) : Side κ → Prop where
  | say (data : Bytes) (control : Control data) :
      SideStep kcp opens heard s { s with sent := s.sent ++ [data] }
  | pump {i : Nat} {me : Party κ} (env : StreamEnv) (read : TcpRead)
      (mine : s.links[i]? = some (.tcp me)) (active : me.active = true) :
      SideStep kcp opens heard s (s.put i (.tcp ({ me with
        readBytes := me.readBytes ++ streamPumped kcp me.st read }.absorb env
          (streamPumpTcp kcp env me.st read))))
  | tick {i : Nat} {me : Party κ} (env : StreamEnv) (mine : s.links[i]? = some (.tcp me))
      (active : me.active = true) :
      SideStep kcp opens heard s (s.put i (.tcp (me.absorb env (streamTick kcp env me.st))))
  | packet {i : Nat} {me : Party κ} (env : StreamEnv) (data : Bytes)
      (mine : s.links[i]? = some (.tcp me)) (active : me.active = true) (sent : data ∈ heard) :
      SideStep kcp opens heard s (s.put i (.tcp (me.absorb env
        (streamProcessPacket kcp env me.st (data.take bufSize)))))
  | shut {i : Nat} {link : Link κ} (mine : s.links[i]? = some link) :
      SideStep kcp opens heard s (s.put i link.shut)
  | close (env : StreamEnv) :
      SideStep kcp opens heard s { s with
        links := s.links.map fun link => if link.active then link.close kcp env else link }
  | deliver {i : Nat} {u : UdpEnd} (data : Bytes) (mine : s.links[i]? = some (.udp u))
      (sent : data ∈ heard) (short : (data.take bufSize).length ≤ udpPayloadMax)
      (other : ¬ Control (data.take bufSize)) :
      SideStep kcp opens heard s
        (s.put i (.udp { u with delivered := u.delivered ++ [data.take bufSize] }))
  | gather {i : Nat} {u : UdpEnd} (data : Bytes) (mine : s.links[i]? = some (.udp u)) :
      SideStep kcp opens heard s { s.put i (.udp { u with received := u.received ++ [data] }) with
        sent := s.sent ++ [data.take bufSize] }
  | opened (link : Link κ) (may : opens link)
      (fresh : ∀ sessionId, link.id = some sessionId →
        Keyed.lookup Link.id (some sessionId) s.links = none) :
      SideStep kcp opens heard s { s with links := s.links ++ [link] }

abbrev SideSteps (kcp : ByteChannel.Ops κ) (opens : Link κ → Prop) (heard : List Bytes) :
    Side κ → Side κ → Prop := Relation.ReflTransGen (SideStep kcp opens heard)

section Sessions

variable {kcp : ByteChannel.Ops κ} {opens : Link κ → Prop} {heard : List Bytes} {s : Side κ} {i : Nat}
  {x : Session κ}

theorem say_steps (s : Side κ) {datagrams : List Bytes} (h : ∀ data ∈ datagrams, Control data) :
    SideSteps kcp opens heard s { s with sent := s.sent ++ datagrams } := by
  induction datagrams generalizing s with
  | nil => rw [List.append_nil]
  | cons data datagrams ih =>
    have hfirst : SideStep kcp opens heard s { s with sent := s.sent ++ [data] } :=
      .say data (h data (by simp))
    have hrest := ih { s with sent := s.sent ++ [data] } fun d hd => h d (by simp [hd])
    have hsent : s.sent ++ [data] ++ datagrams = s.sent ++ data :: datagrams := by simp
    rw [hsent] at hrest
    exact .head hfirst hrest

theorem pump_steps (env : StreamEnv) (read : TcpRead) (hx : s.links[i]? = some x.link)
    (hactive : x.link.active = true) :
    SideSteps kcp opens heard s (s.put i (x.pump kcp env read).link) := by
  unfold Session.pump
  cases hlink : x.link with
  | udp u =>
    dsimp only
    rw [Side.put_self hx]
  | tcp me =>
    rw [hlink] at hx hactive
    exact .single (.pump env read hx hactive)

theorem expire_steps (env : StreamEnv) (hx : s.links[i]? = some x.link) :
    SideSteps kcp opens heard s { s.put i (x.expire env).1.link with
      sent := s.sent ++ (x.expire env).2.map Prod.snd } := by
  have hkeepalive : ∀ data ∈ (x.expire env).2.map Prod.snd, Control data := by
    intro data hdata
    unfold Session.expire at hdata
    cases hlink : x.link with
    | tcp me => simp [hlink] at hdata
    | udp u =>
      simp only [hlink] at hdata
      split at hdata
      · obtain rfl : data = ctrtokKa := by simpa using hdata
        exact control_ka
      · simp at hdata
  have hlink : (x.expire env).1.link = x.link ∨ (x.expire env).1.link = x.link.shut := by
    unfold Session.expire
    dsimp only
    split <;> split
    · exact Or.inr rfl
    · exact Or.inl rfl
    · exact Or.inr rfl
    · exact Or.inl rfl
  have hsaid : SideSteps kcp opens heard s _ := say_steps s hkeepalive
  rcases hlink with hsame | hshut
  · rw [hsame, Side.put_self hx]
    exact hsaid
  · rw [hshut]
    have hstep : SideStep kcp opens heard { s with sent := s.sent ++ (x.expire env).2.map Prod.snd } _ :=
      .shut (i := i) hx
    exact .tail hsaid hstep

theorem maintain_steps (env : StreamEnv) (hx : s.links[i]? = some x.link)
    (hactive : x.link.active = true) :
    SideSteps kcp opens heard s { s.put i (x.maintain kcp env).1.link with
      sent := s.sent ++ (x.maintain kcp env).2.map Prod.snd } := by
  unfold Session.maintain
  cases hlink : x.link with
  | udp u => exact expire_steps env hx
  | tcp me =>
    rw [hlink] at hx hactive
    have htick : SideStep kcp opens heard s _ := .tick env hx hactive
    have hget := Side.put_get hx (.tcp (me.absorb env (streamTick kcp env me.st)))
    dsimp only
    split
    · have hshut : SideStep kcp opens heard _ _ := .shut hget
      rw [Side.put_put] at hshut
      simpa [Link.shut, Side.put] using Relation.ReflTransGen.tail (.single htick) hshut
    · have hexpire : SideSteps kcp opens heard _ _ :=
        expire_steps (x := { x with link := .tcp (me.absorb env (streamTick kcp env me.st)) }) env hget
      rw [Side.put_put] at hexpire
      exact .head htick hexpire

theorem receive_steps (env : StreamEnv) {data : Bytes} (hx : s.links[i]? = some x.link)
    (hactive : x.link.active = true) (hdata : data ∈ heard) :
    SideSteps kcp opens heard s (s.put i (x.receive kcp env (data.take bufSize)).1.link) := by
  unfold Session.receive
  cases hlink : x.link with
  | udp u =>
    have hsame := Side.put_self hx
    rw [hlink] at hx hsame
    dsimp only
    split
    · rw [hlink, hsame]
    rename_i hshort
    split
    · simp only [hsame]
      exact .refl
    rename_i hkeepalive
    split
    · rw [hlink, hsame]
    rename_i hpunch
    exact .single (.deliver data hx hdata (Nat.not_lt.mp hshort) fun hcontrol =>
      hcontrol.elim hpunch hkeepalive)
  | tcp me =>
    dsimp only
    split
    · rw [Side.put_self hx]
    rw [hlink] at hx hactive
    exact .single (.packet env data hx hactive hdata)

end Sessions

end Steps

end Redp2p
