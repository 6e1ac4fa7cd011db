import Redp2p.Publisher

/-! The answers to pings: a peer that punches names both identifiers in the order that the pinger
checks, the event loop of a publisher names them the other way round. -/

namespace Redp2p

open ByteString

section Answers

variable {κ : Type}

/-- One who may answer a ping: a peer that waits for a response, or a publisher in its event loop. -/
inductive Answerer (κ : Type) where
  | punching (state : Punching)
  | serving (p : Publisher κ)

/-- The datagrams that the answerer sends on a datagram from `source`. -/
def Answerer.answers (kcp : ByteChannel.Ops κ) (env : StreamEnv) (source : SockAddr) (data : Bytes) : Answerer κ → List Bytes
  | .punching state => (state.hear ⟨source, data⟩).2.2.map Prod.snd
  | .serving p => ((p.receivePeer kcp env source data).1.sent.drop p.sent.length).map Prod.snd

/-- The answerer serves the source already, so that it takes a ping for a datagram of a session. -/
def Answerer.Serves (source : SockAddr) : Answerer κ → Prop
  | .punching _ => False
  | .serving p => p.proto = .udp ∧ (p.sessionFind source none).isSome = true

variable (kcp : ByteChannel.Ops κ) (env : StreamEnv) {session a b : Bytes}
  (hsession : isSessionToken session = true) (ha : isValidId a = true) (hb : isValidId b = true)

include hsession ha hb

/-- A peer that punches answers a ping with the pong that the pinger waits for. -/
theorem hear_answers (state : Punching) (source : SockAddr) :
    ∀ pong ∈ (state.hear ⟨source, punchPing session a b⟩).2.2.map Prod.snd,
      punchCheck session a b pong = .accepted none := by
  have hcheck : punchCheck state.session state.fromId state.toId (punchPing session a b) = _ :=
    punchCheck_ping hsession ha hb (Or.inr rfl)
  intro pong hpong
  unfold Punching.hear at hpong
  rw [hcheck] at hpong
  by_cases hfits : b.length + (ascii "\n").length ≤ idMax
  · by_cases hours : a = state.toId ∧ b = state.fromId ∧ session = state.session
    · rw [if_pos hfits, if_pos hours] at hpong
      simp only [Option.toList_some, List.map_cons, List.map_nil, List.mem_singleton] at hpong
      obtain ⟨rfl, rfl, rfl⟩ := hours
      rw [hpong, punchCheck_pong hsession ha hb (Or.inr rfl), if_pos hfits, if_pos ⟨rfl, rfl, rfl⟩]
    · rw [if_pos hfits, if_neg hours] at hpong
      simp at hpong
  · rw [if_neg hfits] at hpong
    simp at hpong

/-- A ping is no envelope. -/
theorem streamUnpack_ping : streamUnpack (punchPing session a b) = none := by
  rw [punchPing, punchText_eq (Or.inl rfl) hsession ha hb (Or.inr rfl)]
  have hmagic : ∀ rest, loadU32Le (ctrtokPunchPing ++ rest) ≠ streamMagic := by
    intro rest
    have hword : loadU32Le (ctrtokPunchPing ++ rest) = loadU32Le ctrtokPunchPing := rfl
    rw [hword]
    decide
  simp only [List.append_assoc]
  unfold streamUnpack
  split
  · rfl
  · rw [if_pos (Or.inl (hmagic _))]

theorem pingAnswer_ping :
    Publisher.pingAnswer (punchPing session a b) =
      if b.length + 1 ≤ idMax then some (punchText ctrtokPunchPong session b a []) else none := by
  have htoken : IsPunchToken ctrtokPunchPing := Or.inl rfl
  have hstart : startsWith ctrtokPunchPing (punchPing session a b) = true := by
    rw [punchPing, punchText_eq htoken hsession ha hb (Or.inr rfl)]
    simp [startsWith]
  have hcstr : cstr (punchPing session a b) = punchPing session a b := by
    rw [punchPing, punchText_eq htoken hsession ha hb (Or.inr rfl)]
    exact cstr_eq_self (packet_bytes htoken hsession ha hb (Or.inr rfl))
  rw [Publisher.pingAnswer, if_pos hstart, hcstr, punchPing,
    parsePunchPacket_punchText htoken hsession ha hb (Or.inr rfl)]
  show Option.map _ (if b.length + 1 ≤ idMax then _ else _) = _
  split <;> rfl

/-- A publisher in its event loop answers a ping of a source that it does not serve, with the
identifiers in the other order. -/
theorem receivePeer_answers (p : Publisher κ) (source : SockAddr) :
    Answerer.answers kcp env source (punchPing session a b) (.serving p) =
      if p.proto = .udp ∧ (p.sessionFind source none).isSome = true then []
      else (Publisher.pingAnswer (punchPing session a b)).toList := by
  have hlength : ¬ (punchPing session a b).length > bufSize := by
    have hshort := packet_length (Or.inl rfl) hsession ha hb (Or.inr rfl)
    rw [punchPing, punchText_eq (Or.inl rfl) hsession ha hb (Or.inr rfl)]
    simp only [bufSize]
    omega
  have hlocate : p.locate source (punchPing session a b) =
      if p.proto = .udp then p.sessionFind source none else none := by
    unfold Publisher.locate
    rw [streamUnpack_ping hsession ha hb]
    cases p.proto <;> simp
  rw [Answerer.answers, Publisher.receivePeer, if_neg hlength, hlocate]
  cases hproto : p.proto with
  | tcp => simp
  | udp =>
    cases hfind : p.sessionFind source none with
    | none => simp
    | some index =>
      simp only [if_true]
      cases p.sessions[index]? <;> simp

/-- Every pong that answers a ping of `a` for `b` is accepted by `a`, if and only if it comes from a
peer that punches, or no pong comes from the event loop: `a` is served already, or the identifier of
`b` leaves no room for the end of the line. -/
theorem pongs_accepted_iff (hne : a ≠ b) (answerer : Answerer κ) (source : SockAddr) :
    (∀ pong ∈ answerer.answers kcp env source (punchPing session a b),
        punchCheck session a b pong = .accepted none) ↔
      ((∃ state, answerer = .punching state) ∨ answerer.Serves source ∨ b.length = idMax) := by
  cases answerer with
  | punching state =>
    refine iff_of_true ?_ (Or.inl ⟨state, rfl⟩)
    exact hear_answers hsession ha hb state source
  | serving p =>
    have hlength : b.length ≤ idMax := (isValidId_iff.mp hb).2.1
    rw [receivePeer_answers kcp env hsession ha hb, pingAnswer_ping hsession ha hb]
    simp only [reduceCtorEq, exists_false, false_or, Answerer.Serves]
    by_cases hserves : p.proto = .udp ∧ (p.sessionFind source none).isSome = true
    · simp [hserves]
    · rw [if_neg hserves]
      by_cases hfits : b.length + 1 ≤ idMax
      · -- The pong names `b` first, and `a` expects its own identifier there.
        have hfull : ¬ b.length = idMax := by omega
        have hcheck : punchCheck session a b (punchText ctrtokPunchPong session b a []) =
            .mismatched := by
          have hroom : a.length + ([] : Bytes).length ≤ idMax := (isValidId_iff.mp ha).2.1
          rw [punchCheck_pong hsession hb ha (Or.inl rfl), if_pos hroom,
            if_neg fun h => hne h.1.symm]
        simp [hfits, hcheck, hserves, hfull]
      · have hfull : b.length = idMax := by omega
        simp [hfull]

end Answers

def samplePublisher : Publisher Unit := .start .udp (ascii "pub") 9000 0

def sampleChannel : ByteChannel.Ops Unit :=
  ⟨fun _ => (), fun _ _ => ((), 0), fun _ _ => ((), 0), fun _ _ => ((), []), fun _ _ => 0,
    fun _ => -1, fun _ _ => ((), none), fun _ => 0, fun _ => 0⟩

/-- The publisher "pub" has no session of the source yet. -/
theorem pong_mismatched :
    ∃ pong ∈ Answerer.answers sampleChannel ⟨0, fun _ => true, List.length⟩
        (.inet [127, 0, 0, 1] 5000) (punchPing (ascii "s1") (ascii "con") (ascii "pub"))
        (.serving samplePublisher),
      punchCheck (ascii "s1") (ascii "con") (ascii "pub") pong = .mismatched := by
  refine ⟨ascii "REDP2P_CTRTOK_PUNCH_PONG:s1:pub:con", ?_, ?_⟩
  · decide +kernel
  · decide +kernel

theorem pongs_accepted_sample :
    ¬ ∀ pong ∈ Answerer.answers sampleChannel ⟨0, fun _ => true, List.length⟩
        (.inet [127, 0, 0, 1] 5000) (punchPing (ascii "s1") (ascii "con") (ascii "pub"))
        (.serving samplePublisher),
      punchCheck (ascii "s1") (ascii "con") (ascii "pub") pong = .accepted none := by
  have hsession : isSessionToken (ascii "s1") = true := by decide
  have hcon : isValidId (ascii "con") = true := by decide
  have hpub : isValidId (ascii "pub") = true := by decide
  have hne : ascii "con" ≠ ascii "pub" := by decide
  rw [pongs_accepted_iff sampleChannel ⟨0, fun _ => true, List.length⟩ hsession hcon hpub hne]
  simp [Answerer.Serves, samplePublisher, Publisher.start, Publisher.sessionFind, idMax, ascii]

end Redp2p
