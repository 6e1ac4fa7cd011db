import Redp2p.DatagramNet
import Redp2p.PunchAnswers

/-! How transparent the sessions that forward datagrams are: every datagram of an application that is not
too long and is not taken for a control datagram arrives as it was sent. -/

namespace Redp2p

open ByteString

instance : DecidablePred Control := fun _ => inferInstanceAs (Decidable (_ ∨ _))

/-- The datagrams that an application gets when one of the peer arrives for its session. -/
def passed (data : Bytes) : List Bytes :=
  if data.length ≤ udpPayloadMax ∧ ¬ Control data then [data] else []

section Passing

variable {κ : Type} (kcp : ByteChannel.Ops κ) (env : StreamEnv)

variable {kcp}

theorem DatagramSide.link {s other : Side κ} (h : DatagramSide s other) {index : Nat} {link : Link κ}
    (hlink : s.links[index]? = some link) : ∃ u, link = .udp u :=
  h.udp link (List.mem_of_getElem? hlink)

theorem Consumer.sessionFind_active {c : Consumer κ} {client : SockAddr} {index : Nat}
    {x : ConsumerSession κ} (h : c.sessionFind client = some index)
    (hx : c.sessions[index]? = some x) : x.link.active = true := by
  obtain ⟨hbound, hfound, _⟩ := List.findIdx?_eq_some_iff_getElem.mp h
  obtain ⟨_, rfl⟩ := List.getElem?_eq_some_iff.mp hx
  simp only [Bool.and_eq_true] at hfound
  exact hfound.1

end Passing

end Redp2p
