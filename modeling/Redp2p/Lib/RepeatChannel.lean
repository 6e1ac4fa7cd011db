import Redp2p.Lib.ByteChannel

/-! A simple reliable byte channel: every datagram repeats all bytes that were ever given, after one
mark for each byte that was received. -/

namespace ByteChannel.Repeat

open ByteString

structure State where
  given : Bytes
  acked : Nat
  received : Bytes
  taken : Nat
  deriving DecidableEq, Repr

/-- The datagram that acknowledges `count` bytes and repeats `given`. -/
def datagram (count : Nat) (given : Bytes) : Bytes := List.replicate count 1 ++ 0 :: given

def acknowledged (datagram : Bytes) : Nat := (datagram.takeWhile (· == 1)).length

def repeated (datagram : Bytes) : Bytes := (datagram.dropWhile (· == 1)).drop 1

def input (s : State) (d : Bytes) : State :=
  { s with
    acked := max s.acked (acknowledged d)
    received := if s.received.length < (repeated d).length then repeated d else s.received }

def ops : Ops State where
  create _ := ⟨[], 0, [], 0⟩
  send s data := ({ s with given := s.given ++ data }, data.length)
  input s d := (input s d, 0)
  update s _ := (s, [datagram s.received.length s.given])
  check _ current := current + 1
  peekSize s := if s.taken < s.received.length then (s.received.length - s.taken : Nat) else -1
  recv s cap :=
    let data := (s.received.drop s.taken).take cap
    ({ s with taken := s.taken + data.length }, if data = [] then none else some data)
  waitSnd s := s.given.length - s.acked
  queued s := s.received.length - s.taken

theorem acknowledged_datagram (count : Nat) (given : Bytes) :
    acknowledged (datagram count given) = count := by simp [acknowledged, datagram]

theorem repeated_datagram (count : Nat) (given : Bytes) :
    repeated (datagram count given) = given := by simp [repeated, datagram]

/-- What one end holds, beside its peer. -/
structure Holds (me peer : End State) : Prop where
  given : me.state.given = me.given
  handed : me.handed = me.state.received.take me.state.taken
  taken : me.state.taken ≤ me.state.received.length
  received : me.state.received <+: peer.given
  acked : me.state.acked ≤ peer.state.received.length
  cleared : me.cleared <+: peer.state.received
  emitted : ∀ d ∈ me.emitted, ∃ count given, d = datagram count given ∧ given <+: me.given ∧
    count ≤ me.state.received.length

/-- Nothing waits to be sent only when the peer has received everything. -/
theorem settled_cleared (me : End State) (state : State) {peer : End State} (hgiven : state.given = me.given)
    (hacked : state.acked ≤ peer.state.received.length) (hreceived : peer.state.received <+: me.given)
    (hcleared : me.cleared <+: peer.state.received) :
    (me.settle ops state).cleared <+: peer.state.received := by
  unfold End.settle
  split
  · rename_i hwait
    have hlength : me.given.length ≤ state.acked := by
      rw [← hgiven]
      exact Nat.sub_eq_zero_iff_le.mp hwait
    have hall := hreceived.eq_of_length_le (hlength.trans hacked)
    rw [hall]
  · exact hcleared

theorem move_holds {me peer me' : End State} (hme : Holds me peer) (hpeer : Holds peer me)
    (move : Move ops peer me me') : Holds me' peer ∧ Holds peer me' := by
  cases move with
  | send data accepted =>
    have hgrown : ∀ {bytes : Bytes}, bytes <+: me.given → bytes <+: me.given ++ data :=
      fun h => h.trans (List.prefix_append _ _)
    constructor
    · exact {
        given := by simp [ops, hme.given]
        handed := hme.handed
        taken := hme.taken
        received := hme.received
        acked := hme.acked
        cleared := settled_cleared { me with given := me.given ++ data } _
          (by simp [ops, hme.given]) hme.acked (hgrown hpeer.received) hme.cleared
        emitted := fun d hd => by
          obtain ⟨count, given, heq, hle, hcount⟩ := hme.emitted d hd
          exact ⟨count, given, heq, hgrown hle, hcount⟩ }
    · exact { hpeer with received := hgrown hpeer.received }
  | quiet move =>
    cases move with
    | update current =>
      refine ⟨?_, { hpeer with }⟩
      exact { hme with
        cleared := settled_cleared _ _ hme.given hme.acked hpeer.received hme.cleared
        emitted := fun d hd => by
          rcases List.mem_append.mp hd with hd | hd
          · exact hme.emitted d hd
          · refine ⟨_, _, List.mem_singleton.mp hd, ?_, Nat.le_refl _⟩
            rw [hme.given]
            exact List.prefix_rfl }
    | input d emitted accepted =>
      obtain ⟨count, given, rfl, hle, hcount⟩ := hpeer.emitted d emitted
      have hstate : (ops.input me.state (datagram count given)).1 =
          { me.state with
            acked := max me.state.acked count
            received := if me.state.received.length < given.length then given
              else me.state.received } := by
        simp [ops, input, acknowledged_datagram, repeated_datagram]
      rw [hstate]
      have hgrown : me.state.received <+:
          if me.state.received.length < given.length then given else me.state.received := by
        split
        · rename_i hlonger
          exact List.prefix_of_prefix_length_le hme.received hle (Nat.le_of_lt hlonger)
        · exact List.prefix_rfl
      have hacked : max me.state.acked count ≤ peer.state.received.length :=
        Nat.max_le.mpr ⟨hme.acked, hcount⟩
      constructor
      · refine ⟨hme.given, ?_, hme.taken.trans hgrown.length_le, ?_, hacked, ?_, ?_⟩
        · rw [End.settle_handed, hme.handed]
          obtain ⟨more, hmore⟩ := hgrown
          dsimp only [End.settle_state]
          rw [← hmore, List.take_append_of_le_length hme.taken]
        · dsimp only [End.settle_state]
          split
          · exact hle
          · exact hme.received
        · exact settled_cleared _ { me.state with
            acked := max me.state.acked count
            received := if me.state.received.length < given.length then given
              else me.state.received } hme.given hacked hpeer.received hme.cleared
        · intro d hd
          obtain ⟨n, bytes, heq, hbytes, hn⟩ := hme.emitted d hd
          exact ⟨n, bytes, heq, hbytes, hn.trans hgrown.length_le⟩
      · exact { hpeer with
          acked := hpeer.acked.trans hgrown.length_le
          cleared := hpeer.cleared.trans hgrown }
    | recv cap data returned =>
      have hdata : data = (me.state.received.drop me.state.taken).take cap := by
        simp only [ops] at returned
        split at returned
        · exact nomatch returned
        · exact (Option.some.inj returned).symm
      have hlength : me.state.taken + data.length ≤ me.state.received.length := by
        have htaken := hme.taken
        rw [hdata, List.length_take, List.length_drop]
        omega
      refine ⟨?_, { hpeer with }⟩
      have hstate : (ops.recv me.state cap).1 =
          { me.state with taken := me.state.taken + data.length } := by
        rw [hdata]
        rfl
      rw [hstate]
      exact { hme with
        handed := by
          rw [End.settle_handed, End.settle_state, hme.handed, List.take_add, hdata]
          simp
        taken := hlength
        cleared := settled_cleared { me with handed := me.handed ++ data }
          { me.state with taken := me.state.taken + data.length }
          hme.given hme.acked hpeer.received hme.cleared }

theorem reachable_holds {conv : UInt32} {a b : End State} (h : Reachable ops conv a b) :
    Holds a b ∧ Holds b a := by
  induction h with
  | start =>
    have hstart : Holds (End.start ops conv) (End.start ops conv) :=
      ⟨rfl, rfl, Nat.le_refl _, List.prefix_rfl, Nat.le_refl _, List.prefix_rfl, nofun⟩
    exact ⟨hstart, hstart⟩
  | left before move ih => exact move_holds ih.1 ih.2 move
  | right before move ih => exact (move_holds ih.2 ih.1 move).symm

theorem reliable : Reliable ops where
  inOrder h := by
    have hb := (reachable_holds h).2
    rw [hb.handed]
    exact (List.take_prefix _ _).trans hb.received
  arrives h hpeek := by
    obtain ⟨ha, hb⟩ := reachable_holds h
    simp only [ops] at hpeek
    split at hpeek
    · omega
    · rename_i hall
      rw [hb.handed, List.take_of_length_le (Nat.not_lt.mp hall)]
      exact ha.cleared
  drains state cap hsome hcap := by
    simp only [ops] at hsome hcap ⊢
    split at hsome
    · rename_i hmore
      rw [if_pos hmore] at hcap
      rw [List.length_take, List.length_drop]
      omega
    · omega

end ByteChannel.Repeat
