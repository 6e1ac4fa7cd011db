import Mathlib.Data.List.Infix
import Mathlib.Logic.Relation
import Redp2p.Lib.Bytes

/-! A byte channel between two ends over a network of datagrams: the operations of an implementation
as a parameter, the histories of its two ends, and what makes it reliable. -/

namespace ByteChannel

open ByteString

/-- The operations of one end. A negative size or a missing chunk means that nothing can be
received. -/
structure Ops (κ : Type) where
  create : UInt32 → κ
  send : κ → Bytes → κ × Int
  input : κ → Bytes → κ × Int
  update : κ → UInt32 → κ × List Bytes
  check : κ → UInt32 → UInt32
  peekSize : κ → Int
  recv : κ → Nat → κ × Option Bytes
  waitSnd : κ → Nat
  queued : κ → Nat

variable {κ : Type}

/-- One end with its history: the bytes given to it, those that were given when nothing waited to be
sent, the bytes it handed out, and the datagrams it emitted. -/
structure End (κ : Type) where
  state : κ
  given : Bytes
  cleared : Bytes
  handed : Bytes
  emitted : List Bytes

namespace End

def start (ops : Ops κ) (conv : UInt32) : End κ := ⟨ops.create conv, [], [], [], []⟩

/-- The end in a new state. -/
def settle (ops : Ops κ) (e : End κ) (state : κ) : End κ :=
  { e with state, cleared := if ops.waitSnd state = 0 then e.given else e.cleared }

@[simp] theorem settle_state (ops : Ops κ) (e : End κ) (state : κ) :
    (e.settle ops state).state = state := rfl

@[simp] theorem settle_given (ops : Ops κ) (e : End κ) (state : κ) :
    (e.settle ops state).given = e.given := rfl

@[simp] theorem settle_handed (ops : Ops κ) (e : End κ) (state : κ) :
    (e.settle ops state).handed = e.handed := rfl

@[simp] theorem settle_emitted (ops : Ops κ) (e : End κ) (state : κ) :
    (e.settle ops state).emitted = e.emitted := rfl

theorem settle_cleared {ops : Ops κ} {e : End κ} {state : κ} (h : ops.waitSnd state = 0) :
    (e.settle ops state).cleared = e.given := if_pos h

theorem settle_all_cleared {ops : Ops κ} {e : End κ} (h : e.cleared = e.given) (state : κ) :
    (e.settle ops state).cleared = e.given := by
  unfold settle
  split
  · rfl
  · exact h

end End

/-- What an end that faces `peer` does without taking new bytes: it emits datagrams, accepts any
datagram that the peer ever emitted, or hands bytes out. -/
inductive Quiet (ops : Ops κ) (peer me : End κ) : End κ → Prop where
  | update (current : UInt32) :
      Quiet ops peer me ({ me with
        emitted := me.emitted ++ (ops.update me.state current).2 }.settle ops
          (ops.update me.state current).1)
  | input (datagram : Bytes) (emitted : datagram ∈ peer.emitted)
      (accepted : (ops.input me.state datagram).2 = 0) :
      Quiet ops peer me (me.settle ops (ops.input me.state datagram).1)
  | recv (cap : Nat) (data : Bytes) (returned : (ops.recv me.state cap).2 = some data) :
      Quiet ops peer me ({ me with handed := me.handed ++ data }.settle ops
        (ops.recv me.state cap).1)

/-- A move of an end: it takes all of a chunk, or acts quietly. -/
inductive Move (ops : Ops κ) (peer me : End κ) : End κ → Prop where
  | send (data : Bytes) (accepted : (ops.send me.state data).2 = data.length) :
      Move ops peer me ({ me with given := me.given ++ data }.settle ops
        (ops.send me.state data).1)
  | quiet {me' : End κ} (move : Quiet ops peer me me') : Move ops peer me me'

/-- The pairs of ends that any interleaving of moves reaches. -/
inductive Reachable (ops : Ops κ) (conv : UInt32) : End κ → End κ → Prop where
  | start : Reachable ops conv (End.start ops conv) (End.start ops conv)
  | left {a b a' : End κ} (before : Reachable ops conv a b) (move : Move ops b a a') :
      Reachable ops conv a' b
  | right {a b b' : End κ} (before : Reachable ops conv a b) (move : Move ops a b b') :
      Reachable ops conv a b'

theorem Reachable.symm {ops : Ops κ} {conv : UInt32} {a b : End κ} (h : Reachable ops conv a b) :
    Reachable ops conv b a := by
  induction h with
  | start => exact .start
  | left before move ih => exact .right ih move
  | right before move ih => exact .left ih move

/-- A reliable channel: one end hands out the bytes of the other in order; once nothing waited to be
sent, all bytes given until then are handed out when nothing is left to receive; and receiving
comes to an end. -/
structure Reliable (ops : Ops κ) : Prop where
  inOrder : ∀ {conv : UInt32} {a b : End κ}, Reachable ops conv a b → b.handed <+: a.given
  arrives : ∀ {conv : UInt32} {a b : End κ}, Reachable ops conv a b → ops.peekSize b.state < 0 →
    a.cleared <+: b.handed
  drains : ∀ (state : κ) (cap : Nat), 0 ≤ ops.peekSize state → ops.peekSize state ≤ cap →
    ops.queued (ops.recv state cap).1 < ops.queued state

/-- Any number of quiet moves. -/
abbrev Quiets (ops : Ops κ) (peer : End κ) : End κ → End κ → Prop :=
  Relation.ReflTransGen (Quiet ops peer)

section Quiets

variable {ops : Ops κ} {conv : UInt32} {peer me me' : End κ}

theorem Quiets.reachable (h : Quiets ops peer me me') (hstart : Reachable ops conv me peer) :
    Reachable ops conv me' peer := by
  induction h with
  | refl => exact hstart
  | tail _ move ih => exact .left ih (.quiet move)

theorem Quiets.given (h : Quiets ops peer me me') : me'.given = me.given := by
  induction h with
  | refl => rfl
  | tail _ move ih => cases move <;> exact ih

theorem Quiets.emitted (h : Quiets ops peer me me') :
    ∀ datagram ∈ me.emitted, datagram ∈ me'.emitted := by
  induction h with
  | refl => exact fun _ hmem => hmem
  | tail _ move ih =>
    cases move with
    | update current => exact fun d hmem => List.mem_append_left _ (ih d hmem)
    | input datagram emitted accepted => exact ih
    | recv cap data returned => exact ih

theorem Quiets.handed (h : Quiets ops peer me me') : me.handed <+: me'.handed := by
  induction h with
  | refl => exact List.prefix_rfl
  | tail _ move ih =>
    cases move with
    | update current => exact ih
    | input datagram emitted accepted => exact ih
    | recv cap data returned => exact ih.trans (List.prefix_append _ _)

/-- What was cleared stays so while nothing new is given. -/
theorem Quiets.cleared (h : Quiets ops peer me me') (hcleared : me.cleared = me.given) :
    me'.cleared = me'.given := by
  induction h with
  | refl => exact hcleared
  | tail _ move ih => cases move <;> exact End.settle_all_cleared ih _

end Quiets

/-- When nothing waits to be sent, everything given is cleared. -/
theorem cleared_of_waitSnd {ops : Ops κ} {conv : UInt32} {a b : End κ}
    (h : Reachable ops conv a b) :
    (ops.waitSnd a.state = 0 → a.cleared = a.given) ∧
      (ops.waitSnd b.state = 0 → b.cleared = b.given) := by
  have hmove : ∀ {peer me me' : End κ}, Move ops peer me me' →
      ops.waitSnd me'.state = 0 → me'.cleared = me'.given := by
    intro peer me me' move hwait
    cases move with
    | send data accepted => exact End.settle_cleared hwait
    | quiet move => cases move <;> exact End.settle_cleared hwait
  induction h with
  | start => exact ⟨fun _ => rfl, fun _ => rfl⟩
  | left before move ih => exact ⟨hmove move, ih.2⟩
  | right before move ih => exact ⟨ih.1, hmove move⟩

/-! ### Runs within a limit -/

/-- The pairs of ends that interleavings reach while every end that moved satisfies `ok`. -/
inductive ReachableWithin (ok : κ → Prop) (ops : Ops κ) (conv : UInt32) : End κ → End κ → Prop where
  | start : ReachableWithin ok ops conv (End.start ops conv) (End.start ops conv)
  | left {a b a' : End κ} (before : ReachableWithin ok ops conv a b) (move : Move ops b a a')
      (within : ok a'.state) : ReachableWithin ok ops conv a' b
  | right {a b b' : End κ} (before : ReachableWithin ok ops conv a b) (move : Move ops a b b')
      (within : ok b'.state) : ReachableWithin ok ops conv a b'

/-- A channel that is reliable as long as its ends satisfy `ok`. -/
structure ReliableWithin (ok : κ → Prop) (ops : Ops κ) : Prop where
  inOrder : ∀ {conv : UInt32} {a b : End κ}, ReachableWithin ok ops conv a b → b.handed <+: a.given
  arrives : ∀ {conv : UInt32} {a b : End κ}, ReachableWithin ok ops conv a b →
    ops.peekSize b.state < 0 → a.cleared <+: b.handed
  drains : ∀ (state : κ) (cap : Nat), 0 ≤ ops.peekSize state → ops.peekSize state ≤ cap →
    ops.queued (ops.recv state cap).1 < ops.queued state

/-- What holds at the start and is kept by every move of either end holds in every run. -/
theorem ReachableWithin.invariant {ok : κ → Prop} {ops : Ops κ} {conv : UInt32}
    (inv : End κ → End κ → Prop) (hsymm : ∀ {a b}, inv a b → inv b a)
    (hstart : inv (End.start ops conv) (End.start ops conv))
    (hmove : ∀ {me peer me'}, inv me peer → Move ops peer me me' → ok me'.state → inv me' peer)
    {a b : End κ} (h : ReachableWithin ok ops conv a b) : inv a b := by
  induction h with
  | start => exact hstart
  | left before move within ih => exact hmove ih move within
  | right before move within ih => exact hsymm (hmove (hsymm ih) move within)

/-! ### Updates that stand still at the limit -/

section Guarded

variable {ok : κ → Prop} {ops : Ops κ} {conv : UInt32} {peer me me' a b : End κ}

/-- Only an update can leave the limit. -/
structure Confined (ok : κ → Prop) (ops : Ops κ) : Prop where
  create : ∀ conv, ok (ops.create conv)
  send : ∀ {state}, ok state → ∀ data, ok (ops.send state data).1
  input : ∀ {state}, ok state → ∀ datagram, ok (ops.input state datagram).1
  recv : ∀ {state}, ok state → ∀ cap, ok (ops.recv state cap).1

/-- The operations with updates that do nothing where they would leave the limit. -/
def guarded (ok : κ → Prop) [DecidablePred ok] (ops : Ops κ) : Ops κ :=
  { ops with
    update := fun state current =>
      if ok (ops.update state current).1 then ops.update state current else (state, []) }

theorem ReachableWithin.within (h : ReachableWithin ok ops conv a b) (hconfined : Confined ok ops) :
    ok a.state ∧ ok b.state :=
  h.invariant (fun a b => ok a.state ∧ ok b.state) And.symm ⟨hconfined.create conv, hconfined.create conv⟩
    fun hboth _ hok => ⟨hok, hboth.2⟩

theorem ReachableWithin.reachable (h : ReachableWithin ok ops conv a b) : Reachable ops conv a b := by
  induction h with
  | start => exact .start
  | left before move within ih => exact .left ih move
  | right before move within ih => exact .right ih move

/-- An end that stands still settles where it is. -/
theorem settle_still (h : Reachable ops conv me peer) :
    { me with emitted := me.emitted ++ [] }.settle ops me.state = me := by
  have hcleared := (cleared_of_waitSnd h).1
  obtain ⟨state, given, cleared, handed, emitted⟩ := me
  simp only [End.settle, List.append_nil, End.mk.injEq, true_and, and_true]
  split
  · rename_i hwait
    exact (hcleared hwait).symm
  · rfl

variable [DecidablePred ok]

/-- A guarded move stays within the limit, as a move of the operations or by standing still. -/
theorem guarded_move (hconfined : Confined ok ops) (hreach : Reachable ops conv me peer) (hok : ok me.state)
    (move : Move (guarded ok ops) peer me me') : Move ops peer me me' ∧ ok me'.state ∨ me' = me := by
  cases move with
  | send data accepted => exact .inl ⟨.send data accepted, hconfined.send hok data⟩
  | quiet move =>
    cases move with
    | update current =>
      by_cases hroom : ok (ops.update me.state current).1
      · have hsame : (guarded ok ops).update me.state current = ops.update me.state current := if_pos hroom
        rw [hsame]
        exact .inl ⟨.quiet (.update current), hroom⟩
      · have hsame : (guarded ok ops).update me.state current = (me.state, []) := if_neg hroom
        have hstill := settle_still hreach
        rw [hsame]
        exact .inr hstill
    | input datagram emitted accepted =>
      exact .inl ⟨.quiet (.input datagram emitted accepted), hconfined.input hok datagram⟩
    | recv cap data returned => exact .inl ⟨.quiet (.recv cap data returned), hconfined.recv hok cap⟩

theorem reachableWithin_of_guarded (hconfined : Confined ok ops) (h : Reachable (guarded ok ops) conv a b) :
    ReachableWithin ok ops conv a b := by
  induction h with
  | start => exact .start
  | left before move ih =>
    obtain ⟨hmove, hok⟩ | hstill := guarded_move hconfined ih.reachable (ih.within hconfined).1 move
    · exact .left ih hmove hok
    · rwa [hstill]
  | right before move ih =>
    obtain ⟨hmove, hok⟩ | hstill := guarded_move hconfined ih.reachable.symm (ih.within hconfined).2 move
    · exact .right ih hmove hok
    · rwa [hstill]

/-- Channels that are reliable within a limit are reliable once their updates respect it. -/
theorem ReliableWithin.guarded (h : ReliableWithin ok ops) (hconfined : Confined ok ops) :
    Reliable (guarded ok ops) where
  inOrder hreach := h.inOrder (reachableWithin_of_guarded hconfined hreach)
  arrives hreach := h.arrives (reachableWithin_of_guarded hconfined hreach)
  drains := h.drains

end Guarded

end ByteChannel
