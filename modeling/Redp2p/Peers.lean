import Redp2p.Context
import Redp2p.Lib.ArrayLoop

/-! The publisher table: search, expiry, insertion within the seats, and removal. -/

namespace Redp2p

open ByteString

/-- What one request reads from outside: the clock, eight random bytes if the source of randomness
works, and whether the table can grow. -/
structure Env where
  now : UInt64
  random : Option (Vector UInt8 8)
  reallocOk : Bool

/-- Whether a record is older than the timeout. The subtraction wraps, as on `uint64_t`. -/
def Peer.stale (etimeoutSec now : UInt64) (peer : Peer) : Bool :=
  now - peer.lastSeen > etimeoutSec

namespace Context

def findPeer (ctx : Context) (id : Bytes) : Option Nat := Keyed.indexOf Peer.id id ctx.peers

/-- The record of a publisher. -/
def record (ctx : Context) (id : Bytes) : Option Peer := Keyed.lookup Peer.id id ctx.peers

def evictStale (ctx : Context) (now : UInt64) : Context :=
  { ctx with
    peers := ArrayLoop.compactBackward (Peer.stale ctx.etimeoutSec now) ctx.peers.length
      ctx.peers }

def countNonvipPeers (ctx : Context) : Nat :=
  ctx.peers.countP fun peer => (ctx.findVip peer.id).isNone

/-- The doubling loop of `redp2p_ensure_peer_storage`. A capacity doubles at most 64 times before it
reaches any size. -/
def growCap (limit need : Nat) : Nat → Nat → Nat
  | 0, cap => cap
  | turns + 1, cap =>
    if cap < need then growCap limit need turns (if cap > limit / 2 then limit else cap * 2)
    else cap

def storageLimit (ctx : Context) : Nat :=
  if ctx.seatsSet then ctx.nPeersCap else sizeMax / peerSize

def storageCap (ctx : Context) (need : Nat) : Nat :=
  growCap ctx.storageLimit need 64
    (min (if ctx.peersAlloc > 0 then ctx.peersAlloc else 8) ctx.storageLimit)

def ensurePeerStorage (ctx : Context) (reallocOk : Bool) (need : Nat) : Context × Status :=
  if need > ctx.storageLimit then (ctx, .efull)
  else if need ≤ ctx.peersAlloc then (ctx, .ok)
  else if ctx.storageCap need > sizeMax / peerSize then (ctx, .error)
  else if reallocOk then ({ ctx with peersAlloc := ctx.storageCap need }, .ok)
  else (ctx, .error)

/-- The record that `redp2p_add_peer` appends. -/
def newPeer (id key : Bytes) (now : UInt64) : Peer :=
  { id := id.take idMax, key, lastSeen := now, proto := 0, udpPort := 0, candidates := [] }

def generateKey (env : Env) : Option Bytes := env.random.map fun bytes => hexEncode bytes.toList

/-- `redp2p_add_peer`: a known publisher is refreshed, a new one takes a seat. -/
def addPeer (ctx : Context) (env : Env) (id : Bytes) : Context × Status :=
  match ctx.findPeer id with
  | some index =>
    ({ ctx with peers := ctx.peers.modify index fun p => { p with lastSeen := env.now } }, .ok)
  | none =>
    if ctx.seatsSet && ctx.peers.length ≥ ctx.nPeersCap then (ctx, .efull)
    else if ctx.peers.length ≥ sizeMax / peerSize then (ctx, .error)
    else if ctx.seatsSet && (ctx.findVip id).isNone && ctx.countNonvipPeers ≥ ctx.nonvipCap then
      (ctx, .efull)
    else
      match ctx.ensurePeerStorage env.reallocOk (ctx.peers.length + 1) with
      | (ctx, .ok) =>
        match generateKey env with
        | none => (ctx, .error)
        | some key =>
          ({ ctx with peers := ctx.peers ++ [newPeer id key env.now] }, .ok)
      | (ctx, _) => (ctx, .error)

def removePeer (ctx : Context) (id : Bytes) : Context × Status :=
  match ctx.findPeer id with
  | none => (ctx, .enoent)
  | some index => ({ ctx with peers := ctx.peers.eraseIdx index }, .ok)

/-! ### What each operation does to the table -/

theorem evictStale_peers (ctx : Context) (now : UInt64) :
    (ctx.evictStale now).peers = ctx.peers.filter fun p => !p.stale ctx.etimeoutSec now :=
  ArrayLoop.compactBackward_length _ _

theorem growCap_ge {limit need : Nat} (hlimit : need ≤ limit) (turns cap : Nat)
    (hcap : need ≤ cap * 2 ^ turns) : need ≤ growCap limit need turns cap := by
  induction turns generalizing cap with
  | zero => simpa [growCap] using hcap
  | succ turns ih =>
    rw [growCap]
    split
    · refine ih _ ?_
      split
      · exact Nat.le_trans hlimit (Nat.le_mul_of_pos_right _ (Nat.two_pow_pos turns))
      · rwa [Nat.mul_assoc, ← Nat.pow_succ']
    · omega

/-- The array that a successful call leaves has room for the records that were asked for, and
nothing else changes. -/
theorem ensurePeerStorage_ok {ctx ctx' : Context} {reallocOk : Bool} {need : Nat}
    (h : ctx.ensurePeerStorage reallocOk need = (ctx', .ok)) (hneed : need ≤ sizeMax / peerSize) :
    ∃ alloc, ctx' = { ctx with peersAlloc := alloc } ∧ need ≤ alloc ∧ ctx.peersAlloc ≤ alloc := by
  unfold ensurePeerStorage at h
  split at h
  · simp at h
  rename_i hlimit
  split at h
  · rename_i halloc
    exact ⟨ctx.peersAlloc, (Prod.mk.inj h).1.symm, halloc, Nat.le_refl _⟩
  split at h
  · simp at h
  rename_i hsize
  split at h
  · have hmax : sizeMax / peerSize < 2 ^ 64 := by decide
    have hstart : 1 ≤ min (if ctx.peersAlloc > 0 then ctx.peersAlloc else 8) ctx.storageLimit := by
      split <;> omega
    have hgrow := Nat.mul_le_mul_right (2 ^ 64) hstart
    have hcap : need ≤ ctx.storageCap need := growCap_ge (by omega) 64 _ (by omega)
    exact ⟨_, (Prod.mk.inj h).1.symm, hcap, by omega⟩
  · simp at h

theorem ensurePeerStorage_failed {ctx ctx' : Context} {reallocOk : Bool} {need : Nat}
    {status : Status} (h : ctx.ensurePeerStorage reallocOk need = (ctx', status))
    (hstatus : status ≠ .ok) : ctx' = ctx := by
  unfold ensurePeerStorage at h
  split at h
  · exact (Prod.mk.inj h).1.symm
  split at h
  · exact (Prod.mk.inj h).1.symm
  split at h
  · exact (Prod.mk.inj h).1.symm
  split at h
  · exact absurd (Prod.mk.inj h).2.symm hstatus
  · exact (Prod.mk.inj h).1.symm

/-- What `redp2p_add_peer` can do: refresh the record, add one within the seats, or refuse. -/
inductive AddPeer (ctx : Context) (env : Env) (id : Bytes) : Context × Status → Prop where
  | refreshed (index : Nat) (found : ctx.findPeer id = some index) :
      AddPeer ctx env id
        ({ ctx with peers := ctx.peers.modify index fun p => { p with lastSeen := env.now } }, .ok)
  | added (key : Bytes) (alloc : Nat) (absent : ctx.findPeer id = none)
      (seat : ctx.seatsSet = true → ctx.peers.length < ctx.nPeersCap)
      (nonvip : ctx.seatsSet = true → ctx.findVip id = none → ctx.countNonvipPeers < ctx.nonvipCap)
      (generated : generateKey env = some key) (room : ctx.peers.length + 1 ≤ alloc) :
      AddPeer ctx env id
        ({ ctx with peers := ctx.peers ++ [newPeer id key env.now], peersAlloc := alloc }, .ok)
  | full (absent : ctx.findPeer id = none) (seats : ctx.seatsSet = true)
      (taken : ctx.nPeersCap ≤ ctx.peers.length ∨
        ctx.findVip id = none ∧ ctx.nonvipCap ≤ ctx.countNonvipPeers) :
      AddPeer ctx env id (ctx, .efull)
  | failed (alloc : Nat) (room : ctx.peersAlloc ≤ alloc) :
      AddPeer ctx env id ({ ctx with peersAlloc := alloc }, .error)

theorem addPeer_cases (ctx : Context) (env : Env) (id : Bytes) :
    AddPeer ctx env id (ctx.addPeer env id) := by
  unfold addPeer
  split
  · rename_i index hfind
    exact .refreshed index hfind
  rename_i hfind
  split
  · rename_i hcap
    simp only [Bool.and_eq_true, decide_eq_true_eq] at hcap
    exact .full hfind hcap.1 (Or.inl hcap.2)
  rename_i hcap
  split
  · exact .failed ctx.peersAlloc (Nat.le_refl _)
  rename_i hsize
  split
  · rename_i hnonvip
    simp only [Bool.and_eq_true, decide_eq_true_eq, Option.isNone_iff_eq_none] at hnonvip
    exact .full hfind hnonvip.1.1 (Or.inr ⟨hnonvip.1.2, hnonvip.2⟩)
  rename_i hnonvip
  split
  · rename_i ctx' hstorage
    obtain ⟨alloc, rfl, hroom, hgrow⟩ := ensurePeerStorage_ok hstorage (by omega)
    cases hkey : generateKey env with
    | none => exact .failed alloc hgrow
    | some key =>
      refine .added key alloc hfind (fun hseats => ?_) (fun hseats hvip => ?_) hkey hroom
      · simpa [hseats] using hcap
      · simpa [hseats, hvip] using hnonvip
  · rename_i ctx' status hne hstorage
    obtain rfl := ensurePeerStorage_failed hstorage hne
    exact .failed _ (Nat.le_refl _)

end Context

end Redp2p
