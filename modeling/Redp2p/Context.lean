import Redp2p.Candidate
import Redp2p.Lib.Keyed

/-! The context of an index: its publisher records, its seats and VIP reservations, its pending punch
calls, and the setters that configure it before it serves. -/

namespace Redp2p

open ByteString

/-! ### State -/

/-- A publisher record. It lives until `lastSeen` is older than the record timeout. -/
structure Peer where
  id : Bytes
  key : Bytes
  lastSeen : UInt64
  proto : Nat
  udpPort : UInt16
  candidates : List Candidate
  deriving DecidableEq

structure VipEntry where
  id : Bytes
  pass : Bytes
  deriving DecidableEq

/-- A punch introduction that waits for its publisher. -/
structure PendingCall where
  callerId : Bytes
  targetId : Bytes
  sessId : Bytes
  candidates : List Candidate
  ts : UInt64
  deriving DecidableEq

structure Context where
  peers : List Peer
  peersAlloc : Nat
  nPeersCap : Nat
  nonvipCap : Nat
  seatsSet : Bool
  vips : List VipEntry
  vipsCap : Nat
  pass : Bytes
  powBits : Int
  etimeoutSec : UInt64
  pendingCalls : List PendingCall

/-- A context as `redp2p_open` leaves it. The record timeout comes from the environment. -/
def Context.opened (etimeoutSec : UInt64) : Context where
  peers := []
  peersAlloc := 0
  nPeersCap := 0
  nonvipCap := 0
  seatsSet := false
  vips := []
  vipsCap := 0
  pass := []
  powBits := 0
  etimeoutSec := etimeoutSec
  pendingCalls := []

/-- `sizeof(redp2p_peer_t)`. -/
def peerSize : Nat := 608

/-- `sizeof(redp2p_vip_entry_t)`. -/
def vipEntrySize : Nat := 320

namespace Context

/-! ### Seats and reservations -/

def findVip (ctx : Context) (id : Bytes) : Option Nat := Keyed.indexOf VipEntry.id id ctx.vips

def updateNonvipCap (ctx : Context) : Context :=
  { ctx with
    nonvipCap := if ctx.vips.length ≥ ctx.nPeersCap then 0 else ctx.nPeersCap - ctx.vips.length }

def setSeats (ctx : Context) (seats : Nat) : Context × Status :=
  if seats > sizeMax / peerSize then (ctx, .einval)
  else ({ ctx with nPeersCap := seats, seatsSet := true }.updateNonvipCap, .ok)

def setPow (ctx : Context) (bits : Int) : Context × Status :=
  if bits < 0 || bits > powMax then (ctx, .einval) else ({ ctx with powBits := bits }, .ok)

def setPass (ctx : Context) (pass : Bytes) : Context × Status :=
  if pass ≠ [] && !isValidPassToken pass then (ctx, .einval)
  else ({ ctx with pass := pass.take passMax }, .ok)

/-- Which allocations succeed while a VIP map is read: the copy of the text, and a table of each
capacity. -/
structure VipMemory where
  copy : Bool
  table : Nat → Bool

inductive VipError where
  | copyFailed
  | oddTokens
  | invalidId (id : Bytes)
  | invalidPass (id : Bytes)
  | redefined (id : Bytes)
  | capacityOverflow
  | allocationOverflow
  | tableFailed

def VipError.message : VipError → Bytes
  | .copyFailed => ascii "failed to allocate REDP2P_VIP buffer"
  | .oddTokens => ascii "REDP2P_VIP has odd token count"
  | .invalidId id => ascii "REDP2P_VIP invalid id '" ++ id ++ ascii "'"
  | .invalidPass id => ascii "REDP2P_VIP invalid password for id '" ++ id ++ ascii "'"
  | .redefined id => ascii "REDP2P_VIP redefines reserved id '" ++ id ++ ascii "'"
  | .capacityOverflow => ascii "REDP2P_VIP table capacity overflow"
  | .allocationOverflow => ascii "REDP2P_VIP table allocation overflow"
  | .tableFailed => ascii "failed to allocate REDP2P_VIP table"

/-- The capacity of the VIP table after room is made for one more entry. -/
def growVips (ctx : Context) (mem : VipMemory) : Except VipError Nat :=
  if ctx.vips.length ≥ ctx.vipsCap then
    if ctx.vipsCap > sizeMax / 2 then .error .capacityOverflow
    else
      let cap := if ctx.vipsCap > 0 then ctx.vipsCap * 2 else 8
      if cap > sizeMax / vipEntrySize then .error .allocationOverflow
      else if mem.table cap then .ok cap else .error .tableFailed
  else .ok ctx.vipsCap

def addVip (ctx : Context) (mem : VipMemory) (id pass : Bytes) : Except VipError Context :=
  if !isValidId id then .error (.invalidId id)
  else if !isValidPassToken pass then .error (.invalidPass id)
  else if (ctx.findVip id).isSome then .error (.redefined id)
  else
    match ctx.growVips mem with
    | .error err => .error err
    | .ok cap =>
      .ok { ctx with
        vips := ctx.vips ++ [{ id := id.take idMax, pass := pass.take passMax }], vipsCap := cap }

/-- The token at the cursor, and the cursor past it and the white space that follows. -/
def nextToken (cursor : Bytes) : Bytes × Bytes :=
  (cursor.takeWhile fun b => !isSpace b,
    ((cursor.dropWhile fun b => !isSpace b).drop 1).dropWhile isSpace)

/-- The loop over the id and password pairs. Every turn passes a token, so the length of the text
bounds the turns. -/
def readVips (mem : VipMemory) : Nat → Context → Bytes → Except VipError Context
  | _, ctx, [] => .ok ctx
  | 0, ctx, _ :: _ => .ok ctx
  | turns + 1, ctx, cursor =>
    let id := nextToken cursor
    if id.2 = [] then .error .oddTokens
    else
      let pass := nextToken id.2
      match ctx.addVip mem id.1 pass.1 with
      | .error err => .error err
      | .ok ctx => readVips mem turns ctx pass.2

def clearVips (ctx : Context) : Context := { ctx with vips := [], vipsCap := 0 }.updateNonvipCap

/-- `redp2p_set_vip`: on any error no reservation is left. -/
def setVip (ctx : Context) (mem : VipMemory) (vip : Bytes) : Context × Except VipError Unit :=
  let ctx := ctx.clearVips
  if vip = [] then (ctx, .ok ())
  else if !mem.copy then (ctx, .error .copyFailed)
  else
    match readVips mem (trim vip).length ctx (trim vip) with
    | .error err => (ctx.clearVips, .error err)
    | .ok ctx => (ctx.updateNonvipCap, .ok ())

def getRegisterPass (ctx : Context) (id : Bytes) : Bytes :=
  match (ctx.findVip id).bind fun i => ctx.vips[i]? with
  | some vip => vip.pass
  | none => ctx.pass

end Context

/-- One call of a setter before the index serves. -/
inductive Setup where
  | seats (n : Nat)
  | pow (bits : Int)
  | pass (text : Bytes)
  | vip (mem : Context.VipMemory) (text : Bytes)

def Setup.apply (ctx : Context) : Setup → Context
  | .seats n => (ctx.setSeats n).1
  | .pow bits => (ctx.setPow bits).1
  | .pass text => (ctx.setPass text).1
  | .vip mem text => (ctx.setVip mem text).1

/-- The context that any calls of the setters leave before the index serves. -/
def Context.configured (etimeoutSec : UInt64) (setups : List Setup) : Context :=
  setups.foldl Setup.apply (Context.opened etimeoutSec)

end Redp2p
