import Redp2p.KcpSegment

/-! The control block of a KCP end, its set-up, and the calls of the side above it: sending bytes,
receiving them, and asking what waits. No congestion controller is ever installed. -/

namespace Redp2p.Kcp

open ByteString

def rtoNdl : Int32 := 30
def rtoMin : Int32 := 100
def rtoDef : Int32 := 200
def rtoMax : UInt32 := 60000
def askSend : UInt32 := 1
def askTell : UInt32 := 2
def wndSnd : UInt32 := 32
def wndRcv : UInt32 := 128
def mtuDef : UInt32 := 1400
def defaultInterval : UInt32 := 100
def deadlink : UInt32 := 20
def threshInit : UInt32 := 2
def threshMin : UInt32 := 2
def probeInit : UInt32 := 5000
def probeLimit : UInt32 := 120000
def fastackLimit : Int := 5

/-- The control block. The numbers of queued segments are the lengths of the queues, and `acklist`
holds the serial number and the time of each segment to acknowledge. -/
structure Ikcpcb where
  conv : UInt32
  mtu : UInt32
  mss : UInt32
  state : UInt32
  sndUna : UInt32
  sndNxt : UInt32
  rcvNxt : UInt32
  ssthresh : UInt32
  rxRttval : Int32
  rxSrtt : Int32
  rxRto : Int32
  rxMinrto : Int32
  sndWnd : UInt32
  rcvWnd : UInt32
  rmtWnd : UInt32
  cwnd : UInt32
  probe : UInt32
  current : UInt32
  interval : UInt32
  tsFlush : UInt32
  xmit : UInt32
  nodelay : UInt32
  updated : Bool
  tsProbe : UInt32
  probeWait : UInt32
  deadLink : UInt32
  incr : UInt32
  sndQueue : List Segment
  rcvQueue : List Segment
  sndBuf : List Segment
  rcvBuf : List Segment
  acklist : List (UInt32 × UInt32)
  fastresend : Int
  fastlimit : Int
  nocwnd : Bool
  stream : Bool
  deriving DecidableEq, Repr

/-! ### Set-up -/

def create (conv : UInt32) : Ikcpcb where
  conv := conv
  mtu := mtuDef
  mss := mtuDef - UInt32.ofNat overhead
  state := 0
  sndUna := 0
  sndNxt := 0
  rcvNxt := 0
  ssthresh := threshInit
  rxRttval := 0
  rxSrtt := 0
  rxRto := rtoDef
  rxMinrto := rtoMin
  sndWnd := wndSnd
  rcvWnd := wndRcv
  rmtWnd := wndRcv
  cwnd := 0
  probe := 0
  current := 0
  interval := defaultInterval
  tsFlush := defaultInterval
  xmit := 0
  nodelay := 0
  updated := false
  tsProbe := 0
  probeWait := 0
  deadLink := deadlink
  incr := 0
  sndQueue := []
  rcvQueue := []
  sndBuf := []
  rcvBuf := []
  acklist := []
  fastresend := 0
  fastlimit := fastackLimit
  nocwnd := false
  stream := false

def setmtu (k : Ikcpcb) (mtu : Int) : Option Ikcpcb :=
  if mtu < 50 ∨ mtu < overhead then none
  else
    let mtu := UInt32.ofNat mtu.toNat
    some { k with mtu, mss := mtu - UInt32.ofNat overhead }

def wndsize (k : Ikcpcb) (sndwnd rcvwnd : Int) : Ikcpcb :=
  let k := if 0 < sndwnd then { k with sndWnd := UInt32.ofNat sndwnd.toNat } else k
  if 0 < rcvwnd then { k with rcvWnd := max (UInt32.ofNat rcvwnd.toNat) wndRcv } else k

def boundInterval (interval : Int) : UInt32 :=
  if 5000 < interval then 5000 else if interval < 10 then 10 else UInt32.ofNat interval.toNat

def setNodelay (k : Ikcpcb) (nodelay interval resend nc : Int) : Ikcpcb :=
  let k :=
    if 0 ≤ nodelay then
      { k with nodelay := UInt32.ofNat nodelay.toNat, rxMinrto := if nodelay ≠ 0 then rtoNdl else rtoMin }
    else k
  let k := if 0 ≤ interval then { k with interval := boundInterval interval } else k
  let k := if 0 ≤ resend then { k with fastresend := resend } else k
  if 0 ≤ nc then { k with nocwnd := nc ≠ 0 } else k

/-! ### Sending -/

/-- A segment of the send queue; the rest of it is filled in when it is numbered. -/
def segmentNew (data : Bytes) (frg : UInt32) : Segment where
  conv := 0
  cmd := 0
  frg := frg
  wnd := 0
  ts := 0
  sn := 0
  una := 0
  resendts := 0
  rto := 0
  fastack := 0
  xmit := 0
  data := data

/-- In streaming mode the last queued segment takes what it has room for: the queue, the bytes that
are left, and how many were taken. -/
def extendLast (mss : Nat) (queue : List Segment) (buffer : Bytes) : List Segment × Bytes × Nat :=
  match queue.getLast? with
  | none => (queue, buffer, 0)
  | some old =>
    if old.data.length < mss then
      let extend := min buffer.length (mss - old.data.length)
      (queue.dropLast ++ [segmentNew (old.data ++ buffer.take extend) 0], buffer.drop extend, extend)
    else (queue, buffer, 0)

/-- The fragments of a chunk, each with the number of fragments that follow it unless the channel is
a stream. -/
def fragments (stream : Bool) (mss : Nat) : Nat → Bytes → List Segment
  | 0, _ => []
  | count + 1, buffer =>
    segmentNew (buffer.take mss) (if stream then 0 else UInt32.ofNat count) ::
      fragments stream mss count (buffer.drop mss)

def fragmentCount (mss : Nat) (buffer : Bytes) : Nat :=
  if buffer.length ≤ mss then 1 else (buffer.length + mss - 1) / mss

/-- What a send does before it cuts new segments: the queue, the bytes that are left, and how many
were taken. -/
def extendStream (k : Ikcpcb) (buffer : Bytes) : List Segment × Bytes × Nat :=
  if k.stream then extendLast k.mss.toNat k.sndQueue buffer else (k.sndQueue, buffer, 0)

def send (k : Ikcpcb) (buffer : Bytes) : Ikcpcb × Int :=
  let (queue, rest, sent) := extendStream k buffer
  let count := fragmentCount k.mss.toNat rest
  if k.stream ∧ rest.length = 0 then ({ k with sndQueue := queue }, sent)
  else if wndRcv.toNat ≤ count then
    ({ k with sndQueue := queue }, if k.stream ∧ 0 < sent then sent else -2)
  else
    ({ k with sndQueue := queue ++ fragments k.stream k.mss.toNat count rest }, sent + rest.length)

def waitsnd (k : Ikcpcb) : Nat := k.sndBuf.length + k.sndQueue.length

/-! ### Receiving -/

/-- The segments of the first message of the receive queue joined, and the segments after it. -/
def takeMessage : List Segment → Bytes × List Segment
  | [] => ([], [])
  | seg :: queue =>
    if seg.frg = 0 then (seg.data, queue)
    else (seg.data ++ (takeMessage queue).1, (takeMessage queue).2)

def peeksize (k : Ikcpcb) : Int :=
  match k.rcvQueue with
  | [] => -1
  | seg :: queue =>
    if seg.frg = 0 then seg.data.length
    else if (seg :: queue).length < (seg.frg + 1).toNat then -1
    else (takeMessage (seg :: queue)).1.length

/-- The loop that moves what is in order from the receive buffer to the receive queue. -/
def moveReady : List Segment → Ikcpcb → Ikcpcb
  | [], k => { k with rcvBuf := [] }
  | seg :: buf, k =>
    if seg.sn = k.rcvNxt ∧ k.rcvQueue.length < k.rcvWnd.toNat then
      moveReady buf { k with rcvQueue := k.rcvQueue ++ [seg], rcvNxt := k.rcvNxt + 1 }
    else { k with rcvBuf := seg :: buf }

/-- Receives a message into a buffer of `cap` bytes. -/
def recv (k : Ikcpcb) (cap : Nat) : Ikcpcb × Except Int Bytes :=
  if k.rcvQueue = [] then (k, .error (-1))
  else if peeksize k < 0 then (k, .error (-2))
  else if (cap : Int) < peeksize k then (k, .error (-3))
  else
    let recover := k.rcvWnd.toNat ≤ k.rcvQueue.length
    let (message, queue) := takeMessage k.rcvQueue
    let k := moveReady k.rcvBuf { k with rcvQueue := queue }
    let k :=
      if k.rcvQueue.length < k.rcvWnd.toNat ∧ recover then { k with probe := k.probe ||| askTell }
      else k
    (k, .ok message)

end Redp2p.Kcp
