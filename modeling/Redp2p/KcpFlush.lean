import Redp2p.KcpInput

/-! What a KCP end emits: a flush writes acknowledgements, window probes and data segments into
datagrams of at most the MTU, and the clock decides when to flush. -/

namespace Redp2p.Kcp

open ByteString

/-- The datagrams that went out during a flush, and the bytes that wait in its buffer. -/
structure Output where
  sent : List Bytes
  buffer : Bytes

namespace Output

/-- `ikcp_output`, which is not called with nothing. -/
def emit (o : Output) : Output := ⟨if o.buffer = [] then o.sent else o.sent ++ [o.buffer], []⟩

/-- Adds bytes to the buffer, after the buffer went out where they do not fit behind it. -/
def put (mtu : Nat) (o : Output) (bytes : Bytes) : Output :=
  let o := if mtu < o.buffer.length + bytes.length then o.emit else o
  { o with buffer := o.buffer ++ bytes }

end Output

def wndUnused (k : Ikcpcb) : UInt32 :=
  if k.rcvQueue.length < k.rcvWnd.toNat then k.rcvWnd - UInt32.ofNat k.rcvQueue.length else 0

/-- The segment that carries acknowledgements and probes. -/
def controlSegment (k : Ikcpcb) : Segment where
  conv := k.conv
  cmd := cmdAck
  frg := 0
  wnd := wndUnused k
  ts := 0
  sn := 0
  una := k.rcvNxt
  resendts := 0
  rto := 0
  fastack := 0
  xmit := 0
  data := []

/-- The acknowledgements: the segment keeps the number and the time of the last one. -/
def flushAcks (mtu : Nat) : List (UInt32 × UInt32) → Segment × Output → Segment × Output
  | [], s => s
  | (sn, ts) :: acklist, (seg, out) =>
    flushAcks mtu acklist ({ seg with sn, ts }, out.put mtu (encodeSeg { seg with sn, ts }))

/-- The time between two probes grows by half, between the first and the limit. -/
def nextProbeWait (wait : UInt32) : UInt32 :=
  let wait := if wait < probeInit then probeInit else wait
  let wait := wait + wait / 2
  if probeLimit < wait then probeLimit else wait

/-- Asks the peer for its window while that is closed, at growing intervals. -/
def probeWindow (k : Ikcpcb) : Ikcpcb :=
  if k.rmtWnd = 0 then
    if k.probeWait = 0 then { k with probeWait := probeInit, tsProbe := k.current + probeInit }
    else if 0 ≤ itimediff k.current k.tsProbe then
      let wait := nextProbeWait k.probeWait
      { k with probeWait := wait, tsProbe := k.current + wait, probe := k.probe ||| askSend }
    else k
  else { k with tsProbe := 0, probeWait := 0 }

def flushProbe (mtu : Nat) (probe mask cmd : UInt32) (seg : Segment) (out : Output) : Output :=
  if probe &&& mask ≠ 0 then out.put mtu (encodeSeg { seg with cmd }) else out

def sendWindow (k : Ikcpcb) : UInt32 :=
  let cwnd := min k.sndWnd k.rmtWnd
  if k.nocwnd then cwnd else min k.cwnd cwnd

/-- A segment as it is numbered: the fields that it gets when it enters the send buffer. -/
def numberSegment (k : Ikcpcb) (wnd : UInt32) (seg : Segment) : Segment :=
  { seg with
    conv := k.conv, cmd := cmdPush, wnd, ts := k.current, sn := k.sndNxt, una := k.rcvNxt,
    resendts := k.current, rto := k.rxRto.toUInt32, fastack := 0, xmit := 0 }

/-- The loop that numbers queued segments while the window is open. -/
def fillWindow (wnd cwnd : UInt32) : List Segment → Ikcpcb → Ikcpcb
  | [], k => { k with sndQueue := [] }
  | seg :: queue, k =>
    if itimediff k.sndNxt (k.sndUna + cwnd) < 0 then
      fillWindow wnd cwnd queue
        { k with sndBuf := k.sndBuf ++ [numberSegment k wnd seg], sndNxt := k.sndNxt + 1 }
    else { k with sndQueue := seg :: queue }

def resentLimit (k : Ikcpcb) : UInt32 :=
  if 0 < k.fastresend then UInt32.ofNat k.fastresend.toNat else 0xffffffff

/-- Why a segment of the send buffer goes out. -/
inductive Cause where
  | first | lost | fast
  deriving DecidableEq, Repr

/-- The retransmission time of a segment after it was lost. -/
def backoff (k : Ikcpcb) (rto : UInt32) : UInt32 :=
  if k.nodelay = 0 then rto + max rto k.rxRto.toUInt32
  else
    let step := if k.nodelay < 2 then rto.toInt32 else k.rxRto
    rto + (Int32.ofInt (step.toInt.tdiv 2)).toUInt32

/-- Whether a segment goes out now, and its fields then. -/
def dueSegment (k : Ikcpcb) (seg : Segment) : Option (Cause × Segment) :=
  if seg.xmit = 0 then
    let rtomin := if k.nodelay = 0 then (k.rxRto >>> 3).toUInt32 else 0
    some (.first, { seg with
      xmit := seg.xmit + 1, rto := k.rxRto.toUInt32,
      resendts := k.current + k.rxRto.toUInt32 + rtomin })
  else if 0 ≤ itimediff k.current seg.resendts then
    some (.lost, { seg with
      xmit := seg.xmit + 1, rto := backoff k seg.rto, resendts := k.current + backoff k seg.rto })
  else if resentLimit k ≤ seg.fastack ∧ (seg.xmit.toInt32.toInt ≤ k.fastlimit ∨ k.fastlimit ≤ 0) then
    some (.fast, { seg with xmit := seg.xmit + 1, fastack := 0, resendts := k.current + seg.rto })
  else none

/-- What the loop over the send buffer carries: the output, what was resent and why, the counter of
losses, and the state of the link. -/
structure SendRun where
  out : Output
  change : Nat
  lost : Bool
  xmit : UInt32
  state : UInt32

/-- One turn of the loop over the send buffer, in the control block as it was before the loop. -/
def flushSegment (k : Ikcpcb) (wnd : UInt32) (run : SendRun) (seg : Segment) : SendRun × Segment :=
  match dueSegment k seg with
  | none => (run, seg)
  | some (cause, seg) =>
    let seg := { seg with ts := k.current, wnd, una := k.rcvNxt }
    ({ out := run.out.put k.mtu.toNat (encodeSeg seg ++ seg.data)
       change := if cause = .fast then run.change + 1 else run.change
       lost := run.lost || cause == .lost
       xmit := if cause = .lost then run.xmit + 1 else run.xmit
       state := if k.deadLink ≤ seg.xmit then 0xffffffff else run.state }, seg)

def flushSegments (k : Ikcpcb) (wnd : UInt32) : List Segment → SendRun → SendRun × List Segment
  | [], run => (run, [])
  | seg :: buf, run =>
    let (run, seg) := flushSegment k wnd run seg
    let (run, buf) := flushSegments k wnd buf run
    (run, seg :: buf)

/-- A fast retransmission halves the congestion window. -/
def settleFast (change : Nat) (k : Ikcpcb) : Ikcpcb :=
  if change ≠ 0 then
    let ssthresh := max ((k.sndNxt - k.sndUna) / 2) threshMin
    let cwnd := ssthresh + resentLimit k
    { k with ssthresh, cwnd, incr := cwnd * k.mss }
  else k

/-- A loss closes the congestion window to one segment. -/
def settleLost (priorCwnd : UInt32) (lost : Bool) (k : Ikcpcb) : Ikcpcb :=
  if lost then { k with ssthresh := max (priorCwnd / 2) threshMin, cwnd := 1, incr := k.mss } else k

/-- The congestion window after a flush. -/
def settleCwnd (priorCwnd : UInt32) (run : SendRun) (k : Ikcpcb) : Ikcpcb :=
  let k := settleLost priorCwnd run.lost (settleFast run.change k)
  if k.cwnd < 1 then { k with cwnd := 1, incr := k.mss } else k

/-- The first part of a flush: acknowledgements and probes. -/
def flushControl (k : Ikcpcb) : Ikcpcb × Output :=
  let mtu := k.mtu.toNat
  let (seg, out) := flushAcks mtu k.acklist (controlSegment k, ⟨[], []⟩)
  let k := probeWindow { k with acklist := [] }
  let out := flushProbe mtu k.probe askSend cmdWask seg out
  let out := flushProbe mtu k.probe askTell cmdWins seg out
  ({ k with probe := 0 }, out)

/-- Queued segments get numbers. -/
def flushFill (k : Ikcpcb) : Ikcpcb := fillWindow (wndUnused k) (sendWindow k) k.sndQueue k

/-- The second part of a flush: what is due of the numbered segments goes out. -/
def flushData (k : Ikcpcb) (out : Output) : Ikcpcb × SendRun :=
  let (run, sndBuf) := flushSegments k (wndUnused k) k.sndBuf ⟨out, 0, false, k.xmit, k.state⟩
  ({ k with sndBuf, xmit := run.xmit, state := run.state }, run)

/-- A flush, with the datagrams that it emits. -/
def flush (k : Ikcpcb) : Ikcpcb × List Bytes :=
  if !k.updated then (k, [])
  else
    let (control, out) := flushControl k
    let (data, run) := flushData (flushFill control) out
    (settleCwnd k.cwnd run data, run.out.emit.sent)

/-! ### The clock -/

/-- The first update starts the clock. -/
def startClock (k : Ikcpcb) (current : UInt32) : Ikcpcb :=
  if k.updated then { k with current } else { k with current, updated := true, tsFlush := current }

def update (k : Ikcpcb) (current : UInt32) : Ikcpcb × List Bytes :=
  let k := startClock k current
  let slap := itimediff current k.tsFlush
  let jump := 10000 ≤ slap ∨ slap < -10000
  let k := if jump then { k with tsFlush := current } else k
  if jump ∨ 0 ≤ slap then
    let tsFlush := k.tsFlush + k.interval
    flush { k with tsFlush := if 0 ≤ itimediff current tsFlush then current + k.interval else tsFlush }
  else (k, [])

/-- The loop of `ikcp_check` over the send buffer: the least time until a segment is due, or nothing
when one is due now. -/
def nextResend (current : UInt32) : List Segment → Int → Option Int
  | [], least => some least
  | seg :: buf, least =>
    let diff := itimediff seg.resendts current
    if diff ≤ 0 then none else nextResend current buf (if diff < least then diff else least)

def check (k : Ikcpcb) (current : UInt32) : UInt32 :=
  if !k.updated then current
  else
    let slap := itimediff current k.tsFlush
    let tsFlush := if 10000 ≤ slap ∨ slap < -10000 then current else k.tsFlush
    if 0 ≤ itimediff current tsFlush then current
    else
      match nextResend current k.sndBuf 0x7fffffff with
      | none => current
      | some tmPacket =>
        let tmFlush := itimediff tsFlush current
        let minimal := UInt32.ofInt (if tmPacket < tmFlush then tmPacket else tmFlush)
        current + if k.interval ≤ minimal then k.interval else minimal

end Redp2p.Kcp
