import Redp2p.Kcp

/-! What a KCP end does with a datagram: acknowledgements thin the send buffer out and set the
retransmission time, data goes through the receive buffer into the receive queue. -/

namespace Redp2p.Kcp

open ByteString

/-! ### Acknowledgements -/

/-- The retransmission time after a round trip of `rtt` milliseconds. Only the deviation has 64 bits. -/
def updateAck (k : Ikcpcb) (rtt : Int32) : Ikcpcb :=
  let k :=
    if k.rxSrtt = 0 then { k with rxSrtt := rtt, rxRttval := rtt / 2 }
    else
      let delta : Int64 := (rtt - k.rxSrtt).toInt64
      let delta := if delta < 0 then -delta else delta
      let rttval := (((3 * k.rxRttval).toInt64 + delta) / 4).toInt32
      let srtt := (7 * k.rxSrtt + rtt) / 8
      { k with rxRttval := rttval, rxSrtt := if srtt < 1 then 1 else srtt }
  let rto := k.rxSrtt.toUInt32 + max k.interval (4 * k.rxRttval).toUInt32
  { k with rxRto := (min (max k.rxMinrto.toUInt32 rto) rtoMax).toInt32 }

/-- The first number that is not acknowledged. -/
def firstUnacked (k : Ikcpcb) : UInt32 :=
  match k.sndBuf with
  | [] => k.sndNxt
  | seg :: _ => seg.sn

def shrinkBuf (k : Ikcpcb) : Ikcpcb := { k with sndUna := firstUnacked k }

/-- The send buffer without the segment that is acknowledged; a segment with a later number ends the
search. -/
def dropAcked (sn : UInt32) : List Segment → List Segment
  | [] => []
  | seg :: buf =>
    if sn = seg.sn then buf
    else if itimediff sn seg.sn < 0 then seg :: buf
    else seg :: dropAcked sn buf

/-- An acknowledgement counts only for numbers that are in flight. -/
def inFlight (k : Ikcpcb) (sn : UInt32) : Bool :=
  0 ≤ itimediff sn k.sndUna && itimediff sn k.sndNxt < 0

def parseAck (k : Ikcpcb) (sn : UInt32) : Ikcpcb :=
  if inFlight k sn then { k with sndBuf := dropAcked sn k.sndBuf } else k

def parseUna (k : Ikcpcb) (una : UInt32) : Ikcpcb :=
  { k with sndBuf := k.sndBuf.dropWhile fun seg => 0 < itimediff una seg.sn }

/-- Segments that were passed by an acknowledgement count towards a fast retransmission. -/
def passSegments (sn ts : UInt32) : List Segment → List Segment
  | [] => []
  | seg :: buf =>
    if itimediff sn seg.sn < 0 then seg :: buf
    else
      (if sn ≠ seg.sn ∧ 0 ≤ itimediff ts seg.ts then { seg with fastack := seg.fastack + 1 } else seg) ::
        passSegments sn ts buf

def parseFastack (k : Ikcpcb) (sn ts : UInt32) : Ikcpcb :=
  if inFlight k sn then { k with sndBuf := passSegments sn ts k.sndBuf } else k

/-! ### Data -/

def ackPush (k : Ikcpcb) (sn ts : UInt32) : Ikcpcb :=
  { k with acklist := k.acklist ++ [(sn, ts)] }

/-- The place of a segment, sought from the end of the receive buffer: the buffer is given last
segment first. -/
def insertSegment (newseg : Segment) : List Segment → List Segment
  | [] => [newseg]
  | seg :: buf =>
    if seg.sn = newseg.sn then seg :: buf
    else if 0 < itimediff newseg.sn seg.sn then newseg :: seg :: buf
    else seg :: insertSegment newseg buf

def parseData (k : Ikcpcb) (newseg : Segment) : Ikcpcb :=
  if 0 ≤ itimediff newseg.sn (k.rcvNxt + k.rcvWnd) ∨ itimediff newseg.sn k.rcvNxt < 0 then k
  else moveReady (insertSegment newseg k.rcvBuf.reverse).reverse k

/-! ### Datagrams -/

/-- The control block while a datagram is read, with the greatest acknowledged number seen in it and
the time that came with that. -/
structure InputRun where
  kcp : Ikcpcb
  maxack : Option (UInt32 × UInt32)

def noteAck (maxack : Option (UInt32 × UInt32)) (sn ts : UInt32) : Option (UInt32 × UInt32) :=
  match maxack with
  | none => some (sn, ts)
  | some (greatest, latest) =>
    if 0 < itimediff sn greatest ∧ 0 < itimediff ts latest then some (sn, ts)
    else some (greatest, latest)

def inputAck (run : InputRun) (seg : Segment) : InputRun :=
  let rtt := itimediff run.kcp.current seg.ts
  let k := if 0 ≤ rtt then updateAck run.kcp (Int32.ofInt rtt) else run.kcp
  ⟨shrinkBuf (parseAck k seg.sn), noteAck run.maxack seg.sn seg.ts⟩

def inputPush (k : Ikcpcb) (seg : Segment) : Ikcpcb :=
  if itimediff seg.sn (k.rcvNxt + k.rcvWnd) < 0 then
    let k := ackPush k seg.sn seg.ts
    if 0 ≤ itimediff seg.sn k.rcvNxt then parseData k seg else k
  else k

/-- What every segment tells: the window of the peer, and the number up to which it has everything. -/
def inputUna (k : Ikcpcb) (wnd una : UInt32) : Ikcpcb := shrinkBuf (parseUna { k with rmtWnd := wnd } una)

/-- One turn of the loop of `ikcp_input`, after the checks on the header. -/
def inputSegment (run : InputRun) (seg : Segment) : InputRun :=
  let run := { run with kcp := inputUna run.kcp seg.wnd seg.una }
  if seg.cmd = cmdAck then inputAck run seg
  else if seg.cmd = cmdPush then { run with kcp := inputPush run.kcp seg }
  else if seg.cmd = cmdWask then { run with kcp := { run.kcp with probe := run.kcp.probe ||| askTell } }
  else run

def knownCmd (cmd : UInt32) : Bool := cmd == cmdPush || cmd == cmdAck || cmd == cmdWask || cmd == cmdWins

/-- The loop of `ikcp_input`, with a bound on its turns, and what the call returns. -/
def inputLoop : Nat → InputRun → Bytes → InputRun × Int
  | 0, run, _ => (run, 0)
  | turns + 1, run, data =>
    if data.length < overhead then (run, 0)
    else
      let header := decodeHeader data
      let rest := data.drop overhead
      if header.conv ≠ run.kcp.conv then (run, -1)
      else if rest.length < header.len.toNat ∨ header.len.toInt32 < 0 then (run, -2)
      else if !knownCmd header.cmd.toUInt32 then (run, -3)
      else
        inputLoop turns (inputSegment run (header.segment (rest.take header.len.toNat)))
          (rest.drop header.len.toNat)

/-- Slow start up to the threshold, and about one segment for each round trip from there. -/
def raiseCwnd (k : Ikcpcb) : Ikcpcb :=
  let mss := k.mss
  if k.cwnd < k.ssthresh then { k with cwnd := k.cwnd + 1, incr := k.incr + mss }
  else
    let incr := if k.incr < mss then mss else k.incr
    let incr := incr + ((mss * mss) / incr + mss / 16)
    { k with
      incr
      cwnd :=
        if (k.cwnd + 1) * mss ≤ incr then (incr + mss - 1) / (if 0 < mss then mss else 1) else k.cwnd }

/-- The congestion window grows when the first unacknowledged number has moved on. -/
def growCwnd (k : Ikcpcb) : Ikcpcb :=
  if k.cwnd < k.rmtWnd then
    let k := raiseCwnd k
    if k.rmtWnd < k.cwnd then { k with cwnd := k.rmtWnd, incr := k.rmtWnd * k.mss } else k
  else k

/-- The greatest acknowledged number of the datagram passes the segments before it. -/
def passAcked (run : InputRun) : Ikcpcb :=
  match run.maxack with
  | none => run.kcp
  | some (sn, ts) => parseFastack run.kcp sn ts

/-- The end of `ikcp_input`, once the whole datagram was read. -/
def inputDone (prevUna : UInt32) (run : InputRun) : Ikcpcb :=
  let k := passAcked run
  if 0 < itimediff k.sndUna prevUna then growCwnd k else k

def input (k : Ikcpcb) (data : Bytes) : Ikcpcb × Int :=
  if data.length < overhead then (k, -1)
  else
    -- each turn reads a header, so the length of the datagram bounds the turns
    let (run, code) := inputLoop data.length ⟨k, none⟩ data
    (if code = 0 then inputDone k.sndUna run else run.kcp, code)

end Redp2p.Kcp
