import Redp2p.IndexLoop

/-! One round over the connections of the index, each of which may find its own outside: which connections
are looked at, which are removed, and what is left of the others. -/

namespace Redp2p

open ByteString

/-! ### What happens to a connection -/

/-- The bytes that a read of a connection brings, as far as its buffer has room. -/
def Conn.reads (conn : Conn) (turn : LoopTurn) : Bytes :=
  (turn.received conn.fd).take (httpBufMax - conn.buf.length)

def Conn.timedOut (conn : Conn) (turn : LoopTurn) : Bool :=
  conn.buf ≠ [] && turn.nowMs - conn.ts > httpTimeoutS * 1000

def Conn.readFails (conn : Conn) (turn : LoopTurn) (ready : List Nat) : Bool :=
  conn.fd ∈ ready && conn.reads turn = []

/-- A read ends a request, which is answered. -/
def Conn.completes (conn : Conn) (turn : LoopTurn) (ready : List Nat) : Bool :=
  conn.fd ∈ ready && conn.reads turn ≠ [] && indexRequestParse (conn.buf ++ conn.reads turn) ≠ .more

def Conn.ended (conn : Conn) (turn : LoopTurn) (ready : List Nat) : Bool :=
  conn.timedOut turn || conn.readFails turn ready || conn.completes turn ready

/-- A connection with the bytes of its read behind those it had. -/
def Conn.after (conn : Conn) (turn : LoopTurn) (ready : List Nat) : Conn :=
  { conn with buf := conn.buf ++ if conn.fd ∈ ready then conn.reads turn else [] }

theorem keptConn_eq (turn : LoopTurn) (ready : List Nat) (conn : Conn) :
    keptConn turn ready conn = if conn.ended turn ready then none else some (conn.after turn ready) := by
  have hreads : (turn.received conn.fd).take (httpBufMax - conn.buf.length) = conn.reads turn := rfl
  unfold keptConn Conn.ended Conn.timedOut Conn.readFails Conn.completes Conn.after
  simp only [hreads]
  by_cases hlate : (conn.buf ≠ [] && turn.nowMs - conn.ts > httpTimeoutS * 1000) = true
  · rw [if_pos hlate, hlate, Bool.true_or, Bool.true_or, if_pos rfl]
  rw [if_neg hlate, Bool.not_eq_true _ |>.mp hlate, Bool.false_or]
  by_cases hready : conn.fd ∈ ready
  · by_cases hdata : conn.reads turn = []
    · simp [hready, hdata]
    · by_cases hmore : indexRequestParse (conn.buf ++ conn.reads turn) = .more
      · simp [hready, hdata, hmore]
      · simp [hready, hdata, hmore]
  · simp [hready]

/-! ### The round -/

/-- The state of the loop of `redp2p_index_process_connections`: its index, what the answers did, and which
connections it has looked at. -/
structure RoundState where
  left : Nat
  ctx : Context
  writes : Writes
  examined : List Conn

/-- One turn of the loop. The entry at index `i` of the table finds `turns i` outside. -/
def examineConn (strtod : Strtod) (turns : Nat → LoopTurn) (ready : List Nat) (s : RoundState) (conn : Conn) :
    RoundState × Option Conn :=
  let i := s.left - 1
  let ((ctx, writes), kept) := processConn strtod (turns i) ready (s.ctx, s.writes) conn
  (⟨i, ctx, writes, s.examined ++ [conn]⟩, kept)

/-- `redp2p_index_process_connections` with readings of the clock and outcomes of the reads of their own for
every connection. -/
def connectionRound (strtod : Strtod) (turns : Nat → LoopTurn) (ready : List Nat) (ctx : Context)
    (conns : List Conn) : RoundState × List Conn :=
  ArrayLoop.sweepBackward (examineConn strtod turns ready) conns.length ⟨conns.length, ctx, [], []⟩ conns

variable (strtod : Strtod) (turns : Nat → LoopTurn) (ready : List Nat)

/-- The loop of one turn is a round in which all connections find the same outside. -/
theorem processConnections_eq (runtime : IndexRuntime) (turn : LoopTurn) :
    runtime.processConnections strtod turn ready =
      let (s, conns) := connectionRound strtod (fun _ => turn) ready runtime.ctx runtime.conns
      ({ runtime with ctx := s.ctx, conns }, s.writes) := by
  have hsame := ArrayLoop.sweepBackward_hom (f := processConn strtod turn ready)
    (g := examineConn strtod (fun _ => turn) ready) (π := fun s => (s.ctx, s.writes))
    (fun s conn => by simp [examineConn]) runtime.conns.length ⟨runtime.conns.length, runtime.ctx, [], []⟩
    runtime.conns
  unfold IndexRuntime.processConnections connectionRound
  dsimp only at hsame
  rw [hsame]

theorem examineConn_mapAccumr (conns : List Conn) (ctx : Context) (writes : Writes) (examined : List Conn) :
    let r := conns.mapAccumr (fun conn s => examineConn strtod turns ready s conn)
      ⟨conns.length, ctx, writes, examined⟩
    r.1.examined = examined ++ conns.reverse ∧
      r.2 = conns.mapIdx fun i conn => keptConn (turns i) ready conn := by
  induction conns using List.reverseRecOn generalizing ctx writes examined with
  | nil => exact ⟨(List.append_nil examined).symm, rfl⟩
  | append_singleton conns conn ih =>
    have hkept := processConn_kept strtod (turns conns.length) ready (ctx, writes) conn
    dsimp only
    rw [ArrayLoop.mapAccumr_concat, List.length_append, List.length_singleton, List.mapIdx_concat]
    unfold examineConn
    dsimp only
    cases hresult : processConn strtod (turns (conns.length + 1 - 1)) ready (ctx, writes) conn with
    | mk s kept =>
      obtain ⟨hexamined, hleft⟩ := ih s.1 s.2 (examined ++ [conn])
      rw [Nat.add_sub_cancel] at hresult
      rw [hresult] at hkept
      refine ⟨?_, ?_⟩
      · exact hexamined.trans (by simp)
      · exact congrArg₂ (· ++ ·) hleft (congrArg (fun kept => [kept]) hkept)

/-- A round looks once at every connection that is there at its start. It removes those that have timed out,
failed to read or completed a request, and keeps the others with what they have received, in the order in
which it arrived. -/
theorem connection_round (ctx : Context) (conns : List Conn) :
    (connectionRound strtod turns ready ctx conns).1.examined = conns.reverse ∧
      (connectionRound strtod turns ready ctx conns).2.Perm
        (conns.mapIdx fun i conn =>
          if conn.ended (turns i) ready then none else some (conn.after (turns i) ready)).reduceOption := by
  obtain ⟨hstate, hperm⟩ := ArrayLoop.sweepBackward_mapAccumr (examineConn strtod turns ready)
    ⟨conns.length, ctx, [], []⟩ conns
  obtain ⟨hexamined, hkept⟩ := examineConn_mapAccumr strtod turns ready conns ctx [] []
  constructor
  · rw [connectionRound, hstate, hexamined, List.nil_append]
  · rw [hkept] at hperm
    simp only [keptConn_eq] at hperm
    exact hperm

end Redp2p
