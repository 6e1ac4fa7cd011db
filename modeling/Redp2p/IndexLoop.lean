import Redp2p.HttpServer
import Redp2p.Pending
import Redp2p.Lib.ArrayLoop

/-! The event loop of the index and its table of connections: in each turn it closes what it cannot
watch, accepts one connection, and reads, answers and closes those that are ready. -/

namespace Redp2p

open ByteString

/-! ### The table -/

def maxConnections : Nat := 128

/-- `FD_SETSIZE`. -/
def fdSetSize : Nat := 1024

def httpTimeoutS : UInt64 := 5

def ctrtokErrorMalformed : Bytes := ascii "REDP2P_CTRTOK_ERROR:malformed"

/-- A connection with the bytes of its request so far. -/
structure Conn where
  fd : Nat
  ts : UInt64
  buf : Bytes

structure IndexRuntime where
  ctx : Context
  conns : List Conn
  connsCap : Nat
  listenerFd : Nat
  lastPrune : UInt64
  pruneIntervalS : UInt64

/-- What one turn of the loop finds outside: the clocks, the descriptors that are readable and whether
`select` succeeds, a connection to accept, the bytes that have arrived, and what the handlers read. -/
structure LoopTurn where
  nowMs : UInt64
  now : UInt64
  selects : Bool
  readable : Nat → Bool
  accepted : Option Nat
  connsMemory : Bool
  received : Nat → Bytes
  random : Nat → Option (Vector UInt8 8)
  memory : Nat → Bool

/-- What is written to connections, in order. -/
abbrev Writes := List (Nat × Option Bytes)

/-- Whether `redp2p_fdset_add` can add a descriptor. -/
def representable (fd : Nat) : Bool := fd < fdSetSize

namespace IndexRuntime

/-- `redp2p_index_conn_add`. Without a result the connection is closed. -/
def connAdd (runtime : IndexRuntime) (turn : LoopTurn) (fd : Nat) : Option IndexRuntime :=
  let conn : Conn := { fd, ts := turn.nowMs, buf := [] }
  if runtime.conns.length ≥ maxConnections then none
  else if runtime.conns.length ≥ runtime.connsCap then
    if !turn.connsMemory then none
    else
      let cap := if runtime.connsCap = 0 then 16 else runtime.connsCap * 2
      some { runtime with conns := runtime.conns ++ [conn], connsCap := min cap maxConnections }
  else some { runtime with conns := runtime.conns ++ [conn] }

/-- `redp2p_index_prepare_fdset`: without a result the loop ends. -/
def prepareFdset (runtime : IndexRuntime) (turn : LoopTurn) : Option IndexRuntime :=
  if !representable runtime.listenerFd then none
  else
    let keep (_ : Unit) (conn : Conn) : Unit × Option Conn :=
      ((), if representable conn.fd then some conn else none)
    some { runtime with
      ctx := (runtime.ctx.pendingCallEvictStale turn.now).2
      conns := (ArrayLoop.sweepBackward keep runtime.conns.length () runtime.conns).2 }

/-- The descriptors that `select` leaves in the set. -/
def selected (runtime : IndexRuntime) (turn : LoopTurn) : List Nat :=
  (runtime.listenerFd :: runtime.conns.map Conn.fd).filter turn.readable

def acceptConnection (runtime : IndexRuntime) (turn : LoopTurn) (ready : List Nat) : IndexRuntime :=
  if runtime.listenerFd ∉ ready then runtime
  else
    match turn.accepted with
    | none => runtime
    | some fd => (runtime.connAdd turn fd).getD runtime

end IndexRuntime

/-- The reason phrase of a refusal. -/
def refusalReason (status : Nat) : Bytes :=
  match status with
  | 413 => ascii "Payload Too Large"
  | 405 => ascii "Method Not Allowed"
  | 501 => ascii "Not Implemented"
  | 431 => ascii "Request Header Fields Too Large"
  | _ => ascii "Bad Request"

/-- One connection in the loop of `redp2p_index_process_connections`: without one it is closed. -/
def processConn (strtod : Strtod) (turn : LoopTurn) (ready : List Nat) :
    Context × Writes → Conn → (Context × Writes) × Option Conn
  | (ctx, writes), conn =>
    if conn.buf ≠ [] && turn.nowMs - conn.ts > httpTimeoutS * 1000 then ((ctx, writes), none)
    else if conn.fd ∉ ready then ((ctx, writes), some conn)
    else
      let data := (turn.received conn.fd).take (httpBufMax - conn.buf.length)
      if data = [] then ((ctx, writes), none)
      else
        match indexRequestParse (conn.buf ++ data) with
        | .more => ((ctx, writes), some { conn with buf := conn.buf ++ data })
        | .refused status =>
          let reply := httpWriteResponse status (refusalReason status) (ascii "text/plain") ctrtokErrorMalformed
          ((ctx, writes ++ [(conn.fd, reply)]), none)
        | .complete _ body =>
          let env : Env := { now := turn.now, random := turn.random conn.fd, reallocOk := turn.memory conn.fd }
          let (ctx, reply) := ctx.dispatch env (jsonParseString strtod (cstr body))
          ((ctx, writes ++ [(conn.fd, indexRespond reply)]), none)

namespace IndexRuntime

def processConnections (strtod : Strtod) (runtime : IndexRuntime) (turn : LoopTurn) (ready : List Nat) :
    IndexRuntime × Writes :=
  let ((ctx, writes), conns) := ArrayLoop.sweepBackward (processConn strtod turn ready)
    runtime.conns.length (runtime.ctx, []) runtime.conns
  ({ runtime with ctx, conns }, writes)

/-- One turn of `redp2p_index_event_loop`: without a result the loop ends. -/
def iterate (strtod : Strtod) (runtime : IndexRuntime) (turn : LoopTurn) : Option (IndexRuntime × Writes) :=
  (runtime.prepareFdset turn).map fun runtime =>
    if !turn.selects then (runtime, [])
    else
      let ready := runtime.selected turn
      if ready = [] then
        if turn.now - runtime.lastPrune ≥ runtime.pruneIntervalS then
          ({ runtime with ctx := runtime.ctx.evictStale turn.now, lastPrune := turn.now }, [])
        else (runtime, [])
      else (runtime.acceptConnection turn ready).processConnections strtod turn ready

end IndexRuntime

/-! ### Connections that are overdue -/

/-- A connection that was accepted more than five seconds ago. -/
def Conn.Overdue (nowMs : UInt64) (conn : Conn) : Prop := conn.ts.toNat + 5000 < nowMs.toNat

/-- The loop does not return from `select` empty. -/
def LoopTurn.Ready (turn : LoopTurn) (runtime : IndexRuntime) : Prop :=
  turn.selects = true ∧ (turn.readable runtime.listenerFd = true ∨
    ∃ conn ∈ runtime.conns, representable conn.fd = true ∧ turn.readable conn.fd = true)

instance (turn : LoopTurn) (runtime : IndexRuntime) : Decidable (turn.Ready runtime) :=
  inferInstanceAs (Decidable (turn.selects = true ∧ (turn.readable runtime.listenerFd = true ∨
    ∃ conn ∈ runtime.conns, representable conn.fd = true ∧ turn.readable conn.fd = true)))

/-- The connection has sent a byte before, or it is ready and its read fails or ends its request. -/
def LoopTurn.Ends (turn : LoopTurn) (conn : Conn) : Prop :=
  conn.buf ≠ [] ∨ (turn.readable conn.fd = true ∧
    (turn.received conn.fd = [] ∨ indexRequestParse ((turn.received conn.fd).take httpBufMax) ≠ .more))

/-- What the loop makes of a connection, whatever the state of the index. -/
def keptConn (turn : LoopTurn) (ready : List Nat) (conn : Conn) : Option Conn :=
  if conn.buf ≠ [] && turn.nowMs - conn.ts > httpTimeoutS * 1000 then none
  else if conn.fd ∉ ready then some conn
  else
    let data := (turn.received conn.fd).take (httpBufMax - conn.buf.length)
    if data = [] then none
    else if indexRequestParse (conn.buf ++ data) = .more then some { conn with buf := conn.buf ++ data }
    else none

theorem processConn_kept (strtod : Strtod) (turn : LoopTurn) (ready : List Nat) (s : Context × Writes)
    (conn : Conn) : (processConn strtod turn ready s conn).2 = keptConn turn ready conn := by
  obtain ⟨ctx, writes⟩ := s
  unfold processConn keptConn
  dsimp only
  split
  · rfl
  split
  · rfl
  split
  · rfl
  cases indexRequestParse (conn.buf ++ (turn.received conn.fd).take (httpBufMax - conn.buf.length)) with
  | more => rfl
  | refused status => rfl
  | complete path body => rfl

theorem keptConn_ts {turn : LoopTurn} {ready : List Nat} {conn kept : Conn}
    (h : keptConn turn ready conn = some kept) : kept.fd = conn.fd ∧ kept.ts = conn.ts := by
  unfold keptConn at h
  dsimp only at h
  split at h
  · exact nomatch h
  split at h
  · obtain rfl := Option.some.inj h
    exact ⟨rfl, rfl⟩
  split at h
  · exact nomatch h
  split at h
  · obtain rfl := Option.some.inj h
    exact ⟨rfl, rfl⟩
  · exact nomatch h

theorem Conn.Overdue.expired {nowMs : UInt64} {conn : Conn} (h : conn.Overdue nowMs) :
    nowMs - conn.ts > httpTimeoutS * 1000 := by
  have hle : conn.ts ≤ nowMs := by
    rw [UInt64.le_iff_toNat_le]
    unfold Conn.Overdue at h
    omega
  rw [gt_iff_lt, UInt64.lt_iff_toNat_lt, UInt64.toNat_sub_of_le _ _ hle]
  have hlimit : (httpTimeoutS * 1000).toNat = 5000 := by decide
  unfold Conn.Overdue at h
  omega

/-- An overdue connection is closed when it is looked at, exactly when it ends. -/
theorem keptConn_overdue {turn : LoopTurn} {ready : List Nat} {conn : Conn} (hover : conn.Overdue turn.nowMs)
    (hready : conn.fd ∈ ready ↔ turn.readable conn.fd = true) :
    keptConn turn ready conn = none ↔ turn.Ends conn := by
  have hexpired := hover.expired
  unfold keptConn LoopTurn.Ends
  by_cases hbuf : conn.buf = []
  · rw [if_neg (by simp [hbuf])]
    simp only [hbuf, List.nil_append, List.length_nil, Nat.sub_zero, ne_eq, not_true_eq_false, false_or]
    by_cases hreadable : turn.readable conn.fd = true
    · rw [if_neg (by simpa [hready] using hreadable)]
      have hnone : (turn.received conn.fd).take httpBufMax = [] ↔ turn.received conn.fd = [] := by
        rw [List.take_eq_nil_iff, or_iff_right (by decide)]
      by_cases hdata : turn.received conn.fd = []
      · simp [hdata, hreadable]
      · rw [if_neg (by rwa [hnone])]
        by_cases hmore : indexRequestParse ((turn.received conn.fd).take httpBufMax) = .more
        · simp [hmore, hdata]
        · simp [hmore, hreadable]
    · rw [if_pos (by rwa [hready])]
      simp [hreadable]
  · rw [if_pos (by simpa [hbuf] using hexpired)]
    simp [hbuf]

/-! ### One turn -/

namespace IndexRuntime

variable {strtod : Strtod} {runtime : IndexRuntime} {turn : LoopTurn}

theorem mem_prepareFdset {prepared : IndexRuntime} (h : runtime.prepareFdset turn = some prepared) (conn : Conn) :
    conn ∈ prepared.conns ↔ conn ∈ runtime.conns ∧ representable conn.fd = true := by
  unfold prepareFdset at h
  split at h
  · exact nomatch h
  · obtain rfl := Option.some.inj h
    dsimp only
    rw [(ArrayLoop.sweepBackward_length (g := fun conn => if representable conn.fd then some conn else none)
      (fun _ _ => rfl) () runtime.conns).mem_iff, List.mem_filterMap]
    constructor
    · rintro ⟨conn', hmem, hkept⟩
      split at hkept
      · rename_i hrepresentable
        obtain rfl := Option.some.inj hkept
        exact ⟨hmem, hrepresentable⟩
      · exact nomatch hkept
    · rintro ⟨hmem, hrepresentable⟩
      exact ⟨conn, hmem, if_pos hrepresentable⟩

theorem prepareFdset_listener {prepared : IndexRuntime} (h : runtime.prepareFdset turn = some prepared) :
    prepared.listenerFd = runtime.listenerFd ∧ representable runtime.listenerFd = true := by
  unfold prepareFdset at h
  split at h
  · exact nomatch h
  · rename_i hlistener
    obtain rfl := Option.some.inj h
    exact ⟨rfl, by simpa using hlistener⟩

theorem prepareFdset_isSome (h : representable runtime.listenerFd = true) :
    ∃ prepared, runtime.prepareFdset turn = some prepared := by
  unfold prepareFdset
  rw [h, Bool.not_true, if_neg nofun]
  exact ⟨_, rfl⟩

/-- A turn adds at most one connection, which is as old as the turn. -/
theorem mem_acceptConnection (ready : List Nat) (conn : Conn) :
    conn ∈ (runtime.acceptConnection turn ready).conns →
      conn ∈ runtime.conns ∨ (conn.ts = turn.nowMs ∧ conn.buf = []) := by
  unfold acceptConnection
  split
  · exact Or.inl
  cases turn.accepted with
  | none => exact Or.inl
  | some fd =>
    have hadded : ∀ conn' ∈ runtime.conns ++ [{ fd, ts := turn.nowMs, buf := [] }],
        conn' ∈ runtime.conns ∨ (conn'.ts = turn.nowMs ∧ conn'.buf = []) := by
      intro conn' hmem
      rcases List.mem_append.mp hmem with hmem | hmem
      · exact Or.inl hmem
      · obtain rfl := List.mem_singleton.mp hmem
        exact Or.inr ⟨rfl, rfl⟩
    dsimp only
    unfold connAdd
    dsimp only
    split
    · exact Or.inl
    split
    · split
      · exact Or.inl
      · exact hadded conn
    · exact hadded conn

theorem subset_acceptConnection (ready : List Nat) :
    runtime.conns ⊆ (runtime.acceptConnection turn ready).conns := by
  unfold acceptConnection
  split
  · exact List.Subset.refl _
  cases turn.accepted with
  | none => exact List.Subset.refl _
  | some fd =>
    dsimp only
    unfold connAdd
    dsimp only
    split
    · exact List.Subset.refl _
    split
    · split
      · exact List.Subset.refl _
      · exact List.subset_append_left _ _
    · exact List.subset_append_left _ _

theorem mem_processConnections (ready : List Nat) (conn : Conn) :
    conn ∈ (runtime.processConnections strtod turn ready).1.conns ↔
      ∃ old ∈ runtime.conns, keptConn turn ready old = some conn := by
  have hperm := ArrayLoop.sweepBackward_length (processConn_kept strtod turn ready) (runtime.ctx, []) runtime.conns
  exact hperm.mem_iff.trans List.mem_filterMap

theorem mem_selected (fd : Nat) :
    fd ∈ runtime.selected turn ↔
      (fd = runtime.listenerFd ∨ ∃ conn ∈ runtime.conns, conn.fd = fd) ∧ turn.readable fd = true := by
  simp [selected]

/-- Something is ready when the listener or a connection that can be watched is readable. -/
theorem selected_ne_nil {prepared : IndexRuntime} (h : runtime.prepareFdset turn = some prepared) :
    prepared.selected turn ≠ [] ↔ (turn.readable runtime.listenerFd = true ∨
      ∃ conn ∈ runtime.conns, representable conn.fd = true ∧ turn.readable conn.fd = true) := by
  have hmem := mem_prepareFdset h
  have hlistener := (prepareFdset_listener h).1
  constructor
  · intro hne
    obtain ⟨fd, hfd⟩ := List.exists_mem_of_ne_nil _ hne
    obtain ⟨rfl | ⟨conn, hconn, rfl⟩, hreadable⟩ := (mem_selected fd).mp hfd
    · exact Or.inl (hlistener ▸ hreadable)
    · obtain ⟨hold, hrepresentable⟩ := (hmem conn).mp hconn
      exact Or.inr ⟨conn, hold, hrepresentable, hreadable⟩
  · rintro (hreadable | ⟨conn, hconn, hrepresentable, hreadable⟩)
    · exact List.ne_nil_of_mem ((mem_selected _).mpr ⟨Or.inl hlistener.symm, hreadable⟩)
    · have hmem' := (hmem conn).mpr ⟨hconn, hrepresentable⟩
      exact List.ne_nil_of_mem ((mem_selected conn.fd).mpr ⟨Or.inr ⟨conn, hmem', rfl⟩, hreadable⟩)

end IndexRuntime

open IndexRuntime in
/-- The connections after a turn. -/
theorem mem_iterate {strtod : Strtod} {runtime : IndexRuntime} {turn : LoopTurn} {prepared : IndexRuntime}
    (h : runtime.prepareFdset turn = some prepared) {after : IndexRuntime} {writes : Writes}
    (hafter : runtime.iterate strtod turn = some (after, writes)) (conn : Conn) :
    conn ∈ after.conns ↔
      if turn.Ready runtime then
        ∃ old ∈ (prepared.acceptConnection turn (prepared.selected turn)).conns,
          keptConn turn (prepared.selected turn) old = some conn
      else conn ∈ prepared.conns := by
  have hready : turn.Ready runtime ↔ turn.selects = true ∧ prepared.selected turn ≠ [] := by
    rw [selected_ne_nil h, LoopTurn.Ready]
  unfold iterate at hafter
  rw [h, Option.map_some] at hafter
  cases hselects : turn.selects with
  | false =>
    rw [hselects, Bool.not_false, if_pos rfl] at hafter
    obtain ⟨rfl, -⟩ := Prod.mk.inj (Option.some.inj hafter)
    rw [if_neg (by simp [hready, hselects])]
  | true =>
    rw [hselects, Bool.not_true, if_neg nofun] at hafter
    dsimp only at hafter
    by_cases hnone : prepared.selected turn = []
    · rw [if_neg (by simp [hready, hnone])]
      rw [if_pos hnone] at hafter
      split at hafter
      · obtain ⟨rfl, -⟩ := Prod.mk.inj (Option.some.inj hafter)
        rfl
      · obtain ⟨rfl, -⟩ := Prod.mk.inj (Option.some.inj hafter)
        rfl
    · rw [if_pos (by simp [hready, hselects, hnone])]
      rw [if_neg hnone] at hafter
      have hconns := congrArg (fun result => result.1.conns) (Option.some.inj hafter)
      dsimp only at hconns
      rw [← hconns]
      exact mem_processConnections _ conn

theorem iterate_prepared {strtod : Strtod} {runtime : IndexRuntime} {turn : LoopTurn}
    {result : IndexRuntime × Writes} (h : runtime.iterate strtod turn = some result) :
    ∃ prepared, runtime.prepareFdset turn = some prepared := by
  unfold IndexRuntime.iterate at h
  obtain ⟨prepared, hprepared, -⟩ := Option.map_eq_some_iff.mp h
  exact ⟨prepared, hprepared⟩

/-- A connection that has sent nothing and is not readable stays. -/
theorem iterate_idle {strtod : Strtod} {runtime after : IndexRuntime} {turn : LoopTurn} {writes : Writes}
    (hafter : runtime.iterate strtod turn = some (after, writes)) {conn : Conn} (hconn : conn ∈ runtime.conns)
    (hrepresentable : representable conn.fd = true) (hbuf : conn.buf = [])
    (hsilent : turn.readable conn.fd = false) : conn ∈ after.conns := by
  obtain ⟨prepared, hprepared⟩ := iterate_prepared hafter
  have hmem := (IndexRuntime.mem_prepareFdset hprepared conn).mpr ⟨hconn, hrepresentable⟩
  rw [mem_iterate hprepared hafter]
  split
  · refine ⟨conn, IndexRuntime.subset_acceptConnection _ hmem, ?_⟩
    have hnot : conn.fd ∉ prepared.selected turn := by
      rw [IndexRuntime.mem_selected, hsilent]
      exact fun h => nomatch h.2
    unfold keptConn
    rw [if_neg (by simp [hbuf]), if_pos hnot]
  · exact hmem

def IndexRuntime.run (strtod : Strtod) (runtime : IndexRuntime) (turns : List LoopTurn) : Option IndexRuntime :=
  turns.foldlM (fun runtime turn => (runtime.iterate strtod turn).map Prod.fst) runtime

/-- A connection that never sends anything keeps its place in the table for as long as the loop runs. -/
theorem run_idle {strtod : Strtod} {runtime after : IndexRuntime} {turns : List LoopTurn}
    (hafter : runtime.run strtod turns = some after) {conn : Conn} (hconn : conn ∈ runtime.conns)
    (hrepresentable : representable conn.fd = true) (hbuf : conn.buf = [])
    (hsilent : ∀ turn ∈ turns, turn.readable conn.fd = false) : conn ∈ after.conns := by
  induction turns generalizing runtime with
  | nil =>
    obtain rfl := Option.some.inj hafter
    exact hconn
  | cons turn turns ih =>
    rw [IndexRuntime.run, List.foldlM_cons] at hafter
    obtain ⟨next, hnext, hrest⟩ := Option.bind_eq_some_iff.mp hafter
    obtain ⟨⟨middle, writes⟩, hmiddle, rfl⟩ := Option.map_eq_some_iff.mp hnext
    obtain ⟨hfirst, htail⟩ := List.forall_mem_cons.mp hsilent
    exact ih hrest (iterate_idle hmiddle hconn hrepresentable hbuf hfirst) htail

/-- After a turn of the loop no connection is overdue exactly when the turn finds something ready, and
each connection that was overdue had sent a byte, or is ready and fails or ends its request. -/
theorem idle_connections_closed_iff (strtod : Strtod) (runtime : IndexRuntime) (turn : LoopTurn) :
    (∀ after writes, runtime.iterate strtod turn = some (after, writes) →
      ∀ conn ∈ after.conns, ¬ conn.Overdue turn.nowMs) ↔
    (representable runtime.listenerFd = true →
      ∀ conn ∈ runtime.conns, representable conn.fd = true → conn.Overdue turn.nowMs →
        turn.Ready runtime ∧ turn.Ends conn) := by
  constructor
  · intro hclosed hlistener conn hconn hrepresentable hover
    obtain ⟨prepared, hprepared⟩ : ∃ prepared, runtime.prepareFdset turn = some prepared :=
      IndexRuntime.prepareFdset_isSome hlistener
    obtain ⟨⟨after, writes⟩, hafter⟩ : ∃ result, runtime.iterate strtod turn = some result := by
      unfold IndexRuntime.iterate
      rw [hprepared]
      exact ⟨_, rfl⟩
    have hmem := (IndexRuntime.mem_prepareFdset hprepared conn).mpr ⟨hconn, hrepresentable⟩
    have hready : turn.Ready runtime := by
      by_contra hnot
      have hkept := (mem_iterate hprepared hafter conn).mpr (by rwa [if_neg hnot])
      exact hclosed after writes hafter conn hkept hover
    refine ⟨hready, ?_⟩
    have hfd : conn.fd ∈ prepared.selected turn ↔ turn.readable conn.fd = true := by
      rw [IndexRuntime.mem_selected]
      exact and_iff_right (Or.inr ⟨conn, hmem, rfl⟩)
    rw [← keptConn_overdue hover hfd]
    by_contra hnot
    obtain ⟨kept, hkept⟩ := Option.ne_none_iff_exists'.mp hnot
    have hstays : kept ∈ after.conns := by
      rw [mem_iterate hprepared hafter, if_pos hready]
      exact ⟨conn, IndexRuntime.subset_acceptConnection _ hmem, hkept⟩
    refine hclosed after writes hafter kept hstays ?_
    rwa [Conn.Overdue, (keptConn_ts hkept).2]
  · intro hends after writes hafter conn hstays hover
    obtain ⟨prepared, hprepared⟩ := iterate_prepared hafter
    have hlistener := (IndexRuntime.prepareFdset_listener hprepared).2
    have hmem := IndexRuntime.mem_prepareFdset hprepared
    rw [mem_iterate hprepared hafter] at hstays
    split at hstays
    · obtain ⟨old, hold, hkept⟩ := hstays
      have hoverdue : old.Overdue turn.nowMs := by
        rwa [Conn.Overdue, ← (keptConn_ts hkept).2]
      rcases IndexRuntime.mem_acceptConnection _ old hold with hwas | ⟨hnew, -⟩
      · obtain ⟨hconn, hrepresentable⟩ := (hmem old).mp hwas
        have hfd : old.fd ∈ prepared.selected turn ↔ turn.readable old.fd = true := by
          rw [IndexRuntime.mem_selected]
          exact and_iff_right (Or.inr ⟨old, hwas, rfl⟩)
        have hclosed := (keptConn_overdue hoverdue hfd).mpr (hends hlistener old hconn hrepresentable hoverdue).2
        rw [hclosed] at hkept
        exact nomatch hkept
      · rw [Conn.Overdue, hnew] at hoverdue
        omega
    · rename_i hnot
      obtain ⟨hconn, hrepresentable⟩ := (hmem conn).mp hstays
      exact hnot (hends hlistener conn hconn hrepresentable hover).1

/-- A connection that was accepted six seconds ago and has sent nothing. -/
def idleRuntime : IndexRuntime where
  ctx := Context.opened 30
  conns := [{ fd := 5, ts := 0, buf := [] }]
  connsCap := 16
  listenerFd := 4
  lastPrune := 0
  pruneIntervalS := 30

/-- A turn in which nothing is readable. -/
def idleTurn : LoopTurn where
  nowMs := 6000
  now := 6
  selects := true
  readable := fun _ => false
  accepted := none
  connsMemory := true
  received := fun _ => []
  random := fun _ => none
  memory := fun _ => true

theorem idle_connection_stays :
    ∃ after writes, idleRuntime.iterate (fun _ => (none, 0)) idleTurn = some (after, writes) ∧
      ∃ conn ∈ after.conns, conn.Overdue idleTurn.nowMs :=
  ⟨_, _, rfl, { fd := 5, ts := 0, buf := [] }, List.mem_singleton.mpr rfl, by unfold Conn.Overdue; decide⟩

end Redp2p
