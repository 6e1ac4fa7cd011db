import Redp2p.PhpIndex

/-! The queue of punch calls in the PHP index under requests that interleave. A poll selects its calls and
deletes them in two statements, and a call that enters or is selected between the two is lost or is
returned twice. -/

namespace Redp2p

open ByteString Program

namespace PhpIndex

variable {php : PhpIndex} {pool : Processes} {w : PhpWorld} {p q : PhpProgram PhpAnswer}

/-! ### The points of a poll -/

def pollDelete (target : Bytes) (rows : List StoredRow) : PhpProgram PhpAnswer :=
  act (.deletePending target) fun _ => done (.calls rows)

def pollSelect (target : Bytes) : PhpProgram PhpAnswer := act (.selectPending target) (pollDelete target)

def pollEvict (target : Bytes) (cutoff : Int) : PhpProgram PhpAnswer :=
  act (.deleteExpired cutoff) fun _ => pollSelect target

def poll (target : Bytes) : PhpProgram PhpAnswer :=
  act .time fun now => pollEvict target (now - pendingTtlS)

/-- Rows that a poll holds. Their numbers have been given, and no row of the table but the held one has
such a number. -/
structure Holding (w : PhpWorld) (rows : List StoredRow) : Prop where
  numbers : ∀ stored ∈ rows, stored.number < w.inserted
  same : ∀ stored ∈ rows, ∀ other ∈ w.pending, other.number = stored.number → other = stored

/-- A statement that neither selects nor deletes calls of a publisher. -/
def Apart : PhpStatement → Prop
  | .selectPending _ => False
  | .deletePending _ => False
  | _ => True

def NoCalls : PhpAnswer → Prop
  | .calls _ => False
  | _ => True

/-- Where a request stands. -/
inductive QueuePoint (w : PhpWorld) : PhpProgram PhpAnswer → Prop
  | away {p : PhpProgram PhpAnswer} (uses : p.Uses Apart NoCalls) : QueuePoint w p
  | poll (target : Bytes) : QueuePoint w (poll target)
  | evict (target : Bytes) (cutoff : Int) : QueuePoint w (pollEvict target cutoff)
  | select (target : Bytes) : QueuePoint w (pollSelect target)
  | delete (target : Bytes) (rows : List StoredRow) (holding : Holding w rows)
      (targets : ∀ stored ∈ rows, stored.row.targetId = target)
      (all : ∀ stored ∈ w.pending, stored.row.targetId = target → stored ∈ rows) :
      QueuePoint w (pollDelete target rows)
  | returned (rows : List StoredRow) (holding : Holding w rows)
      (gone : ∀ stored ∈ rows, stored ∉ w.pending) : QueuePoint w (done (.calls rows))

/-- The rows that a request has selected. -/
def held : PhpProgram PhpAnswer → List StoredRow
  | done (.calls rows) => rows
  | act (.deletePending _) next =>
    match next () with
    | done (.calls rows) => rows
    | _ => []
  | _ => []

theorem held_away (h : p.Uses Apart NoCalls) : held p = [] := by
  cases p with
  | done answer =>
    cases answer with
    | calls rows => exact h.elim
    | _ => rfl
  | act statement next =>
    cases statement with
    | deletePending target => exact h.1.elim
    | _ => rfl

theorem QueuePoint.holding (h : QueuePoint w p) : Holding w (held p) := by
  cases h with
  | away uses =>
    rw [held_away uses]
    exact ⟨by simp, by simp⟩
  | poll target => exact ⟨by simp [held, PhpIndex.poll], by simp [held, PhpIndex.poll]⟩
  | evict target cutoff => exact ⟨by simp [held, pollEvict], by simp [held, pollEvict]⟩
  | select target => exact ⟨by simp [held, pollSelect], by simp [held, pollSelect]⟩
  | delete target rows holding => exact holding
  | returned rows holding => exact holding

/-! ### Requests when they arrive -/

/-- A statement of the queue. -/
def OnQueue : PhpStatement → Prop
  | .deleteExpired _ | .insertPending _ | .selectPending _ | .deletePending _ => True
  | _ => False

theorem insertPublisher_uses (random : Vector UInt8 8) (id : Bytes) (now : Int) :
    (insertPublisher random id now).Uses (¬ OnQueue ·) fun _ => True :=
  ⟨fun h => h, fun _ => trivial⟩

theorem takeNonVipSeat_uses (random : Vector UInt8 8) (id : Bytes) (now : Int) (seats : Nat) :
    (php.takeNonVipSeat random id now seats).Uses (¬ OnQueue ·) fun _ => True := by
  refine Uses.bind (show Uses _ (fun _ => True) _ from ?_) ?_
  · unfold countNonVip
    split
    · exact ⟨fun h => h, fun _ => trivial⟩
    · exact ⟨fun h => h, fun _ => trivial⟩
  · intro nonVip _
    split
    · trivial
    · exact insertPublisher_uses random id now

theorem takeSeat_uses (random : Vector UInt8 8) (id : Bytes) (now : Int) :
    (php.takeSeat random id now).Uses (¬ OnQueue ·) fun _ => True := by
  unfold takeSeat
  split
  · exact insertPublisher_uses random id now
  · rename_i seats hseats
    refine ⟨fun h => h, fun count => ?_⟩
    dsimp only [Program.bind]
    split
    · trivial
    split
    · exact insertPublisher_uses random id now
    · exact takeNonVipSeat_uses random id now seats

theorem addPublisher_uses (random : Vector UInt8 8) (id : Bytes) :
    (php.addPublisher random id).Uses (¬ OnQueue ·) fun _ => True := by
  refine ⟨fun h => h, fun now => ⟨fun h => h, fun found => ?_⟩⟩
  dsimp only [Program.bind]
  split
  · trivial
  · exact takeSeat_uses random id now

theorem register_uses (random : Vector UInt8 8) (r : Registration) :
    (php.register random r).Uses (¬ OnQueue ·) NoCalls := by
  refine ⟨fun h => h, fun now => ⟨fun h => h, fun _ => ?_⟩⟩
  apply (addPublisher_uses random r.id).bind
  intro added _
  cases added with
  | ok => exact ⟨fun h => h, fun _ => ⟨fun h => h, fun _ => ⟨fun h => h, fun _ => trivial⟩⟩⟩
  | full => trivial
  | thrown => trivial

/-- A request does nothing to the calls of a publisher, or is a poll. -/
theorem Request.away_or_poll {random : Vector UInt8 8} (h : Request php random p) :
    p.Uses Apart NoCalls ∨ ∃ target, p = poll target := by
  cases h with
  | plain uses =>
    left
    apply uses.imp
    · intro statement hplain
      cases statement <;> trivial
    · intro answer hplain
      cases answer <;> trivial
  | register r verified =>
    left
    apply (register_uses random r).imp _ fun _ h => h
    intro statement hoff
    cases statement <;> first | trivial | exact hoff trivial
  | enqueue selfId targetId session candidates =>
    left
    refine ⟨trivial, fun now => ⟨trivial, fun _ => ⟨trivial, fun count => ?_⟩⟩⟩
    dsimp only [Program.bind]
    split
    · trivial
    · refine ⟨trivial, fun now => ⟨trivial, fun inserted => ?_⟩⟩
      cases inserted <;> trivial
  | takeCalls id => exact Or.inr ⟨id, rfl⟩

theorem Request.point {random : Vector UInt8 8} (h : Request php random p) (w : PhpWorld) :
    QueuePoint w p := by
  rcases h.away_or_poll with huses | ⟨target, rfl⟩
  · exact .away huses
  · exact .poll target

theorem Request.held_nil {random : Vector UInt8 8} (h : Request php random p) : held p = [] := by
  rcases h.away_or_poll with huses | ⟨target, rfl⟩
  · exact held_away huses
  · rfl

/-! ### The cutoff of an eviction -/

/-- Time has passed. -/
def Later (w w' : PhpWorld) : Prop := w.clock ≤ w'.clock

/-- An eviction removes only calls that have expired. -/
def Due (statement : PhpStatement) (w : PhpWorld) : Prop :=
  match statement with
  | .deleteExpired cutoff => cutoff + pendingTtlS ≤ w.clock
  | _ => True

/-- The eviction at the start of a request reads its cutoff from the clock. -/
theorem evictPending_guarded {f : Unit → PhpProgram PhpAnswer}
    (h : (f ()).Uses (fun statement => ∀ w, Due statement w) fun _ => True) (w : PhpWorld) :
    (evictPending >>= f).Guarded PhpStatement.exec Later Due w := by
  intro w1 _
  refine ⟨trivial, fun w2 hlater => ⟨?_, h.guarded _⟩⟩
  have hclock : w1.clock ≤ w2.clock := hlater
  show w1.clock - pendingTtlS + pendingTtlS ≤ w2.clock
  omega

theorem Request.guarded {random : Vector UInt8 8} (h : Request php random p) (w : PhpWorld) :
    p.Guarded PhpStatement.exec Later Due w := by
  have hoff : ∀ statement, ¬ OnQueue statement → ∀ w, Due statement w := by
    intro statement hoff w
    cases statement <;> first | trivial | exact (hoff trivial).elim
  cases h with
  | plain uses =>
    apply (uses.imp _ fun _ _ => trivial).guarded
    intro statement hplain
    apply hoff
    cases statement <;> first | exact fun h => h | exact hplain.elim
  | register r verified => exact ((register_uses random r).imp hoff fun _ _ => trivial).guarded w
  | enqueue selfId targetId session candidates =>
    apply evictPending_guarded
    refine ⟨fun _ => trivial, fun count => ?_⟩
    dsimp only [Program.bind]
    split
    · trivial
    · exact ⟨fun _ => trivial, fun now => ⟨fun _ => trivial, fun inserted => trivial⟩⟩
  | takeCalls id =>
    apply evictPending_guarded
    exact ⟨fun _ => trivial, fun rows => ⟨fun _ => trivial, fun _ => trivial⟩⟩

/-! ### What statements do to the queue -/

/-- The numbers of rows in the table have been given, and each to one row. -/
structure Numbered (w : PhpWorld) : Prop where
  below : ∀ stored ∈ w.pending, stored.number < w.inserted
  distinct : ∀ a ∈ w.pending, ∀ b ∈ w.pending, a.number = b.number → a = b

/-- A statement puts one row into the queue, or none. -/
inductive QueueEffect (w : PhpWorld) (statement : PhpStatement) (w' : PhpWorld) : Prop
  | shrinks (inserted : w'.inserted = w.inserted) (kept : ∀ stored ∈ w'.pending, stored ∈ w.pending)
  | grows (row : PendingRow) (inserts : statement = .insertPending row)
      (inserted : w'.inserted = w.inserted + 1) (pending : w'.pending = w.pending ++ [⟨w.inserted, row⟩])

theorem exec_effect (statement : PhpStatement) (w : PhpWorld) :
    QueueEffect w statement (statement.exec w).1 := by
  cases statement with
  | insertPublisher row =>
    rw [exec_insertPublisher]
    split
    · exact .shrinks rfl fun _ h => h
    · exact .shrinks rfl fun _ h => h
  | insertPending row =>
    rw [exec_insertPending]
    split
    · exact .shrinks rfl fun _ h => h
    · exact .grows row rfl rfl rfl
  | deleteExpired cutoff => exact .shrinks rfl fun _ h => List.mem_of_mem_filter h
  | deletePending target => exact .shrinks rfl fun _ h => List.mem_of_mem_filter h
  | _ => exact .shrinks rfl fun _ h => h

variable {statement : PhpStatement} {w' : PhpWorld}

theorem QueueEffect.mem (h : QueueEffect w statement w') {stored : StoredRow} (hmem : stored ∈ w'.pending) :
    stored ∈ w.pending ∨ ∃ row, statement = .insertPending row ∧ stored = ⟨w.inserted, row⟩ := by
  cases h with
  | shrinks inserted kept => exact Or.inl (kept stored hmem)
  | grows row inserts inserted pending =>
    rw [pending, List.mem_append, List.mem_singleton] at hmem
    exact hmem.imp id fun heq => ⟨row, inserts, heq⟩

theorem QueueEffect.inserted (h : QueueEffect w statement w') : w.inserted ≤ w'.inserted := by
  cases h with
  | shrinks inserted kept => omega
  | grows row inserts inserted pending => omega

theorem Numbered.exec (h : Numbered w) (heffect : QueueEffect w statement w') : Numbered w' := by
  cases heffect with
  | shrinks inserted kept =>
    refine ⟨fun stored hmem => ?_, fun a ha b hb => h.distinct a (kept a ha) b (kept b hb)⟩
    rw [inserted]
    exact h.below stored (kept stored hmem)
  | grows row inserts inserted pending =>
    have hmem : ∀ stored ∈ w'.pending, stored ∈ w.pending ∧ stored.number < w.inserted ∨
        stored = ⟨w.inserted, row⟩ := by
      intro stored hstored
      rw [pending, List.mem_append, List.mem_singleton] at hstored
      exact hstored.imp (fun hold => ⟨hold, h.below stored hold⟩) id
    refine ⟨fun stored hstored => ?_, fun a ha b hb hnumber => ?_⟩
    · rcases hmem stored hstored with ⟨-, hlt⟩ | rfl
      · omega
      · show w.inserted < w'.inserted
        omega
    · rcases hmem a ha with ⟨ha, hlt⟩ | rfl
      · rcases hmem b hb with ⟨hb, -⟩ | rfl
        · exact h.distinct a ha b hb hnumber
        · exact absurd hnumber (Nat.ne_of_lt hlt)
      · rcases hmem b hb with ⟨-, hlt⟩ | rfl
        · exact absurd hnumber.symm (Nat.ne_of_lt hlt)
        · rfl

theorem Holding.exec {rows : List StoredRow} (h : Holding w rows)
    (heffect : QueueEffect w statement w') : Holding w' rows := by
  refine ⟨fun stored hstored => ?_, fun stored hstored other hother hnumber => ?_⟩
  · exact Nat.lt_of_lt_of_le (h.numbers stored hstored) heffect.inserted
  · rcases heffect.mem hother with hold | ⟨row, -, rfl⟩
    · exact h.same stored hstored other hold hnumber
    · have hlt := h.numbers stored hstored
      exact absurd hnumber (Nat.ne_of_gt hlt)

/-- A statement of another request leaves a request where it stands, unless it puts a call into the queue
that the request is about to delete. -/
theorem QueuePoint.exec (h : QueuePoint w q) (heffect : QueueEffect w statement w')
    (hsafe : ∀ row, statement = .insertPending row → q.statement ≠ some (.deletePending row.targetId)) :
    QueuePoint w' q := by
  cases h with
  | away uses => exact .away uses
  | poll target => exact .poll target
  | evict target cutoff => exact .evict target cutoff
  | select target => exact .select target
  | delete target rows holding targets all =>
    refine .delete target rows (holding.exec heffect) targets fun stored hstored htarget => ?_
    rcases heffect.mem hstored with hold | ⟨row, hinsert, rfl⟩
    · exact all stored hold htarget
    · exact absurd (by rw [← htarget]; rfl) (hsafe row hinsert)
  | returned rows holding gone =>
    refine .returned rows (holding.exec heffect) fun stored hstored hmem => ?_
    rcases heffect.mem hmem with hold | ⟨row, -, rfl⟩
    · exact gone stored hstored hold
    · exact absurd (holding.numbers _ hstored) (Nat.lt_irrefl _)

/-! ### What a request does to its own rows -/

theorem QueuePoint.advance {next : statement.Result → PhpProgram PhpAnswer} (h : QueuePoint w p)
    (hp : p = act statement next) (hnumbered : Numbered w) :
    QueuePoint (statement.exec w).1 (next (statement.exec w).2) ∧
      (held (next (statement.exec w).2) = held p ∨ ∃ target, statement = .selectPending target ∧
        held (next (statement.exec w).2) =
          w.pending.filter fun stored => stored.row.targetId == target) := by
  cases h with
  | away uses =>
    have hrest := hp ▸ uses
    refine ⟨.away (hrest.2 _), Or.inl ?_⟩
    rw [held_away uses, held_away (hrest.2 _)]
  | poll target =>
    cases hp
    exact ⟨.evict target _, Or.inl rfl⟩
  | evict target cutoff =>
    cases hp
    exact ⟨.select target, Or.inl rfl⟩
  | select target =>
    cases hp
    refine ⟨.delete target _ ⟨?_, ?_⟩ ?_ ?_, Or.inr ⟨target, rfl, rfl⟩⟩
    · intro stored hstored
      exact hnumbered.below stored (List.mem_of_mem_filter hstored)
    · intro stored hstored other hother hnumber
      exact hnumbered.distinct other hother stored (List.mem_of_mem_filter hstored) hnumber
    · intro stored hstored
      simpa using (List.mem_filter.mp hstored).2
    · intro stored hstored htarget
      exact List.mem_filter.mpr ⟨hstored, by simp [htarget]⟩
  | delete target rows holding targets all =>
    cases hp
    refine ⟨.returned rows (holding.exec (exec_effect _ w)) ?_, Or.inl rfl⟩
    intro stored hstored hmem
    have htarget := (List.mem_filter.mp hmem).2
    simp [targets stored hstored] at htarget
  | returned rows holding gone => exact nomatch hp

/-- A row that a request deletes has expired, or is one that the request returns. -/
theorem QueuePoint.deletes {next : statement.Result → PhpProgram PhpAnswer} (h : QueuePoint w p)
    (hp : p = act statement next) (hdue : Due statement w) {stored : StoredRow}
    (hmem : stored ∈ w.pending) (hgone : stored ∉ (statement.exec w).1.pending) :
    stored.row.ts + pendingTtlS < w.clock ∨
      ∃ rows, next (statement.exec w).2 = done (.calls rows) ∧ stored ∈ rows := by
  have hexpired : ∀ cutoff, statement = .deleteExpired cutoff → stored.row.ts + pendingTtlS < w.clock := by
    rintro cutoff rfl
    have hcutoff : cutoff + pendingTtlS ≤ w.clock := hdue
    by_contra hlive
    apply hgone
    refine List.mem_filter.mpr ⟨hmem, ?_⟩
    have hkept : ¬ stored.row.ts < cutoff := by omega
    simp [hkept]
  cases h with
  | away uses =>
    left
    have hapart := (hp ▸ uses).1
    cases statement with
    | deleteExpired cutoff => exact hexpired cutoff rfl
    | selectPending target => exact hapart.elim
    | deletePending target => exact hapart.elim
    | insertPublisher row =>
      rw [exec_insertPublisher] at hgone
      split at hgone <;> exact absurd hmem hgone
    | insertPending row =>
      rw [exec_insertPending] at hgone
      split at hgone
      · exact absurd hmem hgone
      · exact absurd (List.mem_append_left _ hmem) hgone
    | _ => exact absurd hmem hgone
  | poll target =>
    cases hp
    exact absurd hmem hgone
  | evict target cutoff =>
    cases hp
    exact Or.inl (hexpired cutoff rfl)
  | select target =>
    cases hp
    exact absurd hmem hgone
  | delete target rows holding targets all =>
    cases hp
    refine Or.inr ⟨rows, rfl, all stored hmem ?_⟩
    by_contra hother
    exact hgone (List.mem_filter.mpr ⟨hmem, by simpa using hother⟩)
  | returned rows holding gone => exact nomatch hp

/-! ### Runs -/

/-- Between the selection and the deletion of a poll no call for its publisher enters the queue, and no
other request selects one that is there. -/
def PollsAlone (pool : Processes) : Event → Prop
  | .advance thread => ∀ target,
      ((∃ row, upcoming pool thread = some (.insertPending row) ∧ row.targetId = target) ∨
        upcoming pool thread = some (.selectPending target) ∧
          ∃ stored ∈ pool.state.pending, stored.row.targetId = target) →
      ∀ other, other ≠ thread → upcoming pool other ≠ some (.deletePending target)
  | _ => True

/-- The programs hold no row of one number. -/
def Disjoint (p q : PhpProgram PhpAnswer) : Prop := ∀ a ∈ held p, ∀ b ∈ held q, a.number ≠ b.number

abbrev QueueSound : Processes → Prop :=
  Pool.Sound Numbered (fun p w => QueuePoint w p ∧ p.Guarded PhpStatement.exec Later Due w) Disjoint

theorem later_trans (a b c : PhpWorld) (hab : Later a b) (hbc : Later b c) : Later a c :=
  Int.le_trans hab hbc

/-- A request that selects rows takes none that another one holds. -/
theorem select_disjoint (hq : QueuePoint w q) {target : Bytes}
    (halone : (∃ stored ∈ w.pending, stored.row.targetId = target) →
      q.statement ≠ some (.deletePending target)) :
    ∀ a ∈ w.pending.filter fun stored => stored.row.targetId == target, ∀ b ∈ held q,
      a.number ≠ b.number := by
  intro a ha b hb hnumber
  obtain ⟨hmem, htarget⟩ := List.mem_filter.mp ha
  have heq := hq.holding.same b hb a hmem hnumber
  cases hq with
  | away uses =>
    rw [held_away uses] at hb
    exact nomatch hb
  | poll other => exact nomatch hb
  | evict other cutoff => exact nomatch hb
  | select other => exact nomatch hb
  | delete other rows holding targets all =>
    have hsame : other = target := by
      rw [← targets b hb, ← heq]
      simpa using htarget
    exact halone ⟨a, hmem, by simpa using htarget⟩ (by rw [hsame]; rfl)
  | returned rows holding gone => exact gone b hb (heq ▸ hmem)

theorem QueueSound.advance (h : QueueSound pool) (thread : Nat)
    (halone : PollsAlone pool (.advance thread)) : QueueSound (pool.advance PhpStatement.exec thread) := by
  cases hthread : pool.threads[thread]? with
  | none =>
    unfold Pool.advance
    rwa [hthread]
  | some p =>
    cases p with
    | done answer =>
      unfold Pool.advance
      rwa [hthread]
    | act statement next =>
      obtain ⟨hpoint, hguarded⟩ := h.own thread _ hthread
      obtain ⟨hpoint', hheld⟩ := hpoint.advance rfl h.shared
      have heffect := exec_effect statement pool.state
      have hupcoming : upcoming pool thread = some statement := by
        rw [upcoming, hthread]
        rfl
      refine Pool.Sound.advance h hthread (h.shared.exec heffect)
        ⟨hpoint', (hguarded _ (Int.le_refl _)).2⟩ fun j q hj hq => ?_
      obtain ⟨hqpoint, hqguarded⟩ := h.own j q hq
      have hqupcoming : upcoming pool j = q.statement := by
        rw [upcoming, hq]
        rfl
      have hlater : Later pool.state (statement.exec pool.state).1 := by
        rw [Later, exec_clock]
      have hdisjoint : Disjoint (next (statement.exec pool.state).2) q := by
        rcases hheld with hsame | ⟨target, rfl, hselected⟩
        · intro a ha b hb
          rw [hsame] at ha
          exact h.apart thread j _ q (Ne.symm hj) hthread hq a ha b hb
        · intro a ha b hb
          rw [hselected] at ha
          apply select_disjoint hqpoint _ a ha b hb
          intro hthere
          rw [← hqupcoming]
          exact halone target (Or.inr ⟨hupcoming, hthere⟩) j hj
      refine ⟨⟨hqpoint.exec heffect ?_, hqguarded.mono later_trans hlater⟩, hdisjoint, ?_⟩
      · rintro row rfl
        rw [← hqupcoming]
        exact halone row.targetId (Or.inl ⟨row, hupcoming, rfl⟩) j hj
      · intro a ha b hb
        exact (hdisjoint b hb a ha).symm

theorem QueueSound.step (h : QueueSound pool) (event : Event) (halone : PollsAlone pool event) :
    QueueSound (php.step pool event).1 := by
  cases event with
  | request random body =>
    have hrequest := handle_request php random body
    apply Pool.Sound.start h ⟨hrequest.point _, hrequest.guarded _⟩
    intro q hq
    constructor
    · simp [Disjoint, hrequest.held_nil]
    · simp [Disjoint, hrequest.held_nil]
  | advance thread => exact h.advance thread halone
  | tick seconds =>
    have hclock : pool.state.clock ≤ pool.state.clock + (seconds : Int) := by omega
    refine Pool.Sound.outside h ⟨h.shared.below, h.shared.distinct⟩ fun p hp => ?_
    have heffect : QueueEffect pool.state .time (tick seconds pool.state) := .shrinks rfl fun _ h => h
    exact ⟨hp.1.exec heffect (fun row hrow => nomatch hrow), hp.2.mono later_trans hclock⟩

/-- In every run in which no call enters the queue, and none is selected, between the selection and the
deletion of a poll for the same publisher: no two polls return one call, and a statement deletes a call
only when it has waited for more than thirty seconds or when the request of the statement is a poll that
returns it. -/
theorem punch_queue_interleaved (php : PhpIndex) (clock : Int) (events : List Event)
    (halone : Transition.Along php.step PollsAlone (idle clock) events) :
    let pool := (Transition.run php.step (idle clock) events).1
    (∀ i j rows rows', i ≠ j → answer pool i = some (.calls rows) → answer pool j = some (.calls rows') →
      ∀ a ∈ rows, ∀ b ∈ rows', a.number ≠ b.number) ∧
    ∀ event, ∀ stored ∈ pool.state.pending, stored ∉ (php.step pool event).1.state.pending →
      stored.row.ts + pendingTtlS < pool.state.clock ∨ ∃ thread rows, event = .advance thread ∧
        answer (php.step pool event).1 thread = some (.calls rows) ∧ stored ∈ rows := by
  intro pool
  have h : QueueSound pool := by
    refine Transition.run_along QueueSound (fun pool event h hok => h.step event hok) ?_ halone
    exact Pool.Sound.empty ⟨by simp [PhpWorld.empty], by simp [PhpWorld.empty]⟩
  have hdone : ∀ i rows, answer pool i = some (.calls rows) →
      pool.threads[i]? = some (done (.calls rows)) := by
    intro i rows hanswer
    obtain ⟨p, hp, hresult⟩ := Option.bind_eq_some_iff.mp hanswer
    cases p with
    | done result => rw [hp, Option.some.inj hresult]
    | act statement next => exact nomatch hresult
  refine ⟨fun i j rows rows' hij hi hj => h.apart i j _ _ hij (hdone i rows hi) (hdone j rows' hj), ?_⟩
  intro event stored hmem hgone
  cases event with
  | request random body => exact absurd hmem hgone
  | tick seconds => exact absurd hmem hgone
  | advance thread =>
    have hstep : (php.step pool (.advance thread)).1 = pool.advance PhpStatement.exec thread := rfl
    rw [hstep] at hgone ⊢
    unfold Pool.advance at hgone ⊢
    cases hthread : pool.threads[thread]? with
    | none =>
      rw [hthread] at hgone
      exact absurd hmem hgone
    | some p =>
      rw [hthread] at hgone
      cases p with
      | done result => exact absurd hmem hgone
      | act statement next =>
        obtain ⟨hpoint, hguarded⟩ := h.own thread _ hthread
        rcases hpoint.deletes rfl (hguarded _ (Int.le_refl _)).1 hmem hgone with hexpired | hreturned
        · exact Or.inl hexpired
        · obtain ⟨rows, hnext, hrows⟩ := hreturned
          refine Or.inr ⟨thread, rows, rfl, ?_, hrows⟩
          have hlt := (List.getElem?_eq_some_iff.mp hthread).1
          simp [answer, hlt, hnext, Program.result]

/-- An event meets the condition when no other request has a statement left. -/
theorem pollsAlone_of_finished {thread : Nat}
    (h : ∀ other < pool.threads.length, other ≠ thread → upcoming pool other = none) :
    PollsAlone pool (.advance thread) := by
  intro target _ other hother hdelete
  by_cases hlt : other < pool.threads.length
  · rw [h other hlt hother] at hdelete
    exact nomatch hdelete
  · simp [upcoming, Nat.not_lt.mp hlt] at hdelete

/-! A call from `a` to `b`, and polls of `b`. -/

def sampleIndex : PhpIndex := ⟨[], [], none, 0, 120, fun _ => true⟩

def sampleRandom : Vector UInt8 8 := Vector.replicate 8 0

def samplePunchReq : Event :=
  .request sampleRandom (some (.obj [(ascii "op", .str (ascii "punch_req")),
    (ascii "self_id", .str (ascii "a")), (ascii "target_id", .str (ascii "b")),
    (ascii "session", .str (ascii "s"))]))

def samplePoll : Event :=
  .request sampleRandom (some (.obj [(ascii "op", .str (ascii "punch_poll")),
    (ascii "id", .str (ascii "b"))]))

/-- The row of the call. -/
def sampleRow : StoredRow :=
  ⟨0, hexEncode sampleRandom.toList, ascii "a", ascii "b", ascii "s", [], 1000⟩

/-- The call enters the queue, and then a poll takes it. -/
def calledThenPolled : List Event :=
  samplePunchReq :: List.replicate 5 (.advance 0) ++ samplePoll :: List.replicate 4 (.advance 1)

theorem punch_queue_calledThenPolled :
    Transition.Along sampleIndex.step PollsAlone (idle 1000) calledThenPolled ∧
    let pool := (Transition.run sampleIndex.step (idle 1000) calledThenPolled).1
    answer pool 1 = some (.calls [sampleRow]) ∧
    (∀ i j rows rows', i ≠ j → answer pool i = some (.calls rows) → answer pool j = some (.calls rows') →
      ∀ a ∈ rows, ∀ b ∈ rows', a.number ≠ b.number) ∧
    ∀ event, ∀ stored ∈ pool.state.pending, stored ∉ (sampleIndex.step pool event).1.state.pending →
      stored.row.ts + pendingTtlS < pool.state.clock ∨ ∃ thread rows, event = .advance thread ∧
        answer (sampleIndex.step pool event).1 thread = some (.calls rows) ∧ stored ∈ rows := by
  have halone : Transition.Along sampleIndex.step PollsAlone (idle 1000) calledThenPolled := by
    refine ⟨trivial, ?_, ?_, ?_, ?_, ?_, trivial, ?_, ?_, ?_, ?_, trivial⟩
    all_goals exact pollsAlone_of_finished (by decide +kernel)
  exact ⟨halone, by decide +kernel, punch_queue_interleaved sampleIndex 1000 calledThenPolled halone⟩

/-- A call that enters the queue between the two statements of a poll. -/
def calledInPoll : List Event :=
  samplePoll :: List.replicate 3 (.advance 0) ++ samplePunchReq :: List.replicate 5 (.advance 1) ++
    [.advance 0]

/-- A call that two polls select before they delete it. -/
def polledTwice : List Event :=
  samplePunchReq :: List.replicate 5 (.advance 0) ++ [samplePoll, samplePoll] ++
    List.replicate 3 (.advance 1) ++ List.replicate 3 (.advance 2) ++ [.advance 1, .advance 2]

/-- The first call is answered `ok` and deleted without being returned, the second one is returned by both
polls. -/
theorem punch_queue_lost_and_doubled :
    (let pool := (Transition.run sampleIndex.step (idle 1000) calledInPoll).1
    answer pool 1 = some .ok ∧ answer pool 0 = some (.calls []) ∧ pool.state.pending = []) ∧
    (let pool := (Transition.run sampleIndex.step (idle 1000) polledTwice).1
    answer pool 0 = some .ok ∧ answer pool 1 = some (.calls [sampleRow]) ∧
      answer pool 2 = some (.calls [sampleRow])) := by
  decide +kernel

end PhpIndex

end Redp2p
