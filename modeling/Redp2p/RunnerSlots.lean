import Redp2p.Runner

/-! What a command of the runner does to the slot table: the slot that an open takes, and the thread that
a stop or a close joins. -/

namespace Redp2p

open ByteString

/-- A slot at its place, or behind the last one. -/
def placeSlot (slots : List RunnerSlot) (index : Nat) (slot : RunnerSlot) : List RunnerSlot :=
  if index < slots.length then slots.set index slot else slots ++ [slot]

theorem getElem?_placeSlot {slots : List RunnerSlot} {index : Nat} (h : index ≤ slots.length)
    (slot : RunnerSlot) (i : Nat) :
    (placeSlot slots index slot)[i]? = if i = index then some slot else slots[i]? := by
  unfold placeSlot
  by_cases hlt : index < slots.length
  · rw [if_pos hlt, List.getElem?_set]
    by_cases hi : i = index
    · rw [if_pos hi.symm, if_pos hi, if_pos (by omega)]
    · rw [if_neg (Ne.symm hi), if_neg hi]
  · rw [if_neg hlt]
    by_cases hi : i = index
    · rw [if_pos hi, List.getElem?_append_right (by omega)]
      simp [show i - slots.length = 0 by omega]
    · rw [if_neg hi]
      by_cases hlow : i < slots.length
      · rw [List.getElem?_append_left hlow]
      · rw [List.getElem?_eq_none (by simp; omega), List.getElem?_eq_none (by omega)]

theorem placeSlot_length {slots : List RunnerSlot} {index : Nat} (h : index < slots.length)
    (slot : RunnerSlot) : (placeSlot slots index slot).length = slots.length := by
  rw [placeSlot, if_pos h, List.length_set]

namespace Runner

variable {s : Runner} {growth : Growth} {env : OpenEnv} {args : JsonObject Rat} {index : Nat}
  {slot : RunnerSlot} {result : Int}

/-! ### The slot that an open takes -/

/-- A slot that an open takes: a free one, or a new one when none is free. The table moves only to
grow. -/
structure Takes (s : Runner) (growth : Growth) (index block : Nat) : Prop where
  bound : index ≤ s.slots.length
  free : ∀ slot, s.slots[index]? = some slot → slot.state = .free
  full : index = s.slots.length → ∀ slot ∈ s.slots, slot.state ≠ .free
  block : block = s.block ∨ s.grows = true ∧ growth = .moved ∧ block = s.block + 1

/-- What an open does. -/
inductive Opens (s : Runner) (env : OpenEnv) : Runner × RunnerReply → Prop where
  | refused : Opens s env (s, .none)
  | failed (index block cap : Nat) (takes : Takes s env.growth index block) :
      Opens s env ({ s with slots := placeSlot s.slots index .zero, block, cap }, .none)
  | opened (index block cap : Nat) (slot : RunnerSlot) (takes : Takes s env.growth index block)
      (ctx : slot.ctx ≠ none) (state : slot.state = .running)
      (thread : slot.thread = some s.threads.length) :
      Opens s env ({ slots := placeSlot s.slots index slot, block, cap,
                     threads := s.threads ++ [⟨block, index, none⟩] }, .opened (index + 1) env.replied)

/-- What an allocation leaves, once its slot is set. -/
theorem slotAlloc_takes {s' : Runner} {handle : Nat} (h : s.slotAlloc growth = some (s', handle)) :
    ∃ index block cap, Takes s growth index block ∧ handle = index + 1 ∧ s'.block = block ∧
      s'.threads = s.threads ∧
      ∀ slot, s'.setSlot index slot = { s with slots := placeSlot s.slots index slot, block, cap } := by
  unfold slotAlloc at h
  split at h
  · rename_i index hfind
    obtain ⟨rfl, rfl⟩ := Prod.mk.inj (Option.some.inj h)
    obtain ⟨hlt, hfree, -⟩ := List.findIdx?_eq_some_iff_getElem.mp hfind
    refine ⟨index, s.block, s.cap, ⟨Nat.le_of_lt hlt, ?_, ?_, Or.inl rfl⟩, rfl, rfl, rfl, ?_⟩
    · intro slot hslot
      rw [List.getElem?_eq_getElem hlt] at hslot
      rw [← Option.some.inj hslot]
      simpa using hfree
    · intro heq
      omega
    · intro slot
      simp only [setSlot, placeSlot, if_pos hlt]
      congr 1
      apply List.ext_getElem?
      intro i
      simp only [List.getElem?_set, List.length_modify, List.getElem?_modify]
      split
      · rfl
      · simp
  · rename_i hnone
    have hfull : ∀ slot ∈ s.slots, slot.state ≠ .free := by
      simpa using List.findIdx?_eq_none_iff.mp hnone
    have htakes : ∀ block, (block = s.block ∨ s.grows = true ∧ growth = .moved ∧ block = s.block + 1) →
        Takes s growth s.slots.length block := by
      intro block hblock
      refine ⟨Nat.le_refl _, ?_, fun _ => hfull, hblock⟩
      intro slot hslot
      simp at hslot
    have hset : ∀ (block cap : Nat) (slot new : RunnerSlot),
        ({ s with slots := s.slots ++ [new], block, cap } : Runner).setSlot s.slots.length slot =
          { s with slots := placeSlot s.slots s.slots.length slot, block, cap } := by
      intro block cap slot new
      simp [setSlot, placeSlot]
    dsimp only at h
    split at h
    · rename_i hcap
      have hgrows : s.grows = true := by
        unfold grows
        simpa [List.all_eq_true, hcap] using hfull
      cases growth with
      | failed => exact nomatch h
      | inPlace =>
        obtain ⟨rfl, rfl⟩ := Prod.mk.inj (Option.some.inj h)
        exact ⟨_, s.block, _, htakes _ (Or.inl rfl), rfl, rfl, rfl, fun slot => hset s.block _ slot _⟩
      | moved =>
        obtain ⟨rfl, rfl⟩ := Prod.mk.inj (Option.some.inj h)
        exact ⟨_, s.block + 1, _, htakes _ (Or.inr ⟨hgrows, rfl, rfl⟩), rfl, rfl, rfl,
          fun slot => hset (s.block + 1) _ slot _⟩
    · obtain ⟨rfl, rfl⟩ := Prod.mk.inj (Option.some.inj h)
      exact ⟨_, s.block, s.cap, htakes _ (Or.inl rfl), rfl, rfl, rfl, fun slot => hset s.block s.cap slot _⟩

theorem runnerConfigure_slot {ctx : RunnerContext} {mem : Context.VipMemory} {handle : Nat}
    {op : RunnerOp} (h : runnerConfigure ctx mem handle args op = some slot) :
    slot.ctx ≠ none ∧ slot.state = .running := by
  cases op with
  | pub =>
    simp only [runnerConfigure, Option.bind_eq_bind, Option.bind_eq_some_iff, Option.pure_def,
      Option.some.injEq] at h
    obtain ⟨_, _, _, _, _, _, _, _, rfl⟩ := h
    exact ⟨nofun, rfl⟩
  | con =>
    simp only [runnerConfigure, Option.bind_eq_bind, Option.bind_eq_some_iff, Option.pure_def,
      Option.some.injEq] at h
    obtain ⟨_, _, _, _, _, _, _, _, rfl⟩ := h
    exact ⟨nofun, rfl⟩
  | idx =>
    simp only [runnerConfigure, Option.bind_eq_bind, Option.bind_eq_some_iff, Option.pure_def,
      Option.some.injEq] at h
    obtain ⟨_, _, _, _, rfl⟩ := h
    exact ⟨nofun, rfl⟩

theorem runnerOpen_opens (s : Runner) (env : OpenEnv) (args : JsonObject Rat) :
    Opens s env (s.runnerOpen env args) := by
  unfold runnerOpen
  split
  · exact .refused
  split
  · exact .refused
  rename_i s' handle halloc
  obtain ⟨index, block, cap, htakes, rfl, hblock, hthreads, hset⟩ := slotAlloc_takes halloc
  rw [Nat.add_sub_cancel]
  split
  · rw [hset]
    exact .failed index block cap htakes
  rename_i slot hslot
  obtain ⟨ctx, -, hconfigure⟩ := Option.bind_eq_some_iff.mp hslot
  obtain ⟨hctx, hstate⟩ := runnerConfigure_slot hconfigure
  split
  · rw [hset]
    exact .failed index block cap htakes
  · rw [hset, hblock, hthreads]
    exact .opened index block cap { slot with thread := some s.threads.length } htakes hctx hstate rfl

/-! ### The thread that a slot waits for -/

/-- The thread of a slot was started with a reference to it. -/
def Joined (s : Runner) : Prop :=
  ∀ (i : Nat) (slot : RunnerSlot) (t : Nat), s.slots[i]? = some slot → slot.thread = some t →
    ∃ thread : RunnerThread, s.threads[t]? = some thread ∧ thread.index = i

/-- What a slot and the threads are once its thread has been joined: there is none that runs, or it
completes now, and its result reaches the slot through a reference to the block of the table. -/
inductive Halted (s : Runner) (slot : RunnerSlot) (result : Int) :
    RunnerSlot → List RunnerThread → Prop where
  | idle (ctx : Option RunnerContext) (owns : ctx = none ↔ slot.ctx = none)
      (done : ∀ t thread, slot.thread = some t → s.threads[t]? = some thread → thread.result ≠ none) :
      Halted s slot result { slot with ctx, thread := none } s.threads
  | lost (ctx : Option RunnerContext) (owns : ctx = none ↔ slot.ctx = none) (t : Nat)
      (thread : RunnerThread) (joined : slot.thread = some t) (started : s.threads[t]? = some thread)
      (runs : thread.result = none) (moved : thread.block ≠ s.block) :
      Halted s slot result { slot with ctx, thread := none }
        (s.threads.set t { thread with result := some result })
  | stored (ctx : Option RunnerContext) (owns : ctx = none ↔ slot.ctx = none) (t : Nat)
      (thread : RunnerThread) (joined : slot.thread = some t) (started : s.threads[t]? = some thread)
      (runs : thread.result = none) :
      Halted s slot result { slot with ctx, result, state := .finished, thread := none }
        (s.threads.set t { thread with result := some result })

theorem requestStop_ctx (slot : RunnerSlot) : ∃ ctx, slot.requestStop = { slot with ctx } ∧
    (ctx = none ↔ slot.ctx = none) := by
  unfold RunnerSlot.requestStop
  split
  · exact ⟨slot.ctx.map RunnerContext.stop, rfl, by simp⟩
  · exact ⟨slot.ctx, rfl, Iff.rfl⟩

theorem modify_slot {slots : List RunnerSlot} {i : Nat} (f : RunnerSlot → RunnerSlot)
    (h : slots[i]? = some slot) : slots.modify i f = slots.set i (f slot) := by
  rw [List.modify_eq_set_getElem?, h]
  rfl

theorem set_slot_get {slots : List RunnerSlot} {i : Nat} (h : slots[i]? = some slot)
    (new : RunnerSlot) : (slots.set i new)[i]? = some new := by
  have hlt := (List.getElem?_eq_some_iff.mp h).1
  simp [hlt]

theorem halt_halted (hjoined : s.Joined) (hslot : s.slots[index]? = some slot) (result : Int) :
    ∃ slot' threads', Halted s slot result slot' threads' ∧
      s.halt index result = { s with slots := s.slots.set index slot', threads := threads' } := by
  obtain ⟨ctx, hstop, howns⟩ := requestStop_ctx slot
  have hasked := modify_slot RunnerSlot.requestStop hslot
  rw [hstop] at hasked
  have hget := set_slot_get hslot { slot with ctx }
  unfold halt join
  simp only [hasked, hget, Option.bind_some]
  cases hthread : slot.thread with
  | none =>
    refine ⟨_, _, .idle ctx howns (by simp [hthread]), ?_⟩
    simp only [← hthread]
  | some t =>
    obtain ⟨thread, hstarted, hindex⟩ := hjoined index slot t hslot hthread
    rw [hthread] at hget
    dsimp only
    unfold complete
    simp only [hstarted]
    cases hdone : thread.result with
    | some r =>
      refine ⟨_, _, .idle ctx howns ?_, ?_⟩
      · intro t' thread' ht hthread'
        rw [hthread, Option.some.injEq] at ht
        rw [← ht, hstarted, Option.some.injEq] at hthread'
        simp [← hthread', hdone]
      · simp only [Option.isSome_some, if_true, modify_slot _ hget, List.set_set]
    | none =>
      simp only [Option.isSome_none, Bool.false_eq_true, if_false]
      by_cases hblock : thread.block = s.block
      · refine ⟨_, _, .stored ctx howns t thread hthread hstarted hdone, ?_⟩
        rw [if_pos hblock]
        simp only [hindex, modify_slot _ hget, List.set_set]
        rw [modify_slot _ (set_slot_get hslot _), List.set_set]
      · refine ⟨_, _, .lost ctx howns t thread hthread hstarted hdone hblock, ?_⟩
        rw [if_neg hblock]
        simp only [modify_slot _ hget, List.set_set]

/-! ### Commands that name a slot -/

theorem target_get {handle : Int} (h : s.target args = some (handle, index)) :
    handle = (index : Int) + 1 ∧ ∃ slot, s.slots[index]? = some slot := by
  simp only [target, Option.bind_eq_some_iff, Option.map_eq_some_iff, Prod.mk.injEq] at h
  obtain ⟨value, -, place, hplace, hvalue, rfl⟩ := h
  unfold slotGet at hplace
  split at hplace
  · exact nomatch hplace
  · rename_i hrange
    simp only [not_or, Int.not_lt] at hrange
    obtain rfl := Option.some.inj hplace
    have hlt : value.toNat - 1 < s.slots.length := by omega
    exact ⟨by omega, _, List.getElem?_eq_getElem hlt⟩

/-- What a stop or a close does: it names no slot, or the slot is halted and then released in its own
way. -/
inductive Releases (s : Runner) (args : JsonObject Rat) (result : Int)
    (release : RunnerSlot → RunnerSlot) (reply : Int → RunnerReply) : Runner × RunnerReply → Prop where
  | refused : Releases s args result release reply (s, .none)
  | halted (index : Nat) (slot slot' : RunnerSlot) (threads : List RunnerThread)
      (named : s.target args = some ((index : Int) + 1, index)) (found : s.slots[index]? = some slot)
      (halted : Halted s slot result slot' threads) :
      Releases s args result release reply
        ({ s with slots := s.slots.set index (release slot'), threads }, reply ((index : Int) + 1))

def releaseStopped (slot : RunnerSlot) : RunnerSlot := { slot with state := .finished }

def releaseClosed (slot : RunnerSlot) : RunnerSlot := { slot with ctx := none, state := .free }

theorem runnerStop_releases (hjoined : s.Joined) (args : JsonObject Rat) (result : Int) :
    Releases s args result releaseStopped .stopped (s.runnerStop args result) := by
  unfold runnerStop
  split
  · exact .refused
  · rename_i handle index htarget
    obtain ⟨rfl, slot, hslot⟩ := target_get htarget
    obtain ⟨slot', threads, hhalted, hhalt⟩ := halt_halted hjoined hslot result
    simp only [hhalt, modify_slot _ (set_slot_get hslot _), List.set_set]
    exact .halted index slot slot' threads htarget hslot hhalted

theorem runnerClose_releases (hjoined : s.Joined) (args : JsonObject Rat) (result : Int) :
    Releases s args result releaseClosed .closed (s.runnerClose args result) := by
  unfold runnerClose
  split
  · exact .refused
  · rename_i handle index htarget
    obtain ⟨rfl, slot, hslot⟩ := target_get htarget
    obtain ⟨slot', threads, hhalted, hhalt⟩ := halt_halted hjoined hslot result
    simp only [hhalt, modify_slot _ (set_slot_get hslot _), List.set_set]
    exact .halted index slot slot' threads htarget hslot hhalted

/-- What the completion of a thread does: nothing when it has completed, else its result is noted, and
reaches its slot through a reference to the block of the table. -/
inductive Completes (s : Runner) (t : Nat) (result : Int) : Runner → Prop where
  | same : Completes s t result s
  | lost (thread : RunnerThread) (started : s.threads[t]? = some thread) (runs : thread.result = none)
      (moved : thread.block ≠ s.block) :
      Completes s t result { s with threads := s.threads.set t { thread with result := some result } }
  | stored (thread : RunnerThread) (started : s.threads[t]? = some thread) (runs : thread.result = none)
      (kept : thread.block = s.block) :
      Completes s t result { s with
        slots := s.slots.modify thread.index fun slot => { slot with result, state := .finished }
        threads := s.threads.set t { thread with result := some result } }

theorem complete_completes (s : Runner) (t : Nat) (result : Int) :
    Completes s t result (s.complete t result) := by
  unfold complete
  split
  · exact .same
  · rename_i thread hstarted
    split
    · exact .same
    · rename_i hruns
      have hnone : thread.result = none := by simpa using hruns
      dsimp only
      split
      · rename_i hblock
        exact .stored thread hstarted hnone hblock
      · rename_i hblock
        exact .lost thread hstarted hnone hblock

/-! ### Threads that run -/

/-- Every thread that runs with a reference to the block of the table is the thread of a slot that is
running. -/
structure Running (s : Runner) : Prop where
  joined : s.Joined
  live : ∀ (t : Nat) (thread : RunnerThread), s.threads[t]? = some thread → thread.result = none →
    thread.block = s.block →
    ∃ slot, s.slots[thread.index]? = some slot ∧ slot.thread = some t ∧ slot.state = .running
  blocks : ∀ thread ∈ s.threads, thread.block ≤ s.block

theorem Running.start : Running Runner.start where
  joined := by intro i slot t h; simp [Runner.start] at h
  live := by intro t thread h; simp [Runner.start] at h
  blocks := by simp [Runner.start]

/-! A thread that completes. -/

section Finish

variable {threads : List RunnerThread} {t t' : Nat} {thread thread' old : RunnerThread}

theorem finish_old (hthread : threads[t]? = some thread)
    (hget : (threads.set t { thread with result := some result })[t']? = some thread') :
    ∃ old, threads[t']? = some old ∧ old.block = thread'.block ∧ old.index = thread'.index ∧
      (thread'.result = none → t' ≠ t ∧ old.result = none) := by
  rw [List.getElem?_set] at hget
  by_cases heq : t = t'
  · rw [if_pos heq, if_pos (List.getElem?_eq_some_iff.mp hthread).1, Option.some.injEq] at hget
    subst heq
    subst hget
    exact ⟨thread, hthread, rfl, rfl, nofun⟩
  · rw [if_neg heq] at hget
    exact ⟨thread', hget, rfl, rfl, fun hruns => ⟨Ne.symm heq, hruns⟩⟩

theorem finish_kept (hthread : threads[t]? = some thread) (hold : threads[t']? = some old)
    (result : Int) :
    ∃ thread', (threads.set t { thread with result := some result })[t']? = some thread' ∧
      thread'.index = old.index ∧ (t' ≠ t → thread' = old) ∧ (t' = t → thread'.result = some result) := by
  rw [List.getElem?_set]
  by_cases heq : t = t'
  · subst heq
    rw [hold, Option.some.injEq] at hthread
    subst hthread
    rw [if_pos rfl, if_pos (List.getElem?_eq_some_iff.mp hold).1]
    exact ⟨_, rfl, rfl, fun hne => absurd rfl hne, fun _ => rfl⟩
  · rw [if_neg heq]
    exact ⟨old, hold, rfl, fun _ => rfl, fun hsame => absurd hsame.symm heq⟩

end Finish

/-- Threads that were joined are the same but for their results. -/
theorem Halted.threads {slot' : RunnerSlot} {threads : List RunnerThread}
    (h : Halted s slot result slot' threads) {t : Nat} {thread : RunnerThread}
    (ht : threads[t]? = some thread) :
    ∃ old, s.threads[t]? = some old ∧ old.block = thread.block ∧ old.index = thread.index ∧
      (thread.result = none → old.result = none ∧ slot.thread ≠ some t) := by
  cases h with
  | idle ctx owns done =>
    exact ⟨thread, ht, rfl, rfl, fun hruns => ⟨hruns, fun hjoined => done t thread hjoined ht hruns⟩⟩
  | lost ctx owns t' old joined started runs moved =>
    obtain ⟨old', hold, hblock, hindex, hruns⟩ := finish_old started ht
    refine ⟨old', hold, hblock, hindex, fun hnone => ⟨(hruns hnone).2, ?_⟩⟩
    rw [joined, ne_eq, Option.some.injEq]
    exact Ne.symm (hruns hnone).1
  | stored ctx owns t' old joined started runs =>
    obtain ⟨old', hold, hblock, hindex, hruns⟩ := finish_old started ht
    refine ⟨old', hold, hblock, hindex, fun hnone => ⟨(hruns hnone).2, ?_⟩⟩
    rw [joined, ne_eq, Option.some.injEq]
    exact Ne.symm (hruns hnone).1

theorem Halted.started {slot' : RunnerSlot} {threads : List RunnerThread}
    (h : Halted s slot result slot' threads) {t : Nat} {old : RunnerThread}
    (hold : s.threads[t]? = some old) :
    ∃ thread, threads[t]? = some thread ∧ thread.index = old.index := by
  cases h with
  | idle ctx owns done => exact ⟨old, hold, rfl⟩
  | lost ctx owns t' old' joined started runs moved =>
    obtain ⟨thread, hthread, hindex, -⟩ := finish_kept started hold result
    exact ⟨thread, hthread, hindex⟩
  | stored ctx owns t' old' joined started runs =>
    obtain ⟨thread, hthread, hindex, -⟩ := finish_kept started hold result
    exact ⟨thread, hthread, hindex⟩

/-- A slot whose thread was joined gives its thread up. -/
theorem Running.replace (h : s.Running) {slot' new : RunnerSlot} {threads : List RunnerThread}
    (hslot : s.slots[index]? = some slot) (hhalted : Halted s slot result slot' threads)
    (hnew : new.thread = none) :
    ({ s with slots := s.slots.set index new, threads } : Runner).Running where
  joined := by
    intro i old t hold hthread
    have hold' : (s.slots.set index new)[i]? = some old := hold
    by_cases hi : i = index
    · rw [hi, set_slot_get hslot, Option.some.injEq] at hold'
      rw [← hold', hnew] at hthread
      exact nomatch hthread
    · rw [List.getElem?_set_ne (Ne.symm hi)] at hold'
      obtain ⟨thread, hstarted, hindex⟩ := h.joined i old t hold' hthread
      obtain ⟨thread', hthread', hindex'⟩ := hhalted.started hstarted
      exact ⟨thread', hthread', hindex'.trans hindex⟩
  live := by
    intro t thread hthread hruns hblock
    obtain ⟨old, hold, holdBlock, holdIndex, holdRuns⟩ := hhalted.threads hthread
    obtain ⟨hnone, hne⟩ := holdRuns hruns
    obtain ⟨live, hlive, hjoined, hstate⟩ := h.live t old hold hnone (holdBlock.trans hblock)
    have hi : thread.index ≠ index := by
      rintro heq
      rw [holdIndex, heq, hslot, Option.some.injEq] at hlive
      exact hne (hlive ▸ hjoined)
    refine ⟨live, ?_, hjoined, hstate⟩
    show (s.slots.set index new)[thread.index]? = some live
    rw [List.getElem?_set_ne (Ne.symm hi), ← holdIndex]
    exact hlive
  blocks := by
    intro thread hthread
    obtain ⟨t, ht⟩ := List.getElem?_of_mem hthread
    obtain ⟨old, hold, hblock, -, -⟩ := hhalted.threads ht
    rw [← hblock]
    exact h.blocks old (List.mem_of_getElem? hold)

theorem Takes.block_le {block : Nat} (h : Takes s growth index block) : s.block ≤ block := by
  rcases h.block with rfl | ⟨-, -, rfl⟩ <;> omega

/-- No thread that runs refers to a slot that an open takes. -/
theorem Running.free (h : s.Running) {block : Nat} (htakes : Takes s growth index block) {t : Nat}
    {thread : RunnerThread} (hthread : s.threads[t]? = some thread) (hruns : thread.result = none)
    (hblock : thread.block = s.block) : thread.index ≠ index := by
  rintro heq
  obtain ⟨slot, hslot, -, hstate⟩ := h.live t thread hthread hruns hblock
  rw [heq] at hslot
  simp [htakes.free slot hslot] at hstate

/-- An open takes a slot, and the threads that run keep theirs. -/
theorem Running.take (h : s.Running) {block cap : Nat} (htakes : Takes s growth index block)
    {new : RunnerSlot} {started : List RunnerThread}
    (hnew : ∀ t, new.thread = some t →
      ∃ thread, (s.threads ++ started)[t]? = some thread ∧ thread.index = index)
    (hstarted : ∀ t thread, (s.threads ++ started)[t]? = some thread → s.threads.length ≤ t →
      thread.block = block ∧ thread.index = index ∧ new.thread = some t ∧ new.state = .running) :
    (⟨placeSlot s.slots index new, block, cap, s.threads ++ started⟩ : Runner).Running where
  joined := by
    intro i slot t hslot hthread
    have hslot' : (placeSlot s.slots index new)[i]? = some slot := hslot
    rw [getElem?_placeSlot htakes.bound] at hslot'
    by_cases hi : i = index
    · rw [if_pos hi, Option.some.injEq] at hslot'
      rw [hi]
      exact hnew t (hslot' ▸ hthread)
    · rw [if_neg hi] at hslot'
      obtain ⟨thread, hold, hindex⟩ := h.joined i slot t hslot' hthread
      have hlt := (List.getElem?_eq_some_iff.mp hold).1
      exact ⟨thread, (List.getElem?_append_left hlt).trans hold, hindex⟩
  live := by
    intro t thread hthread hruns hblock
    show ∃ slot, (placeSlot s.slots index new)[thread.index]? = some slot ∧ _
    rw [getElem?_placeSlot htakes.bound]
    by_cases hold : t < s.threads.length
    · have hget : s.threads[t]? = some thread := by
        rw [← hthread, List.getElem?_append_left hold]
      have hsame : thread.block = s.block := by
        have hle := h.blocks thread (List.mem_of_getElem? hget)
        have hgrow := htakes.block_le
        have hblock' : thread.block = block := hblock
        omega
      rw [if_neg (h.free htakes hget hruns hsame)]
      exact h.live t thread hget hruns hsame
    · obtain ⟨-, hindex, hjoined, hstate⟩ := hstarted t thread hthread (by omega)
      rw [if_pos hindex]
      exact ⟨new, rfl, hjoined, hstate⟩
  blocks := by
    intro thread hthread
    obtain ⟨t, ht⟩ := List.getElem?_of_mem hthread
    by_cases hold : t < s.threads.length
    · have hget : s.threads[t]? = some thread := by
        rw [← ht, List.getElem?_append_left hold]
      exact Nat.le_trans (h.blocks thread (List.mem_of_getElem? hget)) htakes.block_le
    · exact Nat.le_of_eq (hstarted t thread ht (by omega)).1

theorem started_last {threads : List RunnerThread} {thread new : RunnerThread} {t : Nat}
    (h : (threads ++ [new])[t]? = some thread) (ht : threads.length ≤ t) :
    t = threads.length ∧ thread = new := by
  have hlt := (List.getElem?_eq_some_iff.mp h).1
  rw [List.length_append, List.length_singleton] at hlt
  obtain rfl : t = threads.length := by omega
  simpa using h.symm

theorem Running.complete (h : s.Running) (t : Nat) (result : Int) : (s.complete t result).Running := by
  have hblocks : ∀ thread : RunnerThread, s.threads[t]? = some thread →
      ∀ thread' ∈ s.threads.set t { thread with result := some result }, thread'.block ≤ s.block := by
    intro thread hthread thread' hmem
    obtain ⟨t', ht'⟩ := List.getElem?_of_mem hmem
    obtain ⟨old, hold, hblock, -⟩ := finish_old hthread ht'
    rw [← hblock]
    exact h.blocks old (List.mem_of_getElem? hold)
  have hcases := complete_completes s t result
  generalize s.complete t result = s' at hcases
  cases hcases with
  | same => exact h
  | lost thread started runs moved =>
    refine ⟨?_, ?_, hblocks thread started⟩
    · intro i slot t' hslot hjoined
      obtain ⟨old, hold, hindex⟩ := h.joined i slot t' hslot hjoined
      obtain ⟨thread', hthread', hindex', -⟩ := finish_kept started hold result
      exact ⟨thread', hthread', hindex'.trans hindex⟩
    · intro t' thread' hthread' hruns hblock
      obtain ⟨old, hold, holdBlock, holdIndex, holdRuns⟩ := finish_old started hthread'
      rw [← holdIndex]
      exact h.live t' old hold (holdRuns hruns).2 (holdBlock.trans hblock)
  | stored thread started runs kept =>
    obtain ⟨own, hown, hownThread, -⟩ := h.live t thread started runs kept
    refine ⟨?_, ?_, hblocks thread started⟩
    · intro i slot t' hslot hjoined
      have hslot' : (s.slots.modify thread.index
          fun slot => { slot with result, state := .finished })[i]? = some slot := hslot
      rw [modify_slot _ hown, List.getElem?_set] at hslot'
      have hbefore : ∃ before, s.slots[i]? = some before ∧ before.thread = some t' := by
        by_cases hi : thread.index = i
        · rw [if_pos hi, if_pos (List.getElem?_eq_some_iff.mp hown).1, Option.some.injEq] at hslot'
          subst hslot'
          exact ⟨own, hi ▸ hown, hjoined⟩
        · rw [if_neg hi] at hslot'
          exact ⟨slot, hslot', hjoined⟩
      obtain ⟨before, hget, hthread⟩ := hbefore
      obtain ⟨old, hold, hindex⟩ := h.joined i before t' hget hthread
      obtain ⟨thread', hthread', hindex', -⟩ := finish_kept started hold result
      exact ⟨thread', hthread', hindex'.trans hindex⟩
    · intro t' thread' hthread' hruns hblock
      obtain ⟨old, hold, holdBlock, holdIndex, holdRuns⟩ := finish_old started hthread'
      obtain ⟨hne, hnone⟩ := holdRuns hruns
      obtain ⟨live, hlive, hjoined, hstate⟩ := h.live t' old hold hnone (holdBlock.trans hblock)
      have hi : thread.index ≠ thread'.index := by
        rintro heq
        rw [holdIndex, ← heq, hown, Option.some.injEq] at hlive
        rw [← hlive, hownThread, Option.some.injEq] at hjoined
        exact hne hjoined.symm
      refine ⟨live, ?_, hjoined, hstate⟩
      show (s.slots.modify thread.index _)[thread'.index]? = some live
      rw [modify_slot _ hown, List.getElem?_set_ne hi, ← holdIndex]
      exact hlive

theorem Running.step (h : s.Running) (event : RunnerEvent) : (s.step event).1.Running := by
  have hreleases : ∀ {args : JsonObject Rat} {result : Int} {release : RunnerSlot → RunnerSlot}
      {reply : Int → RunnerReply} {out : Runner × RunnerReply},
      (∀ slot : RunnerSlot, (release slot).thread = slot.thread) →
      Releases s args result release reply out → out.1.Running := by
    intro args result release reply out hrelease hout
    cases hout with
    | refused => exact h
    | halted index slot slot' threads named found halted =>
      refine h.replace found halted ?_
      rw [hrelease]
      cases halted <;> rfl
  cases event with
  | opens env args =>
    show (s.runnerOpen env args).1.Running
    have hopens := runnerOpen_opens s env args
    generalize s.runnerOpen env args = out at hopens
    cases hopens with
    | refused => exact h
    | failed index block cap takes =>
      have htake : (⟨placeSlot s.slots index .zero, block, cap, s.threads ++ []⟩ : Runner).Running :=
        h.take takes nofun fun t thread hthread hle => by
          rw [List.append_nil] at hthread
          exact absurd (List.getElem?_eq_some_iff.mp hthread).1 (by omega)
      rwa [List.append_nil] at htake
    | opened index block cap slot takes ctx state thread =>
      refine h.take takes ?_ ?_
      · intro t ht
        rw [thread, Option.some.injEq] at ht
        subst ht
        exact ⟨⟨block, index, none⟩, by simp, rfl⟩
      · intro t started hstarted hle
        obtain ⟨rfl, rfl⟩ := started_last hstarted hle
        exact ⟨rfl, rfl, thread, state⟩
  | status args => exact h
  | stop args result =>
    have hrelease : ∀ slot, (releaseStopped slot).thread = slot.thread := fun _ => rfl
    exact hreleases hrelease (runnerStop_releases h.joined args result)
  | close args result =>
    have hrelease : ∀ slot, (releaseClosed slot).thread = slot.thread := fun _ => rfl
    exact hreleases hrelease (runnerClose_releases h.joined args result)
  | complete t result => exact h.complete t result

end Runner

end Redp2p
