import Redp2p.RunnerTable

/-! What the status of a handle says about the operation that it was opened for. A thread that outlives a
move of the table stores its result in memory that the table has left, and is reported as running for
good. -/

namespace Redp2p

open ByteString

namespace Runner

variable {s : Runner} {args : JsonObject Rat} {result : Int} {index : Nat} {t : Nat}

/-- An open moves the table only once all threads have completed. -/
def MovesQuiet (s : Runner) : RunnerEvent → Prop
  | .opens env args => (args.getString (ascii "op")).bind RunnerOp.ofText ≠ none → s.grows = true →
      env.growth = .moved → ∀ thread ∈ s.threads, thread.result ≠ none
  | _ => True

/-- The threads that run refer to the block of the table. -/
def Current (s : Runner) : Prop :=
  ∀ thread ∈ s.threads, thread.result = none → thread.block = s.block

/-- A slot shows the state of a thread. -/
structure Shows (s : Runner) (index t : Nat) (slot : RunnerSlot) (thread : RunnerThread) : Prop where
  found : s.slots[index]? = some slot
  started : s.threads[t]? = some thread
  place : thread.index = index
  taken : slot.state ≠ .free
  runs : thread.result = none → slot.state = .running
  done : ∀ r, thread.result = some r → slot.state = .finished ∧ slot.result = r

theorem Shows.kept {slot : RunnerSlot} {thread : RunnerThread} (h : Shows s index t slot thread)
    {s' : Runner} (hslot : s'.slots[index]? = s.slots[index]?)
    (hthread : s'.threads[t]? = s.threads[t]?) : Shows s' index t slot thread :=
  ⟨hslot.trans h.found, hthread.trans h.started, h.place, h.taken, h.runs, h.done⟩

/-- The thread that a slot shows is its own while it runs. -/
theorem Shows.own {slot : RunnerSlot} {thread : RunnerThread} (h : Shows s index t slot thread)
    (hrunning : s.Running) (hcurrent : s.Current) (hruns : thread.result = none) :
    slot.thread = some t := by
  have hblock := hcurrent thread (List.mem_of_getElem? h.started) hruns
  obtain ⟨live, hlive, hown, -⟩ := hrunning.live t thread h.started hruns hblock
  rw [h.place, h.found, Option.some.injEq] at hlive
  rwa [← hlive] at hown

/-- A thread that runs is the one that its slot shows. -/
theorem Shows.unique {slot : RunnerSlot} {thread other : RunnerThread} (h : Shows s index t slot thread)
    (hrunning : s.Running) (hcurrent : s.Current) {t' : Nat} (hother : s.threads[t']? = some other)
    (hruns : other.result = none) (hplace : other.index = index) : t' = t := by
  have hblock := hcurrent other (List.mem_of_getElem? hother) hruns
  obtain ⟨live, hlive, hown, hstate⟩ := hrunning.live t' other hother hruns hblock
  rw [hplace, h.found, Option.some.injEq] at hlive
  rw [← hlive] at hown hstate
  cases hresult : thread.result with
  | none =>
    rw [h.own hrunning hcurrent hresult, Option.some.injEq] at hown
    exact hown.symm
  | some r =>
    rw [(h.done r hresult).1] at hstate
    exact nomatch hstate

theorem Halted.other {slot slot' : RunnerSlot} {threads : List RunnerThread}
    (h : Halted s slot result slot' threads) (hother : slot.thread ≠ some t) :
    threads[t]? = s.threads[t]? := by
  cases h with
  | idle ctx owns done => rfl
  | lost ctx owns t' thread joined started runs moved =>
    rw [List.getElem?_set_ne]
    rintro rfl
    exact hother joined
  | stored ctx owns t' thread joined started runs =>
    rw [List.getElem?_set_ne]
    rintro rfl
    exact hother joined

/-- A thread that was joined has completed, and its slot has the result. -/
theorem Halted.shows {slot slot' : RunnerSlot} {thread : RunnerThread} {threads : List RunnerThread}
    (h : Halted s slot result slot' threads) (hshows : Shows s index t slot thread)
    (hrunning : s.Running) (hcurrent : s.Current) :
    ∃ (thread' : RunnerThread) (r : Int), threads[t]? = some thread' ∧ thread'.index = index ∧
      thread'.result = some r ∧ slot'.result = r := by
  cases h with
  | idle ctx owns done =>
    cases hresult : thread.result with
    | none => exact absurd hresult (done t thread (hshows.own hrunning hcurrent hresult) hshows.started)
    | some r => exact ⟨thread, r, hshows.started, hshows.place, hresult, (hshows.done r hresult).2⟩
  | lost ctx owns t' other joined started runs moved =>
    exact absurd (hcurrent other (List.mem_of_getElem? started) runs) moved
  | stored ctx owns t' other joined started runs =>
    obtain ⟨other', hother, hplace⟩ := hrunning.joined index slot t' hshows.found joined
    rw [started, Option.some.injEq] at hother
    rw [← hother] at hplace
    obtain rfl := hshows.unique hrunning hcurrent started runs hplace
    obtain ⟨thread', hthread', hplace', -, hdone⟩ := finish_kept started started result
    exact ⟨thread', result, hthread', hplace'.trans hplace, hdone rfl, rfl⟩

theorem Halted.current {slot slot' new : RunnerSlot} {threads : List RunnerThread}
    (h : Halted s slot result slot' threads) (hcurrent : s.Current) :
    ({ s with slots := s.slots.set index new, threads } : Runner).Current := by
  intro thread hmem hruns
  obtain ⟨t, ht⟩ := List.getElem?_of_mem hmem
  obtain ⟨old, hold, hblock, -, hnone⟩ := h.threads ht
  exact hblock.symm.trans (hcurrent old (List.mem_of_getElem? hold) (hnone hruns).1)

theorem Current.take (h : s.Current) {growth : Growth} {block cap : Nat} {slots : List RunnerSlot}
    {started : List RunnerThread} (htakes : Takes s growth index block)
    (hquiet : s.grows = true → growth = .moved → ∀ thread ∈ s.threads, thread.result ≠ none)
    (hstarted : ∀ thread ∈ started, thread.block = block) :
    (⟨slots, block, cap, s.threads ++ started⟩ : Runner).Current := by
  intro thread hmem hruns
  rcases List.mem_append.mp hmem with hold | hnew
  · rcases htakes.block with rfl | ⟨hgrows, hmoved, -⟩
    · exact h thread hold hruns
    · exact absurd hruns (hquiet hgrows hmoved thread hold)
  · exact hstarted thread hnew

theorem Current.complete (h : s.Current) (t : Nat) (result : Int) : (s.complete t result).Current := by
  have hset : ∀ thread : RunnerThread, s.threads[t]? = some thread →
      ∀ thread' ∈ s.threads.set t { thread with result := some result }, thread'.result = none →
        thread'.block = s.block := by
    intro thread hthread thread' hmem hruns
    obtain ⟨t', ht'⟩ := List.getElem?_of_mem hmem
    obtain ⟨old, hold, hblock, -, hnone⟩ := finish_old hthread ht'
    exact hblock.symm.trans (h old (List.mem_of_getElem? hold) (hnone hruns).2)
  have hcases := complete_completes s t result
  generalize s.complete t result = s' at hcases
  cases hcases with
  | same => exact h
  | lost thread started runs moved => exact hset thread started
  | stored thread started runs kept => exact hset thread started

theorem Takes.apart {growth : Growth} {place block : Nat} {slot : RunnerSlot} {thread : RunnerThread}
    (htakes : Takes s growth place block) (h : Shows s index t slot thread) : index ≠ place := by
  rintro rfl
  exact h.taken (htakes.free slot h.found)

/-- What an open leaves of a slot that shows a thread. -/
theorem Shows.take {growth : Growth} {place block cap : Nat} {slot new : RunnerSlot}
    {thread : RunnerThread} {started : List RunnerThread} (h : Shows s index t slot thread)
    (htakes : Takes s growth place block) :
    Shows ⟨placeSlot s.slots place new, block, cap, s.threads ++ started⟩ index t slot thread := by
  have hlt := (List.getElem?_eq_some_iff.mp h.started).1
  apply h.kept
  · show (placeSlot s.slots place new)[index]? = _
    rw [getElem?_placeSlot htakes.bound, if_neg (htakes.apart h)]
  · exact List.getElem?_append_left hlt

theorem Shows.complete {slot : RunnerSlot} {thread : RunnerThread} (h : Shows s index t slot thread)
    (hrunning : s.Running) (hcurrent : s.Current) (t' : Nat) (result : Int) :
    ∃ slot' thread', Shows (s.complete t' result) index t slot' thread' := by
  have hcases := complete_completes s t' result
  generalize s.complete t' result = s' at hcases
  cases hcases with
  | same => exact ⟨slot, thread, h⟩
  | lost other started runs moved =>
    exact absurd (hcurrent other (List.mem_of_getElem? started) runs) moved
  | stored other started runs kept =>
    obtain ⟨live, hlive, -, -⟩ := hrunning.live t' other started runs kept
    by_cases hplace : other.index = index
    · obtain rfl := h.unique hrunning hcurrent started runs hplace
      rw [h.started, Option.some.injEq] at started
      subst started
      rw [hplace, h.found, Option.some.injEq] at hlive
      subst hlive
      have hlt := (List.getElem?_eq_some_iff.mp h.started).1
      refine ⟨{ slot with result, state := .finished }, { thread with result := some result }, ?_, ?_,
        hplace, nofun, nofun, ?_⟩
      · show (s.slots.modify thread.index _)[index]? = _
        rw [hplace, modify_slot _ h.found]
        exact set_slot_get h.found _
      · simp [hlt]
      · intro r hr
        exact ⟨rfl, Option.some.inj hr⟩
    · refine ⟨slot, thread, h.kept ?_ ?_⟩
      · show (s.slots.modify other.index _)[index]? = _
        rw [modify_slot _ hlive, List.getElem?_set_ne hplace]
      · apply List.getElem?_set_ne
        rintro rfl
        rw [h.started, Option.some.injEq] at started
        exact hplace (started ▸ h.place)

/-- A slot that another command halts leaves what a slot shows. -/
theorem Shows.halted {place : Nat} {slot old slot' new : RunnerSlot} {thread : RunnerThread}
    {threads : List RunnerThread} (h : Shows s index t slot thread) (hrunning : s.Running)
    (hfound : s.slots[place]? = some old) (hhalted : Halted s old result slot' threads)
    (hne : place ≠ index) :
    Shows { s with slots := s.slots.set place new, threads } index t slot thread := by
  apply h.kept
  · exact List.getElem?_set_ne hne
  · apply hhalted.other
    intro hjoined
    obtain ⟨other, hother, hplace⟩ := hrunning.joined place old t hfound hjoined
    rw [h.started, Option.some.injEq] at hother
    exact hne (by rw [← hplace, ← hother, h.place])

end Runner

namespace RunnerRun

variable {r : RunnerRun}

/-- The slot of a handle shows the thread of its operation. -/
structure Watched (r : RunnerRun) : Prop where
  running : r.runner.Running
  current : r.runner.Current
  shown : ∀ handle t, r.operation handle = some t → ∃ (index : Nat) (slot : RunnerSlot)
    (thread : RunnerThread), handle = (index : Int) + 1 ∧ r.runner.Shows index t slot thread

theorem Watched.start : RunnerRun.start.Watched where
  running := .start
  current := by simp [Runner.Current, RunnerRun.start, Runner.start]
  shown := nofun

theorem Watched.kept (h : r.Watched) {s : Runner} (hrunning : s.Running) (hcurrent : s.Current)
    (hshows : ∀ index t slot thread, r.runner.Shows index t slot thread →
      ∃ slot' thread', s.Shows index t slot' thread') :
    ({ r with runner := s } : RunnerRun).Watched := by
  refine ⟨hrunning, hcurrent, fun handle t hoperation => ?_⟩
  obtain ⟨index, slot, thread, hhandle, hshown⟩ := h.shown handle t hoperation
  obtain ⟨slot', thread', hshown'⟩ := hshows index t slot thread hshown
  exact ⟨index, slot', thread', hhandle, hshown'⟩

theorem Watched.opens (h : r.Watched) (env : OpenEnv) (args : JsonObject Rat)
    (hquiet : r.runner.MovesQuiet (.opens env args)) : (r.step (.opens env args)).1.Watched := by
  have hrunning := h.running.step (.opens env args)
  unfold step
  unfold Runner.step at hrunning ⊢
  dsimp only at hrunning ⊢
  by_cases hop : (args.getString (ascii "op")).bind RunnerOp.ofText = none
  · have hrefused : r.runner.runnerOpen env args = (r.runner, .none) := by
      unfold Runner.runnerOpen
      rw [hop]
    rw [hrefused]
    exact h
  replace hquiet := hquiet hop
  have hopens := Runner.runnerOpen_opens r.runner env args
  generalize r.runner.runnerOpen env args = out at hopens hrunning ⊢
  cases hopens with
  | refused => exact h
  | failed place block cap takes =>
    apply h.kept hrunning
    · have hcurrent : (⟨placeSlot r.runner.slots place .zero, block, cap,
          r.runner.threads ++ []⟩ : Runner).Current := h.current.take takes hquiet (by simp)
      rwa [List.append_nil] at hcurrent
    · intro index t slot thread hshown
      have hkept : Runner.Shows ⟨placeSlot r.runner.slots place .zero, block, cap,
          r.runner.threads ++ []⟩ index t slot thread := hshown.take takes
      rw [List.append_nil] at hkept
      exact ⟨slot, thread, hkept⟩
  | opened place block cap new takes ctx state thread =>
    refine ⟨hrunning, h.current.take takes hquiet (by simp), fun handle t hoperation => ?_⟩
    by_cases hsame : handle = ((place + 1 : Nat) : Int)
    · subst hsame
      have ht : t = r.runner.threads.length := by
        simpa [note] using hoperation.symm
      subst ht
      refine ⟨place, new, ⟨block, place, none⟩, by omega, ?_, by simp [note], rfl, by simp [state],
        fun _ => state, by simp⟩
      show (placeSlot r.runner.slots place new)[place]? = some new
      rw [getElem?_placeSlot takes.bound, if_pos rfl]
    · rw [(note_opened hsame).2] at hoperation
      obtain ⟨index, slot, old, hhandle, hshown⟩ := h.shown handle t hoperation
      exact ⟨index, slot, old, hhandle, hshown.take takes⟩

theorem Watched.stop (h : r.Watched) (args : JsonObject Rat) (result : Int) :
    (r.step (.stop args result)).1.Watched := by
  have hrunning := h.running.step (.stop args result)
  unfold step
  unfold Runner.step at hrunning ⊢
  dsimp only at hrunning ⊢
  have hstop := Runner.runnerStop_releases h.running.joined args result
  generalize r.runner.runnerStop args result = out at hstop hrunning ⊢
  cases hstop with
  | refused => exact h
  | halted place old slot' threads named found halted =>
    apply h.kept hrunning (halted.current h.current)
    intro index t slot thread hshown
    by_cases hne : place = index
    · subst hne
      rw [hshown.found, Option.some.injEq] at found
      subst found
      obtain ⟨thread', result', hthread', hplace, hresult, hshow⟩ :=
        halted.shows hshown h.running h.current
      refine ⟨Runner.releaseStopped slot', thread', Runner.set_slot_get hshown.found _, hthread', hplace,
        nofun, ?_, ?_⟩
      · rw [hresult]
        exact nofun
      · intro value hvalue
        rw [hresult, Option.some.injEq] at hvalue
        exact ⟨rfl, hshow.trans hvalue⟩
    · exact ⟨slot, thread, hshown.halted h.running found halted hne⟩

theorem Watched.close (h : r.Watched) (args : JsonObject Rat) (result : Int) :
    (r.step (.close args result)).1.Watched := by
  have hrunning := h.running.step (.close args result)
  unfold step
  unfold Runner.step at hrunning ⊢
  dsimp only at hrunning ⊢
  have hclose := Runner.runnerClose_releases h.running.joined args result
  generalize r.runner.runnerClose args result = out at hclose hrunning ⊢
  cases hclose with
  | refused => exact h
  | halted place old slot' threads named found halted =>
    refine ⟨hrunning, halted.current h.current, fun handle t hoperation => ?_⟩
    by_cases hsame : handle = (place : Int) + 1
    · subst hsame
      simp [note] at hoperation
    · rw [(note_closed hsame).2] at hoperation
      obtain ⟨index, slot, thread, rfl, hshown⟩ := h.shown handle t hoperation
      exact ⟨index, slot, thread, rfl, hshown.halted h.running found halted (by omega)⟩

theorem Watched.step (h : r.Watched) (event : RunnerEvent) (hquiet : r.runner.MovesQuiet event) :
    (r.step event).1.Watched := by
  cases event with
  | opens env args => exact h.opens env args hquiet
  | status args =>
    show (r.note r.runner (r.runner.runnerStatus args)).Watched
    unfold Runner.runnerStatus
    split
    · exact h
    · split
      · exact h
      · exact h
  | stop args result => exact h.stop args result
  | close args result => exact h.close args result
  | complete t result =>
    apply h.kept (h.running.complete t result) (h.current.complete t result)
    intro index t' slot thread hshown
    exact hshown.complete h.running h.current t result

/-- In every run in which the table moves only once all threads have completed, the status of a handle
that is open says that its operation is running until its thread has completed, and then says its result.
A stop of the handle makes it complete. -/
theorem runner_status_reports (events : List RunnerEvent)
    (hquiet : Transition.Along RunnerRun.step (fun r event => r.runner.MovesQuiet event) RunnerRun.start
      events) :
    let r := (Transition.run RunnerRun.step RunnerRun.start events).1
    ∀ args handle t, handleOf args = some handle → r.operation handle = some t →
      ∃ thread, r.runner.threads[t]? = some thread ∧
        (r.runner.runnerStatus args = .running ↔ thread.result = none) ∧
        (∀ result, r.runner.runnerStatus args = .finished result ↔ thread.result = some result) ∧
        ∀ result, ∃ thread', (r.runner.runnerStop args result).1.threads[t]? = some thread' ∧
          thread'.result ≠ none := by
  intro r args handle t hargs hoperation
  have h : r.Watched :=
    Transition.run_along Watched (fun _ event h hstep => h.step event hstep) Watched.start hquiet
  obtain ⟨index, slot, thread, rfl, hshown⟩ := h.shown handle t hoperation
  have hlt := (List.getElem?_eq_some_iff.mp hshown.found).1
  have htarget : r.runner.target args = some ((index : Int) + 1, index) := by
    have hget : r.runner.slotGet ((index : Int) + 1) = some index := by
      unfold Runner.slotGet
      rw [if_neg (by omega)]
      simp
    simp only [Runner.target, hargs, Option.bind_some, hget, Option.map_some]
  have hstatus : r.runner.runnerStatus args =
      if slot.state = .running then .running else .finished slot.result := by
    simp only [Runner.runnerStatus, htarget, Option.bind_some, hshown.found]
  refine ⟨thread, hshown.started, ?_, ?_, fun result => ?_⟩
  · rw [hstatus]
    cases hresult : thread.result with
    | none => simp [hshown.runs hresult]
    | some value => simp [(hshown.done value hresult).1]
  · intro result
    rw [hstatus]
    cases hresult : thread.result with
    | none => simp [hshown.runs hresult]
    | some value => simp [hshown.done value hresult]
  · obtain ⟨slot', threads, halted, hhalt⟩ :=
      Runner.halt_halted h.running.joined hshown.found result
    obtain ⟨thread', value, hthread', -, hvalue, -⟩ := halted.shows hshown h.running h.current
    refine ⟨thread', ?_, by simp [hvalue]⟩
    unfold Runner.runnerStop
    rw [htarget]
    simp only [hhalt]
    exact hthread'

/-- Two indexes are opened, and the second one completes. -/
def secondCompletes : List RunnerEvent :=
  [.opens sampleOpenEnv sampleOpenArgs, .opens sampleOpenEnv sampleOpenArgs, .complete 1 (-2)]

theorem runner_status_secondCompletes :
    Transition.Along RunnerRun.step (fun r event => r.runner.MovesQuiet event) RunnerRun.start
        secondCompletes ∧
      let r := (Transition.run RunnerRun.step RunnerRun.start secondCompletes).1
      handleOf (sampleHandleArgs 2) = some 2 ∧ r.operation 2 = some 1 ∧
      ∃ thread, r.runner.threads[1]? = some thread ∧
        (r.runner.runnerStatus (sampleHandleArgs 2) = .running ↔ thread.result = none) ∧
        (∀ result, r.runner.runnerStatus (sampleHandleArgs 2) = .finished result ↔
          thread.result = some result) ∧
        ∀ result, ∃ thread',
          (r.runner.runnerStop (sampleHandleArgs 2) result).1.threads[1]? = some thread' ∧
            thread'.result ≠ none := by
  have hquiet : Transition.Along RunnerRun.step (fun r event => r.runner.MovesQuiet event)
      RunnerRun.start secondCompletes := by
    refine ⟨fun _ _ _ => nofun, fun _ hgrows => ?_, trivial, trivial⟩
    have hroom : ((RunnerRun.start.step (.opens sampleOpenEnv sampleOpenArgs)).1.runner.grows) = false := by
      decide +kernel
    rw [hroom] at hgrows
    exact nomatch hgrows
  have hargs : handleOf (sampleHandleArgs 2) = some 2 := by decide +kernel
  have hoperation : (Transition.run RunnerRun.step RunnerRun.start secondCompletes).1.operation 2 =
      some 1 := by decide +kernel
  exact ⟨hquiet, hargs, hoperation,
    runner_status_reports secondCompletes hquiet (sampleHandleArgs 2) 2 1 hargs hoperation⟩

/-- Nine indexes are opened, the last of which moves the table, and the first one completes. -/
def movedThenCompletes : List RunnerEvent :=
  List.replicate 9 (.opens sampleOpenEnv sampleOpenArgs) ++ [.complete 0 (-2)]

/-- The status of the first handle says that its operation is running, though that has completed. -/
theorem runner_status_moved :
    let r := (Transition.run RunnerRun.step RunnerRun.start movedThenCompletes).1
    r.operation 1 = some 0 ∧ (r.runner.threads[0]?).map RunnerThread.result = some (some (-2)) ∧
      r.runner.runnerStatus (sampleHandleArgs 1) = .running := by
  decide +kernel

end RunnerRun

end Redp2p
