import Redp2p.RunnerSlots
import Mathlib.Logic.Function.Basic

/-! The slot table over runs of commands: a slot is free exactly when it owns no context, and the slot of
a closed handle is there for the next open. A stop of a slot that is free breaks both. -/

namespace Redp2p

open ByteString

/-- A run of the runner. For each handle it keeps the thread of the operation that the handle was last
opened for, until it is closed, and whether it is closed. -/
structure RunnerRun where
  runner : Runner
  operation : Int → Option Nat
  closed : Int → Bool

namespace RunnerRun

def start : RunnerRun := ⟨.start, fun _ => none, fun _ => false⟩

/-- What a reply says about its handle. -/
def note (r : RunnerRun) (runner : Runner) : RunnerReply → RunnerRun
  | .opened handle _ =>
    ⟨runner, Function.update r.operation handle (some r.runner.threads.length),
      Function.update r.closed handle false⟩
  | .closed handle => ⟨runner, Function.update r.operation handle none, Function.update r.closed handle true⟩
  | _ => { r with runner }

@[simp] theorem note_runner (r : RunnerRun) (runner : Runner) (reply : RunnerReply) :
    (r.note runner reply).runner = runner := by
  cases reply <;> rfl

theorem note_opened {r : RunnerRun} {runner : Runner} {handle : Nat} {replied : Bool} {other : Int}
    (h : other ≠ (handle : Int)) :
    (r.note runner (.opened handle replied)).closed other = r.closed other ∧
      (r.note runner (.opened handle replied)).operation other = r.operation other :=
  ⟨Function.update_of_ne h _ _, Function.update_of_ne h _ _⟩

theorem note_closed {r : RunnerRun} {runner : Runner} {handle other : Int} (h : other ≠ handle) :
    (r.note runner (.closed handle)).closed other = r.closed other ∧
      (r.note runner (.closed handle)).operation other = r.operation other :=
  ⟨Function.update_of_ne h _ _, Function.update_of_ne h _ _⟩

def step (r : RunnerRun) (event : RunnerEvent) : RunnerRun × List RunnerReply :=
  (r.note (r.runner.step event).1 (r.runner.step event).2, [(r.runner.step event).2])

end RunnerRun

namespace Runner

variable {s : Runner} {args : JsonObject Rat} {result : Int}

/-- A slot is free exactly when it owns no context. -/
def Owned (s : Runner) : Prop := ∀ slot ∈ s.slots, slot.state = .free ↔ slot.ctx = none

/-- A stop names no slot that is free. -/
def StopsTaken (s : Runner) : RunnerEvent → Prop
  | .stop args _ => ∀ (handle : Int) (index : Nat) (slot : RunnerSlot),
      s.target args = some (handle, index) → s.slots[index]? = some slot → slot.state ≠ .free
  | _ => True

theorem mem_placeSlot {slots : List RunnerSlot} {index : Nat} {slot old : RunnerSlot}
    (h : old ∈ placeSlot slots index slot) : old = slot ∨ old ∈ slots := by
  unfold placeSlot at h
  split at h
  · exact (List.mem_or_eq_of_mem_set h).symm
  · simpa [or_comm] using h

theorem Owned.set (h : s.Owned) {index : Nat} {new : RunnerSlot} {threads : List RunnerThread}
    (hnew : new.state = .free ↔ new.ctx = none) :
    ({ s with slots := s.slots.set index new, threads } : Runner).Owned := by
  intro slot hslot
  rcases List.mem_or_eq_of_mem_set hslot with hold | rfl
  · exact h slot hold
  · exact hnew

theorem Owned.place (h : s.Owned) {index block cap : Nat} {new : RunnerSlot}
    {threads : List RunnerThread} (hnew : new.state = .free ↔ new.ctx = none) :
    (⟨placeSlot s.slots index new, block, cap, threads⟩ : Runner).Owned := by
  intro slot hslot
  rcases mem_placeSlot hslot with rfl | hold
  · exact hnew
  · exact h slot hold

/-- A slot that is joined keeps a context, if it has one. -/
theorem Halted.owns {slot slot' : RunnerSlot} {threads : List RunnerThread}
    (h : Halted s slot result slot' threads) : slot'.ctx = none ↔ slot.ctx = none := by
  cases h with
  | idle ctx owns => exact owns
  | lost ctx owns => exact owns
  | stored ctx owns => exact owns

theorem Owned.step (h : s.Owned) (hrunning : s.Running) (event : RunnerEvent)
    (htaken : s.StopsTaken event) : (s.step event).1.Owned := by
  cases event with
  | opens env args =>
    show (s.runnerOpen env args).1.Owned
    have hopens := runnerOpen_opens s env args
    generalize s.runnerOpen env args = out at hopens
    cases hopens with
    | refused => exact h
    | failed index block cap takes => exact h.place (by simp [RunnerSlot.zero])
    | opened index block cap slot takes ctx state thread => exact h.place (by simp [state, ctx])
  | status args => exact h
  | stop args result =>
    show (s.runnerStop args result).1.Owned
    have hstop := runnerStop_releases hrunning.joined args result
    generalize s.runnerStop args result = out at hstop
    cases hstop with
    | refused => exact h
    | halted index slot slot' threads named found halted =>
      have hctx : slot.ctx ≠ none := by
        rw [ne_eq, ← h slot (List.mem_of_getElem? found)]
        exact htaken _ index slot named found
      apply h.set
      show SlotState.finished = SlotState.free ↔ slot'.ctx = none
      rw [halted.owns]
      simp [hctx]
  | close args result =>
    show (s.runnerClose args result).1.Owned
    have hclose := runnerClose_releases hrunning.joined args result
    generalize s.runnerClose args result = out at hclose
    cases hclose with
    | refused => exact h
    | halted index slot slot' threads named found halted => exact h.set (by simp [releaseClosed])
  | complete t result =>
    show (s.complete t result).Owned
    have hcomplete := complete_completes s t result
    generalize s.complete t result = s' at hcomplete
    cases hcomplete with
    | same => exact h
    | lost thread started runs moved => exact h
    | stored thread started runs kept =>
      obtain ⟨slot, hslot, -, hstate⟩ := hrunning.live t thread started runs kept
      rw [modify_slot _ hslot]
      have hctx := h slot (List.mem_of_getElem? hslot)
      rw [hstate] at hctx
      exact h.set (by simpa using hctx)

/-- While a slot is free an open takes one, and the table neither grows nor moves. -/
theorem open_reuses {slot : RunnerSlot} {index : Nat} (hslot : s.slots[index]? = some slot)
    (hfree : slot.state = .free) (env : OpenEnv) (args : JsonObject Rat) :
    (s.runnerOpen env args).1.slots.length = s.slots.length ∧
      (s.runnerOpen env args).1.block = s.block := by
  have hmem := List.mem_of_getElem? hslot
  have hgrows : s.grows = false := by
    have hall : (s.slots.all fun slot => slot.state != .free) = false := by
      rw [List.all_eq_false]
      exact ⟨slot, hmem, by simp [hfree]⟩
    rw [grows, hall, Bool.false_and]
  have htaken : ∀ {index block : Nat} {new : RunnerSlot}, Takes s env.growth index block →
      (placeSlot s.slots index new).length = s.slots.length ∧ block = s.block := by
    intro index block new htakes
    have hlt : index < s.slots.length := by
      refine Nat.lt_of_le_of_ne htakes.bound fun hlast => ?_
      exact htakes.full hlast slot hmem hfree
    refine ⟨placeSlot_length hlt new, ?_⟩
    rcases htakes.block with hblock | ⟨hgrow, -⟩
    · exact hblock
    · rw [hgrows] at hgrow
      exact nomatch hgrow
  have hopens := runnerOpen_opens s env args
  generalize s.runnerOpen env args = out at hopens
  cases hopens with
  | refused => exact ⟨rfl, rfl⟩
  | failed index block cap takes => exact htaken takes
  | opened index block cap slot takes => exact htaken takes

end Runner

namespace RunnerRun

variable {r : RunnerRun}

/-- The slot of a closed handle is free. -/
def Vacant (r : RunnerRun) : Prop :=
  ∀ handle : Int, r.closed handle = true → ∃ (index : Nat) (slot : RunnerSlot),
    handle = (index : Int) + 1 ∧ r.runner.slots[index]? = some slot ∧ slot.state = .free

theorem Vacant.kept (h : r.Vacant) {s : Runner}
    (hslots : ∀ (index : Nat) (slot : RunnerSlot), r.runner.slots[index]? = some slot →
      slot.state = .free → ∃ slot', s.slots[index]? = some slot' ∧ slot'.state = .free) :
    ({ r with runner := s } : RunnerRun).Vacant := by
  intro handle hclosed
  obtain ⟨index, slot, rfl, hslot, hfree⟩ := h handle hclosed
  obtain ⟨slot', hslot', hfree'⟩ := hslots index slot hslot hfree
  exact ⟨index, slot', rfl, hslot', hfree'⟩

theorem Vacant.step (h : r.Vacant) (hrunning : r.runner.Running) (event : RunnerEvent)
    (htaken : r.runner.StopsTaken event) : (r.step event).1.Vacant := by
  cases event with
  | opens env args =>
    show (r.note (r.runner.runnerOpen env args).1 (r.runner.runnerOpen env args).2).Vacant
    have hopens := Runner.runnerOpen_opens r.runner env args
    generalize r.runner.runnerOpen env args = out at hopens
    cases hopens with
    | refused => exact h
    | failed place block cap takes =>
      apply h.kept
      intro index slot hslot hfree
      dsimp only
      rw [getElem?_placeSlot takes.bound]
      by_cases heq : index = place
      · rw [if_pos heq]
        exact ⟨_, rfl, rfl⟩
      · rw [if_neg heq]
        exact ⟨slot, hslot, hfree⟩
    | opened place block cap new takes =>
      intro handle hclosed
      have hne : handle ≠ ((place + 1 : Nat) : Int) := by
        rintro rfl
        simp [note] at hclosed
      have hclosed' : r.closed handle = true := by
        rwa [(note_opened hne).1] at hclosed
      obtain ⟨index, slot, rfl, hslot, hfree⟩ := h handle hclosed'
      refine ⟨index, slot, rfl, ?_, hfree⟩
      show (placeSlot r.runner.slots place new)[index]? = some slot
      rw [getElem?_placeSlot takes.bound, if_neg (by omega), hslot]
  | status args =>
    show (r.note r.runner (r.runner.runnerStatus args)).Vacant
    unfold Runner.runnerStatus
    split
    · exact h
    · split
      · exact h
      · exact h
  | stop args result =>
    show (r.note (r.runner.runnerStop args result).1 (r.runner.runnerStop args result).2).Vacant
    have hstop := Runner.runnerStop_releases hrunning.joined args result
    generalize r.runner.runnerStop args result = out at hstop
    cases hstop with
    | refused => exact h
    | halted place old slot' threads named found halted =>
      apply h.kept
      intro index slot hslot hfree
      have hne : place ≠ index := by
        rintro rfl
        exact htaken _ place slot named hslot hfree
      dsimp only
      exact ⟨slot, (List.getElem?_set_ne hne).trans hslot, hfree⟩
  | close args result =>
    show (r.note (r.runner.runnerClose args result).1 (r.runner.runnerClose args result).2).Vacant
    have hclose := Runner.runnerClose_releases hrunning.joined args result
    generalize r.runner.runnerClose args result = out at hclose
    cases hclose with
    | refused => exact h
    | halted place old slot' threads named found halted =>
      intro handle hclosed
      show ∃ (index : Nat) (slot : RunnerSlot), handle = (index : Int) + 1 ∧
        (r.runner.slots.set place (Runner.releaseClosed slot'))[index]? = some slot ∧ slot.state = .free
      by_cases hsame : handle = (place : Int) + 1
      · exact ⟨place, _, hsame, Runner.set_slot_get found _, rfl⟩
      · have hclosed' : r.closed handle = true := by
          rwa [(note_closed hsame).1] at hclosed
        obtain ⟨index, slot, rfl, hslot, hfree⟩ := h handle hclosed'
        exact ⟨index, slot, rfl, (List.getElem?_set_ne (by omega)).trans hslot, hfree⟩
  | complete t result =>
    show ({ r with runner := r.runner.complete t result } : RunnerRun).Vacant
    have hcomplete := Runner.complete_completes r.runner t result
    generalize r.runner.complete t result = s' at hcomplete
    cases hcomplete with
    | same => exact h
    | lost thread started runs moved => exact h.kept fun index slot hslot hfree => ⟨slot, hslot, hfree⟩
    | stored thread started runs kept =>
      obtain ⟨live, hlive, -, hstate⟩ := hrunning.live t thread started runs kept
      apply h.kept
      intro index slot hslot hfree
      have hne : thread.index ≠ index := by
        rintro rfl
        rw [hlive, Option.some.injEq] at hslot
        rw [← hslot, hstate] at hfree
        exact nomatch hfree
      refine ⟨slot, ?_, hfree⟩
      rw [Runner.modify_slot _ hlive, List.getElem?_set_ne hne, hslot]

/-- In every run in which a stop names no slot that is free, a slot is free exactly when it owns no
context, the slot of every closed handle is free, and while there is one an open neither adds a slot nor
moves the table. -/
theorem slot_table_invariant (events : List RunnerEvent)
    (htaken : Transition.Along step (fun r event => r.runner.StopsTaken event) start events) :
    let r := (Transition.run step start events).1
    (∀ slot ∈ r.runner.slots, slot.state = .free ↔ slot.ctx = none) ∧
      ∀ handle, r.closed handle = true →
        (∃ (index : Nat) (slot : RunnerSlot), handle = (index : Int) + 1 ∧
          r.runner.slots[index]? = some slot ∧ slot.state = .free) ∧
        ∀ env args, (r.runner.runnerOpen env args).1.slots.length = r.runner.slots.length ∧
          (r.runner.runnerOpen env args).1.block = r.runner.block := by
  intro r
  have hrun : r.runner.Running ∧ r.runner.Owned ∧ r.Vacant := by
    refine Transition.run_along (fun r : RunnerRun => r.runner.Running ∧ r.runner.Owned ∧ r.Vacant) ?_ ?_
      htaken
    · rintro r event ⟨hrunning, howned, hvacant⟩ hstop
      refine ⟨?_, ?_, hvacant.step hrunning event hstop⟩
      · simpa [step] using hrunning.step event
      · simpa [step] using howned.step hrunning event hstop
    · exact ⟨.start, by simp [Runner.Owned, start, Runner.start], by simp [Vacant, start]⟩
  obtain ⟨-, howned, hvacant⟩ := hrun
  refine ⟨howned, fun handle hclosed => ?_⟩
  obtain ⟨index, slot, hhandle, hslot, hfree⟩ := hvacant handle hclosed
  exact ⟨⟨index, slot, hhandle, hslot, hfree⟩, Runner.open_reuses hslot hfree⟩

end RunnerRun

/-! An index that is opened and closed. -/

def sampleOpenEnv : OpenEnv := ⟨.moved, true, 120, ⟨true, fun _ => true⟩, true, true⟩

def sampleOpenArgs : JsonObject Rat := [(ascii "op", .str (ascii "idx")), (ascii "port", .num 9000)]

def sampleHandleArgs (handle : Nat) : JsonObject Rat := [(ascii "handle", .num handle)]

/-- An index that is opened and closed. -/
def openedClosed : List RunnerEvent := [.opens sampleOpenEnv sampleOpenArgs, .close (sampleHandleArgs 1) 0]

theorem RunnerRun.slot_table_openedClosed :
    Transition.Along step (fun r event => r.runner.StopsTaken event) start openedClosed ∧
    let r := (Transition.run step start openedClosed).1
    (∀ slot ∈ r.runner.slots, slot.state = .free ↔ slot.ctx = none) ∧
      ∀ handle, r.closed handle = true →
        (∃ (index : Nat) (slot : RunnerSlot), handle = (index : Int) + 1 ∧
          r.runner.slots[index]? = some slot ∧ slot.state = .free) ∧
        ∀ env args, (r.runner.runnerOpen env args).1.slots.length = r.runner.slots.length ∧
          (r.runner.runnerOpen env args).1.block = r.runner.block := by
  have htaken : Transition.Along step (fun r event => r.runner.StopsTaken event) start openedClosed :=
    ⟨trivial, trivial, trivial⟩
  exact ⟨htaken, slot_table_invariant openedClosed htaken⟩

/-- A stop of a closed handle leaves its slot finished and without a context, and the next open takes a
second slot. -/
theorem RunnerRun.stop_of_closed :
    let r := (Transition.run step start (openedClosed ++ [.stop (sampleHandleArgs 1) 0])).1
    r.closed 1 = true ∧
      (r.runner.slots.map fun slot => (slot.state, slot.ctx.isSome)) = [(.finished, false)] ∧
      (r.runner.runnerOpen sampleOpenEnv sampleOpenArgs).2 = .opened 2 true ∧
      (r.runner.runnerOpen sampleOpenEnv sampleOpenArgs).1.slots.length = 2 := by
  decide +kernel

end Redp2p
