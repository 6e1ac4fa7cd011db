import Redp2p.Peers
import Redp2p.Lib.Transition
import Mathlib.Algebra.Order.Group.Multiset

/-! The pending punch calls of the index: a bounded store that calls enter on `punch_req`, and leave
when their publisher polls or when they expire. -/

namespace Redp2p

open ByteString

def PendingCall.expired (now : UInt64) (call : PendingCall) : Bool := now - call.ts > pendingCallTtlS

namespace Context

/-- `redp2p_pending_call_add`. The result says whether the store had room. -/
def pendingCallAdd (ctx : Context) (now : UInt64) (callerId targetId sessId : Bytes)
    (candidates : List Candidate) : Context × Bool :=
  if ctx.pendingCalls.length ≥ maxPendingCalls then (ctx, false)
  else
    ({ ctx with
      pendingCalls := ctx.pendingCalls ++ [{
        callerId := boundedCopy (idMax + 1) callerId
        targetId := boundedCopy (idMax + 1) targetId
        sessId := boundedCopy (ctrlSessionMax + 1) sessId
        candidates := candidates
        ts := now }] }, true)

/-- `redp2p_pending_call_evict_stale`, with the calls it drops. -/
def pendingCallEvictStale (ctx : Context) (now : UInt64) : List PendingCall × Context :=
  let calls := ArrayLoop.swapOut (PendingCall.expired now) ctx.pendingCalls.length 0 ctx.pendingCalls
  (calls.1, { ctx with pendingCalls := calls.2 })

/-- `redp2p_pending_call_take_all`: the calls for a publisher, which leave the store. -/
def pendingCallTakeAll (ctx : Context) (targetId : Bytes) : List PendingCall × Context :=
  let calls := ArrayLoop.swapOut (fun call => call.targetId == targetId) ctx.pendingCalls.length 0
    ctx.pendingCalls
  (calls.1, { ctx with pendingCalls := calls.2 })

theorem pendingCallEvictStale_perm (ctx : Context) (now : UInt64) :
    ((ctx.pendingCallEvictStale now).1 ++ (ctx.pendingCallEvictStale now).2.pendingCalls).Perm
      ctx.pendingCalls :=
  ArrayLoop.swapOut_perm _ _ _ _

theorem pendingCallTakeAll_perm (ctx : Context) (targetId : Bytes) :
    ((ctx.pendingCallTakeAll targetId).1 ++ (ctx.pendingCallTakeAll targetId).2.pendingCalls).Perm
      ctx.pendingCalls :=
  ArrayLoop.swapOut_perm _ _ _ _

theorem pendingCallEvictStale_expired (ctx : Context) (now : UInt64) :
    ∀ call ∈ (ctx.pendingCallEvictStale now).1, PendingCall.expired now call = true :=
  ArrayLoop.swapOut_removed _ _ _ _

theorem pendingCallTakeAll_target (ctx : Context) (targetId : Bytes) :
    ∀ call ∈ (ctx.pendingCallTakeAll targetId).1, call.targetId = targetId := by
  intro call hcall
  simpa using ArrayLoop.swapOut_removed _ _ _ _ call hcall

theorem pendingCallTakeAll_rest (ctx : Context) (targetId : Bytes) :
    ∀ call ∈ (ctx.pendingCallTakeAll targetId).2.pendingCalls, call.targetId ≠ targetId := by
  intro call hcall
  have hkept := ArrayLoop.swapOut_kept (fun call : PendingCall => call.targetId == targetId)
    (show ctx.pendingCalls.length ≤ 0 + ctx.pendingCalls.length by omega) (by simp) call hcall
  simpa using hkept

end Context

/-! ### Runs of the store -/

/-- The arguments of a call that is to be added. A caller passes texts from its own 64-byte buffers
and as many candidates as its array holds. -/
structure PunchRequest where
  callerId : Bytes
  targetId : Bytes
  sessId : Bytes
  candidates : List Candidate
  callerId_fits : callerId.length ≤ idMax
  targetId_fits : targetId.length ≤ idMax
  sessId_fits : sessId.length ≤ ctrlSessionMax
  candidates_fit : candidates.length ≤ peerCandidatesMax

/-- The call that a request at time `now` introduces. -/
def PunchRequest.call (request : PunchRequest) (now : UInt64) : PendingCall where
  callerId := request.callerId
  targetId := request.targetId
  sessId := request.sessId
  candidates := request.candidates
  ts := now

inductive PendingEvent where
  | add (now : UInt64) (request : PunchRequest)
  | evictStale (now : UInt64)
  | takeAll (targetId : Bytes)

inductive PendingOutput where
  | added (now : UInt64) (request : PunchRequest)
  | refused
  | evicted (now : UInt64) (call : PendingCall)
  | returned (targetId : Bytes) (call : PendingCall)

namespace PendingEvent

def clock : PendingEvent → Option UInt64
  | .add now _ => some now
  | .evictStale now => some now
  | .takeAll _ => none

def step (ctx : Context) : PendingEvent → Context × List PendingOutput
  | .add now request =>
    match ctx.pendingCallAdd now request.callerId request.targetId request.sessId
        request.candidates with
    | (ctx, true) => (ctx, [.added now request])
    | (ctx, false) => (ctx, [.refused])
  | .evictStale now =>
    ((ctx.pendingCallEvictStale now).2, (ctx.pendingCallEvictStale now).1.map (.evicted now))
  | .takeAll targetId =>
    ((ctx.pendingCallTakeAll targetId).2,
      (ctx.pendingCallTakeAll targetId).1.map (.returned targetId))

end PendingEvent

namespace PendingOutput

/-- The call that an addition put into the store. -/
def addedCall : PendingOutput → Multiset PendingCall
  | .added now request => {request.call now}
  | _ => 0

def returnedCall : PendingOutput → Multiset PendingCall
  | .returned _ call => {call}
  | _ => 0

def evictedCall : PendingOutput → Multiset PendingCall
  | .evicted _ call => {call}
  | _ => 0

/-- What an output promises about its call: it is returned to its own publisher, and it is evicted
only when it is more than thirty seconds old. -/
def Sound : PendingOutput → Prop
  | .returned targetId call => call.targetId = targetId
  | .evicted now call => call.ts.toNat + 30 < now.toNat
  | _ => True

/-- What an output takes out of the store. -/
def removedCall (o : PendingOutput) : Multiset PendingCall := o.returnedCall + o.evictedCall

end PendingOutput

/-- An addition of arguments that fit stores them unchanged. -/
theorem Context.pendingCallAdd_request (ctx : Context) (now : UInt64) (request : PunchRequest) :
    ctx.pendingCallAdd now request.callerId request.targetId request.sessId request.candidates =
      if ctx.pendingCalls.length ≥ maxPendingCalls then (ctx, false)
      else ({ ctx with pendingCalls := ctx.pendingCalls ++ [request.call now] }, true) := by
  have hcaller := request.callerId_fits
  have htarget := request.targetId_fits
  have hsess := request.sessId_fits
  unfold Context.pendingCallAdd PunchRequest.call
  rw [boundedCopy_eq_self (by omega), boundedCopy_eq_self (by omega),
    boundedCopy_eq_self (by omega)]

theorem PendingOutput.sum_removedCall (outs : List PendingOutput) :
    (outs.map removedCall).sum = (outs.map returnedCall).sum + (outs.map evictedCall).sum :=
  List.sum_map_add

theorem sum_map_singleton (calls : List PendingCall) :
    (calls.map fun call => ({call} : Multiset PendingCall)).sum = calls := by
  induction calls with
  | nil => rfl
  | cons call calls ih => simp [ih]

theorem sum_map_none (calls : List PendingCall) :
    (calls.map fun _ => (0 : Multiset PendingCall)).sum = 0 := by
  simp

namespace PendingEvent

/-- Every call that a step adds is in the store after it, and every call that it removes was. -/
theorem step_balance (ctx : Context) (event : PendingEvent) :
    ((step ctx event).2.map PendingOutput.addedCall).sum + (ctx.pendingCalls : Multiset _) =
      ((step ctx event).1.pendingCalls : Multiset _) +
        ((step ctx event).2.map PendingOutput.removedCall).sum := by
  cases event with
  | add now request =>
    rw [step, ctx.pendingCallAdd_request]
    by_cases hfull : ctx.pendingCalls.length ≥ maxPendingCalls
    · simp [hfull, PendingOutput.addedCall, PendingOutput.removedCall,
        PendingOutput.returnedCall, PendingOutput.evictedCall]
    · simp [hfull, PendingOutput.addedCall, PendingOutput.removedCall,
        PendingOutput.returnedCall, PendingOutput.evictedCall, ← Multiset.coe_add, add_comm]
  | evictStale now =>
    have hperm := Multiset.coe_eq_coe.mpr (ctx.pendingCallEvictStale_perm now)
    simp only [step, List.map_map, Function.comp_def, PendingOutput.addedCall,
      PendingOutput.removedCall, PendingOutput.returnedCall, PendingOutput.evictedCall, zero_add, sum_map_singleton, sum_map_none]
    rw [← hperm, ← Multiset.coe_add, add_comm]
  | takeAll targetId =>
    have hperm := Multiset.coe_eq_coe.mpr (ctx.pendingCallTakeAll_perm targetId)
    simp only [step, List.map_map, Function.comp_def, PendingOutput.addedCall,
      PendingOutput.removedCall, PendingOutput.returnedCall, PendingOutput.evictedCall, add_zero, sum_map_singleton, sum_map_none]
    rw [zero_add, ← hperm, ← Multiset.coe_add, add_comm]

/-- The store never holds more than its array. -/
theorem step_bound {ctx : Context} (h : ctx.pendingCalls.length ≤ maxPendingCalls)
    (event : PendingEvent) : (step ctx event).1.pendingCalls.length ≤ maxPendingCalls := by
  cases event with
  | add now request =>
    rw [step, ctx.pendingCallAdd_request]
    by_cases hfull : ctx.pendingCalls.length ≥ maxPendingCalls
    · simpa [hfull] using h
    · simp [hfull]
      omega
  | evictStale now =>
    have hperm := (ctx.pendingCallEvictStale_perm now).length_eq
    simp only [step, List.length_append] at hperm ⊢
    omega
  | takeAll targetId =>
    have hperm := (ctx.pendingCallTakeAll_perm targetId).length_eq
    simp only [step, List.length_append] at hperm ⊢
    omega

/-- No call was added after the last reading of the clock. -/
def Dated (now : UInt64) (ctx : Context) : Prop := ∀ call ∈ ctx.pendingCalls, call.ts ≤ now

theorem expired_age {now : UInt64} {call : PendingCall} (hts : call.ts ≤ now)
    (h : call.expired now = true) : call.ts.toNat + 30 < now.toNat := by
  simp only [PendingCall.expired, pendingCallTtlS, decide_eq_true_eq, gt_iff_lt,
    UInt64.lt_iff_toNat_lt, UInt64.toNat_sub_of_le _ _ hts] at h
  have h30 : (30 : UInt64).toNat = 30 := rfl
  omega

theorem step_dated (now : UInt64) (ctx : Context) (event : PendingEvent) (h : Dated now ctx)
    (hnow : now ≤ event.clock.getD now) :
    Dated (event.clock.getD now) (step ctx event).1 ∧ ∀ o ∈ (step ctx event).2, o.Sound := by
  have hlater : Dated (event.clock.getD now) ctx := fun call hcall =>
    Nat.le_trans (h call hcall) hnow
  cases event with
  | add at_ request =>
    rw [step, ctx.pendingCallAdd_request]
    by_cases hfull : ctx.pendingCalls.length ≥ maxPendingCalls
    · simpa [hfull, PendingOutput.Sound] using hlater
    · rw [if_neg hfull]
      refine ⟨fun call hcall => ?_, by simp [PendingOutput.Sound]⟩
      rcases List.mem_append.mp hcall with hcall | hcall
      · exact hlater call hcall
      · obtain rfl := List.mem_singleton.mp hcall
        exact Nat.le_refl _
  | evictStale at_ =>
    have hperm := ctx.pendingCallEvictStale_perm at_
    refine ⟨fun call hcall => hlater call (hperm.mem_iff.mp (List.mem_append_right _ hcall)), ?_⟩
    intro o ho
    obtain ⟨call, hcall, rfl⟩ := List.mem_map.mp ho
    exact expired_age (hlater call (hperm.mem_iff.mp (List.mem_append_left _ hcall)))
      (ctx.pendingCallEvictStale_expired at_ call hcall)
  | takeAll targetId =>
    have hperm := ctx.pendingCallTakeAll_perm targetId
    refine ⟨fun call hcall => hlater call (hperm.mem_iff.mp (List.mem_append_right _ hcall)), ?_⟩
    intro o ho
    obtain ⟨call, hcall, rfl⟩ := List.mem_map.mp ho
    exact ctx.pendingCallTakeAll_target targetId call hcall

end PendingEvent

/-- Conservation of pending calls. In every run of the store under a clock that never goes back, at
most 32 calls wait; the calls that were added are those that wait, those that were returned and those
that were evicted; each was returned to its own publisher, or evicted when it was more than thirty
seconds old; and a poll leaves none for its publisher. -/
theorem pending_calls_conserved (etimeoutSec : UInt64) (events : List PendingEvent)
    (hclock : (events.filterMap PendingEvent.clock).Pairwise (· ≤ ·)) :
    let after := Transition.run PendingEvent.step (Context.opened etimeoutSec) events
    after.1.pendingCalls.length ≤ 32 ∧
      (after.2.map PendingOutput.addedCall).sum =
        (after.1.pendingCalls : Multiset PendingCall) +
          (after.2.map PendingOutput.returnedCall).sum +
          (after.2.map PendingOutput.evictedCall).sum ∧
      (∀ o ∈ after.2, o.Sound) ∧
      ∀ id, ∀ call ∈ (after.1.pendingCallTakeAll id).2.pendingCalls, call.targetId ≠ id := by
  intro after
  have hbound : after.1.pendingCalls.length ≤ maxPendingCalls :=
    Transition.run_invariant (fun ctx : Context => ctx.pendingCalls.length ≤ maxPendingCalls)
      (fun ctx event h => PendingEvent.step_bound h event) (Nat.zero_le _) events
  have hbalance := Transition.run_balance
    (fun ctx : Context => (ctx.pendingCalls : Multiset PendingCall))
    PendingEvent.step_balance (Context.opened etimeoutSec) events
  rw [PendingOutput.sum_removedCall] at hbalance
  have htimed : Transition.Timed PendingEvent.clock 0 events :=
    Transition.timed_of_pairwise (fun c _ => UInt64.zero_le) hclock
  have hdated : PendingEvent.Dated 0 (Context.opened etimeoutSec) := fun _ h => by cases h
  have hsound := (Transition.run_timed PendingEvent.step_dated hdated htimed).2
  refine ⟨hbound, ?_, hsound, fun id => after.1.pendingCallTakeAll_rest id⟩
  have hempty : ((Context.opened etimeoutSec).pendingCalls : Multiset PendingCall) = 0 := rfl
  rw [hempty, add_zero, ← add_assoc] at hbalance
  exact hbalance

def sampleRequest : PunchRequest where
  callerId := ascii "con"
  targetId := ascii "pub"
  sessId := ascii "5f3e"
  candidates := []
  callerId_fits := by decide
  targetId_fits := by decide
  sessId_fits := by decide
  candidates_fit := by decide

/-- One call expires, and a later one is returned. -/
def sampleEvents : List PendingEvent :=
  [.add 100 sampleRequest, .evictStale 131, .add 131 sampleRequest, .takeAll (ascii "pub")]

theorem pending_calls_conserved_sample :
    let after := Transition.run PendingEvent.step (Context.opened 120) sampleEvents
    after.1.pendingCalls.length ≤ 32 ∧
      (after.2.map PendingOutput.addedCall).sum =
        (after.1.pendingCalls : Multiset PendingCall) +
          (after.2.map PendingOutput.returnedCall).sum +
          (after.2.map PendingOutput.evictedCall).sum ∧
      (∀ o ∈ after.2, o.Sound) ∧
      ∀ id, ∀ call ∈ (after.1.pendingCallTakeAll id).2.pendingCalls, call.targetId ≠ id :=
  pending_calls_conserved 120 sampleEvents (by decide)

end Redp2p
