import Redp2p.Effects
import Redp2p.Lib.Transition

/-! Runs of the index: it is configured, and then serves requests and prunes its table in any
order. The seats and the VIP reservations hold in every state of every run. -/

namespace Redp2p

open ByteString

/-- One turn of the index event loop: a request with what its handler reads from outside, or the
periodic prune. -/
inductive IndexEvent where
  | request (env : Env) (body : Option (Json Rat))
  | prune (now : UInt64)

namespace IndexEvent

def clock : IndexEvent → UInt64
  | .request env _ => env.now
  | .prune now => now

/-- The context after an event, and the reply to a request. -/
def step (ctx : Context) : IndexEvent → Context × List Reply
  | .request env body => ((ctx.dispatch env body).1, [(ctx.dispatch env body).2])
  | .prune now => (ctx.evictStale now, [])

end IndexEvent

namespace Context

/-- The context after the setters `setups` and the events `events`. -/
def served (etimeoutSec : UInt64) (setups : List Setup) (events : List IndexEvent) : Context :=
  (Transition.run IndexEvent.step (configured etimeoutSec setups) events).1

/-! ### What the setters leave -/

/-- A context before it serves: no record, and as many seats left to other publishers as there are
seats without a reservation. -/
structure Ready (ctx : Context) : Prop where
  peers : ctx.peers = []
  calls : ctx.pendingCalls = []
  vips_unique : Keyed.Unique VipEntry.id ctx.vips
  nonvipCap : ctx.nonvipCap = ctx.nPeersCap - ctx.vips.length

theorem updateNonvipCap_eq (ctx : Context) :
    ctx.updateNonvipCap = { ctx with nonvipCap := ctx.nPeersCap - ctx.vips.length } := by
  unfold updateNonvipCap
  split
  · rw [Nat.sub_eq_zero_of_le (by omega)]
  · rfl

theorem addVip_ready {ctx ctx' : Context} {mem : VipMemory} {id pass : Bytes}
    (hpeers : ctx.peers = []) (hcalls : ctx.pendingCalls = [])
    (hvips : Keyed.Unique VipEntry.id ctx.vips) (h : ctx.addVip mem id pass = .ok ctx') :
    ctx'.peers = [] ∧ ctx'.pendingCalls = [] ∧ Keyed.Unique VipEntry.id ctx'.vips := by
  unfold addVip at h
  split at h
  · simp at h
  rename_i hvalid
  split at h
  · simp at h
  split at h
  · simp at h
  rename_i hfree
  split at h
  · simp at h
  obtain rfl := Except.ok.inj h
  have hid : id.take idMax = id :=
    List.take_of_length_le (isValidId_iff.mp (by simpa using hvalid)).2.1
  refine ⟨hpeers, hcalls, Keyed.unique_concat hvips ?_⟩
  dsimp only
  rw [hid]
  exact Keyed.indexOf_eq_none_iff.mp (by simpa [findVip] using hfree)

/-- What every reservation that is added keeps, the whole map keeps. -/
theorem readVips_keeps {P : Context → Prop} {mem : VipMemory}
    (hadd : ∀ {ctx ctx' : Context} {id pass : Bytes}, P ctx → ctx.addVip mem id pass = .ok ctx' → P ctx')
    (turns : Nat) {ctx ctx' : Context} {cursor : Bytes} (hctx : P ctx)
    (h : readVips mem turns ctx cursor = .ok ctx') : P ctx' := by
  induction turns generalizing ctx cursor with
  | zero =>
    cases cursor <;> (obtain rfl := Except.ok.inj h; exact hctx)
  | succ turns ih =>
    cases cursor with
    | nil =>
      obtain rfl := Except.ok.inj h
      exact hctx
    | cons b rest =>
      rw [readVips] at h
      · dsimp only at h
        split at h
        · exact nomatch h
        split at h
        · exact nomatch h
        next next hnext => exact ih (hadd hctx hnext) h
      · simp

theorem readVips_ready {mem : VipMemory} (turns : Nat) {ctx ctx' : Context} {cursor : Bytes}
    (hpeers : ctx.peers = []) (hcalls : ctx.pendingCalls = [])
    (hvips : Keyed.Unique VipEntry.id ctx.vips) (h : readVips mem turns ctx cursor = .ok ctx') :
    ctx'.peers = [] ∧ ctx'.pendingCalls = [] ∧ Keyed.Unique VipEntry.id ctx'.vips :=
  readVips_keeps
    (P := fun ctx => ctx.peers = [] ∧ ctx.pendingCalls = [] ∧ Keyed.Unique VipEntry.id ctx.vips)
    (fun hctx hadd => addVip_ready hctx.1 hctx.2.1 hctx.2.2 hadd) turns ⟨hpeers, hcalls, hvips⟩ h

/-- The seats and the difficulty of a context. -/
def limits (ctx : Context) : Bool × Nat × Int := (ctx.seatsSet, ctx.nPeersCap, ctx.powBits)

theorem updateNonvipCap_limits (ctx : Context) : ctx.updateNonvipCap.limits = ctx.limits := by
  rw [updateNonvipCap_eq]
  rfl

theorem addVip_limits {ctx ctx' : Context} {mem : VipMemory} {id pass : Bytes}
    (h : ctx.addVip mem id pass = .ok ctx') : ctx'.limits = ctx.limits := by
  unfold addVip at h
  repeat' split at h
  all_goals cases h
  rfl

theorem setVip_limits (ctx : Context) (mem : VipMemory) (vip : Bytes) :
    (ctx.setVip mem vip).1.limits = ctx.limits := by
  have hclear : ∀ ctx : Context, ctx.clearVips.limits = ctx.limits := fun ctx => updateNonvipCap_limits _
  unfold setVip
  dsimp only
  split
  · exact hclear ctx
  split
  · exact hclear ctx
  split
  · exact (hclear _).trans (hclear ctx)
  · next ctx' hread =>
    have hlimits : ctx'.limits = ctx.clearVips.limits :=
      readVips_keeps (P := fun c => c.limits = ctx.clearVips.limits)
        (fun hctx hadd => (addVip_limits hadd).trans hctx) _ rfl hread
    exact (updateNonvipCap_limits ctx').trans (hlimits.trans (hclear ctx))

theorem clearVips_ready {ctx : Context} (hpeers : ctx.peers = []) (hcalls : ctx.pendingCalls = []) :
    ctx.clearVips.Ready := by
  rw [clearVips, updateNonvipCap_eq]
  exact ⟨hpeers, hcalls, List.nodup_nil, rfl⟩

theorem setVip_ready {ctx : Context} (h : ctx.Ready) (mem : VipMemory) (vip : Bytes) :
    (ctx.setVip mem vip).1.Ready := by
  have hclear := clearVips_ready h.peers h.calls
  unfold setVip
  dsimp only
  split
  · exact hclear
  split
  · exact hclear
  split
  · exact clearVips_ready hclear.peers hclear.calls
  · rename_i ctx' hread
    obtain ⟨hpeers, hcalls, hvips⟩ :=
      readVips_ready _ hclear.peers hclear.calls hclear.vips_unique hread
    rw [updateNonvipCap_eq]
    exact ⟨hpeers, hcalls, hvips, rfl⟩

theorem apply_ready {ctx : Context} (h : ctx.Ready) (setup : Setup) : (setup.apply ctx).Ready := by
  cases setup with
  | seats n =>
    simp only [Setup.apply, setSeats]
    split
    · exact h
    · rw [updateNonvipCap_eq]
      exact ⟨h.peers, h.calls, h.vips_unique, rfl⟩
  | pow bits =>
    simp only [Setup.apply, setPow]
    split
    · exact h
    · exact ⟨h.peers, h.calls, h.vips_unique, h.nonvipCap⟩
  | pass text =>
    simp only [Setup.apply, setPass]
    split
    · exact h
    · exact ⟨h.peers, h.calls, h.vips_unique, h.nonvipCap⟩
  | vip mem text => exact setVip_ready h mem text

theorem configured_ready (etimeoutSec : UInt64) (setups : List Setup) :
    (configured etimeoutSec setups).Ready := by
  have hopened : (opened etimeoutSec).Ready := ⟨rfl, rfl, List.nodup_nil, rfl⟩
  unfold configured
  generalize opened etimeoutSec = ctx at hopened
  induction setups generalizing ctx with
  | nil => exact hopened
  | cons setup setups ih => exact ih _ (apply_ready hopened setup)

/-! ### What every event keeps -/

/-- The records of an index: distinct valid identifiers, no more of them than seats, and no more
without a reservation than seats that are not reserved. The array has room for them. -/
structure Valid (ctx : Context) : Prop where
  unique : ctx.Unique
  ids : ∀ p ∈ ctx.peers, isValidId p.id = true
  room : ctx.peers.length ≤ ctx.peersAlloc
  seats : ctx.seatsSet = true → ctx.peers.length ≤ ctx.nPeersCap
  nonvips : ctx.seatsSet = true → ctx.countNonvipPeers ≤ ctx.nonvipCap
  vips_unique : Keyed.Unique VipEntry.id ctx.vips
  nonvipCap : ctx.nonvipCap = ctx.nPeersCap - ctx.vips.length

theorem Ready.valid {ctx : Context} (h : ctx.Ready) : ctx.Valid where
  unique := by rw [Unique, h.peers]; exact List.nodup_nil
  ids := by simp [h.peers]
  room := by simp [h.peers]
  seats := by simp [h.peers]
  nonvips := by simp [countNonvipPeers, h.peers]
  vips_unique := h.vips_unique
  nonvipCap := h.nonvipCap

/-- Fewer records, in the same order, in an array that is no smaller. -/
theorem Valid.sublist {ctx : Context} (h : ctx.Valid) {peers : List Peer} {alloc : Nat}
    (hsub : peers.Sublist ctx.peers) (halloc : ctx.peersAlloc ≤ alloc) :
    { ctx with peers := peers, peersAlloc := alloc }.Valid where
  unique := (hsub.map Peer.id).nodup h.unique
  ids := fun p hp => h.ids p (hsub.subset hp)
  room := Nat.le_trans (Nat.le_trans hsub.length_le h.room) halloc
  seats := fun hset => Nat.le_trans hsub.length_le (h.seats hset)
  nonvips := fun hset => Nat.le_trans (hsub.countP_le) (h.nonvips hset)
  vips_unique := h.vips_unique
  nonvipCap := h.nonvipCap

theorem evictStale_sublist (ctx : Context) (now : UInt64) :
    (ctx.evictStale now).peers.Sublist ctx.peers := by
  rw [evictStale_peers]
  exact List.filter_sublist

theorem Valid.evictStale {ctx : Context} (h : ctx.Valid) (now : UInt64) :
    (ctx.evictStale now).Valid :=
  h.sublist (ctx.evictStale_sublist now) (Nat.le_refl _)

theorem storeFor_id (id : Bytes) (endpoint : Endpoint) (now : UInt64) (p : Peer) :
    (storeFor id endpoint now p).id = p.id := by
  unfold storeFor
  split <;> rfl

/-- Records that keep their identifiers. -/
theorem Valid.map {ctx : Context} (h : ctx.Valid) {f : Peer → Peer} (hf : ∀ p, (f p).id = p.id) :
    { ctx with peers := ctx.peers.map f }.Valid where
  unique := Keyed.unique_map hf h.unique
  ids := by
    intro p hp
    obtain ⟨q, hq, rfl⟩ := List.mem_map.mp hp
    rw [hf]
    exact h.ids q hq
  room := by simpa using h.room
  seats := fun hset => by simpa using h.seats hset
  nonvips := fun hset => by
    have hsame := h.nonvips hset
    simp only [countNonvipPeers, List.countP_map, Function.comp_def, hf] at hsame ⊢
    exact hsame
  vips_unique := h.vips_unique
  nonvipCap := h.nonvipCap

/-- One more record, within the seats. -/
theorem Valid.concat {ctx : Context} (h : ctx.Valid) {peer : Peer} {alloc : Nat}
    (hid : isValidId peer.id = true) (habsent : ctx.record peer.id = none)
    (hseat : ctx.seatsSet = true → ctx.peers.length < ctx.nPeersCap)
    (hnonvip : ctx.seatsSet = true → ctx.findVip peer.id = none →
      ctx.countNonvipPeers < ctx.nonvipCap)
    (hroom : ctx.peers.length + 1 ≤ alloc) :
    { ctx with peers := ctx.peers ++ [peer], peersAlloc := alloc }.Valid where
  unique := Keyed.unique_concat h.unique habsent
  ids := by
    intro p hp
    rcases List.mem_append.mp hp with hp | hp
    · exact h.ids p hp
    · rw [List.mem_singleton.mp hp]
      exact hid
  room := by simpa using hroom
  seats := fun hset => by simpa using hseat hset
  nonvips := fun hset => by
    have hold := h.nonvips hset
    have hnew := hnonvip hset
    change (ctx.peers ++ [peer]).countP (fun p => (ctx.findVip p.id).isNone) ≤ ctx.nonvipCap
    rw [List.countP_append, List.countP_singleton]
    simp only [countNonvipPeers] at hold hnew
    split
    · rename_i hnone
      have := hnew (Option.isNone_iff_eq_none.mp hnone)
      omega
    · omega
  vips_unique := h.vips_unique
  nonvipCap := h.nonvipCap

theorem Valid.effect {ctx ctx' : Context} {env : Env} {req : JsonObject Rat} (h : ctx.Valid)
    (heffect : Effect ctx env req ctx') : ctx'.Valid := by
  have hkept := h.evictStale env.now
  cases heffect with
  | unchanged => exact h
  | called calls source bound =>
    exact ⟨h.unique, h.ids, h.room, h.seats, h.nonvips, h.vips_unique, h.nonvipCap⟩
  | evicted alloc room => exact hkept.sublist (List.Sublist.refl _) room
  | stored peer endpoint found allowed => exact hkept.map (storeFor_id peer.id endpoint env.now)
  | added r key alloc registers absent seat nonvip generated room =>
    have hvalid := (requireIdResponse_ok (parseRegister_ok registers.2.1).1).2
    have hid : ((newPeer r.id key env.now).store r.endpoint env.now).id = r.id :=
      List.take_of_length_le (isValidId_iff.mp hvalid).2.1
    refine hkept.concat (by rw [hid]; exact hvalid) (by rw [hid]; exact absent) seat ?_ room
    rw [hid]
    exact nonvip
  | removed peer found allowed => exact hkept.sublist List.filter_sublist (Nat.le_refl _)

theorem Valid.step {ctx : Context} (h : ctx.Valid) (event : IndexEvent) :
    (event.step ctx).1.Valid := by
  cases event with
  | request env body =>
    rcases dispatch_effect h.unique env body with hsame | ⟨req, _, heffect⟩
    · change (ctx.dispatch env body).1.Valid
      rw [hsame]
      exact h
    · exact h.effect heffect
  | prune now => exact h.evictStale now

theorem Valid.step_sameConfig {ctx : Context} (h : ctx.Valid) (event : IndexEvent) :
    SameConfig ctx (event.step ctx).1 := by
  cases event with
  | request env body =>
    rcases dispatch_effect h.unique env body with hsame | ⟨req, _, heffect⟩
    · change SameConfig ctx (ctx.dispatch env body).1
      rw [hsame]
      exact SameConfig.refl ctx
    · exact heffect.sameConfig
  | prune now => exact ⟨rfl, rfl, rfl, rfl, rfl, rfl, rfl⟩

theorem served_valid (etimeoutSec : UInt64) (setups : List Setup) (events : List IndexEvent) :
    (served etimeoutSec setups events).Valid :=
  Transition.run_invariant Valid (fun _ event h => h.step event)
    (configured_ready etimeoutSec setups).valid events

/-- The configuration stays as the setters left it. -/
theorem served_sameConfig (etimeoutSec : UInt64) (setups : List Setup) (events : List IndexEvent) :
    SameConfig (configured etimeoutSec setups) (served etimeoutSec setups events) := by
  have hstep : ∀ (ctx : Context) (event : IndexEvent),
      ctx.Valid ∧ SameConfig (configured etimeoutSec setups) ctx →
        (event.step ctx).1.Valid ∧ SameConfig (configured etimeoutSec setups) (event.step ctx).1 :=
    fun ctx event h => ⟨h.1.step event, h.2.trans (h.1.step_sameConfig event)⟩
  exact (Transition.run_invariant _ hstep
    ⟨(configured_ready etimeoutSec setups).valid, SameConfig.refl _⟩ events).2

/-! ### The pending calls of a run -/

/-- A call that an accepted request introduced: valid identifiers and session, and at most eight
candidates with address texts. -/
structure Accepted (call : PendingCall) : Prop where
  caller : isValidId call.callerId = true
  target : isValidId call.targetId = true
  session : isSessionToken call.sessId = true
  count : call.candidates.length ≤ peerCandidatesMax
  candidates : ∀ c ∈ call.candidates, c.Accepted

/-- At most 32 calls wait, each from an accepted request. -/
structure CallsValid (ctx : Context) : Prop where
  bound : ctx.pendingCalls.length ≤ maxPendingCalls
  accepted : ∀ call ∈ ctx.pendingCalls, Accepted call

theorem CallsValid.effect {ctx ctx' : Context} {env : Env} {req : JsonObject Rat}
    (h : ctx.CallsValid) (heffect : Effect ctx env req ctx') : ctx'.CallsValid := by
  cases heffect with
  | called calls source bound =>
    refine ⟨bound h.bound, fun call hcall => ?_⟩
    rcases source call hcall with hold | ⟨r, hparse, rfl⟩
    · exact h.accepted call hold
    · obtain ⟨hself, htarget, hsession, hlen, hall⟩ := parsePunch_ok hparse
      exact ⟨hself, htarget, hsession, hlen, hall⟩
  | unchanged => exact h
  | evicted alloc room => exact ⟨h.bound, h.accepted⟩
  | stored peer endpoint found allowed => exact ⟨h.bound, h.accepted⟩
  | added r key alloc registers absent seat nonvip generated room => exact ⟨h.bound, h.accepted⟩
  | removed peer found allowed => exact ⟨h.bound, h.accepted⟩

theorem served_callsValid (etimeoutSec : UInt64) (setups : List Setup) (events : List IndexEvent) :
    (served etimeoutSec setups events).CallsValid := by
  have hready := configured_ready etimeoutSec setups
  have hstep : ∀ (ctx : Context) (event : IndexEvent), ctx.Valid ∧ ctx.CallsValid →
      (event.step ctx).1.Valid ∧ (event.step ctx).1.CallsValid := by
    rintro ctx event ⟨hvalid, hcalls⟩
    refine ⟨hvalid.step event, ?_⟩
    cases event with
    | request env body =>
      rcases dispatch_effect hvalid.unique env body with hsame | ⟨req, _, heffect⟩
      · show (ctx.dispatch env body).1.CallsValid
        rw [hsame]
        exact hcalls
      · exact hcalls.effect heffect
    | prune now => exact ⟨hcalls.bound, hcalls.accepted⟩
  refine (Transition.run_invariant _ hstep ⟨hready.valid, ?_⟩ events).2
  constructor <;> simp [hready.calls]

end Context

end Redp2p
