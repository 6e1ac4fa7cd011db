import Redp2p.PhpFields
import Redp2p.PhpSeats

/-! The stores of the two indexes side by side: the array of publishers and the rows of a table, the
array of pending calls and the rows of another. Each operation of the one does what the statements of
the other do. -/

namespace Redp2p

open ByteString Program

/-! ### Rows -/

/-- The publisher as a row of the other index. -/
def Peer.row (p : Peer) : PublisherRow where
  id := p.id
  key := p.key
  proto := p.proto
  udpPort := p.udpPort.toNat
  candidates := p.candidates.map Candidate.row
  lastSeen := p.lastSeen.toNat

/-- The call as a row of the other index, without the key of a row. -/
def PendingCall.row (call : PendingCall) : PendingRow where
  id := []
  selfId := call.callerId
  targetId := call.targetId
  session := call.sessId
  candidates := call.candidates.map Candidate.row
  ts := call.ts.toNat

/-- A row of the pending calls without its key. -/
def StoredRow.content (stored : StoredRow) : PendingRow := { stored.row with id := [] }

/-- A record whose key and addresses a reply carries as they are. -/
structure Peer.Plain (p : Peer) : Prop where
  key : ∀ b ∈ p.key, isPlain b = true
  candidates : ∀ c ∈ p.candidates, c.Accepted

theorem hexEncode_plain (s : Bytes) : ∀ b ∈ hexEncode s, isPlain b = true :=
  fun b hb => isPlain_of_isAlnum (isAlnum_of_isHexDigit (hexEncode_isHexDigit s b hb))

/-- No record and no call is dated after `now`. -/
structure Context.Dates (now : UInt64) (ctx : Context) : Prop where
  peers : ∀ p ∈ ctx.peers, p.lastSeen ≤ now
  calls : ∀ call ∈ ctx.pendingCalls, call.ts ≤ now

namespace PhpIndex

/-- The two indexes are configured alike and hold the same records and the same calls. -/
structure Related (php : PhpIndex) (ctx : Context) (w : PhpWorld) : Prop where
  configured : php.Configured ctx
  seats : ctx.seatsSet = true → ctx.nPeersCap ≤ sizeMax / peerSize
  plain : ∀ p ∈ ctx.peers, p.Plain
  publishers : w.publishers = ctx.peers.map Peer.row
  pending : (w.pending.map StoredRow.content).Perm (ctx.pendingCalls.map PendingCall.row)

variable {php : PhpIndex} {ctx : Context} {w : PhpWorld} {now : UInt64}

theorem Configured.keep {ctx' : Context} (h : php.Configured ctx) (hsame : Context.SameConfig ctx ctx') :
    php.Configured ctx' where
  pass := h.pass.trans hsame.pass.symm
  vips := h.vips.trans hsame.vips.symm
  seats := by rw [h.seats, hsame.seatsSet, hsame.nPeersCap]
  pow := h.pow.trans hsame.powBits.symm
  ttl := by rw [h.ttl, hsame.etimeoutSec]

/-- A comparison of times, on signed integers and on integers that wrap. -/
theorem age_eq {seen now : UInt64} (h : seen ≤ now) (limit : UInt64) :
    decide ((seen.toNat : Int) < now.toNat - limit.toNat) = decide (now - seen > limit) := by
  rw [decide_eq_decide, gt_iff_lt, UInt64.lt_iff_toNat_lt, UInt64.toNat_sub_of_le _ _ h]
  have hle : seen.toNat ≤ now.toNat := h
  omega

/-! ### Publishers -/

theorem run_evictStale (php : PhpIndex) (w : PhpWorld) :
    php.evictStale.runAlone PhpStatement.exec w =
      ({ w with publishers := w.publishers.filter fun row => !decide (row.lastSeen < w.clock - php.ttl) },
        ()) := rfl

theorem Related.evictStale (h : php.Related ctx w) (hdates : ctx.Dates now) (hclock : w.clock = now.toNat) :
    php.Related (ctx.evictStale now) (php.evictStale.runAlone PhpStatement.exec w).1 := by
  refine ⟨?_, h.seats, fun p hp => h.plain p ((ctx.evictStale_sublist now).subset hp), ?_, h.pending⟩
  · exact h.configured.keep ⟨rfl, rfl, rfl, rfl, rfl, rfl, rfl⟩
  · rw [run_evictStale, Context.evictStale_peers]
    dsimp only
    rw [ h.publishers, List.filter_map, hclock, h.configured.ttl]
    congr 1
    apply List.filter_congr
    intro p hp
    exact congrArg not (age_eq (hdates.peers p hp) ctx.etimeoutSec)

theorem Related.find (h : php.Related ctx w) (id : Bytes) :
    (w.publishers.find? fun row => row.id == id) = (ctx.record id).map Peer.row := by
  rw [h.publishers, List.find?_map, Context.record, Keyed.lookup]
  congr 2
  funext p
  exact beq_eq_decide ..

theorem Related.any (h : php.Related ctx w) (id : Bytes) :
    (w.publishers.any fun row => row.id == id) = (ctx.record id).isSome := by
  rw [← List.isSome_find?, h.find, Option.isSome_map]

/-- A publisher announces an endpoint. -/
theorem Related.store (h : php.Related ctx w) (hclock : w.clock = now.toNat) (id : Bytes)
    {endpoint : Endpoint} (haccepted : ∀ c ∈ endpoint.candidates, c.Accepted) :
    php.Related { ctx with peers := ctx.peers.map (Context.storeFor id endpoint now) }
      ((setPublisher id endpoint.row.1.1 endpoint.row.1.2 endpoint.row.2).runAlone PhpStatement.exec w).1 := by
  refine ⟨?_, h.seats, ?_, ?_, h.pending⟩
  · exact h.configured.keep ⟨rfl, rfl, rfl, rfl, rfl, rfl, rfl⟩
  · intro p hp
    obtain ⟨q, hq, rfl⟩ := List.mem_map.mp hp
    unfold Context.storeFor
    split
    · exact ⟨(h.plain q hq).key, haccepted⟩
    · exact h.plain q hq
  · show w.publishers.map (fun row => if row.id == id then { row with
        proto := endpoint.row.1.1, udpPort := endpoint.row.1.2, candidates := endpoint.row.2,
        lastSeen := w.clock } else row) = _
    rw [h.publishers, List.map_map, List.map_map, hclock]
    apply List.map_congr_left
    intro p _
    by_cases hid : p.id = id
    · simp [Context.storeFor, hid, Peer.row, Peer.store, Endpoint.row]
    · simp [Context.storeFor, hid, Peer.row]

/-- The key that the statements return is the one of the record. -/
theorem Related.storedKey (h : php.Related ctx w) (id : Bytes) (proto udpPort : Int)
    (candidates : List PhpCandidate) {peer : Peer} (hrecord : ctx.record id = some peer) :
    ((setPublisher id proto udpPort candidates).runAlone PhpStatement.exec w).2 = peer.key := by
  show ((w.publishers.find? fun row => row.id == id).map PublisherRow.key).getD [] = _
  rw [h.find, hrecord]
  rfl

theorem Related.remove (h : php.Related ctx w) (id : Bytes) :
    php.Related { ctx with peers := ctx.peers.filter fun p => p.id ≠ id }
      (PhpStatement.exec (.deletePublisher id) w).1 := by
  refine ⟨?_, h.seats, fun p hp => h.plain p (List.mem_filter.mp hp).1, ?_, h.pending⟩
  · exact h.configured.keep ⟨rfl, rfl, rfl, rfl, rfl, rfl, rfl⟩
  · show w.publishers.filter _ = _
    rw [h.publishers, List.filter_map]
    congr 1
    apply List.filter_congr
    intro p _
    by_cases hid : p.id = id <;> simp [hid, Peer.row]

/-! ### Seats -/

end PhpIndex

namespace Context

/-- No seat is left for a publisher without a record. -/
def Full (ctx : Context) (id : Bytes) : Prop :=
  ctx.seatsSet = true ∧ (ctx.nPeersCap ≤ ctx.peers.length ∨
    ctx.findVip id = none ∧ ctx.nonvipCap ≤ ctx.countNonvipPeers)

theorem growCap_le {limit need cap : Nat} (hcap : cap ≤ limit) (turns : Nat) :
    growCap limit need turns cap ≤ limit := by
  induction turns generalizing cap with
  | zero => exact hcap
  | succ turns ih =>
    rw [growCap]
    split
    · apply ih
      split <;> omega
    · exact hcap

theorem ensurePeerStorage_fits {ctx : Context} {need : Nat} (hneed : need ≤ ctx.storageLimit)
    (hlimit : ctx.storageLimit ≤ sizeMax / peerSize) : (ctx.ensurePeerStorage true need).2 = .ok := by
  have hcap : ctx.storageCap need ≤ ctx.storageLimit := growCap_le (Nat.min_le_right _ _) 64
  unfold ensurePeerStorage
  rw [if_neg (by omega)]
  split
  · rfl
  · rw [if_neg (by omega)]
    rfl

/-- With memory and randomness, the only reason to refuse a publisher is that the seats are full. -/
theorem addPeer_error {ctx : Context} (now : UInt64) (random : Vector UInt8 8) {id : Bytes}
    (habsent : ctx.findPeer id = none) (hroom : ctx.peers.length < sizeMax / peerSize)
    (hseats : ctx.seatsSet = true → ctx.nPeersCap ≤ sizeMax / peerSize) :
    (ctx.addPeer ⟨now, some random, true⟩ id).2 ≠ .error := by
  unfold addPeer
  rw [habsent]
  dsimp only
  split
  · simp
  rename_i hfree
  rw [if_neg (by omega)]
  split
  · simp
  have hlimit : ctx.storageLimit ≤ sizeMax / peerSize := by
    unfold storageLimit
    split
    · rename_i hset
      exact hseats hset
    · exact Nat.le_refl _
  have hneed : ctx.peers.length + 1 ≤ ctx.storageLimit := by
    unfold storageLimit
    split
    · rename_i hset
      simp only [hset, Bool.true_and, decide_eq_true_eq] at hfree
      omega
    · omega
  have hstorage := ensurePeerStorage_fits hneed hlimit
  split
  · simp [generateKey]
  · rename_i ctx' status hne heq
    rw [heq] at hstorage
    exact absurd hstorage hne

/-- A publisher without a record takes a seat, unless the seats are full. -/
theorem addPeer_absent {ctx : Context} (now : UInt64) (random : Vector UInt8 8) {id : Bytes}
    (habsent : ctx.findPeer id = none) (hroom : ctx.peers.length < sizeMax / peerSize)
    (hseats : ctx.seatsSet = true → ctx.nPeersCap ≤ sizeMax / peerSize) :
    ctx.Full id ∧ ctx.addPeer ⟨now, some random, true⟩ id = (ctx, .efull) ∨
    ¬ ctx.Full id ∧ ∃ alloc, ctx.addPeer ⟨now, some random, true⟩ id =
      ({ ctx with peers := ctx.peers ++ [newPeer id (hexEncode random.toList) now], peersAlloc := alloc },
        .ok) := by
  have herror := addPeer_error now random habsent hroom hseats
  have hcases := addPeer_cases ctx ⟨now, some random, true⟩ id
  generalize ctx.addPeer ⟨now, some random, true⟩ id = result at hcases herror ⊢
  cases hcases with
  | refreshed index found =>
    rw [habsent] at found
    cases found
  | added key alloc absent seat nonvip generated room =>
    obtain rfl : hexEncode random.toList = key := Option.some.inj generated
    refine .inr ⟨?_, alloc, rfl⟩
    rintro ⟨hset, hfull | ⟨hvip, hfull⟩⟩
    · exact absurd (seat hset) (Nat.not_lt.mpr hfull)
    · exact absurd (nonvip hset hvip) (Nat.not_lt.mpr hfull)
  | full absent seats taken => exact .inl ⟨⟨seats, taken⟩, rfl⟩
  | failed alloc room => exact absurd rfl herror

/-! ### Registrations -/

/-- A change of time stamps only. -/
def refresh (id : Bytes) (now : UInt64) (p : Peer) : Peer := if p.id = id then { p with lastSeen := now } else p

theorem refresh_id (id : Bytes) (now : UInt64) (p : Peer) : (refresh id now p).id = p.id := by
  unfold refresh
  split <;> rfl

theorem storeFor_refresh (id : Bytes) (endpoint : Endpoint) (now : UInt64) (p : Peer) :
    storeFor id endpoint now (refresh id now p) = storeFor id endpoint now p := by
  by_cases hp : p.id = id <;> simp [storeFor, refresh, hp, Peer.store]

/-- The part of a registration that follows the seat. -/
theorem storeEndpoint_found {ctx : Context} (hunique : ctx.Unique) {id : Bytes} {peer : Peer}
    (hrecord : ctx.record id = some peer) (endpoint : Endpoint) (now : UInt64) :
    ∃ index, ctx.findPeer id = some index ∧ ctx.peerKey index = peer.key ∧
      ctx.storeEndpoint index endpoint now =
        { ctx with peers := ctx.peers.map (storeFor id endpoint now) } := by
  cases hfind : ctx.findPeer id with
  | none =>
    rw [findPeer_none, hrecord] at hfind
    cases hfind
  | some index =>
    obtain ⟨found, hfound, _, _, hkey⟩ := findPeer_some hfind
    obtain rfl := Option.some.inj (hrecord.symm.trans hfound)
    exact ⟨index, rfl, hkey, storeEndpoint_eq hfind hunique endpoint now⟩

theorem registerPeer_known {ctx : Context} (hunique : ctx.Unique) {now : UInt64}
    {random : Option (Vector UInt8 8)} {reallocOk : Bool} {r : RegisterRequest} {peer : Peer}
    (hrecord : (ctx.evictStale now).record r.id = some peer) :
    ctx.registerPeer ⟨now, random, reallocOk⟩ r =
      ({ ctx.evictStale now with
          peers := (ctx.evictStale now).peers.map (storeFor r.id r.endpoint now) },
        respondOk (okObject.setString (ascii "key") peer.key)) := by
  have hkept := evictStale_unique hunique now
  unfold registerPeer
  dsimp only
  generalize ctx.evictStale now = kept at hrecord hkept ⊢
  obtain ⟨index, hfind, -, -⟩ := storeEndpoint_found hkept hrecord r.endpoint now
  have hadd : kept.addPeer ⟨now, random, reallocOk⟩ r.id =
      ({ kept with peers := kept.peers.map (refresh r.id now) }, .ok) := by
    unfold addPeer
    rw [hfind]
    dsimp only
    rw [Keyed.modify_indexOf hkept hfind]
    rfl
  have hrefreshed : { kept with peers := kept.peers.map (refresh r.id now) }.record r.id =
      some (refresh r.id now peer) := by
    rw [record, Keyed.lookup_map (refresh_id r.id now), ← record, hrecord]
    rfl
  have hunique' : { kept with peers := kept.peers.map (refresh r.id now) }.Unique :=
    Keyed.unique_map (refresh_id r.id now) hkept
  obtain ⟨index', hfind', hkey, hstore⟩ := storeEndpoint_found hunique' hrefreshed r.endpoint now
  have hpeerKey : (refresh r.id now peer).key = peer.key := by
    unfold refresh
    split <;> rfl
  rw [hadd]
  dsimp only
  rw [hfind']
  dsimp only
  rw [hstore, hkey, hpeerKey]
  simp only [List.map_map, Function.comp_def, storeFor_refresh]

theorem registerPeer_new {ctx : Context} (hunique : ctx.Unique) {now : UInt64} (random : Vector UInt8 8)
    {r : RegisterRequest} (hid : isValidId r.id = true)
    (habsent : (ctx.evictStale now).record r.id = none)
    (hroom : ctx.peers.length < sizeMax / peerSize)
    (hseats : ctx.seatsSet = true → ctx.nPeersCap ≤ sizeMax / peerSize) :
    (ctx.evictStale now).Full r.id ∧ ctx.registerPeer ⟨now, some random, true⟩ r =
      (ctx.evictStale now, respondError 503 "table_full") ∨
    ¬ (ctx.evictStale now).Full r.id ∧ ∃ alloc, ctx.registerPeer ⟨now, some random, true⟩ r =
      ({ ctx.evictStale now with
          peers := ((ctx.evictStale now).peers ++ [newPeer r.id (hexEncode random.toList) now]).map
            (storeFor r.id r.endpoint now)
          peersAlloc := alloc },
        respondOk (okObject.setString (ascii "key") (hexEncode random.toList))) := by
  have hkept := evictStale_unique hunique now
  have hlength : (ctx.evictStale now).peers.length ≤ ctx.peers.length :=
    (ctx.evictStale_sublist now).length_le
  have hseats' : (ctx.evictStale now).seatsSet = true →
      (ctx.evictStale now).nPeersCap ≤ sizeMax / peerSize := hseats
  unfold registerPeer
  dsimp only
  generalize ctx.evictStale now = kept at habsent hkept hlength hseats' ⊢
  have hadd := addPeer_absent now random (findPeer_none.mpr habsent)
    (Nat.lt_of_le_of_lt hlength hroom) hseats'
  rcases hadd with ⟨hfull, hadd⟩ | ⟨hfree, alloc, hadd⟩
  · rw [hadd]
    exact .inl ⟨hfull, rfl⟩
  · have hnew : (newPeer r.id (hexEncode random.toList) now).id = r.id :=
      List.take_of_length_le (isValidId_iff.mp hid).2.1
    have hunique' : { kept with
        peers := kept.peers ++ [newPeer r.id (hexEncode random.toList) now], peersAlloc := alloc }.Unique :=
      Keyed.unique_concat hkept (by rw [hnew]; exact habsent)
    have hrecord : { kept with
        peers := kept.peers ++ [newPeer r.id (hexEncode random.toList) now], peersAlloc := alloc }.record r.id =
        some (newPeer r.id (hexEncode random.toList) now) := by
      rw [record, Keyed.lookup_concat, ← record, habsent, if_pos hnew]
      rfl
    obtain ⟨index, hfind, hkey, hstore⟩ := storeEndpoint_found hunique' hrecord r.endpoint now
    refine .inr ⟨hfree, alloc, ?_⟩
    rw [hadd]
    dsimp only
    rw [hfind]
    dsimp only
    rw [hstore, hkey]
    rfl

end Context

namespace PhpIndex

variable {php : PhpIndex} {ctx : Context} {w : PhpWorld} {now : UInt64} {random : Vector UInt8 8}

theorem Configured.vip_eq_none (h : php.Configured ctx) (id : Bytes) :
    php.vip id = none ↔ ctx.findVip id = none := by
  rw [vip, h.vips, Context.findVip, Keyed.indexOf_eq_none_iff]

theorem run_countNonVip (php : PhpIndex) (w : PhpWorld) :
    php.countNonVip.runAlone PhpStatement.exec w = (w, php.nonVips w) := by
  obtain ⟨statement, -, value, heq, hstate, hvalue⟩ := countNonVip_act php w
  rw [heq, runAlone_act, runAlone_done, hstate, hvalue]

theorem Related.nonVips (h : php.Related ctx w) : php.nonVips w = ctx.countNonvipPeers := by
  unfold PhpIndex.nonVips Context.countNonvipPeers
  rw [h.publishers, List.countP_map]
  congr 1
  funext p
  rw [Function.comp_apply, Bool.eq_iff_iff, Option.isNone_iff_eq_none, Option.isNone_iff_eq_none]
  exact h.configured.vip_eq_none p.id

theorem Related.length (h : php.Related ctx w) : w.publishers.length = ctx.peers.length := by
  rw [h.publishers, List.length_map]

theorem run_insertPublisher (h : php.Related ctx w) {id : Bytes} (habsent : ctx.record id = none)
    (seen : Int) :
    (insertPublisher random id seen).runAlone PhpStatement.exec w =
      ({ w with publishers := w.publishers ++ [⟨id, hexEncode random.toList, 0, 0, [], seen⟩] }, .ok) := by
  have hfree : (w.publishers.any fun row => row.id == id) = false := by
    rw [h.any, habsent]
    rfl
  unfold insertPublisher
  rw [query_bind, runAlone_act, exec_insertPublisher]
  dsimp only
  rw [hfree]
  rfl

theorem run_takeNonVipSeat (h : php.Related ctx w) (id : Bytes) (seen : Int) (seats : Nat) :
    (php.takeNonVipSeat random id seen seats).runAlone PhpStatement.exec w =
      if ctx.countNonvipPeers ≥ seats - php.vips.length then (w, .full)
      else (insertPublisher random id seen).runAlone PhpStatement.exec w := by
  unfold takeNonVipSeat
  rw [runAlone_bind, run_countNonVip, h.nonVips]
  dsimp only
  split
  · rfl
  · rfl

/-- A publisher that has a row keeps it. -/
theorem Related.addPublisher_known (h : php.Related ctx w) {id : Bytes} {peer : Peer}
    (hrecord : ctx.record id = some peer) :
    (php.addPublisher random id).runAlone PhpStatement.exec w = (w, .ok) := by
  have hfound : (PhpStatement.exec (.selectOne id) w).2 = true := by
    show (w.publishers.any fun row => row.id == id) = true
    rw [h.any, hrecord]
    rfl
  unfold PhpIndex.addPublisher
  rw [query_bind, runAlone_act, query_bind, runAlone_act, if_pos]
  · rfl
  · exact hfound

/-- The statements refuse a publisher exactly when the seats are full. -/
theorem Related.addPublisher (h : php.Related ctx w) (hvalid : ctx.Valid) (random : Vector UInt8 8)
    {id : Bytes} (habsent : ctx.record id = none) :
    (ctx.Full id → (php.addPublisher random id).runAlone PhpStatement.exec w = (w, .full)) ∧
    (¬ ctx.Full id → (php.addPublisher random id).runAlone PhpStatement.exec w =
      ({ w with publishers := w.publishers ++ [⟨id, hexEncode random.toList, 0, 0, [], w.clock⟩] }, .ok)) := by
  have hfound : (PhpStatement.exec (.selectOne id) w).2 = false := by
    show (w.publishers.any fun row => row.id == id) = false
    rw [h.any, habsent]
    rfl
  have hrun : (php.addPublisher random id).runAlone PhpStatement.exec w =
      (php.takeSeat random id w.clock).runAlone PhpStatement.exec w := by
    unfold PhpIndex.addPublisher
    rw [query_bind, runAlone_act, query_bind, runAlone_act, if_neg]
    · rfl
    · exact ne_true_of_eq_false hfound
  rw [hrun]
  unfold takeSeat
  cases hset : ctx.seatsSet with
  | false =>
    have hseats : php.seats = none := by rw [h.configured.seats, hset]; rfl
    rw [hseats]
    refine ⟨fun hfull => ?_, fun _ => run_insertPublisher h habsent w.clock⟩
    rw [Context.Full, hset] at hfull
    cases hfull.1
  | true =>
    have hseats : php.seats = some ctx.nPeersCap := by rw [h.configured.seats, hset]; rfl
    have hcap : ctx.nonvipCap = ctx.nPeersCap - php.vips.length := by
      rw [hvalid.nonvipCap, h.configured.vips]
    rw [hseats]
    dsimp only
    rw [query_bind, runAlone_act]
    have hcount : (PhpStatement.exec .countPublishers w).2 = ctx.peers.length := h.length
    have hstate : (PhpStatement.exec .countPublishers w).1 = w := rfl
    rw [hcount, hstate]
    unfold Context.Full
    rw [hset, hcap]
    by_cases hall : ctx.nPeersCap ≤ ctx.peers.length
    · rw [if_pos hall]
      exact ⟨fun _ => rfl, fun hfree => absurd ⟨rfl, .inl hall⟩ hfree⟩
    · rw [if_neg hall]
      by_cases hvip : ctx.findVip id = none
      · rw [(h.configured.vip_eq_none id).mpr hvip, if_neg (by simp), run_takeNonVipSeat h,
          run_insertPublisher h habsent]
        by_cases htaken : ctx.countNonvipPeers ≥ ctx.nPeersCap - php.vips.length
        · rw [if_pos htaken]
          exact ⟨fun _ => rfl, fun hfree => absurd ⟨rfl, .inr ⟨hvip, htaken⟩⟩ hfree⟩
        · rw [if_neg htaken]
          refine ⟨fun hfull => ?_, fun _ => rfl⟩
          exact (hfull.2.elim hall fun htwo => htaken htwo.2).elim
      · have hsome : (php.vip id).isSome = true := by
          rw [Option.isSome_iff_ne_none, ne_eq, h.configured.vip_eq_none]
          exact hvip
        rw [if_pos hsome]
        refine ⟨fun hfull => ?_, fun _ => run_insertPublisher h habsent w.clock⟩
        exact (hfull.2.elim hall fun htwo => hvip htwo.1).elim

/-- One more publisher. -/
theorem Related.concat (h : php.Related ctx w) (hclock : w.clock = now.toNat) {id : Bytes}
    (hid : isValidId id = true) (random : Vector UInt8 8) (alloc : Nat) :
    php.Related { ctx with
        peers := ctx.peers ++ [Context.newPeer id (hexEncode random.toList) now], peersAlloc := alloc }
      { w with publishers := w.publishers ++ [⟨id, hexEncode random.toList, 0, 0, [], w.clock⟩] } := by
  refine ⟨h.configured.keep ⟨rfl, rfl, rfl, rfl, rfl, rfl, rfl⟩, h.seats, ?_, ?_, h.pending⟩
  · intro p hp
    rcases List.mem_append.mp hp with hp | hp
    · exact h.plain p hp
    · obtain rfl := List.mem_singleton.mp hp
      exact ⟨hexEncode_plain _, by simp [Context.newPeer]⟩
  · have htake : id.take idMax = id := List.take_of_length_le (isValidId_iff.mp hid).2.1
    rw [List.map_append, List.map_singleton, ← h.publishers, hclock]
    simp [Context.newPeer, Peer.row, htake]

/-! ### Pending calls -/

/-- The rows and the calls of which the same holds. -/
theorem Related.filter (h : php.Related ctx w) {p : PendingRow → Bool} {q : PendingCall → Bool}
    (hsame : ∀ call ∈ ctx.pendingCalls, p call.row = q call) :
    ((w.pending.filter fun stored => p stored.content).map StoredRow.content).Perm
      ((ctx.pendingCalls.filter q).map PendingCall.row) := by
  have hperm := h.pending.filter p
  rw [List.filter_map, List.filter_map] at hperm
  rwa [← List.filter_congr hsame]

theorem run_evictPending (w : PhpWorld) :
    evictPending.runAlone PhpStatement.exec w =
      ({ w with
        pending := w.pending.filter fun stored => !decide (stored.row.ts < w.clock - pendingTtlS) }, ()) :=
  rfl

theorem Related.evictPending (h : php.Related ctx w) (hdates : ctx.Dates now)
    (hclock : w.clock = now.toNat) :
    php.Related (ctx.pendingCallEvictStale now).2 (evictPending.runAlone PhpStatement.exec w).1 := by
  refine ⟨h.configured.keep ⟨rfl, rfl, rfl, rfl, rfl, rfl, rfl⟩, h.seats, h.plain, h.publishers, ?_⟩
  have hfilter := h.filter (p := fun row => !decide (row.ts < w.clock - pendingTtlS))
    (q := fun call => !call.expired now) fun call hcall => by
      rw [hclock]
      exact congrArg not (age_eq (hdates.calls call hcall) pendingCallTtlS)
  exact hfilter.trans ((ctx.pendingCallEvictStale_kept now).map PendingCall.row).symm

/-- One more call. -/
theorem Related.enqueue (h : php.Related ctx w) (call : PendingCall) {stored : StoredRow}
    (hrow : stored.content = call.row) (inserted : Nat) :
    php.Related { ctx with pendingCalls := ctx.pendingCalls ++ [call] }
      { w with pending := w.pending ++ [stored], inserted } := by
  refine ⟨h.configured.keep ⟨rfl, rfl, rfl, rfl, rfl, rfl, rfl⟩, h.seats, h.plain, h.publishers, ?_⟩
  rw [List.map_append, List.map_append, List.map_singleton, List.map_singleton, hrow]
  exact h.pending.append_right _

/-- A poll takes the same calls out of both stores. -/
theorem Related.takeAll (h : php.Related ctx w) (id : Bytes) :
    php.Related (ctx.pendingCallTakeAll id).2 (PhpStatement.exec (.deletePending id) w).1 ∧
      ((PhpStatement.exec (.selectPending id) w).2.map StoredRow.content).Perm
        ((ctx.pendingCallTakeAll id).1.map PendingCall.row) := by
  obtain ⟨htaken, hrest⟩ :=
    ArrayLoop.swapOut_spec (fun call : PendingCall => call.targetId == id) ctx.pendingCalls
  constructor
  · refine ⟨h.configured.keep ⟨rfl, rfl, rfl, rfl, rfl, rfl, rfl⟩, h.seats, h.plain, h.publishers, ?_⟩
    have hfilter := h.filter (p := fun row => row.targetId != id)
      (q := fun call => !(call.targetId == id)) fun _ _ => rfl
    exact hfilter.trans (hrest.map PendingCall.row).symm
  · have hfilter := h.filter (p := fun row => row.targetId == id)
      (q := fun call => call.targetId == id) fun _ _ => rfl
    exact hfilter.trans (htaken.map PendingCall.row).symm

end PhpIndex

end Redp2p
