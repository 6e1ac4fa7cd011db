import Mathlib.Data.List.Perm.Subperm
import Redp2p.EventSteps
import Redp2p.PairedStreams

/-! A consumer and a publisher that both carry streams: no two sessions of a side share an identifier,
each side opens a session at most once for a call, and the sessions of one identifier are the two
ends of one tunnel. -/

namespace Redp2p

open ByteString ByteChannel

/-! ### Identifiers -/

/-- The identifier of the stream that a call asks for. -/
def callId (call : PunchCall) : Option SessionId := decodeSessionId call.session

section Identifiers

variable {κ : Type} {kcp : Ops κ}

/-- The identifiers of the sessions of a publisher and of the one that it is about to open. -/
def Publisher.ids (p : Publisher κ) : List (Option SessionId) :=
  p.side.links.map Link.id ++ p.pending.toList.map some

def Consumer.ids (c : Consumer κ) : List (Option SessionId) :=
  c.side.links.map Link.id ++ c.pending.toList.map some

theorem nodup_of_subperm {α : Type} {l l' : List α} (h : l.Subperm l') (hl : l'.Nodup) : l.Nodup := by
  obtain ⟨l₁, hperm, hsub⟩ := h
  exact hperm.nodup_iff.mp (hsub.nodup hl)

theorem lookup_pending {links : List (Link κ)} {pending : Option SessionId}
    (h : (links.map Link.id ++ pending.toList.map some).Nodup) :
    ∀ sessionId ∈ pending, Keyed.lookup Link.id (some sessionId) links = none := by
  intro sessionId hpending
  have hdisjoint := (List.nodup_append.mp h).2.2
  refine Keyed.lookup_eq_none_iff.mpr fun link hlink => ?_
  refine hdisjoint _ (List.mem_map_of_mem hlink) _ ?_
  exact List.mem_map_of_mem (Option.mem_toList.mpr hpending)

/-! ### The publisher -/

section Publisher

variable {p : Publisher κ} {right : List (Link κ)} {heard : List Bytes}

theorem callId_of_callSession {posted : PunchCall} {token : Bytes} {sessionId : SessionId}
    (h : Publisher.callSession .tcp posted.session = some (token, sessionId)) :
    callId posted = some sessionId := by
  simp only [Publisher.callSession] at h
  split at h
  · obtain ⟨decoded, hdecoded, hpair⟩ := Option.map_eq_some_iff.mp h
    rw [callId, hdecoded, (Prod.mk.inj hpair).2]
  · exact nomatch h

theorem Publisher.step_pending (hmode : p.proto = .tcp) (polled : Option PunchCall)
    (event : PublisherEvent) :
    ((p.step kcp polled event).pending.toList.map some).Subperm
      (p.pending.toList.map some ++ polled.toList.map callId) := by
  obtain ⟨sessions, answering, sent, hstep, hcalls⟩ := Publisher.step_turn kcp p polled event
  rw [hstep]
  cases answering with
  | none => exact List.nil_subperm
  | some call =>
    rcases hcalls call rfl with ⟨old, hold, _, hid⟩ | ⟨posted, hposted, _, _, hsession, _, _⟩
    · have hpending : p.pending = some call.sessionId := by
        rw [hid, Publisher.pending, hold, Option.map_some]
      rw [hpending]
      exact (List.sublist_append_left _ _).subperm
    · rw [hmode] at hsession
      rw [show polled = some posted from hposted]
      simp [Publisher.pending, callId_of_callSession hsession]

theorem Publisher.punchHear_ids (hmode : p.proto = .tcp) (env : StreamEnv) (ok : Bool)
    (arrival : Arrival) : (p.punchHear kcp env ok arrival).ids.Subperm p.ids := by
  unfold Publisher.punchHear
  split
  · exact .refl _
  rename_i call hcall
  have hids : p.ids = p.side.links.map Link.id ++ [some call.sessionId] := by
    simp [Publisher.ids, Publisher.pending, hcall]
  rw [hids]
  split
  · exact .refl _
  · rename_i state peerAddr sent _
    have hopen := Publisher.openSession_cases kcp env
      { p with answering := none, sent := p.sent ++ sent } ok call.sessionId peerAddr
    have hopened : ({ p with answering := none, sent := p.sent ++ sent }.openSession kcp env ok
        call.sessionId peerAddr).1.ids.Subperm (p.side.links.map Link.id ++ [some call.sessionId]) := by
      rcases hopen with hsame | hnew
      · have hids : ({ p with answering := none, sent := p.sent ++ sent } : Publisher κ).ids =
            p.side.links.map Link.id := List.append_nil _
        rw [hsame, hids]
        exact (List.sublist_append_left _ _).subperm
      · have hids : ({ p with answering := none, sent := p.sent ++ sent }.sessionInsert
            (.opened env peerAddr (Publisher.newLink kcp env p.proto call.sessionId))).ids =
              p.side.links.map Link.id ++ [some call.sessionId] := by
          rw [hmode]
          simp [Publisher.ids, Publisher.pending, Publisher.side, Publisher.sessionInsert,
            Session.opened, Publisher.newLink, Link.id, Party.opened, streamInit]
        rw [hnew, hids]
    dsimp only
    split <;> exact hopened

/-- An event moves identifiers, and adds at most that of the call that is polled. -/
theorem Publisher.step_ids (h : StreamSide kcp false p.side right) (hkcp : Reliable kcp)
    (hknown : ∀ data ∈ heard, Paired.Known right (data.take bufSize)) (hmode : p.proto = .tcp)
    (polled : Option PunchCall) {event : PublisherEvent}
    (hheard : ∀ arrival ∈ event.arrival, arrival.data ∈ heard) :
    (p.step kcp polled event).ids.Subperm (p.ids ++ polled.toList.map callId) := by
  by_cases hhear : ∃ env ok arrival, event = .hear env ok arrival
  · obtain ⟨env, ok, arrival, rfl⟩ := hhear
    exact (Publisher.punchHear_ids hmode env ok arrival).trans (List.sublist_append_left _ _).subperm
  · have hstill : SideSteps kcp (fun _ => False) heard p.side (p.step kcp polled event).side :=
      Publisher.step_still polled hheard fun env ok arrival h => hhear ⟨env, ok, arrival, h⟩
    obtain ⟨_, hsame | ⟨_, hopen⟩⟩ := h.steps hkcp hknown (fun _ => nofun) hstill
    · rw [Publisher.ids, Publisher.ids, hsame, List.append_assoc, List.subperm_append_left]
      exact Publisher.step_pending hmode polled event
    · exact hopen.elim

end Publisher

/-! ### The consumer -/

section Consumer

variable {c : Consumer κ} {right : List (Link κ)} {heard : List Bytes}

theorem Consumer.step_pending (hmode : c.proto = .tcp) (event : ConsumerEvent) :
    ((c.step kcp event).1.pending.toList.map some).Subperm
      (c.pending.toList.map some ++ event.random.toList.map some) := by
  obtain ⟨sessions, establishing, sent, hstep, hsessions, _⟩ := Consumer.step_turn kcp c event
  rw [hstep]
  cases establishing with
  | none => exact List.nil_subperm
  | some session =>
    rcases hsessions session rfl with ⟨old, hold, _, hid, _⟩ | ⟨_, hrandom⟩
    · have hpending : c.pending = some session.sessionId := by
        rw [hid, Consumer.pending, hold, Option.map_some]
      rw [hpending]
      exact (List.sublist_append_left _ _).subperm
    · rw [hrandom hmode]
      simp [Consumer.pending]

theorem Consumer.punchHear_ids
    (hsession : ∀ session ∈ c.establishing, c.Establishes session) (hmode : c.proto = .tcp)
    (env : StreamEnv) (ok : Bool) (arrival : Arrival) :
    (c.punchHear kcp env ok arrival).ids.Subperm c.ids := by
  unfold Consumer.punchHear
  split
  · exact .refl _
  rename_i session hfound
  have hclient := (hsession session hfound).fits
  have hids : c.ids = c.side.links.map Link.id ++ [some session.sessionId] := by
    simp [Consumer.ids, Consumer.pending, hfound]
  rw [hids]
  split
  · exact .refl _
  · rename_i state peerAddr sent _
    cases ok with
    | false =>
      have hids : ({ c with establishing := none, sent := c.sent ++ sent } : Consumer κ).ids =
          c.side.links.map Link.id := List.append_nil _
      show ({ c with establishing := none, sent := c.sent ++ sent } : Consumer κ).ids.Subperm _
      rw [hids]
      exact (List.sublist_append_left _ _).subperm
    | true =>
      cases hstream : session.client with
      | stream =>
        refine (List.Perm.of_eq ?_).subperm
        simp [Consumer.ids, Consumer.pending, Consumer.side, Consumer.sessionInsert,
          Consumer.sessionInit, hstream, Session.opened, Link.id, Party.opened, streamInit]
      | datagram client data =>
        rw [hstream, hmode] at hclient
        cases hclient.1

/-- An event moves identifiers, and adds at most the random bytes of a stream. -/
theorem Consumer.step_ids (h : StreamSide kcp true c.side right) (hkcp : Reliable kcp)
    (hknown : ∀ data ∈ heard, Paired.Known right (data.take bufSize))
    (hsession : ∀ session ∈ c.establishing, c.Establishes session) (hmode : c.proto = .tcp)
    {event : ConsumerEvent} (hheard : ∀ arrival ∈ event.arrival, arrival.data ∈ heard) :
    (c.step kcp event).1.ids.Subperm (c.ids ++ event.random.toList.map some) := by
  by_cases hhear : ∃ env ok arrival, event = .hear env ok arrival
  · obtain ⟨env, ok, arrival, rfl⟩ := hhear
    exact (Consumer.punchHear_ids hsession hmode env ok arrival).trans
      (List.sublist_append_left _ _).subperm
  · have hstill : SideSteps kcp (fun _ => False) heard c.side (c.step kcp event).1.side :=
      Consumer.step_still hheard fun env ok arrival h => hhear ⟨env, ok, arrival, h⟩
    obtain ⟨_, hsame | ⟨_, hopen⟩⟩ := h.steps hkcp hknown (fun _ => nofun) hstill
    · rw [Consumer.ids, Consumer.ids, hsame, List.append_assoc, List.subperm_append_left]
      exact Consumer.step_pending hmode event
    · exact hopen.elim

end Consumer

end Identifiers

/-! ### Both sides -/

/-- What holds when both sides carry streams. -/
structure StreamNet {κ : Type} (kcp : Ops κ) (net : PeerNet κ) : Prop where
  consumerMode : net.consumer.proto = .tcp
  publisherMode : net.publisher.proto = .tcp
  establishes : ∀ session ∈ net.consumer.establishing, net.consumer.Establishes session
  consumerSide : StreamSide kcp true net.consumer.side net.publisher.side.links
  publisherSide : StreamSide kcp false net.publisher.side net.consumer.side.links
  consumerIds : net.consumer.ids.Nodup
  publisherIds : (net.publisher.ids ++ net.calls.map callId).Nodup
  drawn : ∀ id ∈ net.consumer.ids ++ (net.publisher.ids ++ net.calls.map callId),
    ∃ random ∈ net.drawn, id = some random

namespace StreamNet

variable {κ : Type} {kcp : Ops κ} {net : PeerNet κ}

/-- Fresh random bytes are not among the identifiers so far. -/
theorem nodup_random {drawn : List SessionId} {ids : List (Option SessionId)}
    {random : Option SessionId} (hids : ids.Nodup) (hdrawn : ∀ id ∈ ids, ∃ r ∈ drawn, id = some r)
    (hfresh : ∀ r ∈ random, r ∉ drawn) : (ids ++ random.toList.map some).Nodup := by
  cases random with
  | none => simpa using hids
  | some r =>
    refine List.nodup_append.mpr ⟨hids, by simp, ?_⟩
    intro id hid other hother heq
    obtain rfl : other = some r := by simpa using hother
    obtain ⟨r', hr', hsome⟩ := hdrawn id hid
    rw [heq] at hsome
    exact hfresh r rfl (Option.some.inj hsome ▸ hr')

theorem consumer_step (h : StreamNet kcp net) (hkcp : Reliable kcp) (event : ConsumerEvent) :
    StreamNet kcp (net.step kcp (.consumer event)) := by
  unfold PeerNet.step
  dsimp only
  split
  swap
  · exact h
  rename_i henabled
  simp only [PeerNet.consumerEnabled, Bool.and_eq_true, Bool.not_eq_true'] at henabled
  obtain ⟨⟨_, hdelivers⟩, hfresh⟩ := henabled
  have hfresh' : ∀ r ∈ event.random, r ∉ net.drawn := by
    intro r hr
    rw [show event.random = some r from hr] at hfresh
    simpa using hfresh
  have hheard := PeerNet.delivers_mem hdelivers
  have hknown := h.publisherSide.known
  have hpending := lookup_pending h.consumerIds
  obtain ⟨sessions, establishing, sent, hstep, hsessions, hcalls⟩ :=
    Consumer.step_turn kcp net.consumer event
  have hsteps : SideSteps kcp (Opens kcp true net.consumer.proto net.consumer.pending)
      net.publisher.side.emitted net.consumer.side (net.consumer.step kcp event).1.side :=
    Consumer.step_steps event hheard h.establishes fun _ => hpending
  rw [h.consumerMode] at hsteps
  obtain ⟨hside, _⟩ := h.consumerSide.steps hkcp hknown
    (fun link ⟨sessionId, _, now, hlink⟩ => ⟨sessionId, now, hlink⟩) hsteps
  have hids := Consumer.step_ids h.consumerSide hkcp hknown h.establishes h.consumerMode hheard
  have hposted : ((net.consumer.step kcp event).2.toList.map callId).Sublist
      (event.random.toList.map some) := by
    cases hcall : (net.consumer.step kcp event).2 with
    | none => exact List.nil_sublist _
    | some call =>
      obtain ⟨random, _, hsession, hrandom⟩ := hcalls call hcall
      rw [hrandom h.consumerMode]
      simp [callId, hsession, h.consumerMode, Consumer.sessionToken, decodeSessionId_streamToken]
  have hpublisherIds : (net.publisher.ids ++
      (net.calls ++ (net.consumer.step kcp event).2.toList).map callId).Subperm
        (net.publisher.ids ++ net.calls.map callId ++ event.random.toList.map some) := by
    rw [List.map_append, ← List.append_assoc, List.subperm_append_left]
    exact hposted.subperm
  refine ⟨?_, h.publisherMode, ?_, hside, ⟨hside.paired.symm, h.publisherSide.said⟩, ?_, ?_, ?_⟩
  · rw [hstep]
    exact h.consumerMode
  · rw [hstep]
    exact Consumer.establishes_turn h.establishes hsessions
  · refine nodup_of_subperm hids (nodup_random h.consumerIds ?_ hfresh')
    exact fun id hid => h.drawn id (List.mem_append_left _ hid)
  · refine nodup_of_subperm hpublisherIds (nodup_random h.publisherIds ?_ hfresh')
    exact fun id hid => h.drawn id (List.mem_append_right _ hid)
  · intro id hid
    have hor : id ∈ net.consumer.ids ++ (net.publisher.ids ++ net.calls.map callId) ∨
        id ∈ event.random.toList.map some := by
      rcases List.mem_append.mp hid with hid | hid
      · rcases List.mem_append.mp (hids.subset hid) with hid | hid
        · exact Or.inl (List.mem_append_left _ hid)
        · exact Or.inr hid
      · rcases List.mem_append.mp (hpublisherIds.subset hid) with hid | hid
        · exact Or.inl (List.mem_append_right _ hid)
        · exact Or.inr hid
    rcases hor with hold | hnew
    · obtain ⟨random, hrandom, hsome⟩ := h.drawn id hold
      exact ⟨random, List.mem_append_left _ hrandom, hsome⟩
    · obtain ⟨random, hrandom, rfl⟩ := List.mem_map.mp hnew
      exact ⟨random, List.mem_append_right _ hrandom, rfl⟩

theorem publisher_step (h : StreamNet kcp net) (hkcp : Reliable kcp) (event : PublisherEvent) :
    StreamNet kcp (net.step kcp (.publisher event)) := by
  cases henabled : net.publisherEnabled event with
  | false =>
    have hsame : net.step kcp (.publisher event) = net := by simp [PeerNet.step, henabled]
    rw [hsame]
    exact h
  | true =>
    obtain ⟨polled, calls, hnet, hperm⟩ := PeerNet.step_publisher kcp henabled
    simp only [PeerNet.publisherEnabled, Bool.and_eq_true] at henabled
    have hheard := PeerNet.delivers_mem henabled.2
    have hknown := h.consumerSide.known
    have hpending := lookup_pending (List.nodup_append.mp h.publisherIds).1
    obtain ⟨sessions, answering, sent, hstep, _⟩ :=
      Publisher.step_turn kcp net.publisher polled event
    have hsteps : SideSteps kcp (Opens kcp false net.publisher.proto net.publisher.pending)
        net.consumer.side.emitted net.publisher.side (net.publisher.step kcp polled event).side :=
      Publisher.step_steps polled event hheard fun _ => hpending
    rw [h.publisherMode] at hsteps
    have hopened : ∀ link, Opens kcp false .tcp net.publisher.pending link →
        ∃ sessionId now, link = .tcp (Party.opened kcp false sessionId now) := by
      rintro link ⟨sessionId, _, now, hlink⟩
      exact ⟨sessionId, now, hlink⟩
    obtain ⟨hside, _⟩ := h.publisherSide.steps hkcp hknown hopened hsteps
    have hids := Publisher.step_ids h.publisherSide hkcp hknown h.publisherMode polled hheard
    have hmoved : ((net.publisher.step kcp polled event).ids ++ calls.map callId).Subperm
        (net.publisher.ids ++ net.calls.map callId) := by
      refine ((List.subperm_append_right _).mpr hids).trans ?_
      rw [List.append_assoc, ← List.map_append, List.subperm_append_left]
      exact (hperm.map callId).subperm
    rw [hnet]
    refine ⟨h.consumerMode, ?_, h.establishes, ⟨hside.paired.symm, h.consumerSide.said⟩, hside,
      h.consumerIds, nodup_of_subperm hmoved h.publisherIds, ?_⟩
    · rw [hstep]
      exact h.publisherMode
    · intro id hid
      apply h.drawn id
      rcases List.mem_append.mp hid with hid | hid
      · exact List.mem_append_left _ hid
      · exact List.mem_append_right _ (hmoved.subset hid)

theorem step (h : StreamNet kcp net) (hkcp : Reliable kcp) (event : PeerNetEvent) :
    StreamNet kcp (net.step kcp event) := by
  cases event with
  | consumer event => exact h.consumer_step hkcp event
  | publisher event => exact h.publisher_step hkcp event
  | lose index =>
    have hsub : (net.publisher.ids ++ (net.calls.eraseIdx index).map callId).Sublist
        (net.publisher.ids ++ net.calls.map callId) :=
      ((List.eraseIdx_sublist _ _).map callId).append_left _
    refine ⟨h.consumerMode, h.publisherMode, h.establishes, h.consumerSide, h.publisherSide,
      h.consumerIds, hsub.nodup h.publisherIds, fun id hid => h.drawn id ?_⟩
    exact (hsub.append_left _).subset hid

theorem start {config : PeerNet.Config} (hconsumer : config.consumerProto = .tcp)
    (hpublisher : config.publisherProto = .tcp) (kcp : Ops κ) (peerCandidates : List Candidate) :
    StreamNet kcp (.start config peerCandidates) where
  consumerMode := hconsumer
  publisherMode := hpublisher
  establishes := nofun
  consumerSide := ⟨Paired.nil kcp, nofun⟩
  publisherSide := ⟨(Paired.nil kcp).symm, nofun⟩
  consumerIds := List.nodup_nil
  publisherIds := List.nodup_nil
  drawn := nofun

theorem clean (h : StreamNet kcp net) (hkcp : Reliable kcp) : net.Clean :=
  ⟨h.publisherSide.paired.clean hkcp, h.consumerSide.paired.clean hkcp⟩

end StreamNet

end Redp2p
