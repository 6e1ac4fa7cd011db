import Redp2p.Punch

/-! The port sweep of a punch: which endpoints a punch tries when nobody answers. -/

namespace Redp2p

open ByteString

/-! ### The loops of a punch -/

/-- What one step of a punch finds outside: whether its deadline has passed, and what arrives while it
waits. -/
structure PunchStep where
  late : Bool
  arrivals : List Arrival

/-- A packet on its way to an endpoint of a candidate. -/
abbrev Probe := Candidate × SockAddr

/-- The packets of `redp2p_punch_send_candidate`, candidate by candidate. -/
def directProbes (candidates : List Candidate) : List Probe :=
  candidates.flatMap fun c => (candidateSockaddr c).toList.map fun target => (c, target)

/-- The packets of a sweep at an offset. -/
def sweepProbes (offset : Int) (candidates : List Candidate) : List Probe :=
  candidates.flatMap fun c => (sweepTargets offset c).map fun target => (c, target)

/-- The loop over the direct rounds, of which `n` are left: the packets, and the address that it selects. -/
def directRounds (direct : List Candidate) (steps : Nat → List Arrival) :
    Nat → Punching → List Probe × Option SockAddr × Punching
  | 0, punching => ([], none, punching)
  | n + 1, punching =>
    match punching.waitResponse (steps n) with
    | (punching, some selected, _) => (directProbes direct, some selected, punching)
    | (punching, none, _) =>
      let (probes, selected, punching) := directRounds direct steps n punching
      (directProbes direct ++ probes, selected, punching)

/-- The loops over the offsets of a sweep. The clock does not go back, so that the first check which finds the
deadline passed ends both. -/
def sweepRounds (candidates : List Candidate) (steps : Int → PunchStep) :
    List Int → Punching → List Probe × Option SockAddr
  | [], _ => ([], none)
  | offset :: offsets, punching =>
    if (steps offset).late then ([], none)
    else
      match punching.waitResponse (steps offset).arrivals with
      | (_, some selected, _) => (sweepProbes offset candidates, some selected)
      | (punching, none, _) =>
        let (probes, selected) := sweepRounds candidates steps offsets punching
        (sweepProbes offset candidates ++ probes, selected)

/-- The offsets of a sweep, in the order of the loops over their size and their sign. The deadline passes long
before one could leave the range of an `int`. -/
def sweepOffsets (sweepLimit : Int) : List Int :=
  (List.range sweepLimit.toNat).flatMap fun sweep : Nat => [-((sweep : Int) + 1), (sweep : Int) + 1]

/-- `redp2p_punch_select`: its packets, and the address that it selects. -/
def punchSelect (sweepLimit : Int) (session fromId toId : Bytes) (candidates : List Candidate)
    (direct : Nat → List Arrival) (sweeps : Int → PunchStep) : List Probe × Option SockAddr :=
  if candidates = [] then ([], none)
  else
    let directs := candidates.filter (·.priority < 300)
    let rounds := if directs = [] then 0 else punchDirectRounds
    match directRounds directs direct rounds ⟨session, fromId, toId, [], 0, 0⟩ with
    | (probes, some selected, _) => (probes, some selected)
    | (probes, none, punching) =>
      let (more, selected) := sweepRounds candidates sweeps (sweepOffsets sweepLimit) punching
      (probes ++ more, selected)

/-! ### A punch that nobody answers -/

/-- No datagram of these is a response. -/
def Unanswered (session fromId toId : Bytes) (arrivals : List Arrival) : Prop :=
  ∀ arrival ∈ arrivals, ∀ pong, punchCheck session fromId toId arrival.data ≠ .accepted pong

/-- A wait without a response selects nothing, and leaves the punch as it is but for its counts. -/
theorem waitResponse_unanswered {punching : Punching} {arrivals : List Arrival}
    (h : Unanswered punching.session punching.fromId punching.toId arrivals) :
    ∃ next, punching.waitResponse arrivals = (next, none, []) ∧ next.session = punching.session ∧
      next.fromId = punching.fromId ∧ next.toId = punching.toId := by
  induction arrivals generalizing punching with
  | nil => exact ⟨punching, rfl, rfl, rfl, rfl⟩
  | cons arrival arrivals ih =>
    obtain ⟨hfirst, hrest⟩ := List.forall_mem_cons.mp h
    have hheard : ∃ next, punching.hear arrival = (next, none, []) ∧ next.session = punching.session ∧
        next.fromId = punching.fromId ∧ next.toId = punching.toId := by
      unfold Punching.hear
      cases hcheck : punchCheck punching.session punching.fromId punching.toId arrival.data with
      | ignored => exact ⟨_, rfl, rfl, rfl, rfl⟩
      | malformed => exact ⟨_, rfl, rfl, rfl, rfl⟩
      | mismatched => exact ⟨_, rfl, rfl, rfl, rfl⟩
      | accepted pong => exact absurd hcheck (hfirst pong)
    obtain ⟨next, hhear, hsession, hfrom, hto⟩ := hheard
    rw [← hsession, ← hfrom, ← hto] at hrest
    obtain ⟨last, hwait, hsession', hfrom', hto'⟩ := ih hrest
    refine ⟨last, ?_, hsession'.trans hsession, hfrom'.trans hfrom, hto'.trans hto⟩
    simp only [Punching.waitResponse, hhear]
    exact hwait

theorem directRounds_unanswered (direct : List Candidate) {steps : Nat → List Arrival} (n : Nat)
    {punching : Punching}
    (h : ∀ i, Unanswered punching.session punching.fromId punching.toId (steps i)) :
    ∃ next, directRounds direct steps n punching =
        ((List.replicate n (directProbes direct)).flatten, none, next) ∧
      next.session = punching.session ∧ next.fromId = punching.fromId ∧ next.toId = punching.toId := by
  induction n generalizing punching with
  | zero => exact ⟨punching, rfl, rfl, rfl, rfl⟩
  | succ n ih =>
    obtain ⟨next, hwait, hsession, hfrom, hto⟩ := waitResponse_unanswered (h n)
    have hnext : ∀ i, Unanswered next.session next.fromId next.toId (steps i) := by
      rwa [hsession, hfrom, hto]
    obtain ⟨last, hrounds, hsession', hfrom', hto'⟩ := ih hnext
    refine ⟨last, ?_, hsession'.trans hsession, hfrom'.trans hfrom, hto'.trans hto⟩
    simp only [directRounds, hwait, hrounds, List.replicate_succ, List.flatten_cons]

theorem sweepRounds_unanswered {candidates : List Candidate} {steps : Int → PunchStep} (offsets : List Int)
    {punching : Punching} (hlate : ∀ offset, (steps offset).late = false)
    (h : ∀ offset, Unanswered punching.session punching.fromId punching.toId (steps offset).arrivals) :
    sweepRounds candidates steps offsets punching =
      (offsets.flatMap fun offset => sweepProbes offset candidates, none) := by
  induction offsets generalizing punching with
  | nil => rfl
  | cons offset offsets ih =>
    obtain ⟨next, hwait, hsession, hfrom, hto⟩ := waitResponse_unanswered (h offset)
    have hnext : ∀ offset, Unanswered next.session next.fromId next.toId (steps offset).arrivals := by
      rwa [hsession, hfrom, hto]
    have hrest := ih hnext
    simp only [sweepRounds, hlate, Bool.false_eq_true, if_false, hwait, hrest, List.flatMap_cons]

section Quiet

variable {sweepLimit : Int} {session fromId toId : Bytes} {candidates : List Candidate}
  {direct : Nat → List Arrival} {sweeps : Int → PunchStep}

/-- The packets of a punch that nobody answers before its deadline: all direct rounds, and then all offsets. -/
theorem punchSelect_unanswered (hlate : ∀ offset, (sweeps offset).late = false)
    (hdirect : ∀ i, Unanswered session fromId toId (direct i))
    (hsweeps : ∀ offset, Unanswered session fromId toId (sweeps offset).arrivals) :
    punchSelect sweepLimit session fromId toId candidates direct sweeps =
      ((if candidates.filter (·.priority < 300) = [] then []
        else (List.replicate punchDirectRounds (directProbes (candidates.filter (·.priority < 300)))).flatten) ++
          (sweepOffsets sweepLimit).flatMap fun offset => sweepProbes offset candidates, none) := by
  by_cases hnil : candidates = []
  · subst hnil
    simp [punchSelect, sweepProbes]
  · obtain ⟨next, hrounds, hsession, hfrom, hto⟩ := directRounds_unanswered
      (candidates.filter (·.priority < 300))
      (if candidates.filter (·.priority < 300) = [] then 0 else punchDirectRounds)
      (show ∀ i, Unanswered (Punching.mk session fromId toId [] 0 0).session _ _ (direct i) from hdirect)
    have hnext : ∀ offset, Unanswered next.session next.fromId next.toId (sweeps offset).arrivals := by
      rwa [hsession, hfrom, hto]
    have hsweep : sweepRounds candidates sweeps (sweepOffsets sweepLimit) next = _ :=
      sweepRounds_unanswered _ hlate hnext
    simp only [punchSelect, if_neg hnil, hrounds, hsweep]
    split <;> rfl

/-- They go where the rounds of the punch say. -/
theorem punchSelect_targets (hlate : ∀ offset, (sweeps offset).late = false)
    (hdirect : ∀ i, Unanswered session fromId toId (direct i))
    (hsweeps : ∀ offset, Unanswered session fromId toId (sweeps offset).arrivals) :
    (punchSelect sweepLimit session fromId toId candidates direct sweeps).1.map Prod.snd =
      (punchTargets sweepLimit.toNat candidates).flatten := by
  have hround (l : List Candidate) : (directProbes l).map Prod.snd = l.filterMap candidateSockaddr := by
    induction l with
    | nil => rfl
    | cons c l ih =>
      rw [directProbes, List.flatMap_cons, List.map_append, ← directProbes, ih, List.filterMap_cons]
      cases candidateSockaddr c <;> rfl
  have hoffset (offset : Int) :
      (sweepProbes offset candidates).map Prod.snd = candidates.flatMap (sweepTargets offset) := by
    simp only [sweepProbes, List.map_flatMap, List.map_map, Function.comp_def, List.map_id']
  rw [punchSelect_unanswered hlate hdirect hsweeps, punchTargets, List.flatten_append, List.map_append]
  congr 1
  · split
    · rfl
    · rw [List.map_flatten, List.map_replicate, hround]
  · have hoffsets : (List.range sweepLimit.toNat).flatMap (fun sweep => [-((sweep : Int) + 1), (sweep : Int) + 1]) =
        sweepOffsets sweepLimit := by
      change List.flatMap _ (List.flatMap (fun sweep : Nat => [(sweep : Int)]) _) = _
      rw [List.flatMap_assoc]
      rfl
    rw [List.map_flatMap, ← List.flatMap_def, hoffsets, funext hoffset]

end Quiet

/-! ### The ports of a sweep -/

theorem mem_sweepOffsets {sweepLimit offset : Int} :
    offset ∈ sweepOffsets sweepLimit ↔ offset ≠ 0 ∧ |offset| ≤ max 0 sweepLimit := by
  have hsign : offset ∈ sweepOffsets sweepLimit ↔
      ∃ sweep : Nat, sweep < sweepLimit.toNat ∧ (offset = -((sweep : Int) + 1) ∨ offset = (sweep : Int) + 1) := by
    simp only [sweepOffsets, List.mem_flatMap, List.mem_range, List.mem_cons, List.not_mem_nil, or_false]
  have habs : |offset| ≤ max 0 sweepLimit ↔ offset.natAbs ≤ sweepLimit.toNat := by
    rw [Int.abs_eq_natAbs]
    omega
  rw [hsign, habs]
  constructor
  · rintro ⟨sweep, hsweep, rfl | rfl⟩
    · omega
    · omega
  · rintro ⟨hne, hsize⟩
    refine ⟨offset.natAbs - 1, ?_, ?_⟩
    · omega
    · omega

theorem mem_directProbes {candidates : List Candidate} {c : Candidate} {target : SockAddr} :
    (c, target) ∈ directProbes candidates ↔ c ∈ candidates ∧ candidateSockaddr c = some target := by
  simp [directProbes]

theorem mem_sweepProbes {offset : Int} {candidates : List Candidate} {c : Candidate} {target : SockAddr} :
    (c, target) ∈ sweepProbes offset candidates ↔ c ∈ candidates ∧ target ∈ sweepTargets offset c := by
  simp [sweepProbes]

/-- A candidate that was seen from outside. -/
def Candidate.Outside (c : Candidate) : Prop := c.type = .candSrflx ∨ c.type = .candPublic

/-- Where a sweep sends for an IPv4 candidate that was seen from outside. -/
theorem mem_sweepTargets_outside {c : Candidate} (hout : c.Outside) {address : Bytes} {port : UInt16}
    (hinet : candidateSockaddr c = some (.inet address port)) {offset : Int} {target : SockAddr} :
    target ∈ sweepTargets offset c ↔ target = .inet address port ∨
      ∃ q : UInt16, target = .inet address q ∧ q ≠ 0 ∧ (q.toNat : Int) = port.toNat + offset := by
  have hport (q : UInt16) (hq : (q.toNat : Int) = port.toNat + offset) :
      UInt16.ofNat ((port.toNat : Int) + offset).toNat = q := by
    rw [← hq, Int.toNat_natCast, UInt16.ofNat_toNat]
  have hzero (q : UInt16) : q ≠ 0 ↔ 0 < q.toNat := by
    rw [Nat.pos_iff_ne_zero, ne_eq, ne_eq, ← UInt16.toNat_inj, UInt16.toNat_zero]
  simp only [sweepTargets, hinet]
  split
  · rename_i hbounds
    obtain ⟨-, hlow, hhigh⟩ := hbounds
    simp only [List.mem_cons, List.not_mem_nil, or_false]
    refine or_congr_right ⟨?_, ?_⟩
    · rintro rfl
      have hvalue : (UInt16.ofNat ((port.toNat : Int) + offset).toNat).toNat =
          ((port.toNat : Int) + offset).toNat := by
        rw [UInt16.toNat_ofNat', Nat.mod_eq_of_lt (by omega)]
      refine ⟨_, rfl, ?_, ?_⟩
      · rw [hzero, hvalue]
        omega
      · rw [hvalue]
        omega
    · rintro ⟨q, rfl, -, hq⟩
      rw [hport q hq]
  · rename_i hbounds
    simp only [List.mem_cons, List.not_mem_nil, or_false]
    refine ⟨Or.inl, ?_⟩
    rintro (htarget | ⟨q, rfl, hne, hq⟩)
    · exact htarget
    · have hlow := (hzero q).mp hne
      have hhigh := q.toNat_lt
      exact absurd ⟨hout, by omega, by omega⟩ hbounds

/-- A sweep sends nothing beside the endpoint of any other candidate. -/
theorem mem_sweepTargets_other {c : Candidate} {offset : Int} {target : SockAddr}
    (hother : ¬ (c.Outside ∧ ∃ address port, candidateSockaddr c = some (.inet address port)))
    (h : target ∈ sweepTargets offset c) : candidateSockaddr c = some target := by
  unfold sweepTargets at h
  split at h
  · exact nomatch h
  · rename_i address port hinet
    rw [if_neg fun hbounds => hother ⟨hbounds.1, address, port, hinet⟩] at h
    rw [List.mem_singleton.mp h]
    exact hinet
  · rename_i endpoint hendpoint
    rw [List.mem_singleton.mp h]
    exact hendpoint

/-- Either loop probes for the candidates of its list. -/
theorem mem_punchSelect {sweepLimit : Int} {session fromId toId : Bytes} {candidates : List Candidate}
    {direct : Nat → List Arrival} {sweeps : Int → PunchStep} (hlate : ∀ offset, (sweeps offset).late = false)
    (hdirect : ∀ i, Unanswered session fromId toId (direct i))
    (hsweeps : ∀ offset, Unanswered session fromId toId (sweeps offset).arrivals) {c : Candidate}
    {target : SockAddr} :
    (c, target) ∈ (punchSelect sweepLimit session fromId toId candidates direct sweeps).1 ↔
      c ∈ candidates ∧ (c.priority < 300 ∧ candidateSockaddr c = some target ∨
        ∃ offset ∈ sweepOffsets sweepLimit, target ∈ sweepTargets offset c) := by
  have hdirects : (c, target) ∈ (if candidates.filter (·.priority < 300) = [] then [] else
        (List.replicate punchDirectRounds (directProbes (candidates.filter (·.priority < 300)))).flatten) ↔
      c ∈ candidates ∧ c.priority < 300 ∧ candidateSockaddr c = some target := by
    split
    · rename_i hnil
      have hnone := List.filter_eq_nil_iff.mp hnil
      simp only [decide_eq_true_eq] at hnone
      simp only [List.not_mem_nil, false_iff]
      exact fun ⟨hmem, hpriority, _⟩ => hnone c hmem hpriority
    · have hrounds : punchDirectRounds ≠ 0 := by decide
      rw [List.mem_flatten]
      simp only [List.mem_replicate, and_assoc, exists_and_left]
      simp only [ne_eq, hrounds, not_false_eq_true, true_and, exists_eq_left, mem_directProbes, List.mem_filter,
        decide_eq_true_eq, and_assoc]
  rw [punchSelect_unanswered hlate hdirect hsweeps, List.mem_append, hdirects, List.mem_flatMap]
  simp only [mem_sweepProbes]
  constructor
  · rintro (⟨hmem, hprobe⟩ | ⟨offset, hoffset, hmem, hprobe⟩)
    · exact ⟨hmem, Or.inl hprobe⟩
    · exact ⟨hmem, Or.inr ⟨offset, hoffset, hprobe⟩⟩
  · rintro ⟨hmem, hprobe | ⟨offset, hoffset, hprobe⟩⟩
    · exact Or.inl ⟨hmem, hprobe⟩
    · exact Or.inr ⟨offset, hoffset, hmem, hprobe⟩

theorem candidateSockaddr_inet {c : Candidate} {address : Bytes} (haddress : inetPton4 c.addr = some address)
    (hport : c.port ≠ 0) : candidateSockaddr c = some (.inet address c.port) := by
  simp only [candidateSockaddr, if_neg hport, haddress]

/-- An IPv4 candidate that was seen from outside ranks among the direct ones. -/
theorem outside_direct {c : Candidate} (hout : c.Outside) {address : Bytes}
    (haddress : inetPton4 c.addr = some address) (hranked : c.priority = candidatePriority c.type c.addr) :
    c.priority < 300 := by
  rw [hranked]
  rcases hout with htype | htype
  · simp [candidatePriority, htype, haddress]
  · simp [candidatePriority, htype, haddress]

/-- A punch that nobody answers probes an IPv4 candidate that was seen from outside at every port within the sweep
limit of its own and at no other one, and any other candidate at its own endpoint alone. -/
theorem port_sweep_covers (sweepLimit : Int) (session fromId toId : Bytes) (candidates : List Candidate)
    (direct : Nat → List Arrival) (sweeps : Int → PunchStep)
    (hlate : ∀ offset, (sweeps offset).late = false)
    (hdirect : ∀ i, Unanswered session fromId toId (direct i))
    (hsweeps : ∀ offset, Unanswered session fromId toId (sweeps offset).arrivals) :
    let probes := (punchSelect sweepLimit session fromId toId candidates direct sweeps).1
    (∀ c ∈ candidates, c.Outside → c.port ≠ 0 → c.priority = candidatePriority c.type c.addr →
      ∀ address, inetPton4 c.addr = some address → ∀ target, (c, target) ∈ probes ↔
        ∃ q : UInt16, target = .inet address q ∧ q ≠ 0 ∧
          |(q.toNat : Int) - c.port.toNat| ≤ max 0 sweepLimit) ∧
    (∀ c target, (c, target) ∈ probes → ¬ (c.Outside ∧ (inetPton4 c.addr).isSome) →
      c ∈ candidates ∧ candidateSockaddr c = some target) := by
  refine ⟨?_, ?_⟩
  · intro c hmem hout hport hrank address haddress target
    have hinet := candidateSockaddr_inet haddress hport
    have hown : (c.port.toNat : Int) - c.port.toNat = 0 := by omega
    rw [mem_punchSelect hlate hdirect hsweeps, hinet]
    simp only [mem_sweepTargets_outside hout hinet, mem_sweepOffsets]
    constructor
    · rintro ⟨-, ⟨-, htarget⟩ | ⟨offset, hoffset, htarget | ⟨q, htarget, hne, hq⟩⟩⟩
      · exact ⟨c.port, (Option.some.inj htarget).symm, hport, by simp⟩
      · exact ⟨c.port, htarget, hport, by simp⟩
      · have hdistance : (q.toNat : Int) - c.port.toNat = offset := by omega
        exact ⟨q, htarget, hne, hdistance ▸ hoffset.2⟩
    · rintro ⟨q, rfl, hne, hdistance⟩
      refine ⟨hmem, ?_⟩
      by_cases hq : q = c.port
      · exact Or.inl ⟨outside_direct hout haddress hrank, by rw [hq]⟩
      · have hnat : (q.toNat : Int) - c.port.toNat ≠ 0 := by
          intro hzero
          exact hq (UInt16.toNat_inj.mp (by omega))
        exact Or.inr ⟨_, ⟨hnat, hdistance⟩, Or.inr ⟨q, rfl, hne, by omega⟩⟩
  · intro c target hprobe hother
    have hfamily : ¬ (c.Outside ∧ ∃ address port, candidateSockaddr c = some (.inet address port)) := by
      rintro ⟨hout, address, port, hinet⟩
      refine hother ⟨hout, ?_⟩
      unfold candidateSockaddr at hinet
      split at hinet
      · exact nomatch hinet
      split at hinet
      · simp [*]
      · simp at hinet
    obtain ⟨hmem, ⟨-, htarget⟩ | ⟨offset, -, htarget⟩⟩ := (mem_punchSelect hlate hdirect hsweeps).mp hprobe
    · exact ⟨hmem, htarget⟩
    · exact ⟨hmem, mem_sweepTargets_other hfamily htarget⟩

/-- A sweep of three ports about 65534 probes 65535, and nothing of a host beside it. -/
theorem port_sweep_covers_sample :
    let seen : Candidate := ⟨.candSrflx, ascii "203.0.113.7", 65534, 230⟩
    let host : Candidate := ⟨.candHost, ascii "192.168.1.2", 4000, 200⟩
    let probes := (punchSelect 3 (ascii "s") (ascii "a") (ascii "b") [host, seen] (fun _ => [])
      fun _ => ⟨false, []⟩).1
    (seen, .inet [203, 0, 113, 7] 65535) ∈ probes ∧
    (∀ target, (seen, target) ∈ probes → ∃ q : UInt16, target = .inet [203, 0, 113, 7] q ∧ 65531 ≤ q.toNat) ∧
    ∀ target, (host, target) ∈ probes → candidateSockaddr host = some target := by
  intro seen host probes
  have hquiet : Unanswered (ascii "s") (ascii "a") (ascii "b") [] := fun _ h => absurd h List.not_mem_nil
  obtain ⟨hseen, hother⟩ := port_sweep_covers 3 (ascii "s") (ascii "a") (ascii "b") [host, seen] (fun _ => [])
    (fun _ => ⟨false, []⟩) (fun _ => rfl) (fun _ => hquiet) fun _ => hquiet
  have haddress : inetPton4 seen.addr = some [203, 0, 113, 7] := by decide +kernel
  have hrank : seen.priority = candidatePriority seen.type seen.addr := by decide +kernel
  have hprobes := hseen seen (by simp) (Or.inl rfl) (by decide) hrank _ haddress
  refine ⟨?_, ?_, ?_⟩
  · exact (hprobes _).mpr ⟨65535, rfl, by decide, by decide⟩
  · intro target htarget
    obtain ⟨q, rfl, -, hdistance⟩ := (hprobes target).mp htarget
    have hport : (seen.port.toNat : Int) = 65534 := rfl
    rw [hport, Int.abs_eq_natAbs] at hdistance
    exact ⟨q, rfl, by omega⟩
  · intro target htarget
    refine (hother host target htarget ?_).2
    rintro ⟨htype | htype, -⟩
    · exact nomatch htype
    · exact nomatch htype

end Redp2p
