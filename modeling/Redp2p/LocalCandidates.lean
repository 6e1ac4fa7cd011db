import Redp2p.Punch
import Redp2p.Lib.LeastByKey
import Mathlib.Data.Prod.Lex

/-! The candidates that a peer gathers: their priorities and their order, and the list that
`redp2p_normalize_candidates` makes of them, over any reading of address texts. -/

namespace Redp2p

open ByteString LeastByKey

/-- What `inet_pton` makes of a text in each family. -/
structure InetPton where
  inet : Bytes → Option Bytes
  inet6 : Bytes → Option Bytes

def systemPton : InetPton := ⟨inetPton4, inetPton6⟩

inductive AddrFamily where
  | inet | inet6
  deriving DecidableEq

/-- A candidate before it is ranked. Its type is any value that the field holds. -/
@[ext]
structure LocalCandidate where
  type : Int
  addr : Bytes
  port : UInt16
  priority : Nat
  deriving DecidableEq

def candidatesMax : Nat := 16

/-- `strcmp` on texts without their NUL, by characters without sign. -/
def strcmp : Bytes → Bytes → Int
  | [], [] => 0
  | [], _ :: _ => -1
  | _ :: _, [] => 1
  | a :: as, b :: bs => if a = b then strcmp as bs else (a.toNat : Int) - b.toNat

def sockaddrEqual : SockAddr → SockAddr → Bool
  | .inet a aPort, .inet b bPort => aPort == bPort && a == b
  | .inet6 a aPort, .inet6 b bPort => aPort == bPort && a == b
  | _, _ => false

namespace LocalCandidate

variable (pton : InetPton)

def candidateFamily (c : LocalCandidate) : Option AddrFamily :=
  if (pton.inet c.addr).isSome then some .inet
  else if (pton.inet6 c.addr).isSome then some .inet6
  else none

/-- The priority of a type over that of the family. The enum counts its values from 1. -/
def typePriority (base : Nat) (type : Int) : Nat :=
  if type = 1 then base
  else if type = 2 then base + 10
  else if type = 3 then base + 20
  else if type = 4 then base + 30
  else if type = 5 then base + 40
  else if type = 6 then base + 50
  else 900

def candidatePriority (c : LocalCandidate) : Nat :=
  match c.candidateFamily pton with
  | some .inet6 => typePriority 100 c.type
  | some .inet => typePriority 200 c.type
  | none => 900

def candidateSockaddr (c : LocalCandidate) : Option SockAddr :=
  if c.port = 0 then none
  else
    match pton.inet c.addr with
    | some address => some (.inet address c.port)
    | none => (pton.inet6 c.addr).map fun address => .inet6 address c.port

def sameEndpoint (a b : LocalCandidate) : Bool :=
  if a.port ≠ b.port then false
  else if a.candidateFamily pton ≠ b.candidateFamily pton then false
  else
    match a.candidateSockaddr pton, b.candidateSockaddr pton with
    | some aa, some bb => sockaddrEqual aa bb
    | _, _ => false

def candidateCompare (a b : LocalCandidate) : Int :=
  if a.priority ≠ b.priority then if a.priority < b.priority then -1 else 1
  else if a.type ≠ b.type then a.type - b.type
  else if strcmp a.addr b.addr ≠ 0 then strcmp a.addr b.addr
  else (a.port.toNat : Int) - b.port.toNat

def ranked (c : LocalCandidate) : LocalCandidate := { c with priority := c.candidatePriority pton }

/-- The checks of one candidate, and its own priority. -/
def prepare (c : LocalCandidate) : Option LocalCandidate :=
  if c.port = 0 then none
  else if c.candidateFamily pton = none then none
  else if (c.ranked pton).priority ≥ 900 then none
  else some (c.ranked pton)

def precedes (a b : LocalCandidate) : Bool := candidateCompare a b < 0

/-- One turn of the scan over the array, of which the first `n` entries are kept. -/
def dedupTurn (state : List LocalCandidate × Nat) (i : Nat) : Option (List LocalCandidate × Nat) :=
  match state.1[i]? with
  | none => none
  | some c =>
    match c.prepare pton with
    | none => none
    | some c => some (place (sameEndpoint pton) precedes (state.1.set i c) state.2 c)

/-- The first `count` entries after success. -/
def normalizeCandidates (candidates : List LocalCandidate) : Option (List LocalCandidate) :=
  if candidates.length > candidatesMax then none
  else
    match (List.range candidates.length).foldlM (dedupTurn pton) (candidates, 0) with
    | none => none
    | some (cells, n) => some (insertionSort precedes (cells.take n))

end LocalCandidate

/-! ### The order -/

theorem strcmp_eq_zero_iff {a b : Bytes} : strcmp a b = 0 ↔ a = b := by
  induction a generalizing b with
  | nil => cases b <;> simp [strcmp]
  | cons x a ih =>
    cases b with
    | nil => simp [strcmp]
    | cons y b =>
      rw [strcmp]
      split
      · rename_i hxy
        simp [hxy, ih]
      · rename_i hxy
        have hne : x.toNat ≠ y.toNat := fun h => hxy (UInt8.toNat_inj.mp h)
        simp only [List.cons.injEq, hxy, false_and, iff_false]
        omega

theorem strcmp_neg_iff {a b : Bytes} : strcmp a b < 0 ↔ a.map UInt8.toNat < b.map UInt8.toNat := by
  induction a generalizing b with
  | nil => cases b <;> simp [strcmp]
  | cons x a ih =>
    cases b with
    | nil => simp [strcmp]
    | cons y b =>
      rw [strcmp, List.map_cons, List.map_cons, List.cons_lt_cons_iff]
      split
      · rename_i hxy
        simp [hxy, ih]
      · rename_i hxy
        have hne : x.toNat ≠ y.toNat := fun h => hxy (UInt8.toNat_inj.mp h)
        simp only [hne, false_and, or_false]
        omega

namespace LocalCandidate

/-- The fields of a candidate in the order in which they are compared. -/
def sortKey (c : LocalCandidate) : ℕ ×ₗ ℤ ×ₗ List ℕ ×ₗ ℕ :=
  toLex (c.priority, toLex (c.type, toLex (c.addr.map UInt8.toNat, c.port.toNat)))

theorem sortKey_injective : Function.Injective sortKey := by
  intro a b h
  simp only [sortKey, EmbeddingLike.apply_eq_iff_eq, Prod.mk.injEq] at h
  obtain ⟨hpriority, htype, haddr, hport⟩ := h
  exact LocalCandidate.ext htype ((List.map_injective_iff.mpr fun _ _ => UInt8.toNat_inj.mp) haddr)
    (UInt16.toNat_inj.mp hport) hpriority

instance : LinearOrder LocalCandidate := LinearOrder.lift' sortKey sortKey_injective

theorem candidateCompare_neg_iff {a b : LocalCandidate} : candidateCompare a b < 0 ↔ a < b := by
  show _ ↔ sortKey a < sortKey b
  simp only [sortKey, Prod.Lex.toLex_lt_toLex, ← strcmp_neg_iff]
  unfold candidateCompare
  have hmap : a.addr.map UInt8.toNat = b.addr.map UInt8.toNat ↔ strcmp a.addr b.addr = 0 := by
    rw [strcmp_eq_zero_iff]
    exact (List.map_injective_iff.mpr fun _ _ => UInt8.toNat_inj.mp).eq_iff
  rw [hmap]
  split
  · split <;> omega
  split
  · omega
  split <;> omega

theorem candidateCompare_nonpos {a b : LocalCandidate} (h : a ≤ b) : candidateCompare a b ≤ 0 := by
  rcases h.lt_or_eq with hlt | rfl
  · exact (candidateCompare_neg_iff.mpr hlt).le
  · simp [candidateCompare, strcmp_eq_zero_iff.mpr]

theorem precedes_iff {a b : LocalCandidate} : precedes a b = true ↔ a < b := by
  rw [precedes, decide_eq_true_eq, candidateCompare_neg_iff]

/-! ### The checks -/

variable (pton : InetPton)

/-- What a candidate needs to have a priority below 900 and an address. -/
structure WellFormed (c : LocalCandidate) : Prop where
  port : c.port ≠ 0
  address : (pton.inet c.addr).isSome = true ∨ (pton.inet6 c.addr).isSome = true
  type : 1 ≤ c.type ∧ c.type ≤ 6

variable {pton}

theorem candidateFamily_eq_none_iff {c : LocalCandidate} :
    c.candidateFamily pton = none ↔ pton.inet c.addr = none ∧ pton.inet6 c.addr = none := by
  unfold candidateFamily
  cases pton.inet c.addr <;> cases pton.inet6 c.addr <;> simp

theorem typePriority_lt_iff {base : Nat} (hbase : base ≤ 200) {type : Int} :
    typePriority base type < 900 ↔ 1 ≤ type ∧ type ≤ 6 := by
  unfold typePriority
  grind

theorem candidatePriority_lt_iff {c : LocalCandidate} (hfamily : c.candidateFamily pton ≠ none) :
    c.candidatePriority pton < 900 ↔ 1 ≤ c.type ∧ c.type ≤ 6 := by
  unfold candidatePriority
  cases h : c.candidateFamily pton with
  | none => exact absurd h hfamily
  | some family =>
    cases family with
    | inet => exact typePriority_lt_iff (by decide)
    | inet6 => exact typePriority_lt_iff (by decide)

theorem prepare_wellFormed {c : LocalCandidate} (h : c.WellFormed pton) :
    c.prepare pton = some (c.ranked pton) := by
  have hfamily : c.candidateFamily pton ≠ none := by
    rw [ne_eq, candidateFamily_eq_none_iff]
    rintro ⟨h4, h6⟩
    have haddress := h.address
    simp [h4, h6] at haddress
  have hpriority : (c.ranked pton).priority < 900 := (candidatePriority_lt_iff hfamily).mpr h.type
  rw [prepare, if_neg h.port, if_neg hfamily, if_neg (Nat.not_le.mpr hpriority)]

theorem prepare_malformed {c : LocalCandidate} (h : ¬ c.WellFormed pton) : c.prepare pton = none := by
  unfold prepare
  split
  · rfl
  rename_i hport
  split
  · rfl
  rename_i hfamily
  rw [if_pos]
  refine Nat.not_lt.mp fun hpriority => h ⟨hport, ?_, (candidatePriority_lt_iff hfamily).mp hpriority⟩
  rw [candidateFamily_eq_none_iff] at hfamily
  cases h4 : pton.inet c.addr with
  | some address => exact Or.inl rfl
  | none => exact Or.inr (Option.isSome_iff_ne_none.mpr fun h6 => hfamily ⟨h4, h6⟩)

theorem ranked_ranked (c : LocalCandidate) : (c.ranked pton).ranked pton = c.ranked pton := rfl

theorem WellFormed.ranked {c : LocalCandidate} (h : c.WellFormed pton) : (c.ranked pton).WellFormed pton :=
  ⟨h.port, h.address, h.type⟩

theorem WellFormed.sockaddr {c : LocalCandidate} (h : c.WellFormed pton) :
    ∃ endpoint, c.candidateSockaddr pton = some endpoint := by
  unfold candidateSockaddr
  rw [if_neg h.port]
  cases h4 : pton.inet c.addr with
  | some address => exact ⟨_, rfl⟩
  | none =>
    obtain ⟨address, h6⟩ : ∃ address, pton.inet6 c.addr = some address := by
      have haddress := h.address
      simpa [h4, Option.isSome_iff_exists] using haddress
    exact ⟨_, by rw [h6, Option.map_some]⟩

theorem sockaddrEqual_iff {a b : SockAddr} : sockaddrEqual a b = true ↔ a = b := by
  cases a <;> cases b <;> simp [sockaddrEqual, and_comm]

/-- The port and the family of a socket address. -/
theorem candidateSockaddr_fields {c : LocalCandidate} {endpoint : SockAddr}
    (h : c.candidateSockaddr pton = some endpoint) :
    (∃ address, endpoint = .inet address c.port ∧ c.candidateFamily pton = some .inet) ∨
      ∃ address, endpoint = .inet6 address c.port ∧ c.candidateFamily pton = some .inet6 := by
  unfold candidateSockaddr at h
  split at h
  · exact nomatch h
  split at h
  · rename_i address h4
    obtain rfl := Option.some.inj h
    exact Or.inl ⟨address, rfl, by simp [candidateFamily, h4]⟩
  · rename_i h4
    obtain ⟨address, h6, rfl⟩ := Option.map_eq_some_iff.mp h
    exact Or.inr ⟨address, rfl, by simp [candidateFamily, h4, h6]⟩

/-- Two candidates are the same endpoint when they have one socket address. -/
theorem sameEndpoint_iff {a b : LocalCandidate} (hb : b.WellFormed pton) :
    sameEndpoint pton a b = true ↔ a.candidateSockaddr pton = b.candidateSockaddr pton := by
  obtain ⟨endpoint, hendpoint⟩ := hb.sockaddr
  rw [hendpoint]
  constructor
  · intro h
    unfold sameEndpoint at h
    split at h
    · exact nomatch h
    split at h
    · exact nomatch h
    split at h
    · rename_i aa bb haa hbb
      obtain rfl := Option.some.inj (hendpoint.symm.trans hbb)
      rw [haa, sockaddrEqual_iff.mp h]
    · exact nomatch h
  · intro ha
    have hfields : a.port = b.port ∧ a.candidateFamily pton = b.candidateFamily pton := by
      rcases candidateSockaddr_fields ha with ⟨_, rfl, hafamily⟩ | ⟨_, rfl, hafamily⟩
      · rcases candidateSockaddr_fields hendpoint with ⟨_, hsame, hbfamily⟩ | ⟨_, hsame, -⟩
        · exact ⟨(SockAddr.inet.inj hsame).2, hafamily.trans hbfamily.symm⟩
        · exact nomatch hsame
      · rcases candidateSockaddr_fields hendpoint with ⟨_, hsame, -⟩ | ⟨_, hsame, hbfamily⟩
        · exact nomatch hsame
        · exact ⟨(SockAddr.inet6.inj hsame).2, hafamily.trans hbfamily.symm⟩
    unfold sameEndpoint
    rw [if_neg (not_not_intro hfields.1), if_neg (not_not_intro hfields.2), ha, hendpoint]
    exact sockaddrEqual_iff.mpr rfl

/-! ### The scan -/

/-- A scan over the candidates that are left: it stops at the first that is malformed, and keeps the
least candidate of each endpoint. -/
theorem dedup_turns (passed todo : List LocalCandidate) {seen kept : List LocalCandidate}
    (h : KeepsLeast (candidateSockaddr pton) seen kept) :
    ((List.range' (kept.length + passed.length) todo.length).foldlM (dedupTurn pton)
        (kept ++ passed ++ todo, kept.length) = none ∧ ∃ c ∈ todo, ¬ c.WellFormed pton) ∨
      ∃ cells n, (List.range' (kept.length + passed.length) todo.length).foldlM (dedupTurn pton)
          (kept ++ passed ++ todo, kept.length) = some (cells, n) ∧ (∀ c ∈ todo, c.WellFormed pton) ∧
        KeepsLeast (candidateSockaddr pton) (seen ++ todo.map (LocalCandidate.ranked pton)) (cells.take n) := by
  induction todo generalizing passed seen kept with
  | nil =>
    refine Or.inr ⟨kept ++ passed ++ [], kept.length, rfl, nofun, ?_⟩
    rw [List.append_assoc, List.take_left, List.map_nil, List.append_nil]
    exact h
  | cons c todo ih =>
    have hget : (kept ++ passed ++ c :: todo)[kept.length + passed.length]? = some c := by
      rw [← List.length_append]
      simp
    have hset : ∀ c', (kept ++ passed ++ c :: todo).set (kept.length + passed.length) c' =
        kept ++ (passed ++ [c']) ++ todo := by
      intro c'
      rw [← List.length_append]
      simp
    rw [List.length_cons, List.range'_succ, List.foldlM_cons, dedupTurn, hget]
    dsimp only
    by_cases hc : c.WellFormed pton
    · have hpassed : passed ++ [c.ranked pton] ≠ [] := by simp
      obtain ⟨kept', passed', hplace, hlength, hkeeps⟩ := place_keeps todo
        (fun a _ => sameEndpoint_iff (a := a) hc.ranked) (fun _ _ => precedes_iff) hpassed h
      have hnext : kept.length + passed.length + 1 = kept'.length + passed'.length := by
        rw [hlength, List.length_append, List.length_singleton, Nat.add_assoc]
      rw [prepare_wellFormed hc]
      dsimp only
      rw [hset, hplace, Option.bind_eq_bind, Option.bind_some, hnext, List.map_cons]
      rcases ih passed' hkeeps with ⟨hnone, c', hc', hbad⟩ | ⟨cells, n, hsome, hall, hfinal⟩
      · exact Or.inl ⟨hnone, c', List.mem_cons_of_mem _ hc', hbad⟩
      · rw [List.append_assoc] at hfinal
        exact Or.inr ⟨cells, n, hsome, List.forall_mem_cons.mpr ⟨hc, hall⟩, hfinal⟩
    · rw [prepare_malformed hc]
      exact Or.inl ⟨rfl, c, by simp, hc⟩

/-- The list comes out in normal form when it is short enough and all its candidates are well formed. -/
theorem normalizeCandidates_cases (pton : InetPton) (candidates : List LocalCandidate) :
    (normalizeCandidates pton candidates = none ∧
      (candidatesMax < candidates.length ∨ ∃ c ∈ candidates, ¬ c.WellFormed pton)) ∨
    ∃ result, normalizeCandidates pton candidates = some result ∧ candidates.length ≤ candidatesMax ∧
      (∀ c ∈ candidates, c.WellFormed pton) ∧
      NormalForm (candidateSockaddr pton) (candidates.map (LocalCandidate.ranked pton)) result := by
  unfold normalizeCandidates
  split
  · rename_i hlong
    exact Or.inl ⟨rfl, Or.inl hlong⟩
  rename_i hshort
  have hnil : KeepsLeast (candidateSockaddr pton) [] [] := keepsLeast_nil
  have hturns := dedup_turns [] candidates hnil
  simp only [List.length_nil, Nat.add_zero, List.nil_append, ← List.range_eq_range'] at hturns
  rcases hturns with ⟨hnone, hbad⟩ | ⟨cells, n, hsome, hall, hkeeps⟩
  · rw [hnone]
    exact Or.inl ⟨rfl, Or.inr hbad⟩
  · rw [hsome]
    obtain ⟨hperm, hsorted⟩ := insertionSort_sorted fun a (_ : a ∈ cells.take n) b _ => precedes_iff
    exact Or.inr ⟨_, rfl, Nat.not_lt.mp hshort, hall, hkeeps.normalForm hperm hsorted⟩

/-- A list that has a normal form comes out as that. -/
theorem normalizeCandidates_eq {candidates result : List LocalCandidate}
    (hshort : candidates.length ≤ candidatesMax) (hall : ∀ c ∈ candidates, c.WellFormed pton)
    (h : NormalForm (candidateSockaddr pton) (candidates.map (LocalCandidate.ranked pton)) result) :
    normalizeCandidates pton candidates = some result := by
  rcases normalizeCandidates_cases pton candidates with
    ⟨-, hlong | ⟨c, hc, hbad⟩⟩ | ⟨result', hsome, -, -, hform⟩
  · omega
  · exact absurd (hall c hc) hbad
  · rw [hsome, hform.unique h]

theorem normalizeCandidates_none_iff {candidates : List LocalCandidate} :
    normalizeCandidates pton candidates = none ↔
      candidatesMax < candidates.length ∨ ∃ c ∈ candidates, ¬ c.WellFormed pton := by
  rcases normalizeCandidates_cases pton candidates with ⟨hnone, hbad⟩ | ⟨_, hsome, hshort, hall, -⟩
  · simp [hnone, hbad]
  · rw [hsome]
    refine ⟨nofun, ?_⟩
    rintro (hlong | ⟨c, hc, hbad⟩)
    · omega
    · exact absurd (hall c hc) hbad

theorem not_wellFormed_iff {c : LocalCandidate} :
    ¬ c.WellFormed pton ↔
      c.port = 0 ∨ (pton.inet c.addr = none ∧ pton.inet6 c.addr = none) ∨ ¬ (1 ≤ c.type ∧ c.type ≤ 6) := by
  rw [← not_iff_not, not_not]
  simp only [not_or, not_not, not_and_or, ← ne_eq, ← Option.isSome_iff_ne_none]
  exact ⟨fun h => ⟨h.port, h.address, h.type⟩, fun ⟨hport, haddress, htype⟩ => ⟨hport, haddress, htype⟩⟩

/-- A permutation of the list has the same normal form. -/
theorem normalizeCandidates_perm {candidates other : List LocalCandidate} (h : candidates.Perm other) :
    normalizeCandidates pton other = normalizeCandidates pton candidates := by
  rcases normalizeCandidates_cases pton candidates with
    ⟨hnone, hbad⟩ | ⟨result, hsome, hshort, hall, hform⟩
  · rw [hnone, normalizeCandidates_none_iff, ← h.length_eq]
    exact hbad.imp_right fun ⟨c, hc, hbad⟩ => ⟨c, h.mem_iff.mp hc, hbad⟩
  · rw [hsome]
    exact normalizeCandidates_eq (h.length_eq ▸ hshort) (fun c hc => hall c (h.mem_iff.mpr hc))
      (hform.congr fun _ => (h.map _).mem_iff)

/-- A normal form is its own. -/
theorem normalizeCandidates_idem {candidates result : List LocalCandidate}
    (h : normalizeCandidates pton candidates = some result) : normalizeCandidates pton result = some result := by
  rcases normalizeCandidates_cases pton candidates with
    ⟨hnone, -⟩ | ⟨result', hsome, hshort, hall, hform⟩
  · rw [hnone] at h
    exact nomatch h
  obtain rfl := Option.some.inj (hsome.symm.trans h)
  have hsource : ∀ r ∈ result', ∃ c ∈ candidates, c.ranked pton = r := fun r hr =>
    List.mem_map.mp (hform.least r hr).1
  have hranked : result'.map (LocalCandidate.ranked pton) = result' := by
    rw [List.map_congr_left fun r hr => ?_, List.map_id]
    obtain ⟨c, -, rfl⟩ := hsource r hr
    exact ranked_ranked c
  have hlength : result'.length ≤ (candidates.map (LocalCandidate.ranked pton)).length :=
    (List.subperm_of_subset (hform.sorted.imp ne_of_lt) fun r hr => (hform.least r hr).1).length_le
  rw [List.length_map] at hlength
  refine normalizeCandidates_eq (hlength.trans hshort) (fun r hr => ?_) (hranked.symm ▸ hform.self)
  obtain ⟨c, hc, rfl⟩ := hsource r hr
  exact (hall c hc).ranked

end LocalCandidate

open LocalCandidate in
/-- Normalisation over any reading of addresses: it fails exactly on a list that is too long or has a
malformed candidate, and otherwise gives, in strict order, the least candidate of each endpoint, the
same for every permutation of the list, and nothing new for its own result. -/
theorem normalize_candidates_canonical (pton : InetPton) (candidates : List LocalCandidate) :
    (normalizeCandidates pton candidates = none ↔
      candidatesMax < candidates.length ∨ ∃ c ∈ candidates,
        c.port = 0 ∨ (pton.inet c.addr = none ∧ pton.inet6 c.addr = none) ∨ ¬ (1 ≤ c.type ∧ c.type ≤ 6)) ∧
    (∀ other, candidates.Perm other → normalizeCandidates pton other = normalizeCandidates pton candidates) ∧
    ∀ result, normalizeCandidates pton candidates = some result →
      (∀ c ∈ candidates, ∃! r, r ∈ result ∧ r.candidateSockaddr pton = c.candidateSockaddr pton) ∧
      (∀ r ∈ result, (∃ c ∈ candidates, r = c.ranked pton) ∧
        ∀ c ∈ candidates, c.candidateSockaddr pton = r.candidateSockaddr pton →
          candidateCompare r (c.ranked pton) ≤ 0) ∧
      result.Pairwise (fun a b => candidateCompare a b < 0) ∧
      normalizeCandidates pton result = some result := by
  refine ⟨?_, fun other h => normalizeCandidates_perm h, fun result h => ?_⟩
  · simp only [normalizeCandidates_none_iff, not_wellFormed_iff]
  have hidem := normalizeCandidates_idem h
  rcases normalizeCandidates_cases pton candidates with ⟨hnone, -⟩ | ⟨result', hsome, -, -, hform⟩
  · rw [hnone] at h
    exact nomatch h
  obtain rfl := Option.some.inj (hsome.symm.trans h)
  refine ⟨fun c hc => ?_, fun r hr => ⟨?_, fun c hc hsame => ?_⟩, ?_, hidem⟩
  · obtain ⟨r, hr, hsame⟩ := hform.covers (c.ranked pton) (List.mem_map_of_mem hc)
    exact ⟨r, ⟨hr, hsame⟩, fun other hother => hform.key_inj hother.1 hr (hother.2.trans hsame.symm)⟩
  · obtain ⟨c, hc, rfl⟩ := List.mem_map.mp (hform.least r hr).1
    exact ⟨c, hc, rfl⟩
  · exact candidateCompare_nonpos ((hform.least r hr).2 _ (List.mem_map_of_mem hc) hsame)
  · exact hform.sorted.imp candidateCompare_neg_iff.mpr

example : LocalCandidate.normalizeCandidates systemPton
    [⟨2, ascii "10.0.0.1", 7, 0⟩, ⟨4, ascii "0::1", 7, 0⟩, ⟨1, ascii "10.0.0.1", 7, 0⟩, ⟨1, ascii "::1", 7, 0⟩] =
      some [⟨1, ascii "::1", 7, 100⟩, ⟨1, ascii "10.0.0.1", 7, 200⟩] := by decide +kernel

/-! ### The candidates of messages -/

/-- The value of a type in the enum. -/
def CandidateType.value : CandidateType → Int
  | .candHost => 1
  | .candLan => 2
  | .candPublic => 3
  | .candSrflx => 4
  | .candPrflx => 5
  | .candPredicted => 6

def Candidate.toLocal (c : Candidate) : LocalCandidate := ⟨c.type.value, c.addr, c.port, c.priority⟩

/-- Candidates have the priority that a parsed candidate gets. -/
theorem candidatePriority_toLocal (c : Candidate) :
    c.toLocal.candidatePriority systemPton = candidatePriority c.type c.addr := by
  show LocalCandidate.candidatePriority systemPton ⟨c.type.value, c.addr, c.port, c.priority⟩ = _
  unfold LocalCandidate.candidatePriority LocalCandidate.candidateFamily candidatePriority systemPton
  dsimp only
  cases (inetPton4 c.addr).isSome with
  | true => cases c.type <;> rfl
  | false =>
    cases (inetPton6 c.addr).isSome with
    | true => cases c.type <;> rfl
    | false => rfl

/-- They name the endpoint that the punch sends to. -/
theorem candidateSockaddr_toLocal (c : Candidate) :
    c.toLocal.candidateSockaddr systemPton = candidateSockaddr c := rfl

end Redp2p
