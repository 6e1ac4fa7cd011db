import Redp2p.PhpIndex

/-! The seats of the PHP index under requests that interleave. A registration looks for its row, counts,
and inserts in statements of their own, and an insertion of another request in between may take its seat
or its row. -/

namespace Redp2p

open ByteString Program

namespace PhpIndex

variable {php : PhpIndex} {pool : Processes} {w w' : PhpWorld} {p q : PhpProgram PhpAnswer}
  {statement : PhpStatement}

/-! ### Rows and seats -/

def Present (w : PhpWorld) (id : Bytes) : Prop := ∃ row ∈ w.publishers, row.id = id

/-- The publishers that no reservation names. -/
def nonVips (php : PhpIndex) (w : PhpWorld) : Nat := w.publishers.countP fun row => (php.vip row.id).isNone

/-- The rows stay within the seats, and those without a reservation within the rest of them. -/
structure Seated (php : PhpIndex) (w : PhpWorld) : Prop where
  all : ∀ seats, php.seats = some seats → w.publishers.length ≤ seats
  nonVips : ∀ seats, php.seats = some seats → php.nonVips w ≤ seats - php.vips.length
  keys : ∀ row ∈ w.publishers, row.key.length = keySz
  ids : (w.publishers.map PublisherRow.id).Nodup

/-- There is a seat for one more publisher. -/
def Room (php : PhpIndex) (w : PhpWorld) (id : Bytes) : Prop :=
  ∀ seats, php.seats = some seats → w.publishers.length < seats ∧
    (php.vip id = none → php.nonVips w < seats - php.vips.length)

/-- A publisher is not there and finds no seat: a count has reached its limit. -/
def Full (php : PhpIndex) (w : PhpWorld) (id : Bytes) : Prop :=
  ¬ Present w id ∧ ∃ seats, php.seats = some seats ∧ (seats ≤ w.publishers.length ∨
    php.vip id = none ∧ seats - php.vips.length ≤ php.nonVips w)

/-- Identifier and key of a row. -/
def entry (row : PublisherRow) : Bytes × Bytes := (row.id, row.key)

/-- A statement inserts one publisher, or no entry that was not there. -/
inductive SeatEffect (w : PhpWorld) (statement : PhpStatement) (w' : PhpWorld) : Prop
  | keeps (entries : (w'.publishers.map entry).Sublist (w.publishers.map entry))
  | inserts (row : PublisherRow) (insertion : statement = .insertPublisher row)
      (absent : ¬ Present w row.id) (publishers : w'.publishers = w.publishers ++ [row])

theorem sublist_filter_entries (rows : List PublisherRow) (f : PublisherRow → Bool) :
    ((rows.filter f).map entry).Sublist (rows.map entry) :=
  List.filter_sublist.map entry

theorem exec_seatEffect (statement : PhpStatement) (w : PhpWorld) :
    SeatEffect w statement (statement.exec w).1 := by
  cases statement with
  | deleteStale cutoff => exact .keeps (sublist_filter_entries _ _)
  | deletePublisher id => exact .keeps (sublist_filter_entries _ _)
  | updatePublisher id proto udpPort candidates lastSeen =>
    apply SeatEffect.keeps
    have hsame : (w.publishers.map fun row =>
        if row.id == id then { row with proto, udpPort, candidates, lastSeen } else row).map entry =
          w.publishers.map entry := by
      rw [List.map_map]
      apply List.map_congr_left
      intro row _
      simp only [Function.comp_apply]
      split <;> rfl
    show ((w.publishers.map _).map entry).Sublist _
    rw [hsame]
  | insertPublisher row =>
    rw [exec_insertPublisher]
    split
    · exact .keeps (List.Sublist.refl _)
    · rename_i habsent
      exact .inserts row rfl (by simpa [Present] using habsent) rfl
  | insertPending row =>
    rw [exec_insertPending]
    split <;> exact .keeps (List.Sublist.refl _)
  | _ => exact .keeps (List.Sublist.refl _)

theorem present_iff {id : Bytes} : Present w id ↔ id ∈ (w.publishers.map entry).map Prod.fst := by
  simp [Present, entry]

theorem nonVips_eq : php.nonVips w =
    (w.publishers.map entry).countP fun e => (php.vip e.1).isNone := by
  rw [List.countP_map]
  rfl

theorem SeatEffect.absent (h : SeatEffect w statement w') {id : Bytes} (habsent : ¬ Present w id)
    (hother : ∀ row, statement = .insertPublisher row → row.id ≠ id) : ¬ Present w' id := by
  cases h with
  | keeps entries =>
    rw [present_iff] at habsent ⊢
    exact fun hpresent => habsent ((entries.map Prod.fst).subset hpresent)
  | inserts row insertion absent publishers =>
    rintro ⟨other, hother', rfl⟩
    rw [publishers, List.mem_append, List.mem_singleton] at hother'
    rcases hother' with hold | rfl
    · exact habsent ⟨other, hold, rfl⟩
    · exact hother other insertion rfl

theorem SeatEffect.room (h : SeatEffect w statement w') {id : Bytes} (hroom : php.Room w id)
    (hother : ∀ row, statement = .insertPublisher row → php.Room w' id) : php.Room w' id := by
  cases h with
  | keeps entries =>
    intro seats hseats
    obtain ⟨hall, hnonVip⟩ := hroom seats hseats
    have hlength := entries.length_le
    rw [List.length_map, List.length_map] at hlength
    refine ⟨by omega, fun hvip => ?_⟩
    have hcount := entries.countP_le (p := fun e => (php.vip e.1).isNone)
    rw [← nonVips_eq, ← nonVips_eq] at hcount
    exact Nat.lt_of_le_of_lt hcount (hnonVip hvip)
  | inserts row insertion absent publishers => exact hother row insertion

/-- The seats hold when every insertion has room. -/
theorem Seated.exec (h : php.Seated w) (heffect : SeatEffect w statement w')
    (hroom : ∀ row, statement = .insertPublisher row → php.Room w row.id ∧ row.key.length = keySz) :
    php.Seated w' := by
  cases heffect with
  | keeps entries =>
    have hlength := entries.length_le
    rw [List.length_map, List.length_map] at hlength
    have hcount := entries.countP_le (p := fun e => (php.vip e.1).isNone)
    rw [← nonVips_eq, ← nonVips_eq] at hcount
    refine ⟨fun seats hseats => Nat.le_trans hlength (h.all seats hseats),
      fun seats hseats => Nat.le_trans hcount (h.nonVips seats hseats), fun row hrow => ?_, ?_⟩
    · obtain ⟨old, hold, hentry⟩ := List.mem_map.mp (entries.subset (List.mem_map_of_mem hrow))
      rw [← (Prod.mk.inj hentry).2]
      exact h.keys old hold
    · have hids := entries.map Prod.fst
      rw [List.map_map, List.map_map] at hids
      exact h.ids.sublist hids
  | inserts row insertion absent publishers =>
    obtain ⟨hfree, hkey⟩ := hroom row insertion
    refine ⟨fun seats hseats => ?_, fun seats hseats => ?_, fun other hother => ?_, ?_⟩
    · rw [publishers, List.length_append, List.length_singleton]
      exact (hfree seats hseats).1
    · unfold PhpIndex.nonVips
      rw [publishers, List.countP_append, List.countP_singleton]
      have hbefore := h.nonVips seats hseats
      unfold PhpIndex.nonVips at hbefore
      split
      · rename_i hvip
        have hnext := (hfree seats hseats).2 (by simpa using hvip)
        exact hnext
      · exact hbefore
    · rw [publishers, List.mem_append, List.mem_singleton] at hother
      rcases hother with hold | rfl
      · exact h.keys other hold
      · exact hkey
    · rw [publishers, List.map_append, List.nodup_append]
      refine ⟨h.ids, List.nodup_singleton _, ?_⟩
      rintro id hid other hother rfl
      obtain ⟨held, hheld, rfl⟩ := List.mem_map.mp hid
      exact absent ⟨held, hheld, List.mem_singleton.mp hother⟩

/-! ### The points of a registration -/

/-- The answer after the update of the row. -/
def storeRow (r : Registration) (key : Option Bytes) (now : Int) : PhpProgram PhpAnswer :=
  act (.updatePublisher r.id r.proto r.udpPort r.candidates now) fun _ => done (.registered (key.getD []))

/-- The program of a registration whose row is there. -/
def settle (r : Registration) : PhpProgram PhpAnswer := finishRegister r .ok

def checkRow (php : PhpIndex) (random : Vector UInt8 8) (r : Registration) (now : Int) :
    PhpProgram PhpAnswer :=
  act (.selectOne r.id) fun found =>
    (if found then done .ok else php.takeSeat random r.id now) >>= finishRegister r

/-- Where a registration stands, and what it knows of the table there. It is refused when a full table was
met. -/
inductive RegisterPoint (php : PhpIndex) (w : PhpWorld) (met : Prop) (random : Vector UInt8 8)
    (r : Registration) : PhpProgram PhpAnswer → Prop
  | start : RegisterPoint php w met random r (php.register random r)
  | evict (cutoff : Int) : RegisterPoint php w met random r
      (act (.deleteStale cutoff) fun _ => act .time (php.checkRow random r))
  | read : RegisterPoint php w met random r (act .time (php.checkRow random r))
  | check (now : Int) : RegisterPoint php w met random r (php.checkRow random r now)
  | count (now : Int) (seats : Nat) (limited : php.seats = some seats) (absent : ¬ Present w r.id) :
      RegisterPoint php w met random r (php.takeSeat random r.id now >>= finishRegister r)
  | countNonVip (now : Int) (seats : Nat) (limited : php.seats = some seats)
      (absent : ¬ Present w r.id) (vip : php.vip r.id = none) :
      RegisterPoint php w met random r (php.takeNonVipSeat random r.id now seats >>= finishRegister r)
  | insert (now : Int) (absent : ¬ Present w r.id) (room : php.Room w r.id) :
      RegisterPoint php w met random r (insertPublisher random r.id now >>= finishRegister r)
  | found (present : Present w r.id) : RegisterPoint php w met random r (settle r)
  | clock (key : Option Bytes) (length : (key.getD []).length = keySz) :
      RegisterPoint php w met random r (act .time (storeRow r key))
  | store (key : Option Bytes) (now : Int) (length : (key.getD []).length = keySz) :
      RegisterPoint php w met random r (storeRow r key now)
  | registered (key : Bytes) (length : key.length = keySz) :
      RegisterPoint php w met random r (done (.registered key))
  | full (refused : met) : RegisterPoint php w met random r (done (.error 503 "table_full"))

theorem takeSeat_limited {random : Vector UInt8 8} {id : Bytes} {now : Int} {seats : Nat}
    (h : php.seats = some seats) : php.takeSeat random id now =
      act .countPublishers fun count =>
        if count ≥ seats then done .full
        else if (php.vip id).isSome then insertPublisher random id now
        else php.takeNonVipSeat random id now seats := by
  unfold takeSeat
  rw [h]
  rfl

theorem vip_isNone_iff (id : Bytes) :
    (php.vip id).isNone = !(php.vips.map VipEntry.id).contains id := by
  unfold vip
  rw [Bool.eq_iff_iff, Option.isNone_iff_eq_none, Keyed.lookup_eq_none_iff]
  simp

/-- The reservations hold at most one row each. -/
theorem Seated.length_le (h : php.Seated w) : w.publishers.length ≤ php.nonVips w + php.vips.length := by
  have hsplit := List.length_eq_countP_add_countP (fun row : PublisherRow => (php.vip row.id).isNone)
    (l := w.publishers)
  have hreserved : (w.publishers.countP fun row => !(php.vip row.id).isNone) ≤ php.vips.length := by
    rw [List.countP_eq_length_filter, ← List.length_map PublisherRow.id, ← List.length_map VipEntry.id]
    refine (List.Nodup.subperm (h.ids.sublist (List.filter_sublist.map _)) ?_).length_le
    intro id hid
    obtain ⟨row, hrow, rfl⟩ := List.mem_map.mp hid
    have hvip := (List.mem_filter.mp hrow).2
    rw [vip_isNone_iff] at hvip
    simpa using hvip
  unfold PhpIndex.nonVips
  simp only [Bool.not_eq_true, Bool.decide_eq_false] at hsplit
  omega

/-- The count of publishers without a reservation is one statement, whose result is that count. -/
theorem countNonVip_act (php : PhpIndex) (w : PhpWorld) :
    ∃ statement, (statement = .countPublishers ∨ ∃ ids, statement = .countNotIn ids) ∧
      ∃ value : statement.Result → Nat, php.countNonVip = act statement (fun n => done (value n)) ∧
        (statement.exec w).1 = w ∧ value (statement.exec w).2 = php.nonVips w := by
  unfold countNonVip
  by_cases hvips : php.vips = []
  · rw [if_pos hvips]
    refine ⟨.countPublishers, Or.inl rfl, fun n => n, rfl, rfl, ?_⟩
    show w.publishers.length = php.nonVips w
    unfold PhpIndex.nonVips
    rw [eq_comm, List.countP_eq_length]
    intro row _
    simp [vip, hvips]
  · rw [if_neg hvips]
    refine ⟨.countNotIn _, Or.inr ⟨_, rfl⟩, fun n => n, rfl, rfl, ?_⟩
    show w.publishers.countP _ = php.nonVips w
    unfold PhpIndex.nonVips
    congr 1
    funext row
    exact (vip_isNone_iff row.id).symm

variable {met : Prop} {random : Vector UInt8 8} {r : Registration}

theorem Seated.key (h : php.Seated w) (hpresent : Present w r.id) :
    (((w.publishers.find? fun row => row.id == r.id).map PublisherRow.key).getD []).length = keySz := by
  obtain ⟨row, hrow, hid⟩ := hpresent
  cases hfind : w.publishers.find? fun row => row.id == r.id with
  | none =>
    rw [List.find?_eq_none] at hfind
    exact absurd (by simpa using hid) (hfind row hrow)
  | some found => exact h.keys found (List.mem_of_find?_eq_some hfind)

theorem RegisterPoint.taken (now : Int) (habsent : ¬ Present w r.id) :
    RegisterPoint php w met random r (php.takeSeat random r.id now >>= finishRegister r) := by
  cases hseats : php.seats with
  | none =>
    have hinsert : php.takeSeat random r.id now = insertPublisher random r.id now := by
      unfold takeSeat
      rw [hseats]
    rw [hinsert]
    refine .insert now habsent fun seats hsome => ?_
    rw [hseats] at hsome
    exact nomatch hsome
  | some seats => exact .count now seats hseats habsent

/-- A registration takes its next statement. -/
theorem RegisterPoint.advance {next : statement.Result → PhpProgram PhpAnswer}
    (h : RegisterPoint php w met random r p) (hp : p = act statement next) (hseated : php.Seated w) :
    RegisterPoint php (statement.exec w).1 (met ∨ php.Full w r.id) random r (next (statement.exec w).2) := by
  cases h with
  | start =>
    cases hp
    exact .evict _
  | evict cutoff =>
    cases hp
    exact .read
  | read =>
    cases hp
    exact .check _
  | check now =>
    cases hp
    show RegisterPoint php w _ random r ((if w.publishers.any _ then _ else _) >>= finishRegister r)
    split
    · rename_i hfound
      exact .found (by simpa [Present] using hfound)
    · rename_i habsent
      exact .taken now (by simpa [Present] using habsent)
  | count now seats limited absent =>
    rw [takeSeat_limited limited] at hp
    cases hp
    show RegisterPoint php w _ random r ((if w.publishers.length ≥ seats then _ else _) >>= finishRegister r)
    split
    · rename_i hfull
      exact .full (Or.inr ⟨absent, seats, limited, Or.inl hfull⟩)
    · rename_i hroom
      have hlt : w.publishers.length < seats := by omega
      split
      · rename_i hvip
        refine .insert now absent fun seats' hseats' => ⟨?_, fun hnone => ?_⟩
        · rw [limited, Option.some.injEq] at hseats'
          exact hseats' ▸ hlt
        · rw [hnone] at hvip
          exact nomatch hvip
      · rename_i hvip
        exact .countNonVip now seats limited absent (by simpa using hvip)
  | countNonVip now seats limited absent vip =>
    obtain ⟨counting, -, value, hcount, hsame, hvalue⟩ := countNonVip_act php w
    unfold takeNonVipSeat at hp
    rw [hcount] at hp
    cases hp
    rw [hsame]
    show RegisterPoint php w _ random r ((if value (statement.exec w).2 ≥ _ then _ else _) >>= finishRegister r)
    rw [hvalue]
    split
    · rename_i hfull
      exact .full (Or.inr ⟨absent, seats, limited, Or.inr ⟨vip, hfull⟩⟩)
    · rename_i hfree
      have hlength := hseated.length_le
      refine .insert now absent fun seats' hseats' => ?_
      rw [limited, Option.some.injEq] at hseats'
      subst hseats'
      exact ⟨by omega, fun _ => by omega⟩
  | insert now absent room =>
    cases hp
    rw [exec_insertPublisher, if_neg (by simpa [Present] using absent)]
    exact .found ⟨_, List.mem_append_right _ List.mem_cons_self, rfl⟩
  | found present =>
    cases hp
    exact .clock _ (hseated.key present)
  | clock key length =>
    cases hp
    exact .store key _ length
  | store key now length =>
    cases hp
    exact .registered _ length
  | registered key length => exact nomatch hp
  | full refused => exact nomatch hp

/-- What a registration inserts has room. -/
theorem RegisterPoint.insertion {row : PublisherRow} (h : RegisterPoint php w met random r p)
    (hp : p.statement = some (.insertPublisher row)) : php.Room w row.id ∧ row.key.length = keySz := by
  cases h with
  | count now seats limited absent =>
    rw [takeSeat_limited limited] at hp
    exact nomatch hp
  | countNonVip now seats limited absent vip =>
    obtain ⟨counting, hkind, value, hcount, -, -⟩ := countNonVip_act php w
    unfold takeNonVipSeat at hp
    rw [hcount] at hp
    rcases hkind with rfl | ⟨ids, rfl⟩ <;> exact nomatch hp
  | insert now absent room =>
    cases hp
    exact ⟨room, by simp [keySz]⟩
  | _ => exact nomatch hp

/-- A registration that has come to its end is answered with a key, or was refused. -/
theorem RegisterPoint.answers {a : PhpAnswer} (h : RegisterPoint php w met random r p) (hp : p = done a) :
    (∃ key, a = .registered key ∧ key.length = keySz) ∨
      a = .error 503 "table_full" ∧ met := by
  cases h with
  | count now seats limited absent =>
    rw [takeSeat_limited limited] at hp
    exact nomatch hp
  | countNonVip now seats limited absent vip =>
    obtain ⟨counting, -, value, hcount, -, -⟩ := countNonVip_act php w
    unfold takeNonVipSeat at hp
    rw [hcount] at hp
    exact nomatch hp
  | registered key length =>
    cases hp
    exact Or.inl ⟨key, rfl, length⟩
  | full refused =>
    cases hp
    exact Or.inr ⟨rfl, refused⟩
  | _ => exact nomatch hp

/-! ### What others do to a registration -/

/-- The publisher that a registration inserts next, if the counts before find no seat taken. -/
def inserting : PhpProgram PhpAnswer → Option Bytes
  | act .countPublishers next => inserting (next (0 : Nat))
  | act (.countNotIn _) next => inserting (next (0 : Nat))
  | act (.insertPublisher row) _ => some row.id
  | _ => none

/-- An insertion takes the row of a registration that has found none, or the seat that it has counted. -/
def Conflicts (php : PhpIndex) (w : PhpWorld) (row : PublisherRow) (q : PhpProgram PhpAnswer) : Prop :=
  inserting q = some row.id ∨ ∃ other, q.statement = some (.insertPublisher other) ∧
    ¬ php.Room ((PhpStatement.insertPublisher row).exec w).1 other.id

theorem inserting_takeNonVipSeat {seats : Nat} {now : Int} (hfree : 0 < seats - php.vips.length) :
    inserting (php.takeNonVipSeat random r.id now seats >>= finishRegister r) = some r.id := by
  have hinsert : inserting ((if 0 ≥ seats - php.vips.length then done Added.full
      else insertPublisher random r.id now) >>= finishRegister r) = some r.id := by
    rw [if_neg (by omega)]
    rfl
  unfold takeNonVipSeat countNonVip
  split
  · exact hinsert
  · exact hinsert

theorem inserting_takeSeat {now : Int} (hroom : php.Room w r.id) :
    inserting (php.takeSeat random r.id now >>= finishRegister r) = some r.id := by
  cases hseats : php.seats with
  | none =>
    unfold takeSeat
    rw [hseats]
    rfl
  | some seats =>
    obtain ⟨hall, hnonVip⟩ := hroom seats hseats
    rw [takeSeat_limited hseats]
    show inserting ((if 0 ≥ seats then done Added.full else if (php.vip r.id).isSome then
      insertPublisher random r.id now else php.takeNonVipSeat random r.id now seats) >>= finishRegister r) = _
    rw [if_neg (by omega)]
    split
    · rfl
    · rename_i hvip
      have hfree := hnonVip (by simpa using hvip)
      exact inserting_takeNonVipSeat (by omega)

/-- A deletion of the row of a publisher. -/
def Removes (w : PhpWorld) (id : Bytes) : PhpStatement → Prop
  | .deletePublisher other => other = id
  | .deleteStale cutoff => ∃ row ∈ w.publishers, row.id = id ∧ row.lastSeen < cutoff
  | _ => False

theorem present_exec {id : Bytes} (h : Present w id) (hkept : ¬ Removes w id statement) :
    Present (statement.exec w).1 id := by
  obtain ⟨row, hrow, rfl⟩ := h
  cases statement with
  | deletePublisher id =>
    have hne : id ≠ row.id := hkept
    exact ⟨row, List.mem_filter.mpr ⟨hrow, by simpa using Ne.symm hne⟩, rfl⟩
  | deleteStale cutoff =>
    have hfresh : ¬ row.lastSeen < cutoff := fun hstale => hkept ⟨row, hrow, rfl, hstale⟩
    exact ⟨row, List.mem_filter.mpr ⟨hrow, by simpa using hfresh⟩, rfl⟩
  | updatePublisher id proto udpPort candidates lastSeen =>
    refine ⟨_, List.mem_map_of_mem hrow, ?_⟩
    split <;> rfl
  | insertPublisher other =>
    rw [exec_insertPublisher]
    split
    · exact ⟨row, hrow, rfl⟩
    · exact ⟨row, List.mem_append_left _ hrow, rfl⟩
  | insertPending other =>
    rw [exec_insertPending]
    split <;> exact ⟨row, hrow, rfl⟩
  | _ => exact ⟨row, hrow, rfl⟩

theorem RegisterPoint.mono {met' : Prop} (h : RegisterPoint php w met random r q) (hmet : met → met') :
    RegisterPoint php w met' random r q := by
  cases h with
  | full refused => exact .full (hmet refused)
  | _ => constructor <;> assumption

/-- A statement of another request that neither takes the row or the seat of a registration nor deletes a
row that it has come to leaves it where it stands. -/
theorem RegisterPoint.exec (h : RegisterPoint php w met random r q)
    (hinsert : ∀ row, statement = .insertPublisher row → php.Room w row.id ∧ ¬ php.Conflicts w row q)
    (hkept : q = settle r → ¬ Removes w r.id statement) :
    RegisterPoint php (statement.exec w).1 met random r q := by
  have heffect := exec_seatEffect statement w
  have habsent : (php.Room w r.id → inserting q = some r.id) → ¬ Present w r.id →
      ¬ Present (statement.exec w).1 r.id := by
    intro hinserting habsent
    refine heffect.absent habsent fun row hrow heq => ?_
    obtain ⟨hroom, hconflict⟩ := hinsert row hrow
    exact hconflict (Or.inl (by rw [heq] at hroom ⊢; exact hinserting hroom))
  cases h with
  | start => exact .start
  | evict cutoff => exact .evict cutoff
  | read => exact .read
  | check now => exact .check now
  | count now seats limited absent =>
    exact .count now seats limited (habsent inserting_takeSeat absent)
  | countNonVip now seats limited absent vip =>
    refine .countNonVip now seats limited (habsent (fun hroom => ?_) absent) vip
    have hfree := (hroom seats limited).2 vip
    exact inserting_takeNonVipSeat (by omega)
  | insert now absent room =>
    refine .insert now (habsent (fun _ => rfl) absent) (heffect.room room fun row hrow => ?_)
    subst hrow
    have hconflict := (hinsert row rfl).2
    by_contra hfull
    exact hconflict (Or.inr ⟨_, rfl, hfull⟩)
  | found present => exact .found (present_exec present (hkept rfl))
  | clock key length => exact .clock key length
  | store key now length => exact .store key now length
  | registered key length => exact .registered key length
  | full refused => exact .full refused

theorem RegisterPoint.tick (h : RegisterPoint php w met random r q) (seconds : Nat) :
    RegisterPoint php (tick seconds w) met random r q := by
  cases h <;> constructor <;> assumption

/-! ### Runs -/

/-- No insertion takes the row of another registration between its look for the row and its insertion, or
the seat that it has counted. No deletion takes the row that another registration has found or inserted
before that has read the key. -/
def RegistersAlone (php : PhpIndex) (pool : Processes) : Event → Prop
  | .advance thread => ∀ other q, other ≠ thread → pool.threads[other]? = some q →
      (∀ row, upcoming pool thread = some (.insertPublisher row) → ¬ php.Conflicts pool.state row q) ∧
      ∀ r, q = settle r → ∀ statement, upcoming pool thread = some statement →
        ¬ Removes pool.state r.id statement
  | _ => True

/-- A statement that counts or inserts publishers. -/
def OnSeats : PhpStatement → Prop
  | .countPublishers | .countNotIn _ | .insertPublisher _ => True
  | _ => False

/-- A request is a registration at some point, or takes no seat. -/
def SeatPoint (php : PhpIndex) (p : PhpProgram PhpAnswer) (w : PhpWorld) : Prop :=
  p.Uses (¬ OnSeats ·) (fun _ => True) ∨ ∃ random r, RegisterPoint php w True random r p

theorem Request.seatPoint (h : Request php random p) (w : PhpWorld) : SeatPoint php p w := by
  cases h with
  | plain uses =>
    left
    apply uses.imp _ fun _ _ => trivial
    intro statement hplain
    cases statement <;> first | exact fun h => h | exact hplain.elim
  | register r verified => exact Or.inr ⟨random, r, .start⟩
  | enqueue selfId targetId session candidates =>
    left
    refine ⟨fun h => h, fun now => ⟨fun h => h, fun _ => ⟨fun h => h, fun count => ?_⟩⟩⟩
    dsimp only [Program.bind]
    split
    · trivial
    · exact ⟨fun h => h, fun now => ⟨fun h => h, fun inserted => trivial⟩⟩
  | takeCalls id =>
    exact Or.inl ⟨fun h => h, fun now => ⟨fun h => h, fun _ => ⟨fun h => h, fun rows =>
      ⟨fun h => h, fun _ => trivial⟩⟩⟩⟩

abbrev SeatsSound (php : PhpIndex) : Processes → Prop :=
  Pool.Sound php.Seated (SeatPoint php) fun _ _ => True

/-- What a request inserts has room. -/
theorem SeatPoint.insertion {row : PublisherRow} (h : SeatPoint php p w)
    (hp : p.statement = some (.insertPublisher row)) : php.Room w row.id ∧ row.key.length = keySz := by
  rcases h with huses | ⟨random, r, hregister⟩
  · cases p with
    | done answer => cases hp
    | act statement next =>
      obtain rfl := Option.some.inj hp
      exact (huses.1 trivial).elim
  · exact hregister.insertion hp

theorem SeatPoint.advance {next : statement.Result → PhpProgram PhpAnswer}
    (h : SeatPoint php (act statement next) w) (hseated : php.Seated w) :
    SeatPoint php (next (statement.exec w).2) (statement.exec w).1 := by
  rcases h with huses | ⟨random, r, hregister⟩
  · exact Or.inl (huses.2 _)
  · exact Or.inr ⟨random, r, (hregister.advance rfl hseated).mono fun _ => trivial⟩

theorem RegistersAlone.exec {thread other : Nat} {next : statement.Result → PhpProgram PhpAnswer}
    (halone : php.RegistersAlone pool (.advance thread)) (hsound : SeatsSound php pool)
    (hthread : pool.threads[thread]? = some (act statement next)) (hother : other ≠ thread)
    (hq : pool.threads[other]? = some q) (h : RegisterPoint php pool.state met random r q) :
    RegisterPoint php (statement.exec pool.state).1 met random r q := by
  obtain ⟨hinsert, hkept⟩ := halone other q hother hq
  have hupcoming : upcoming pool thread = some statement := by
    rw [upcoming, hthread]
    rfl
  apply h.exec
  · rintro row rfl
    exact ⟨((hsound.own thread _ hthread).insertion rfl).1, hinsert row hupcoming⟩
  · rintro rfl
    exact hkept r rfl statement hupcoming

theorem SeatsSound.step (h : SeatsSound php pool) (event : Event)
    (halone : php.RegistersAlone pool event) : SeatsSound php (php.step pool event).1 := by
  cases event with
  | request random body =>
    exact Pool.Sound.start h ((handle_request php random body).seatPoint _) fun _ _ => ⟨trivial, trivial⟩
  | advance thread =>
    show SeatsSound php (pool.advance PhpStatement.exec thread)
    cases hthread : pool.threads[thread]? with
    | none =>
      unfold Pool.advance
      rwa [hthread]
    | some p =>
      cases p with
      | done answer =>
        unfold Pool.advance
        rwa [hthread]
      | act statement next =>
        have hpoint := h.own thread _ hthread
        refine Pool.Sound.advance h hthread ?_ (hpoint.advance h.shared) fun j q hj hq => ⟨?_, trivial, trivial⟩
        · apply h.shared.exec (exec_seatEffect statement pool.state)
          rintro row rfl
          exact hpoint.insertion rfl
        · rcases h.own j q hq with huses | ⟨random, r, hregister⟩
          · exact Or.inl huses
          · exact Or.inr ⟨random, r, halone.exec h hthread hj hq hregister⟩
  | tick seconds =>
    refine Pool.Sound.outside h ⟨h.shared.all, h.shared.nonVips, h.shared.keys, h.shared.ids⟩ fun p hp => ?_
    rcases hp with huses | ⟨random, r, hregister⟩
    · exact Or.inl huses
    · exact Or.inr ⟨random, r, hregister.tick seconds⟩

/-- A thread is a registration. -/
def Registers (php : PhpIndex) (met : Prop) (random : Vector UInt8 8) (r : Registration) (thread : Nat)
    (pool : Processes) : Prop :=
  ∃ p, pool.threads[thread]? = some p ∧ RegisterPoint php pool.state met random r p

theorem Registers.mono {met' : Prop} {thread : Nat} (h : php.Registers met random r thread pool)
    (hmet : met → met') : php.Registers met' random r thread pool := by
  obtain ⟨p, hp, hpoint⟩ := h
  exact ⟨p, hp, hpoint.mono hmet⟩

theorem Registers.step {thread : Nat} (h : php.Registers met random r thread pool)
    (hsound : SeatsSound php pool) (event : Event) (halone : php.RegistersAlone pool event) :
    php.Registers (met ∨ php.Full pool.state r.id) random r thread (php.step pool event).1 := by
  obtain ⟨p, hp, hpoint⟩ := h
  have hlt := (List.getElem?_eq_some_iff.mp hp).1
  have hlater := hpoint.mono (Or.inl : met → met ∨ php.Full pool.state r.id)
  cases event with
  | request random body => exact ⟨p, (List.getElem?_append_left hlt).trans hp, hlater⟩
  | tick seconds => exact ⟨p, hp, hlater.tick seconds⟩
  | advance moved =>
    show php.Registers _ random r thread (pool.advance PhpStatement.exec moved)
    unfold Pool.advance
    cases hmoved : pool.threads[moved]? with
    | none => exact ⟨p, hp, hlater⟩
    | some q =>
      cases q with
      | done answer => exact ⟨p, hp, hlater⟩
      | act statement next =>
        by_cases hsame : thread = moved
        · subst hsame
          rw [hp, Option.some.injEq] at hmoved
          exact ⟨_, List.getElem?_set_self hlt, hpoint.advance hmoved hsound.shared⟩
        · exact ⟨p, (List.getElem?_set_ne (Ne.symm hsame)).trans hp,
            halone.exec hsound hmoved hsame hp hlater⟩

/-- In every run in which no insertion takes the row of another registration between its look for the row and
its insertion, or the seat that it has counted, and no deletion takes a row that a registration has come to:
the rows stay within the seats, those without a reservation within the seats that the reservations leave,
and every registration with a valid proof is answered with a key, or with `table_full` when at some moment of
the request a count had reached its limit and its publisher was not there. -/
theorem seats_interleaved (php : PhpIndex) (clock : Int) (events : List Event)
    (halone : Transition.Along php.step php.RegistersAlone (idle clock) events) :
    let pool := (Transition.run php.step (idle clock) events).1
    (∀ seats, php.seats = some seats → pool.state.publishers.length ≤ seats ∧
      php.nonVips pool.state ≤ seats - php.vips.length) ∧
    ∀ before random body after r, events = before ++ .request random body :: after →
      php.registration body = some r →
      ∀ a, answer pool (Transition.run php.step (idle clock) before).1.threads.length = some a →
        (∃ key, a = .registered key ∧ key.length = keySz) ∨
          a = .error 503 "table_full" ∧ ∃ during next rest, after = during ++ next :: rest ∧
            php.Full (Transition.run php.step (idle clock)
              (before ++ .request random body :: during)).1.state r.id := by
  intro pool
  have hstart : SeatsSound php (idle clock) :=
    Pool.Sound.empty ⟨by simp [PhpWorld.empty], by simp [PhpIndex.nonVips, PhpWorld.empty],
      by simp [PhpWorld.empty], by simp [PhpWorld.empty]⟩
  have hsound : ∀ es, Transition.Along php.step php.RegistersAlone (idle clock) es →
      SeatsSound php (Transition.run php.step (idle clock) es).1 :=
    fun es => Transition.run_along (SeatsSound php) (fun _ event h hok => h.step event hok) hstart
  have h := hsound events halone
  refine ⟨fun seats hseats => ⟨h.shared.all seats hseats, h.shared.nonVips seats hseats⟩, ?_⟩
  rintro before random body after r rfl hbody a hanswer
  obtain ⟨hbefore, -, hafter⟩ := Transition.along_append.mp halone
  have hrun : ∀ during, (Transition.run php.step (idle clock) (before ++ .request random body :: during)).1 =
      (Transition.run php.step
        (php.step (Transition.run php.step (idle clock) before).1 (.request random body)).1 during).1 := by
    intro during
    rw [Transition.run_append]
    rfl
  have hpool : pool = (Transition.run php.step (idle clock) (before ++ .request random body :: after)).1 := rfl
  simp only [hrun] at hpool ⊢
  generalize hmid : (Transition.run php.step (idle clock) before).1 = mid at hafter hpool hanswer
  have hmidSound : SeatsSound php mid := hmid ▸ hsound before hbefore
  have hrequest : SeatsSound php (php.step mid (.request random body)).1 ∧
      php.Registers False random r mid.threads.length (php.step mid (.request random body)).1 := by
    refine ⟨hmidSound.step _ trivial, php.register random r, ?_, .start⟩
    show (mid.threads ++ [php.handle random body])[mid.threads.length]? = _
    rw [handle_registration hbody]
    simp
  have hend := Transition.run_met
    (fun met pool => SeatsSound php pool ∧ php.Registers met random r mid.threads.length pool)
    (fun pool => php.Full pool.state r.id) (fun _ _ _ hmet h => ⟨h.1, h.2.mono hmet⟩)
    (fun _ _ event h hok => ⟨h.1.step event hok, h.2.step h.1 event hok⟩) hrequest hafter
  rw [← hpool] at hend
  obtain ⟨-, p, hp, hpoint⟩ := hend
  rw [answer, hp, Option.bind_some] at hanswer
  cases p with
  | act statement next => exact nomatch hanswer
  | done result =>
    obtain rfl := Option.some.inj hanswer
    rcases hpoint.answers rfl with hkey | ⟨hfull, hmet⟩
    · exact Or.inl hkey
    · exact Or.inr ⟨hfull, hmet.resolve_left id⟩

/-! Registrations without a password. -/

def seatIndex (seats : Option Nat) : PhpIndex := ⟨[], [], seats, 0, 120, fun _ => true⟩

def seatRegistration (id : Bytes) : Registration where
  id := id
  nonce := List.replicate 16 0x30
  solution := List.replicate 8 0x30
  proof := hexEncode (hmacSha256 [] (List.replicate 16 0x30 ++ id ++ List.replicate 8 0x30))
  proto := 1
  udpPort := 7000
  candidates := []

def seatRequest (id : Bytes) : JsonObject Rat :=
  [(ascii "op", .str (ascii "register")), (ascii "id", .str id),
    (ascii "nonce", .str (seatRegistration id).nonce), (ascii "solution", .str (seatRegistration id).solution),
    (ascii "proof", .str (seatRegistration id).proof), (ascii "proto", .num 1),
    (ascii "udp_port", .num 7000)]

def seatRandom (byte : UInt8) : Vector UInt8 8 := Vector.replicate 8 byte

def seatEvent (id : Bytes) (byte : UInt8) : Event := .request (seatRandom byte) (some (.obj (seatRequest id)))

theorem seatRequest_registration {id : Bytes} (hid : phpIsValidId id = true) (seats : Option Nat) :
    (seatIndex seats).registration (some (.obj (seatRequest id))) = some (seatRegistration id) := by
  have hproof : phpIsHexToken (seatRegistration id).proof 64 = true := by
    have hdigits := hexEncode_isHexDigit
      (hmacSha256 [] (List.replicate 16 0x30 ++ id ++ List.replicate 8 0x30))
    have hlength : (seatRegistration id).proof.length = 64 := by
      simp [seatRegistration]
    have hne : (seatRegistration id).proof ≠ [] := by
      intro hnil
      rw [hnil] at hlength
      exact nomatch hlength
    simp only [phpIsHexToken, hlength, Bool.and_eq_true, List.all_eq_true]
    exact ⟨⟨rfl, by simpa using hne⟩, hdigits⟩
  have hparse : (seatIndex seats).parseRegister (seatRequest id) id = some (seatRegistration id) := by
    have hfields : requireHex (seatRequest id) "proof" 64 = some (seatRegistration id).proof :=
      Option.filter_eq_some_iff.mpr ⟨rfl, hproof⟩
    unfold parseRegister
    rw [hfields]
    rfl
  have hverified : (seatIndex seats).verified (seatRegistration id) = true := by
    have hpass : (seatIndex seats).getPass (seatRegistration id).id = [] := rfl
    unfold verified
    rw [hpass]
    simp [verifyPow, seatRegistration, seatIndex]
  have hgetId : getString (seatRequest id) "id" = some id := rfl
  have hgetOp : getString (seatRequest id) "op" = some (ascii "register") := rfl
  simp only [registration, Option.bind_eq_bind, Option.bind_eq_some_iff, Option.guard_eq_some',
    Option.filter_eq_some_iff]
  exact ⟨_, ⟨_, rfl, rfl⟩, (), hgetOp, id, ⟨hgetId, hid⟩, hparse, hverified⟩

theorem seatEvent_step {id : Bytes} (hid : phpIsValidId id = true) (seats : Option Nat) (byte : UInt8)
    (pool : Processes) : (seatIndex seats).step pool (seatEvent id byte) =
      (⟨pool.state, pool.threads ++ [(seatIndex seats).register (seatRandom byte) (seatRegistration id)]⟩,
        []) := by
  show (({ state := pool.state, threads := pool.threads ++ [_] } : Processes), _) = _
  rw [handle_registration (seatRequest_registration hid seats)]

/-- A registration that arrives between events is one more request. -/
theorem run_seatEvent {id : Bytes} (hid : phpIsValidId id = true) (seats : Option Nat) (byte : UInt8)
    (pool : Processes) (before after : List Event) :
    (Transition.run (seatIndex seats).step pool (before ++ seatEvent id byte :: after)).1 =
      (Transition.run (seatIndex seats).step ⟨(Transition.run (seatIndex seats).step pool before).1.state,
        (Transition.run (seatIndex seats).step pool before).1.threads ++
          [(seatIndex seats).register (seatRandom byte) (seatRegistration id)]⟩ after).1 := by
  rw [Transition.run_append, Transition.run_cons, seatEvent_step hid]

instance (w : PhpWorld) (id : Bytes) : Decidable (php.Room w id) :=
  match hseats : php.seats with
  | none => isTrue (by
      intro seats hsome
      rw [hseats] at hsome
      cases hsome)
  | some seats =>
    decidable_of_iff (w.publishers.length < seats ∧
      (php.vip id = none → php.nonVips w < seats - php.vips.length)) (by simp [Room, hseats])

/-- An insertion leaves a request its row and its seat. -/
def spares (php : PhpIndex) (w : PhpWorld) (row : PublisherRow) (q : PhpProgram PhpAnswer) : Bool :=
  inserting q != some row.id &&
    match q.statement with
    | some (.insertPublisher other) => php.Room ((PhpStatement.insertPublisher row).exec w).1 other.id
    | _ => true

/-- The next statement of a request is one that takes nothing from the others. -/
def harmless (php : PhpIndex) (pool : Processes) (thread : Nat) : Bool :=
  match upcoming pool thread with
  | some (.insertPublisher row) => (List.range pool.threads.length).all fun other =>
      other == thread || (pool.threads[other]?).all (php.spares pool.state row)
  | some (.deletePublisher _) => false
  | some (.deleteStale cutoff) => pool.state.publishers.all fun row => !decide (row.lastSeen < cutoff)
  | _ => true

theorem not_conflicts_of_spares {row : PublisherRow} (h : php.spares w row q = true) : ¬ php.Conflicts w row q := by
  obtain ⟨hrow, hseat⟩ := Bool.and_eq_true_iff.mp h
  rintro (hinserting | ⟨other, hstatement, hfull⟩)
  · rw [hinserting] at hrow
    simp at hrow
  · rw [hstatement] at hseat
    exact hfull (of_decide_eq_true hseat)

theorem registersAlone_of_harmless {thread : Nat} (h : php.harmless pool thread = true) :
    php.RegistersAlone pool (.advance thread) := by
  intro other q hother hq
  have hlt := (List.getElem?_eq_some_iff.mp hq).1
  refine ⟨fun row hrow => ?_, fun r _ statement hstatement => ?_⟩
  · unfold harmless at h
    rw [hrow] at h
    have hspares := List.all_eq_true.mp h other (List.mem_range.mpr hlt)
    rw [hq] at hspares
    exact not_conflicts_of_spares (by simpa [hother] using hspares)
  · unfold harmless at h
    rw [hstatement] at h
    cases statement with
    | deletePublisher id => cases h
    | deleteStale cutoff =>
      rintro ⟨row, hrow, -, hstale⟩
      have hfresh := List.all_eq_true.mp h row hrow
      simp [hstale] at hfresh
    | _ => exact fun hremoves => hremoves

theorem along_of_harmless {threads : List Nat}
    (h : ∀ taken < threads.length, php.harmless (Transition.run php.step pool
      ((threads.take taken).map .advance)).1 (threads.getD taken 0) = true) :
    Transition.Along php.step php.RegistersAlone pool (threads.map .advance) := by
  induction threads generalizing pool with
  | nil => trivial
  | cons thread threads ih =>
    refine ⟨registersAlone_of_harmless (h 0 (by simp)), ih fun taken htaken => ?_⟩
    exact h (taken + 1) (by simpa using htaken)

/-- The publishers `a` and `b` count before either inserts and take the two seats. -/
def overlapping : List Event :=
  (List.replicate 6 0 ++ List.replicate 6 1 ++ [0, 1] ++ List.replicate 3 0 ++ List.replicate 3 1).map .advance

/-- Then the publisher `c` finds no seat. -/
def refused : List Event := (List.replicate 5 2).map .advance

theorem seats_overlapping :
    let php := seatIndex (some 2)
    let before := seatEvent (ascii "a") 1 :: seatEvent (ascii "b") 2 :: overlapping
    let events := before ++ seatEvent (ascii "c") 3 :: refused
    Transition.Along php.step php.RegistersAlone (idle 1000) events ∧
    let pool := (Transition.run php.step (idle 1000) events).1
    (pool.state.publishers.length ≤ 2 ∧ php.nonVips pool.state ≤ 2 - php.vips.length) ∧
    answer pool 1 = some (.registered (hexEncode (seatRandom 2).toList)) ∧
    answer pool 2 = some (.error 503 "table_full") ∧
    ∃ during next rest, refused = during ++ next :: rest ∧
      php.Full (Transition.run php.step (idle 1000) (before ++ seatEvent (ascii "c") 3 :: during)).1.state
        (ascii "c") := by
  intro php before events
  -- The runs below are compared by their equations only, never by what they compute.
  clear_value (hevents : events = _) (hbefore : before = _) (hphp : php = _)
  subst hphp
  have ha : phpIsValidId (ascii "a") = true := by decide
  have hb : phpIsValidId (ascii "b") = true := by decide
  have hc : phpIsValidId (ascii "c") = true := by decide
  have hstart : (Transition.run (seatIndex (some 2)).step (idle 1000) before).1 =
      (Transition.run (seatIndex (some 2)).step ⟨.empty 1000,
        [(seatIndex (some 2)).register (seatRandom 1) (seatRegistration (ascii "a")),
          (seatIndex (some 2)).register (seatRandom 2) (seatRegistration (ascii "b"))]⟩ overlapping).1 := by
    rw [hbefore, Transition.run_cons, seatEvent_step ha, Transition.run_cons, seatEvent_step hb]
    rfl
  have hend : (Transition.run (seatIndex (some 2)).step (idle 1000) events).1 =
      (Transition.run (seatIndex (some 2)).step
        ⟨(Transition.run (seatIndex (some 2)).step (idle 1000) before).1.state,
          (Transition.run (seatIndex (some 2)).step (idle 1000) before).1.threads ++
            [(seatIndex (some 2)).register (seatRandom 3) (seatRegistration (ascii "c"))]⟩ refused).1 := by
    rw [hevents, run_seatEvent hc]
  have halone : Transition.Along (seatIndex (some 2)).step (seatIndex (some 2)).RegistersAlone (idle 1000)
      events := by
    rw [hevents, Transition.along_append]
    constructor
    · rw [hbefore]
      refine ⟨trivial, trivial, ?_⟩
      rw [seatEvent_step ha, seatEvent_step hb]
      exact along_of_harmless (by decide +kernel)
    · refine ⟨trivial, ?_⟩
      rw [seatEvent_step hc, hstart]
      exact along_of_harmless (by decide +kernel)
  obtain ⟨hseats, hanswers⟩ := seats_interleaved (seatIndex (some 2)) 1000 events halone
  have hthreads : (Transition.run (seatIndex (some 2)).step (idle 1000) before).1.threads.length = 2 := by
    rw [hstart]
    decide +kernel
  have hrefused : answer (Transition.run (seatIndex (some 2)).step (idle 1000) events).1 2 =
      some (.error 503 "table_full") := by
    rw [hend, hstart]
    decide +kernel
  have hfull := hanswers before _ _ refused _ hevents (seatRequest_registration hc _) _
    (by rw [hthreads]; exact hrefused)
  refine ⟨halone, hseats 2 rfl, ?_, hrefused, ?_⟩
  · rw [hend, hstart]
    decide +kernel
  · rcases hfull with ⟨key, hkey, -⟩ | ⟨-, hmet⟩
    · cases hkey
    · exact hmet

/-- Two publishers that count before either inserts, and then insert. -/
def countedBoth : List Event :=
  List.replicate 6 (.advance 0) ++ List.replicate 6 (.advance 1) ++ [.advance 0, .advance 1]

/-- Two registrations of one publisher that look for the row before either inserts, and then insert. -/
def lookedBoth : List Event :=
  List.replicate 4 (.advance 0) ++ List.replicate 4 (.advance 1) ++ [.advance 0, .advance 1]

/-- Two publishers take the one seat, and the second of two registrations of one publisher is answered with
an internal error. -/
theorem seats_taken_twice :
    (Transition.run (seatIndex (some 1)).step (idle 1000)
      (seatEvent (ascii "a") 1 :: seatEvent (ascii "b") 2 :: countedBoth)).1.state.publishers.length = 2 ∧
    answer (Transition.run (seatIndex none).step (idle 1000)
      (seatEvent (ascii "a") 1 :: seatEvent (ascii "a") 2 :: lookedBoth)).1 1 =
        some (.error 500 "internal") := by
  have ha : phpIsValidId (ascii "a") = true := by decide
  have hb : phpIsValidId (ascii "b") = true := by decide
  constructor
  · rw [Transition.run_cons, seatEvent_step ha, Transition.run_cons, seatEvent_step hb]
    decide +kernel
  · rw [Transition.run_cons, seatEvent_step ha, Transition.run_cons, seatEvent_step ha]
    decide +kernel

end PhpIndex

end Redp2p
