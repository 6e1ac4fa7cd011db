import Redp2p.Serving
import Redp2p.Lib.Runs

/-! The VIP map: the reservations that a text of identifiers and passwords makes, all of them or none. -/

namespace Redp2p

open ByteString Runs

namespace Context

/-! ### Reservations -/

/-- Tokens that name reservations: valid identifiers that differ, each with a valid password. -/
structure VipPairs (tokens : List Bytes) (vips : List VipEntry) : Prop where
  tokens : tokens = vips.flatMap fun vip => [vip.id, vip.pass]
  ids : ∀ vip ∈ vips, isValidId vip.id = true
  passes : ∀ vip ∈ vips, isValidPassToken vip.pass = true
  distinct : (vips.map VipEntry.id).Nodup

/-- The memory suffices for the map of a text: no allocation fails, and the size of a table for the
reservations of the text does not overflow. -/
structure VipMemory.Suffices (mem : VipMemory) (vip : Bytes) : Prop where
  copy : mem.copy = true
  table : ∀ cap, mem.table cap = true
  size : vip.length ≤ sizeMax / vipEntrySize

/-- The loop of `redp2p_set_vip` over tokens. -/
def addPairs (mem : VipMemory) : Context → List Bytes → Except VipError Context
  | ctx, [] => .ok ctx
  | _, [_] => .error .oddTokens
  | ctx, id :: pass :: tokens =>
    match ctx.addVip mem id pass with
    | .error err => .error err
    | .ok ctx => addPairs mem ctx tokens

/-! ### The tokens of a text -/

/-- The cursor stands at a token or at the end. -/
def Stands (cursor : Bytes) : Prop := ∀ b ∈ cursor.head?, isSpace b = false

theorem stands_dropWhile (text : Bytes) : Stands (text.dropWhile isSpace) := by
  intro b hb
  have hnot := List.head?_dropWhile_not isSpace text
  rw [Option.mem_def.mp hb] at hnot
  simpa using hnot

/-- A token, and what stands behind it. -/
theorem nextToken_runs {cursor : Bytes} (hne : cursor ≠ []) (hstands : Stands cursor) :
    runs isSpace cursor = (nextToken cursor).1 :: runs isSpace (nextToken cursor).2 ∧
      Stands (nextToken cursor).2 ∧ (nextToken cursor).2.length < cursor.length := by
  refine ⟨?_, stands_dropWhile _, ?_⟩
  · rw [runs_takeWhile hne hstands, nextToken, runs_dropWhile fun _ _ => id]
    refine congrArg _ ?_
    -- What ends a token is a separator or the end of the text.
    cases hrest : cursor.dropWhile fun b => !isSpace b with
    | nil => rfl
    | cons b rest =>
      have hnot := List.head?_dropWhile_not (fun b => !isSpace b) cursor
      rw [hrest] at hnot
      exact runs_sep (by simpa using hnot) rest
  · obtain ⟨b, rest, rfl⟩ := List.exists_cons_of_ne_nil hne
    have hb : isSpace b = false := hstands b rfl
    have hdrop := (List.dropWhile_sublist (l := rest) fun b => !isSpace b).length_le
    have hspace := (List.dropWhile_sublist (l := (rest.dropWhile fun b => !isSpace b).drop 1) isSpace).length_le
    rw [List.length_drop] at hspace
    simp only [nextToken, List.dropWhile_cons, hb, Bool.not_false, if_true, List.length_cons]
    omega

/-- The loop goes through the tokens of its text, two in a turn. -/
theorem readVips_eq (mem : VipMemory) (turns : Nat) (ctx : Context) {cursor : Bytes} (hstands : Stands cursor)
    (hturns : cursor.length ≤ turns) : readVips mem turns ctx cursor = addPairs mem ctx (runs isSpace cursor) := by
  induction turns generalizing ctx cursor with
  | zero =>
    obtain rfl := List.length_eq_zero_iff.mp (Nat.le_zero.mp hturns)
    rfl
  | succ turns ih =>
    cases cursor with
    | nil => rfl
    | cons b rest =>
      obtain ⟨htokens, hstands', hless⟩ := nextToken_runs (List.cons_ne_nil b rest) hstands
      rw [readVips]
      · dsimp only
        by_cases hend : (nextToken (b :: rest)).2 = []
        · rw [if_pos hend, htokens, hend]
          rfl
        · obtain ⟨htokens', hstands'', hless'⟩ := nextToken_runs hend hstands'
          rw [if_neg hend, htokens, htokens', addPairs]
          cases ctx.addVip mem (nextToken (b :: rest)).1 (nextToken (nextToken (b :: rest)).2).1 with
          | error err => rfl
          | ok ctx => exact ih ctx hstands'' (by omega)
      · simp

theorem trim_runs (text : Bytes) : runs isSpace (trim text) = runs isSpace text ∧ Stands (trim text) := by
  refine ⟨runs_strip fun _ _ => id, fun b hb => stands_dropWhile text b ?_⟩
  rw [strip_split isSpace text]
  cases htrim : strip isSpace text with
  | nil =>
    rw [show trim text = [] from htrim] at hb
    exact nomatch hb
  | cons c rest =>
    rw [show trim text = c :: rest from htrim] at hb
    exact hb

/-! ### Adding the reservations -/

theorem growVips_ok {ctx : Context} {mem : VipMemory} (htable : ∀ cap, mem.table cap = true)
    (hcap : ctx.vipsCap ≤ max 8 (2 * ctx.vips.length))
    (hsize : 2 * (ctx.vips.length + 1) ≤ sizeMax / vipEntrySize) :
    ∃ cap, ctx.growVips mem = .ok cap ∧ cap ≤ max 8 (2 * (ctx.vips.length + 1)) := by
  have hentries : sizeMax / vipEntrySize ≤ sizeMax / 2 := by decide
  have height : 8 ≤ sizeMax / vipEntrySize := by decide
  unfold growVips
  by_cases hfull : ctx.vips.length ≥ ctx.vipsCap
  · rw [if_pos hfull, if_neg (by omega)]
    dsimp only
    generalize hnext : (if ctx.vipsCap > 0 then ctx.vipsCap * 2 else 8) = next
    have hbound : next ≤ max 8 (2 * ctx.vips.length) := by
      rw [← hnext]
      split <;> omega
    rw [if_neg (by omega), htable, if_pos rfl]
    exact ⟨next, rfl, by omega⟩
  · rw [if_neg hfull]
    exact ⟨ctx.vipsCap, rfl, by omega⟩

/-- The entry of a reservation, which is copied as it is. -/
theorem entry_eq {id pass : Bytes} (hid : isValidId id = true) (hpass : isValidPassToken pass = true) :
    (⟨id.take idMax, pass.take passMax⟩ : VipEntry) = ⟨id, pass⟩ := by
  have hid' : id.take idMax = id := List.take_of_length_le (isValidId_iff.mp hid).2.1
  have hpass' : pass.take passMax = pass := List.take_of_length_le (isToken_iff.mp hpass).2.1
  rw [hid', hpass']

theorem findVip_isSome_iff (ctx : Context) (id : Bytes) :
    (ctx.findVip id).isSome = true ↔ id ∈ ctx.vips.map VipEntry.id := by
  rw [← Option.ne_none_iff_isSome, findVip, ne_eq, Keyed.indexOf_eq_none_iff, Keyed.lookup_eq_none_iff,
    List.mem_map]
  push Not
  rfl

/-- A reservation that is added is valid and new. -/
theorem addVip_adds {ctx ctx' : Context} {mem : VipMemory} {id pass : Bytes} (h : ctx.addVip mem id pass = .ok ctx') :
    isValidId id = true ∧ isValidPassToken pass = true ∧ id ∉ ctx.vips.map VipEntry.id ∧
      ctx'.vips = ctx.vips ++ [⟨id, pass⟩] := by
  unfold addVip at h
  split at h
  · exact nomatch h
  next hid =>
  split at h
  · exact nomatch h
  next hpass =>
  split at h
  · exact nomatch h
  next hfree =>
  have hid : isValidId id = true := by simpa using hid
  have hpass : isValidPassToken pass = true := by simpa using hpass
  split at h
  · exact nomatch h
  · obtain rfl := Except.ok.inj h
    refine ⟨hid, hpass, ?_, ?_⟩
    · rwa [← findVip_isSome_iff]
    · dsimp only
      rw [entry_eq hid hpass]

/-- The tokens whose loop succeeds name reservations. -/
theorem addPairs_names {mem : VipMemory} {tokens : List Bytes} {ctx ctx' : Context}
    (hdistinct : (ctx.vips.map VipEntry.id).Nodup) (h : addPairs mem ctx tokens = .ok ctx') :
    ∃ vips, VipPairs tokens vips ∧ ctx'.vips = ctx.vips ++ vips ∧ (ctx'.vips.map VipEntry.id).Nodup := by
  induction ctx, tokens using addPairs.induct mem with
  | case1 ctx =>
    obtain rfl := Except.ok.inj h
    exact ⟨[], ⟨rfl, nofun, nofun, List.nodup_nil⟩, (List.append_nil _).symm, hdistinct⟩
  | case2 ctx token => exact nomatch h
  | case3 ctx id pass tokens err hadd =>
    rw [addPairs, hadd] at h
    exact nomatch h
  | case4 ctx id pass tokens next hadd ih =>
    rw [addPairs, hadd] at h
    obtain ⟨hid, hpass, hnew, hnext⟩ := addVip_adds hadd
    have hdistinct' : (next.vips.map VipEntry.id).Nodup := by
      rw [hnext, List.map_append, List.nodup_append]
      refine ⟨hdistinct, List.nodup_singleton _, ?_⟩
      rintro a ha b hb rfl
      obtain rfl := List.mem_singleton.mp hb
      exact hnew ha
    obtain ⟨vips, hpairs, hvips, hall⟩ := ih hdistinct' h
    have hvips' : ctx'.vips = ctx.vips ++ ⟨id, pass⟩ :: vips := by
      rw [hvips, hnext, List.append_assoc, List.singleton_append]
    refine ⟨⟨id, pass⟩ :: vips, ⟨?_, ?_, ?_, ?_⟩, hvips', hall⟩
    · rw [List.flatMap_cons, ← hpairs.tokens]
      rfl
    · exact List.forall_mem_cons.mpr ⟨hid, hpairs.ids⟩
    · exact List.forall_mem_cons.mpr ⟨hpass, hpairs.passes⟩
    · rw [hvips', List.map_append] at hall
      exact (List.nodup_append.mp hall).2.1

/-- Reservations that are named are added, where the memory suffices. -/
theorem addPairs_adds {mem : VipMemory} (htable : ∀ cap, mem.table cap = true) {vips : List VipEntry}
    (hids : ∀ vip ∈ vips, isValidId vip.id = true) (hpasses : ∀ vip ∈ vips, isValidPassToken vip.pass = true)
    {ctx : Context} (hdistinct : ((ctx.vips ++ vips).map VipEntry.id).Nodup)
    (hcap : ctx.vipsCap ≤ max 8 (2 * ctx.vips.length))
    (hsize : 2 * (ctx.vips.length + vips.length) ≤ sizeMax / vipEntrySize) :
    ∃ ctx', addPairs mem ctx (vips.flatMap fun vip => [vip.id, vip.pass]) = .ok ctx' ∧
      ctx'.vips = ctx.vips ++ vips := by
  induction vips generalizing ctx with
  | nil => exact ⟨ctx, rfl, (List.append_nil _).symm⟩
  | cons vip vips ih =>
    obtain ⟨hid, hids⟩ := List.forall_mem_cons.mp hids
    obtain ⟨hpass, hpasses⟩ := List.forall_mem_cons.mp hpasses
    rw [List.length_cons] at hsize
    obtain ⟨cap, hgrow, hnext⟩ := growVips_ok htable hcap (by omega)
    have hfree : vip.id ∉ ctx.vips.map VipEntry.id := by
      rw [List.map_append, List.map_cons, List.nodup_append] at hdistinct
      exact fun hmem => hdistinct.2.2 _ hmem _ List.mem_cons_self rfl
    have hadd : ctx.addVip mem vip.id vip.pass =
        .ok { ctx with vips := ctx.vips ++ [vip], vipsCap := cap } := by
      unfold addVip
      rw [if_neg (by simp [hid]), if_neg (by simp [hpass]), if_neg (by rwa [findVip_isSome_iff]), hgrow]
      dsimp only
      rw [entry_eq hid hpass]
    obtain ⟨ctx', hrest, hvips⟩ : ∃ ctx', addPairs mem { ctx with vips := ctx.vips ++ [vip], vipsCap := cap }
        (vips.flatMap fun vip => [vip.id, vip.pass]) = .ok ctx' ∧ ctx'.vips = ctx.vips ++ [vip] ++ vips := ih hids hpasses
      (by simpa only [List.append_assoc, List.singleton_append] using hdistinct)
      (by simpa only [List.length_append, List.length_singleton] using hnext)
      (by
        simp only [List.length_append, List.length_singleton]
        omega)
    refine ⟨ctx', ?_, ?_⟩
    · rw [List.flatMap_cons]
      simp only [List.cons_append, List.nil_append, addPairs, hadd]
      exact hrest
    · rw [hvips, List.append_assoc, List.singleton_append]

/-! ### Exactness -/

theorem flatMap_pair_length (vips : List VipEntry) :
    (vips.flatMap fun vip => [vip.id, vip.pass]).length = 2 * vips.length := by
  induction vips with
  | nil => rfl
  | cons vip vips ih =>
    rw [List.flatMap_cons, List.length_append, ih, List.length_cons, List.length_cons, List.length_cons]
    simp only [List.length_nil]
    omega

theorem clearVips_vips (ctx : Context) : ctx.clearVips.vips = [] ∧ ctx.clearVips.vipsCap = 0 := by
  rw [clearVips, updateNonvipCap_eq]
  exact ⟨rfl, rfl⟩

/-- The text of `redp2p_set_vip` as its tokens, unless it is empty or cannot be copied. -/
theorem setVip_eq (ctx : Context) (mem : VipMemory) {vip : Bytes} (hne : vip ≠ []) (hcopy : mem.copy = true) :
    ctx.setVip mem vip =
      match addPairs mem ctx.clearVips (runs isSpace vip) with
      | .error err => (ctx.clearVips.clearVips, .error err)
      | .ok ctx => (ctx.updateNonvipCap, .ok ()) := by
  obtain ⟨hruns, hstands⟩ := trim_runs vip
  have hread := readVips_eq mem _ ctx.clearVips hstands (Nat.le_refl _)
  rw [hruns] at hread
  cases hpairs : addPairs mem ctx.clearVips (runs isSpace vip) with
  | error err =>
    rw [hpairs] at hread
    simp only [setVip, if_neg hne, hcopy, Bool.not_true, Bool.false_eq_true, if_false, hread]
  | ok read =>
    rw [hpairs] at hread
    simp only [setVip, if_neg hne, hcopy, Bool.not_true, Bool.false_eq_true, if_false, hread]

/-- The capacity for other publishers always follows the seats and the reservations. -/
theorem setVip_nonvipCap (ctx : Context) (mem : VipMemory) (vip : Bytes) :
    (ctx.setVip mem vip).1.nonvipCap = (ctx.setVip mem vip).1.nPeersCap - (ctx.setVip mem vip).1.vips.length := by
  unfold setVip clearVips
  simp only [updateNonvipCap_eq]
  split
  · rfl
  split
  · rfl
  split
  · rfl
  · rfl

/-- A text without words is accepted without an allocation. -/
theorem setVip_nil (ctx : Context) (mem : VipMemory) : ctx.setVip mem [] = (ctx.clearVips, .ok ()) := rfl

section Exact

variable (ctx : Context) {mem : VipMemory} {vip : Bytes}

theorem setVip_pairs (hmem : mem.Suffices vip) {vips : List VipEntry} (hpairs : VipPairs (runs isSpace vip) vips) :
    (ctx.setVip mem vip).2 = .ok () ∧ (ctx.setVip mem vip).1.vips = vips := by
  obtain ⟨hclear, hcap⟩ := clearVips_vips ctx
  have hlength : (runs isSpace vip).length ≤ vip.length := runs_length vip
  rw [hpairs.tokens, flatMap_pair_length] at hlength
  by_cases hne : vip = []
  · subst hne
    rw [setVip_nil, List.length_eq_zero_iff.mp (show vips.length = 0 by rw [List.length_nil] at hlength; omega)]
    exact ⟨rfl, hclear⟩
  · have hsize := hmem.size
    have hdistinct : ((ctx.clearVips.vips ++ vips).map VipEntry.id).Nodup := by
      rw [hclear]
      exact hpairs.distinct
    obtain ⟨ctx', hok, hvips⟩ := addPairs_adds hmem.table hpairs.ids hpairs.passes hdistinct (by omega)
      (by rw [hclear, List.length_nil]; omega)
    rw [← hpairs.tokens] at hok
    rw [setVip_eq ctx mem hne hmem.copy, hok]
    dsimp only
    rw [updateNonvipCap_eq, hvips, hclear, List.nil_append]
    exact ⟨rfl, rfl⟩

theorem setVip_names (hmem : mem.Suffices vip) (h : (ctx.setVip mem vip).2 = .ok ()) :
    ∃ vips, VipPairs (runs isSpace vip) vips := by
  by_cases hne : vip = []
  · subst hne
    exact ⟨[], rfl, nofun, nofun, List.nodup_nil⟩
  · rw [setVip_eq ctx mem hne hmem.copy] at h
    cases hread : addPairs mem ctx.clearVips (runs isSpace vip) with
    | error err =>
      rw [hread] at h
      exact nomatch h
    | ok ctx' =>
      obtain ⟨vips, hpairs, -, -⟩ := addPairs_names (by rw [(clearVips_vips ctx).1]; exact List.nodup_nil) hread
      exact ⟨vips, hpairs⟩

theorem setVip_refused (mem : VipMemory) (h : (ctx.setVip mem vip).2 ≠ .ok ()) : (ctx.setVip mem vip).1.vips = [] := by
  unfold setVip at h ⊢
  dsimp only at h ⊢
  split at h
  · exact absurd rfl h
  next hne =>
  rw [if_neg hne]
  split at h
  · next hcopy => rw [if_pos hcopy, (clearVips_vips ctx).1]
  next hcopy =>
  rw [if_neg hcopy]
  split at h
  · exact (clearVips_vips _).1
  · exact absurd rfl h

end Exact

/-- `redp2p_set_vip` accepts exactly the texts whose words are reservations, and then has those. Otherwise it
has none. -/
theorem vip_map_exact (ctx : Context) {mem : VipMemory} {vip : Bytes} (hmem : mem.Suffices vip) :
    ((ctx.setVip mem vip).2 = .ok () ↔ ∃ vips, VipPairs (runs isSpace vip) vips) ∧
      (∀ vips, VipPairs (runs isSpace vip) vips → (ctx.setVip mem vip).1.vips = vips) ∧
      ((ctx.setVip mem vip).2 ≠ .ok () → (ctx.setVip mem vip).1.vips = []) ∧
      ((ctx.setVip mem vip).1.nonvipCap : Int) =
        max 0 ((ctx.nPeersCap : Int) - (ctx.setVip mem vip).1.vips.length) := by
  have hseats : (ctx.setVip mem vip).1.nPeersCap = ctx.nPeersCap :=
    congrArg (fun limits => limits.2.1) (setVip_limits ctx mem vip)
  refine ⟨?_, ?_, ctx.setVip_refused mem, ?_⟩
  · constructor
    · exact ctx.setVip_names hmem
    · rintro ⟨vips, hpairs⟩
      exact (ctx.setVip_pairs hmem hpairs).1
  · exact fun vips hpairs => (ctx.setVip_pairs hmem hpairs).2
  · rw [setVip_nonvipCap, hseats]
    omega

/-- Two reservations between white space of several kinds. -/
theorem vip_map_sample :
    ((Context.opened 120).setVip ⟨true, fun _ => true⟩ (ascii " alice\t s3cret\n42 x.y\r\n")).2 = .ok () ↔
      ∃ vips, VipPairs (runs isSpace (ascii " alice\t s3cret\n42 x.y\r\n")) vips :=
  (vip_map_exact (Context.opened 120) ⟨rfl, fun _ => rfl, by decide⟩).1

end Context

end Redp2p
