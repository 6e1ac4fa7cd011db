import Redp2p.PhpFields
import Redp2p.VipMap

/-! The VIP map of the index in PHP. A PHP array turns keys that look like integers into integers, which the
strictly typed check of identifiers then refuses. -/

namespace Redp2p

open ByteString Runs Context

/-! ### Array keys -/

/-- A key of a PHP array. -/
inductive PhpKey where
  | int (n : Int)
  | str (text : Bytes)
  deriving DecidableEq

/-- The integer that a string is the decimal text of, as far as PHP has it. -/
def phpInteger (text : Bytes) : Option Int :=
  match text with
  | 0x2d :: digits =>
    let n := parseDecimal digits
    if digits = decimal n ∧ 0 < n ∧ n ≤ 2 ^ 63 then some (-n) else none
  | digits =>
    let n := parseDecimal digits
    if digits = decimal n ∧ n < 2 ^ 63 then some n else none

/-- The key that PHP uses for a string. -/
def phpKey (text : Bytes) : PhpKey :=
  match phpInteger text with
  | some n => .int n
  | none => .str text

theorem phpInteger_eq_some {text : Bytes} {n : Int} (h : phpInteger text = some n) :
    text = if n < 0 then 0x2d :: decimal n.natAbs else decimal n.natAbs := by
  unfold phpInteger at h
  split at h
  · dsimp only at h
    split at h
    · next hdigits =>
      obtain rfl := Option.some.inj h
      rw [if_pos (by omega), Int.natAbs_neg, Int.natAbs_natCast, ← hdigits.1]
    · exact nomatch h
  · dsimp only at h
    split at h
    · next hdigits =>
      obtain rfl := Option.some.inj h
      rw [if_neg (by omega), Int.natAbs_natCast, ← hdigits.1]
    · exact nomatch h

/-- Different strings have different keys. -/
theorem phpKey_injective {a b : Bytes} (h : phpKey a = phpKey b) : a = b := by
  unfold phpKey at h
  cases ha : phpInteger a with
  | some n =>
    cases hb : phpInteger b with
    | some m =>
      rw [ha, hb] at h
      obtain rfl := PhpKey.int.inj h
      rw [phpInteger_eq_some ha, phpInteger_eq_some hb]
    | none =>
      rw [ha, hb] at h
      exact nomatch h
  | none =>
    cases hb : phpInteger b with
    | some m =>
      rw [ha, hb] at h
      exact nomatch h
    | none =>
      rw [ha, hb] at h
      exact PhpKey.str.inj h

/-! ### The map -/

inductive PhpVipError where
  | oddTokens
  | redefined (id : Bytes)
  | invalidId (id : Bytes)
  | invalidPass (id : Bytes)
  /-- An integer where the type of a parameter is `string`. -/
  | typeError (id : Int)
  deriving DecidableEq

/-- A PHP array with string values, in the order of its keys. -/
abbrev PhpMap := List (PhpKey × Bytes)

/-- What `trim` takes off. -/
def phpTrimChar (ch : UInt8) : Bool :=
  ch == 0x20 || ch == 0x0a || ch == 0x0d || ch == 0x09 || ch == 0x0b || ch == 0

/-- `\s` of a regular expression. -/
def pcreSpace (ch : UInt8) : Bool := ch == 0x20 || (0x09 ≤ ch && ch ≤ 0x0d)

/-- `preg_split('/\s+/', trim($vips), -1, PREG_SPLIT_NO_EMPTY)`. -/
def phpTokens (vips : Bytes) : List Bytes := runs pcreSpace (strip phpTrimChar vips)

/-- `isValidPassToken`. The end of the expression may stand before a line feed at the end of the text. -/
def phpIsValidPassToken (pass : Bytes) : Bool :=
  let body := if pass.getLast? = some 0x0a then pass.dropLast else pass
  pass != [] && pass.length ≤ passMax && body != [] && body.all isPassChar

/-- The loop over the pairs of tokens. -/
def phpReadVips : PhpMap → List Bytes → Except PhpVipError PhpMap
  | map, id :: word :: tokens =>
    if (map.map Prod.fst).contains (phpKey id) then .error (.redefined id)
    else phpReadVips (map ++ [(phpKey id, word)]) tokens
  | map, _ => .ok map

/-- The checks of one entry. `isValidId` is called with the key of the array. -/
def phpCheckVip : PhpKey × Bytes → Except PhpVipError Unit
  | (.int n, _) => .error (.typeError n)
  | (.str id, word) =>
    if !phpIsValidId id then .error (.invalidId id)
    else if !phpIsValidPassToken word then .error (.invalidPass id)
    else .ok ()

/-- `setVips` for a string. -/
def phpSetVips (vips : Bytes) : Except PhpVipError PhpMap := do
  let tokens := phpTokens vips
  if tokens.length % 2 ≠ 0 then throw .oddTokens
  let map ← phpReadVips [] tokens
  map.forM phpCheckVip
  return map

/-- `$this->vips[$id]`. -/
def PhpMap.password (map : PhpMap) (id : Bytes) : Option Bytes :=
  (Keyed.lookup Prod.fst (phpKey id) map).map Prod.snd

/-! ### Tokens -/

theorem pcreSpace_eq : pcreSpace = isSpace := by
  have hall : ∀ ch : Fin 256, pcreSpace (UInt8.ofNat ch) = isSpace (UInt8.ofNat ch) := by decide +kernel
  funext ch
  simpa using hall ⟨ch.toNat, ch.toNat_lt⟩

theorem phpTrimChar_space {ch : UInt8} (hch : ch ≠ 0) (h : phpTrimChar ch = true) : isSpace ch = true := by
  simp only [phpTrimChar, isSpace, Bool.or_eq_true, beq_iff_eq] at h ⊢
  rcases h with ((((h | h) | h) | h) | h) | h
  · simp [h]
  · simp [h]
  · simp [h]
  · simp [h]
  · simp [h]
  · exact absurd h hch

/-- In a text without NULs the two indexes see the same tokens. -/
theorem phpTokens_eq {vips : Bytes} (hnul : ∀ b ∈ vips, b ≠ 0) : phpTokens vips = runs isSpace vips := by
  rw [phpTokens, pcreSpace_eq]
  exact runs_strip fun b hb => phpTrimChar_space (hnul b hb)

theorem phpIsValidPassToken_eq {pass : Bytes} (h : ∀ b ∈ pass, isSpace b = false) :
    phpIsValidPassToken pass = isValidPassToken pass := by
  have hlast : ¬ pass.getLast? = some 0x0a := by
    intro hlast
    exact absurd (h 0x0a (List.mem_of_getLast? hlast)) (by decide)
  unfold phpIsValidPassToken
  rw [if_neg hlast]
  cases pass with
  | nil => rfl
  | cons b pass =>
    have hne : (b :: pass != []) = true := rfl
    simp [isValidPassToken, isToken, hne]

/-! ### What is accepted -/

/-- The entry of a reservation. -/
def VipEntry.php (vip : VipEntry) : PhpKey × Bytes := (phpKey vip.id, vip.pass)

theorem phpReadVips_reads (tokens : List Bytes) (heven : tokens.length % 2 = 0) (before : PhpMap)
    (hbefore : (before.map Prod.fst).Nodup) (map : PhpMap) :
    phpReadVips before tokens = .ok map ↔ ∃ vips : List VipEntry,
      tokens = (vips.flatMap fun vip => [vip.id, vip.pass]) ∧ map = before ++ vips.map VipEntry.php ∧
        (map.map Prod.fst).Nodup := by
  induction before, tokens using phpReadVips.induct with
  | case1 before id pass tokens hset =>
    rw [phpReadVips, if_pos hset]
    refine iff_of_false nofun ?_
    rintro ⟨vips, htokens, rfl, hnodup⟩
    cases vips with
    | nil => exact nomatch htokens
    | cons vip vips =>
      obtain ⟨rfl, rfl, -⟩ := List.cons.inj htokens |>.imp_right List.cons.inj
      rw [List.map_append, List.nodup_append] at hnodup
      refine hnodup.2.2 (phpKey vip.id) (by simpa using hset) (phpKey vip.id) ?_ rfl
      simp [VipEntry.php]
  | case2 before id pass tokens hset ih =>
    rw [phpReadVips, if_neg hset]
    have hbefore' : ((before ++ [(phpKey id, pass)]).map Prod.fst).Nodup := by
      rw [List.map_append, List.nodup_append]
      refine ⟨hbefore, List.nodup_singleton _, ?_⟩
      rintro a ha b hb rfl
      obtain rfl := List.mem_singleton.mp hb
      exact hset (by simpa using ha)
    rw [ih (by simp only [List.length_cons] at heven; omega) hbefore']
    constructor
    · rintro ⟨vips, rfl, rfl, hnodup⟩
      exact ⟨⟨id, pass⟩ :: vips, rfl, by simp [VipEntry.php], hnodup⟩
    · rintro ⟨vips, htokens, rfl, hnodup⟩
      cases vips with
      | nil => exact nomatch htokens
      | cons vip vips =>
        obtain ⟨rfl, rfl, rfl⟩ := List.cons.inj htokens |>.imp_right List.cons.inj
        exact ⟨vips, rfl, by simp [VipEntry.php], hnodup⟩
  | case3 tokens before hpair =>
    obtain rfl : tokens = [] := by
      match tokens, hpair with
      | [], _ => rfl
      | [token], _ => exact absurd heven (by simp)
      | id :: word :: tokens, hpair => exact absurd rfl (hpair id word tokens)
    rw [phpReadVips]
    · constructor
      · intro h
        obtain rfl := Except.ok.inj h
        exact ⟨[], rfl, (List.append_nil _).symm, hbefore⟩
      · rintro ⟨vips, htokens, rfl, -⟩
        cases vips with
        | nil => rw [List.map_nil, List.append_nil]
        | cons vip vips => exact nomatch htokens
    · exact hpair

theorem forM_ok_iff {α ε : Type} (check : α → Except ε Unit) (l : List α) :
    l.forM check = .ok () ↔ ∀ a ∈ l, check a = .ok () := by
  induction l with
  | nil => exact iff_of_true rfl nofun
  | cons a l ih =>
    rw [List.forall_mem_cons, ← ih, show (a :: l).forM check = (check a >>= fun _ => l.forM check) from rfl]
    cases check a with
    | error err => exact iff_of_false nofun fun h => nomatch h.1
    | ok u => exact (and_iff_right rfl).symm

/-- An entry passes the checks when its identifier is no integer to PHP and the index in C accepts it. -/
theorem phpCheckVip_iff {vip : VipEntry} (hpass : ∀ b ∈ vip.pass, isSpace b = false) :
    phpCheckVip vip.php = .ok () ↔
      phpInteger vip.id = none ∧ isValidId vip.id = true ∧ isValidPassToken vip.pass = true := by
  unfold VipEntry.php phpKey
  cases hint : phpInteger vip.id with
  | some n => exact iff_of_false nofun fun h => nomatch h.1
  | none =>
    dsimp only [phpCheckVip]
    rw [phpIsValidId_eq, phpIsValidPassToken_eq hpass]
    cases isValidId vip.id <;> cases isValidPassToken vip.pass <;> simp

/-- `setVips` accepts the reservations that the index in C accepts, where no identifier is an integer. -/
theorem phpSetVips_iff {text : Bytes} (hnul : ∀ b ∈ text, b ≠ 0) (map : PhpMap) :
    phpSetVips text = .ok map ↔ ∃ vips, VipPairs (runs isSpace text) vips ∧
      (∀ vip ∈ vips, phpInteger vip.id = none) ∧ map = vips.map VipEntry.php := by
  have hwords : ∀ {vips : List VipEntry}, runs isSpace text = (vips.flatMap fun vip => [vip.id, vip.pass]) →
      ∀ vip ∈ vips, ∀ b ∈ vip.pass, isSpace b = false := by
    intro vips htokens vip hvip
    have hmem : vip.pass ∈ runs isSpace text := by
      rw [htokens, List.mem_flatMap]
      exact ⟨vip, hvip, by simp⟩
    exact (mem_runsFrom nofun hmem).2
  have hkeys : ∀ vips : List VipEntry, ((vips.map VipEntry.php).map Prod.fst).Nodup ↔
      (vips.map VipEntry.id).Nodup := by
    intro vips
    rw [List.map_map, show Prod.fst ∘ VipEntry.php = phpKey ∘ VipEntry.id from rfl, ← List.map_map]
    exact List.nodup_map_iff fun _ _ => phpKey_injective
  unfold phpSetVips
  rw [phpTokens_eq hnul]
  dsimp only
  by_cases hodd : (runs isSpace text).length % 2 ≠ 0
  · rw [if_pos hodd]
    refine iff_of_false nofun ?_
    rintro ⟨vips, hpairs, -⟩
    rw [hpairs.tokens, flatMap_pair_length] at hodd
    omega
  have hreads := phpReadVips_reads (runs isSpace text) (not_not.mp hodd) [] List.nodup_nil
  rw [if_neg hodd]
  constructor
  · intro h
    cases hread : phpReadVips [] (runs isSpace text) with
    | error err => simp [hread, bind, Except.bind] at h
    | ok read =>
      obtain ⟨vips, htokens, rfl, hnodup⟩ := (hreads read).mp hread
      simp only [hread, List.nil_append, bind, Except.bind, pure, Except.pure] at h hnodup
      cases hcheck : (vips.map VipEntry.php).forM phpCheckVip with
      | error err => simp [hcheck] at h
      | ok u =>
        have hall := (forM_ok_iff phpCheckVip (vips.map VipEntry.php)).mp hcheck
        rw [List.forall_mem_map] at hall
        have hvalid := fun vip hvip => (phpCheckVip_iff (hwords htokens vip hvip)).mp (hall vip hvip)
        rw [hcheck] at h
        exact ⟨vips, ⟨htokens, fun vip hvip => (hvalid vip hvip).2.1, fun vip hvip => (hvalid vip hvip).2.2,
          (hkeys vips).mp hnodup⟩, fun vip hvip => (hvalid vip hvip).1, (Except.ok.inj h).symm⟩
  · rintro ⟨vips, hpairs, hstrings, rfl⟩
    have hread := (hreads (vips.map VipEntry.php)).mpr
      ⟨vips, hpairs.tokens, rfl, (hkeys vips).mpr hpairs.distinct⟩
    have hcheck : (vips.map VipEntry.php).forM phpCheckVip = .ok () := by
      rw [forM_ok_iff, List.forall_mem_map]
      intro vip hvip
      exact (phpCheckVip_iff (hwords hpairs.tokens vip hvip)).mpr
        ⟨hstrings vip hvip, hpairs.ids vip hvip, hpairs.passes vip hvip⟩
    simp only [hread, hcheck, bind, Except.bind, pure, Except.pure]

/-! ### Agreement -/

theorem password_eq (vips : List VipEntry) (id : Bytes) :
    PhpMap.password (vips.map VipEntry.php) id = (Keyed.lookup VipEntry.id id vips).map VipEntry.pass := by
  unfold PhpMap.password
  induction vips with
  | nil => rfl
  | cons vip vips ih =>
    rw [List.map_cons, Keyed.lookup_cons, Keyed.lookup_cons]
    by_cases hid : vip.id = id
    · rw [if_pos hid, if_pos (show vip.php.1 = phpKey id from congrArg phpKey hid)]
      rfl
    · rw [if_neg hid, if_neg (show vip.php.1 ≠ phpKey id from fun h => hid (phpKey_injective h))]
      exact ih

/-- The two indexes accept the same text, and then reserve the same identifiers under the same passwords. -/
def VipMapsAgree (ctx : Context) (mem : VipMemory) (text : Bytes) : Prop :=
  ((∃ map, phpSetVips text = .ok map) ↔ (ctx.setVip mem text).2 = .ok ()) ∧
    ∀ map, phpSetVips text = .ok map → ∀ id,
      map.password id = (Keyed.lookup VipEntry.id id (ctx.setVip mem text).1.vips).map VipEntry.pass

/-- The two indexes make the same of a text exactly when it is no map with an identifier that PHP takes for an
integer. -/
theorem vip_maps_agree_iff (ctx : Context) {mem : VipMemory} {text : Bytes} (hmem : mem.Suffices text)
    (hnul : ∀ b ∈ text, b ≠ 0) :
    VipMapsAgree ctx mem text ↔
      ∀ vips, VipPairs (runs isSpace text) vips → ∀ vip ∈ vips, phpInteger vip.id = none := by
  constructor
  · rintro ⟨hsame, hmaps⟩ vips hpairs
    obtain ⟨hok, hvips⟩ := ctx.setVip_pairs hmem hpairs
    obtain ⟨map, hmap⟩ := hsame.mpr hok
    obtain ⟨vips', hpairs', hstrings, -⟩ := (phpSetVips_iff hnul map).mp hmap
    -- The tokens have one reading as reservations, which is what the index in C holds.
    rw [← hvips, (ctx.setVip_pairs hmem hpairs').2]
    exact hstrings
  · intro hstrings
    refine ⟨?_, ?_⟩
    · constructor
      · rintro ⟨map, hmap⟩
        obtain ⟨vips, hpairs, -⟩ := (phpSetVips_iff hnul map).mp hmap
        exact (ctx.setVip_pairs hmem hpairs).1
      · intro hok
        obtain ⟨vips, hpairs⟩ := ctx.setVip_names hmem hok
        exact ⟨_, (phpSetVips_iff hnul _).mpr ⟨vips, hpairs, hstrings vips hpairs, rfl⟩⟩
    · intro map hmap id
      obtain ⟨vips, hpairs, -, rfl⟩ := (phpSetVips_iff hnul map).mp hmap
      rw [(ctx.setVip_pairs hmem hpairs).2]
      exact password_eq vips id

/-- The identifier `42` is reserved by the index in C and refused by the index in PHP. -/
theorem vip_maps_differ :
    ¬ VipMapsAgree (Context.opened 120) ⟨true, fun _ => true⟩ (ascii "42 secret") ∧
      phpSetVips (ascii "42 secret") = .error (.typeError 42) := by
  have hrefused : phpSetVips (ascii "42 secret") = .error (.typeError 42) := by decide +kernel
  refine ⟨fun h => ?_, hrefused⟩
  obtain ⟨map, hmap⟩ := h.1.mpr rfl
  rw [hrefused] at hmap
  exact nomatch hmap

/-- The identifier `042`, which PHP takes for a string, is reserved by both. -/
theorem vip_maps_agree_sample : VipMapsAgree (Context.opened 120) ⟨true, fun _ => true⟩ (ascii "042 secret") := by
  have hmem : (⟨true, fun _ => true⟩ : VipMemory).Suffices (ascii "042 secret") := ⟨rfl, fun _ => rfl, by decide⟩
  apply (vip_maps_agree_iff (Context.opened 120) hmem (by decide +kernel)).mpr
  intro vips hpairs vip hvip
  rw [← ((Context.opened 120).setVip_pairs hmem hpairs).2] at hvip
  have hvips : ((Context.opened 120).setVip ⟨true, fun _ => true⟩ (ascii "042 secret")).1.vips =
      [⟨ascii "042", ascii "secret"⟩] := by decide +kernel
  rw [hvips, List.mem_singleton] at hvip
  rw [hvip]
  decide +kernel

end Redp2p
