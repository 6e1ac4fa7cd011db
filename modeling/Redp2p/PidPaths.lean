import Redp2p.Cli
import Mathlib.Data.List.Forall2

/-! The files that hold the processes of background instances: when two instances have the same one. -/

namespace Redp2p.Cli

open ByteString

/-! ### Instances -/

/-- What runs in the background: an index at a port, or a publisher or consumer with its specification. -/
inductive Instance where
  | idx (port : UInt16)
  | client (kind : Client) (spec : Bytes)

namespace Instance

def cmd : Instance → String
  | .idx _ => "idx"
  | .client kind _ => kind.cmd

/-- The identifier, the index host and the index port of an instance that is accepted. An index has only a
port. -/
def address : Instance → Option (Bytes × Bytes × UInt16)
  | .idx port => if port = 0 then none else some ([], [], port)
  | .client _ spec => (parseHostspec spec (idMax + 1) 256).filter fun address => isValidId address.1

/-- The file of an instance. -/
def pidPath (stateDir : Bytes) : Instance → Option Bytes
  | .idx port => idxPidPath stateDir port
  | .client kind spec => Cli.pidPath stateDir (ascii kind.cmd) spec

end Instance

/-! ### Specifications that look alike -/

/-- The bytes that stand as `_` in a file name. -/
def isMark (c : UInt8) : Bool := c == 0x2e || c == 0x3a || c == 0x40 || c == 0x5f

/-- Texts of the same length that differ only in dots, colons, at signs and underscores. -/
def LookAlike (a b : Bytes) : Prop := List.Forall₂ (fun x y => x = y ∨ (isMark x = true ∧ isMark y = true)) a b

/-- How many bytes of a specification the path has room for. -/
def pidRoom (stateDir : Bytes) : Nat := pidPathSz - 1 - (stateDir.length + 10)

/-- Publishers or consumers whose specifications look alike, as a whole or as far as the path has room. -/
def Collide (stateDir : Bytes) : Instance → Instance → Prop
  | .client kind spec, .client kind' spec' =>
    kind = kind' ∧ (LookAlike spec spec' ∨
      (pidRoom stateDir ≤ spec.length ∧ pidRoom stateDir ≤ spec'.length ∧
        LookAlike (spec.take (pidRoom stateDir)) (spec'.take (pidRoom stateDir))))
  | _, _ => False

/-- `cli_sanitize_addr`, byte by byte. -/
def sanitize (c : UInt8) : UInt8 := if c = 0x2e ∨ c = 0x3a ∨ c = 0x40 then 0x5f else c

theorem sanitize_eq_iff (x y : UInt8) : sanitize x = sanitize y ↔ x = y ∨ (isMark x = true ∧ isMark y = true) := by
  have hmark : ∀ c, isMark c = true ↔ sanitize c = 0x5f := by
    intro c
    unfold sanitize isMark
    by_cases hc : c = 0x2e ∨ c = 0x3a ∨ c = 0x40
    · rw [if_pos hc]
      rcases hc with rfl | rfl | rfl <;> decide
    · rw [if_neg hc]
      simp only [Bool.or_eq_true, beq_iff_eq]
      tauto
  rw [hmark, hmark]
  constructor
  · intro h
    by_cases hx : sanitize x = 0x5f
    · exact Or.inr ⟨hx, h ▸ hx⟩
    · have hself : ∀ c, sanitize c ≠ 0x5f → sanitize c = c := by
        intro c hc
        unfold sanitize at hc ⊢
        split at hc
        · exact absurd rfl hc
        · next hno => exact if_neg hno
      exact Or.inl (by rw [← hself x hx, ← hself y (h ▸ hx), h])
  · rintro (rfl | ⟨hx, hy⟩)
    · rfl
    · rw [hx, hy]

theorem map_sanitize_eq_iff (a b : Bytes) : a.map sanitize = b.map sanitize ↔ LookAlike a b := by
  rw [← List.forall₂_eq_eq_eq, List.forall₂_map_left_iff, List.forall₂_map_right_iff, LookAlike]
  simp only [sanitize_eq_iff]

theorem sanitize_ne_dot (a : Bytes) : 0x2e ∉ a.map sanitize := by
  intro hmem
  obtain ⟨c, -, hc⟩ := List.mem_map.mp hmem
  unfold sanitize at hc
  split at hc
  · exact absurd hc (by decide)
  · next hno => exact hno (Or.inl hc)

/-! ### Names in a bounded path -/

/-- Names without dots, cut behind their extensions: they agree as a whole or as far as the cut. -/
theorem take_extension_iff {a b ext : Bytes} {r : Nat} (ha : 0x2e ∉ a) (hb : 0x2e ∉ b) :
    (a ++ 0x2e :: ext).take r = (b ++ 0x2e :: ext).take r ↔
      a = b ∨ (r ≤ a.length ∧ r ≤ b.length ∧ a.take r = b.take r) := by
  have hcut : ∀ {a : Bytes}, r ≤ a.length → (a ++ 0x2e :: ext).take r = a.take r := List.take_append_of_le_length
  have hdot : ∀ {a : Bytes}, a.length < r →
      (a ++ 0x2e :: ext).take r = a ++ 0x2e :: ext.take (r - a.length - 1) := by
    intro a hlt
    obtain ⟨k, hk⟩ := Nat.exists_eq_add_of_lt hlt
    rw [List.take_append, List.take_of_length_le (by omega), show r - a.length = k + 1 by omega,
      List.take_succ_cons, Nat.add_sub_cancel]
  have hclash : ∀ {a b rest : Bytes}, 0x2e ∉ a → a.take r ≠ b ++ 0x2e :: rest := by
    intro a b rest hno heq
    refine hno (List.mem_of_mem_take (i := r) ?_)
    rw [heq]
    exact List.mem_append_right _ List.mem_cons_self
  constructor
  · intro heq
    by_cases hra : r ≤ a.length
    · by_cases hrb : r ≤ b.length
      · rw [hcut hra, hcut hrb] at heq
        exact Or.inr ⟨hra, hrb, heq⟩
      · rw [hcut hra, hdot (by omega)] at heq
        exact absurd heq (hclash ha)
    · by_cases hrb : r ≤ b.length
      · rw [hcut hrb, hdot (by omega)] at heq
        exact absurd heq.symm (hclash hb)
      · rw [hdot (by omega), hdot (by omega)] at heq
        refine Or.inl ?_
        have hname : ∀ {a rest : Bytes}, 0x2e ∉ a → (a ++ 0x2e :: rest).takeWhile (· != 0x2e) = a := by
          intro a rest hno
          rw [List.takeWhile_append_of_pos fun c hc => ?_]
          · simp
          · simp only [bne_iff_ne]
            rintro rfl
            exact hno hc
        rw [← hname ha, heq, hname hb]
  · rintro (rfl | ⟨hra, hrb, heq⟩)
    · rfl
    · rw [hcut hra, hcut hrb, heq]

/-- The path of a name for a command of three letters. -/
def pidFile (stateDir : Bytes) (cmd : String) (name : Bytes) : Bytes :=
  boundedCopy pidPathSz (stateDir ++ ascii "/pids/" ++ ascii cmd ++ ascii "_" ++ name ++ ascii ".pid")

/-- Two paths agree when their commands do, and their names as far as the path has room. -/
theorem pidFile_eq_iff {stateDir : Bytes} (hdir : stateDir.length < stateDirSz) {cmd cmd' : String}
    (hcmd : (ascii cmd).length = 3) (hcmd' : (ascii cmd').length = 3) {name name' : Bytes}
    (hname : 0x2e ∉ name) (hname' : 0x2e ∉ name') :
    pidFile stateDir cmd name = pidFile stateDir cmd' name' ↔
      ascii cmd = ascii cmd' ∧ (name = name' ∨ (pidRoom stateDir ≤ name.length ∧
        pidRoom stateDir ≤ name'.length ∧ name.take (pidRoom stateDir) = name'.take (pidRoom stateDir))) := by
  have hext : ascii ".pid" = 0x2e :: ascii "pid" := by decide
  have hpids : (ascii "/pids/").length = 6 := rfl
  have hbar : (ascii "_").length = 1 := rfl
  have hsizes : stateDirSz = 1024 ∧ pidPathSz = 1280 := ⟨rfl, rfl⟩
  have hsplit : ∀ {cmd : String} {name : Bytes}, (ascii cmd).length = 3 → pidFile stateDir cmd name =
      (stateDir ++ ascii "/pids/" ++ ascii cmd ++ ascii "_") ++
        (name ++ 0x2e :: ascii "pid").take (pidRoom stateDir) := by
    intro cmd name hcmd
    have hlength : (stateDir ++ ascii "/pids/" ++ ascii cmd ++ ascii "_").length = stateDir.length + 10 := by
      simp only [List.length_append, hpids, hcmd, hbar]
    rw [pidFile, boundedCopy, hext, List.append_assoc _ name, List.take_append,
      List.take_of_length_le (by rw [hlength]; omega), hlength]
    rfl
  have hfront : ∀ {cmd : String}, (ascii cmd).length = 3 →
      (stateDir ++ ascii "/pids/" ++ ascii cmd ++ ascii "_").length = stateDir.length + 10 := by
    intro cmd hcmd
    simp only [List.length_append, hpids, hcmd, hbar]
  rw [hsplit hcmd, hsplit hcmd', ← take_extension_iff hname hname']
  constructor
  · intro heq
    obtain ⟨hfronts, hrest⟩ := List.append_inj heq (by rw [hfront hcmd, hfront hcmd'])
    have hcmds := (List.append_inj hfronts (by simp [hcmd, hcmd'])).1
    exact ⟨List.append_cancel_left hcmds, hrest⟩
  · rintro ⟨hcmds, hrest⟩
    rw [hcmds, hrest]

theorem decimal_injective {m n : Nat} (h : decimal m = decimal n) : m = n := by
  have hm := parseU_decimal (Nat.zero_le m) (Nat.le_max_left m n)
  have hn := parseU_decimal (Nat.zero_le n) (Nat.le_max_right m n)
  rw [h, hn] at hm
  exact (Option.some.inj hm).symm

/-- The name of an instance in its path. -/
def Instance.name : Instance → Bytes
  | .idx port => decimal port.toNat
  | .client _ spec => spec.map sanitize

theorem Instance.name_dotless (a : Instance) : 0x2e ∉ a.name := by
  cases a with
  | idx port =>
    intro hmem
    exact absurd (decimal_isDigit _ _ hmem) (by decide)
  | client kind spec => exact sanitize_ne_dot spec

theorem Instance.cmd_length (a : Instance) : (ascii a.cmd).length = 3 := by
  have hcmd : a.cmd = "idx" ∨ a.cmd = "pub" ∨ a.cmd = "con" := by
    rcases a with port | ⟨kind, spec⟩
    · exact Or.inl rfl
    · cases kind
      · exact Or.inr (Or.inl rfl)
      · exact Or.inr (Or.inr rfl)
  rcases hcmd with hcmd | hcmd | hcmd <;> rw [hcmd] <;> decide

theorem Instance.pidPath_some {a : Instance} {stateDir path : Bytes} (h : a.pidPath stateDir = some path) :
    path = pidFile stateDir a.cmd a.name := by
  rcases a with port | ⟨kind, spec⟩
  · exact (Option.some.inj h).symm
  · have hclient : ascii kind.cmd ≠ ascii "idx" := by cases kind <;> decide
    simp only [Instance.pidPath, Cli.pidPath, if_neg hclient, sanitizeAddr] at h
    split at h
    · exact nomatch h
    · exact (Option.some.inj h).symm

/-! ### Collisions -/

/-- Two instances that differ in their command or in their address have different files exactly when they do
not collide. -/
theorem pid_paths_differ_iff {stateDir : Bytes} (hdir : stateDir.length < stateDirSz) {a b : Instance}
    {address address' : Bytes × Bytes × UInt16} (ha : a.address = some address) (hb : b.address = some address')
    (hdiffer : a.cmd ≠ b.cmd ∨ address ≠ address') {path path' : Bytes} (hpath : a.pidPath stateDir = some path)
    (hpath' : b.pidPath stateDir = some path') : path ≠ path' ↔ ¬ Collide stateDir a b := by
  rw [not_iff_not, Instance.pidPath_some hpath, Instance.pidPath_some hpath',
    pidFile_eq_iff hdir a.cmd_length b.cmd_length a.name_dotless b.name_dotless]
  have hidx : ∀ kind : Client, ascii "idx" ≠ ascii kind.cmd := by
    intro kind
    cases kind <;> decide
  rcases a with port | ⟨kind, spec⟩
  · rcases b with port' | ⟨kind', spec'⟩
    · refine iff_of_false ?_ id
      rintro ⟨-, hname⟩
      have hshort : ∀ port : UInt16, (decimal port.toNat).length < pidRoom stateDir := by
        intro port
        have hle := decimal_length_le (k := 5) (by decide) (show port.toNat < 10 ^ 5 by have := port.toNat_lt; omega)
        have hsizes : stateDirSz = 1024 ∧ pidPathSz = 1280 := ⟨rfl, rfl⟩
        unfold pidRoom
        omega
      rcases hname with hname | ⟨hroom, -⟩
      · obtain rfl := UInt16.toNat_inj.mp (decimal_injective hname)
        rcases hdiffer with hcmd | haddress
        · exact hcmd rfl
        · exact haddress (Option.some.inj (ha.symm.trans hb))
      · exact absurd hroom (Nat.not_le.mpr (hshort port))
    · exact iff_of_false (fun h => hidx kind' h.1) id
  · rcases b with port' | ⟨kind', spec'⟩
    · exact iff_of_false (fun h => hidx kind h.1.symm) id
    · have hkind : ascii kind.cmd = ascii kind'.cmd ↔ kind = kind' := by
        cases kind <;> cases kind' <;> decide
      simp only [Instance.cmd, Instance.name, Collide, hkind, List.length_map, ← List.map_take, map_sanitize_eq_iff]

/-- A publisher at the index `h`, port 80, and one at the index `h.80`. -/
def hostAndPort : Instance := .client .pub (ascii "a@h:80")
def hostOnly : Instance := .client .pub (ascii "a@h.80")

/-- The two publishers are different, and have the same file. -/
theorem pid_paths_collide :
    hostAndPort.address = some (ascii "a", ascii "h", 80) ∧
      hostOnly.address = some (ascii "a", ascii "h.80", portDefault) ∧
      hostAndPort.pidPath (ascii "/s") = some (ascii "/s/pids/pub_a_h_80.pid") ∧
      hostOnly.pidPath (ascii "/s") = some (ascii "/s/pids/pub_a_h_80.pid") := by
  decide +kernel

/-- A publisher and a consumer with the same specification. -/
theorem pid_paths_differ_sample :
    ascii "/s/pids/pub_a_h.pid" ≠ ascii "/s/pids/con_a_h.pid" ↔
      ¬ Collide (ascii "/s") (.client .pub (ascii "a@h")) (.client .con (ascii "a@h")) :=
  pid_paths_differ_iff (by decide)
    (show Instance.address (.client .pub (ascii "a@h")) = some (ascii "a", ascii "h", portDefault) by decide +kernel)
    (show Instance.address (.client .con (ascii "a@h")) = some (ascii "a", ascii "h", portDefault) by decide +kernel)
    (Or.inl (by decide)) (by decide +kernel) (by decide +kernel)

end Redp2p.Cli
