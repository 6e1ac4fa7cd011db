import Redp2p.HttpLimits

/-! The decimal numbers that the program reads from its environment and its arguments, and the settings of
a context that come from the environment. -/

namespace Redp2p

open ByteString

/-- `getenv`. -/
abbrev Environment := String → Option Bytes

/-! ### Decimal numbers -/

/-- The number that a text of decimal digits stands for, in a range. -/
def decimalIn (text : Bytes) (min max : Nat) : Option Nat :=
  if text ≠ [] ∧ (∀ b ∈ text, isDigit b = true) ∧ min ≤ parseDecimal text ∧ parseDecimal text ≤ max then
    some (parseDecimal text)
  else none

theorem decimalIn_eq_some_iff {text : Bytes} {min max n : Nat} :
    decimalIn text min max = some n ↔ text ≠ [] ∧ (∀ b ∈ text, isDigit b = true) ∧ parseDecimal text = n ∧
      min ≤ n ∧ n ≤ max := by
  unfold decimalIn
  constructor
  · intro h
    split at h
    · next hall =>
      obtain rfl := Option.some.inj h
      exact ⟨hall.1, hall.2.1, rfl, hall.2.2⟩
    · exact nomatch h
  · rintro ⟨hne, hdigits, rfl, hrange⟩
    rw [if_pos ⟨hne, hdigits, hrange⟩]

theorem decimalIn_range {text : Bytes} {min max n : Nat} (h : decimalIn text min max = some n) :
    min ≤ n ∧ n ≤ max :=
  (decimalIn_eq_some_iff.mp h).2.2.2

theorem le_foldl_digits (text : Bytes) (value : Nat) :
    value ≤ text.foldl (fun n b => n * 10 + (b.toNat - 0x30)) value := by
  induction text generalizing value with
  | nil => exact Nat.le_refl value
  | cons b text ih =>
    have hstep := ih (value * 10 + (b.toNat - 0x30))
    rw [List.foldl_cons]
    omega

/-- The guards of the loop refuse no number in range. -/
theorem foldlM_parseDigit_digits {max value : Nat} {text : Bytes} (hdigits : ∀ b ∈ text, isDigit b = true)
    (hmax : text.foldl (fun n b => n * 10 + (b.toNat - 0x30)) value ≤ max) :
    text.foldlM (parseDigit max) value =
      some (text.foldl (fun n b => n * 10 + (b.toNat - 0x30)) value) := by
  induction text generalizing value with
  | nil => rfl
  | cons b text ih =>
    rw [List.foldl_cons] at hmax ⊢
    obtain ⟨hdigit, hdigits⟩ := List.forall_mem_cons.mp hdigits
    have hroom : value * 10 + (b.toNat - 0x30) ≤ max := Nat.le_trans (le_foldl_digits text _) hmax
    rw [List.foldlM_cons, parseDigit_isDigit max value hdigit hroom]
    exact ih hdigits hmax

/-- `redp2p_parse_u` reads the decimal numbers in its range and nothing else. -/
theorem parseU_eq (text : Bytes) (min max : Nat) : parseU text min max = decimalIn text min max := by
  refine Option.ext fun n => ?_
  rw [decimalIn_eq_some_iff]
  constructor
  · intro h
    obtain ⟨hdigits, hvalue, hmax⟩ := parseU_eq_some h
    unfold parseU at h
    split at h
    · exact nomatch h
    · next hguard =>
      have hne : text ≠ [] := by
        rintro rfl
        exact hguard (by simp)
      split at h
      · exact nomatch h
      · split at h
        · exact nomatch h
        · next hmin =>
          obtain rfl := Option.some.inj h
          exact ⟨hne, hdigits, hvalue, by omega, hmax⟩
  · rintro ⟨hne, hdigits, rfl, hmin, hmax⟩
    have hempty : text.isEmpty = false := by simpa using hne
    have hbounds : ¬ max < min := by omega
    have hfold : text.foldlM (parseDigit max) 0 = some (parseDecimal text) :=
      foldlM_parseDigit_digits hdigits hmax
    have hvalue : ¬ parseDecimal text < min := by omega
    simp [parseU, hempty, hbounds, hfold, hvalue]

/-- `redp2p_parse_size` and `parse_size`, which do not bound the number. -/
def parseSize (text : Bytes) : Option Nat := parseU text 0 sizeMax

/-- `redp2p_parse_env`. -/
def parseEnv (text : Bytes) (min max : Nat) : Option Nat :=
  if text = [] then none else parseU text min max

/-! ### The timing of a context -/

/-- The settings of a context that count time. -/
structure Timing where
  pruneIntervalS : UInt64
  etimeoutSec : UInt64
  heartbeatS : UInt64
  punchPollMs : UInt64
  deriving DecidableEq

inductive TimingSetting where
  | pruneIntervalS | etimeoutSec | heartbeatS | punchPollMs
  deriving DecidableEq

namespace TimingSetting

/-- The variable of the environment. -/
def name : TimingSetting → String
  | .pruneIntervalS => "REDP2P_PRUNE_INTERVAL_S"
  | .etimeoutSec => "REDP2P_ETIMEOUT_SEC"
  | .heartbeatS => "REDP2P_HEARTBEAT_S"
  | .punchPollMs => "REDP2P_PUNCH_POLL_MS"

def min : TimingSetting → Nat
  | .pruneIntervalS | .etimeoutSec | .heartbeatS => 1
  | .punchPollMs => 10

def max : TimingSetting → Nat
  | .pruneIntervalS | .heartbeatS => 3600
  | .etimeoutSec => 86400
  | .punchPollMs => 60000

/-- The built-in value. -/
def initial : TimingSetting → Nat
  | .pruneIntervalS => 60
  | .etimeoutSec => 120
  | .heartbeatS => 15
  | .punchPollMs => 500

theorem initial_range (s : TimingSetting) : s.min ≤ s.initial ∧ s.initial ≤ s.max := by
  cases s <;> decide

theorem max_lt (s : TimingSetting) : s.max < 2 ^ 64 := by
  cases s <;> decide

end TimingSetting

def Timing.get (t : Timing) : TimingSetting → UInt64
  | .pruneIntervalS => t.pruneIntervalS
  | .etimeoutSec => t.etimeoutSec
  | .heartbeatS => t.heartbeatS
  | .punchPollMs => t.punchPollMs

/-- The result of `redp2p_parse_u` and the number that stands in its output, which was 0. -/
def parseUResult (text : Bytes) (min max : Nat) : Int × Nat :=
  match parseU text min max with
  | some value => (1, value)
  | none => (0, 0)

/-- How `redp2p_open` reads one setting. -/
def openSetting (getenv : Environment) (s : TimingSetting) : UInt64 :=
  match getenv s.name with
  | none => UInt64.ofNat s.initial
  | some env =>
    let (result, v) := parseUResult env s.min s.max
    -- The result is compared with `REDP2P_OK`.
    if result = 0 then UInt64.ofNat v else UInt64.ofNat s.initial

/-- The settings of a context that `redp2p_open` has opened. -/
def openTiming (getenv : Environment) : Timing where
  pruneIntervalS := openSetting getenv .pruneIntervalS
  etimeoutSec := openSetting getenv .etimeoutSec
  heartbeatS := openSetting getenv .heartbeatS
  punchPollMs := openSetting getenv .punchPollMs

theorem openTiming_get (getenv : Environment) (s : TimingSetting) :
    (openTiming getenv).get s = openSetting getenv s := by
  cases s <;> rfl

/-- A setting that is given gets its built-in value when it is a number in range, and else 0. -/
theorem openSetting_given {getenv : Environment} {s : TimingSetting} {env : Bytes}
    (h : getenv s.name = some env) :
    openSetting getenv s = UInt64.ofNat (if (decimalIn env s.min s.max).isSome then s.initial else 0) := by
  unfold openSetting parseUResult
  simp only [h, parseU_eq]
  cases decimalIn env s.min s.max <;> simp

/-- The value that the environment documents for a setting. -/
def TimingSetting.documented (getenv : Environment) (s : TimingSetting) : Nat :=
  ((getenv s.name).bind fun env => decimalIn env s.min s.max).getD s.initial

theorem TimingSetting.documented_range (getenv : Environment) (s : TimingSetting) :
    s.min ≤ s.documented getenv ∧ s.documented getenv ≤ s.max := by
  unfold documented
  cases hvalue : (getenv s.name).bind fun env => decimalIn env s.min s.max with
  | none => exact s.initial_range
  | some n =>
    obtain ⟨env, -, hn⟩ := Option.bind_eq_some_iff.mp hvalue
    exact decimalIn_range hn

/-- Every setting has the value that the environment documents, within its range. -/
def FollowsEnvironment (getenv : Environment) (t : Timing) : Prop :=
  ∀ s : TimingSetting, t.get s = UInt64.ofNat (s.documented getenv) ∧
    s.min ≤ (t.get s).toNat ∧ (t.get s).toNat ≤ s.max

theorem openSetting_eq_iff (getenv : Environment) (s : TimingSetting) :
    openSetting getenv s = UInt64.ofNat (s.documented getenv) ↔
      ∀ env ∈ getenv s.name, decimalIn env s.min s.max = some s.initial := by
  obtain ⟨hmin, hmax⟩ := s.initial_range
  have hlt := s.max_lt
  cases hget : getenv s.name with
  | none => simp [openSetting, TimingSetting.documented, hget]
  | some env =>
    rw [openSetting_given hget]
    simp only [TimingSetting.documented, hget, Option.bind_some, Option.mem_some_iff, forall_eq']
    cases hvalue : decimalIn env s.min s.max with
    | none =>
      have hpos : s.initial ≠ 0 := by cases s <;> decide
      simp only [Option.isSome_none, Bool.false_eq_true, if_false, Option.getD_none, reduceCtorEq, iff_false]
      intro heq
      have hnat := congrArg UInt64.toNat heq
      rw [UInt64.toNat_ofNat_of_lt' (by simp [UInt64.size]), UInt64.toNat_ofNat_of_lt' (by
        simp only [UInt64.size]; omega)] at hnat
      exact hpos hnat.symm
    | some n =>
      obtain ⟨-, hn⟩ := decimalIn_range hvalue
      simp only [Option.isSome_some, if_true, Option.getD_some, Option.some.injEq]
      constructor
      · intro heq
        have hnat := congrArg UInt64.toNat heq
        rw [UInt64.toNat_ofNat_of_lt' (by simp only [UInt64.size]; omega),
          UInt64.toNat_ofNat_of_lt' (by simp only [UInt64.size]; omega)] at hnat
        exact hnat.symm
      · rintro rfl
        rfl

/-- The settings of a context follow the environment exactly when every variable that is set holds the
built-in value. -/
theorem timing_follows_iff (getenv : Environment) :
    FollowsEnvironment getenv (openTiming getenv) ↔
      ∀ s : TimingSetting, ∀ env ∈ getenv s.name, decimalIn env s.min s.max = some s.initial := by
  unfold FollowsEnvironment
  constructor
  · intro h s
    have hset := (h s).1
    rw [openTiming_get] at hset
    exact (openSetting_eq_iff getenv s).mp hset
  · intro h s
    have hset := (openSetting_eq_iff getenv s).mpr (h s)
    obtain ⟨hmin, hmax⟩ := s.documented_range getenv
    have hnat : (UInt64.ofNat (s.documented getenv)).toNat = s.documented getenv :=
      UInt64.toNat_ofNat_of_lt' (Nat.lt_of_le_of_lt hmax s.max_lt)
    rw [openTiming_get, hset, hnat]
    exact ⟨rfl, hmin, hmax⟩

/-- An environment that asks for one prune interval and nothing else. -/
def pruneEvery (text : String) : Environment :=
  fun name => if name = "REDP2P_PRUNE_INTERVAL_S" then some (ascii text) else none

/-- An interval of 30 seconds is not used, and one of 0 seconds is. -/
theorem timing_ignored : ¬ FollowsEnvironment (pruneEvery "30") (openTiming (pruneEvery "30")) ∧
    ((openTiming (pruneEvery "0")).get .pruneIntervalS).toNat < TimingSetting.pruneIntervalS.min := by
  constructor
  · intro h
    exact absurd (h .pruneIntervalS).1 (by decide +kernel)
  · decide +kernel

end Redp2p
