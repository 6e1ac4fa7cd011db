import Redp2p.Cli

/-! The option `--down` of publishers and consumers, which stops the process that runs in the background:
what refuses it. -/

namespace Redp2p.Cli

open ByteString

/-! ### What the option loop leaves -/

/-- One turn of the loop that takes its option. -/
inductive Took (a : ClientArgs) : Bytes × Option Bytes → ClientArgs → Prop
  | down {option : Bytes} {value : Option Bytes} (h : isDown option = true) :
    Took a (option, value) { a with downMode := true }
  | tcp {text : Bytes} {port : UInt16} (hport : parsePort text = some port) :
    Took a (ascii "--tcp", some text) { a with port, proto := protoTcp }
  | udp {text : Bytes} {port : UInt16} (hport : parsePort text = some port) :
    Took a (ascii "--udp", some text) { a with port, proto := protoUdp }
  | sweep {text : Bytes} {sweep : Nat} (hsweep : decimalIn text 0 sweepMax = some sweep) :
    Took a (ascii "--sweep", some text) { a with opts := { a.opts with sweep } }
  | stun {text : Bytes} :
    Took a (ascii "--stun", some text)
      { a with opts := { a.opts with stunUrl := boundedCopy stunUrlSz text } }

theorem takePort_ok {a a' : ClientArgs} {option : String} {proto : Nat} {value : Option Bytes}
    (h : takePort a option proto value = .ok a') :
    ∃ text port, value = some text ∧ parsePort text = some port ∧ a' = { a with port, proto } := by
  unfold takePort at h
  split at h
  · exact nomatch h
  cases value with
  | none => exact nomatch h
  | some text =>
    dsimp only at h
    cases hport : parsePort text with
    | none =>
      rw [hport] at h
      exact nomatch h
    | some port =>
      rw [hport] at h
      exact ⟨text, port, rfl, hport, (Except.ok.inj h).symm⟩

theorem takeClient_ok {a a' : ClientArgs} {item : Bytes × Option Bytes} (h : takeClient a item = .ok a') :
    Took a item a' := by
  obtain ⟨option, value⟩ := item
  unfold takeClient at h
  dsimp only at h
  split at h
  · next hdown =>
    obtain rfl := Except.ok.inj h
    exact .down hdown
  split at h
  · next htcp =>
    obtain rfl : option = ascii "--tcp" := by simpa [isTcp] using htcp
    obtain ⟨text, port, rfl, hport, rfl⟩ := takePort_ok h
    exact .tcp hport
  split at h
  · next hudp =>
    obtain rfl : option = ascii "--udp" := by simpa [isUdp] using hudp
    obtain ⟨text, port, rfl, hport, rfl⟩ := takePort_ok h
    exact .udp hport
  split at h
  · next hsweep =>
    obtain rfl : option = ascii "--sweep" := by simpa [isSweep] using hsweep
    split at h
    · exact nomatch h
    next text =>
    split at h
    · exact nomatch h
    next sweep hvalue =>
    obtain rfl := Except.ok.inj h
    exact .sweep (by rwa [parseDecimal, parseU_eq] at hvalue)
  split at h
  · next hstun =>
    obtain rfl : option = ascii "--stun" := by simpa [isStun] using hstun
    split at h
    · exact nomatch h
    next text =>
    obtain rfl := Except.ok.inj h
    exact .stun
  · exact nomatch h

/-- An option that names a service port. -/
def isService (option : Bytes) : Bool := isTcp option || isUdp option

/-- The sweep that the options and the environment ask for. -/
def sweepOf (getenv : Environment) (options : List (Bytes × Option Bytes)) : Nat :=
  match Arguments.last isSweep options with
  | some text => (decimalIn text 0 sweepMax).getD 0
  | none => ((getenv "REDP2P_SWEEP").bind fun text => decimalIn text 0 sweepMax).getD 20

/-- The STUN server that the options and the environment ask for. -/
def stunOf (getenv : Environment) (options : List (Bytes × Option Bytes)) : Bytes :=
  boundedCopy stunUrlSz ((Arguments.last isStun options).getD ((getenv "REDP2P_STUN").getD []))

/-- What the loop leaves of the options so far. -/
structure Leaves (getenv : Environment) (options : List (Bytes × Option Bytes)) (a : ClientArgs) : Prop where
  known : ∀ item ∈ options, isDown item.1 = true ∨ isSetting item.1 = true
  down : a.downMode = Arguments.given isDown options
  proto : a.proto ≠ 0 ↔ Arguments.given isService options = true
  port : a.port ≠ 0 → Arguments.given isService options = true
  sweep : a.opts.sweep = sweepOf getenv options
  stun : a.opts.stunUrl = stunOf getenv options

theorem initial_leaves (host : Host) : Leaves host.getenv [] ⟨optionsLoadEnv host optionsDefault, 0, 0, false⟩ := by
  refine ⟨by simp, rfl, by simp, by simp, ?_, ?_⟩
  · have hsame : (fun text => parseEnv text 0 sweepMax) = fun text => decimalIn text 0 sweepMax := by
      funext text
      unfold parseEnv
      split
      · next hempty =>
        subst hempty
        rfl
      · exact parseU_eq text 0 sweepMax
    simp only [optionsLoadEnv, sweepOf, Arguments.last_nil, hsame]
    rfl
  · unfold optionsLoadEnv stunOf
    cases host.getenv "REDP2P_STUN" <;> rfl

theorem not_setting_of_isDown {option : Bytes} (h : isDown option = true) : isSetting option = false := by
  simp only [isDown, Bool.or_eq_true, beq_iff_eq] at h
  rcases h with rfl | rfl <;> decide +kernel

theorem isSetting_eq (option : Bytes) :
    isSetting option = (isService option || isSweep option || isStun option) := rfl

/-- A turn for an option that is neither of the service, of the sweep nor of the STUN server. -/
theorem Leaves.down_step {getenv : Environment} {options : List (Bytes × Option Bytes)} {a : ClientArgs}
    (h : Leaves getenv options a) {option : Bytes} (hdown : isDown option = true) (value : Option Bytes) :
    Leaves getenv (options ++ [(option, value)]) { a with downMode := true } := by
  have hsetting := not_setting_of_isDown hdown
  simp only [isSetting_eq, Bool.or_eq_false_iff] at hsetting
  obtain ⟨⟨hservice, hsweep⟩, hstun⟩ := hsetting
  refine ⟨?_, ?_, ?_, ?_, ?_, ?_⟩
  · simp only [List.forall_mem_append, List.forall_mem_singleton]
    exact ⟨h.known, Or.inl hdown⟩
  · simp [hdown]
  · simpa [hservice] using h.proto
  · simpa [hservice] using h.port
  · simpa [sweepOf, hsweep] using h.sweep
  · simpa [stunOf, hstun] using h.stun

theorem Leaves.service_step {getenv : Environment} {options : List (Bytes × Option Bytes)} {a : ClientArgs}
    (h : Leaves getenv options a) {option : Bytes} (hservice : isService option = true)
    (hothers : isDown option = false ∧ isSweep option = false ∧ isStun option = false) (value : Option Bytes)
    (port : UInt16) {proto : Nat} (hproto : proto ≠ 0) :
    Leaves getenv (options ++ [(option, value)]) { a with port, proto } := by
  obtain ⟨hdown, hsweep, hstun⟩ := hothers
  refine ⟨?_, ?_, ?_, ?_, ?_, ?_⟩
  · simp only [List.forall_mem_append, List.forall_mem_singleton]
    exact ⟨h.known, Or.inr (by simp [isSetting_eq, hservice])⟩
  · simpa [hdown] using h.down
  · simp [hservice, hproto]
  · simp [hservice]
  · simpa [sweepOf, hsweep] using h.sweep
  · simpa [stunOf, hstun] using h.stun

theorem Leaves.step {getenv : Environment} {options : List (Bytes × Option Bytes)} {a a' : ClientArgs}
    {item : Bytes × Option Bytes} (h : Leaves getenv options a) (htook : Took a item a') :
    Leaves getenv (options ++ [item]) a' := by
  cases htook with
  | down hdown => exact h.down_step hdown _
  | tcp hport => exact h.service_step (by decide +kernel) (by decide +kernel) _ _ (by decide)
  | udp hport => exact h.service_step (by decide +kernel) (by decide +kernel) _ _ (by decide)
  | @sweep text sweep hsweep =>
    have hkind : isDown (ascii "--sweep") = false ∧ isService (ascii "--sweep") = false ∧
        isSweep (ascii "--sweep") = true ∧ isStun (ascii "--sweep") = false := by decide +kernel
    obtain ⟨hdown, hservice, hself, hstun⟩ := hkind
    refine ⟨?_, ?_, ?_, ?_, ?_, ?_⟩
    · simp only [List.forall_mem_append, List.forall_mem_singleton]
      exact ⟨h.known, Or.inr (by simp [isSetting_eq, hself])⟩
    · simpa [hdown] using h.down
    · simpa [hservice] using h.proto
    · simpa [hservice] using h.port
    · simp [sweepOf, hself, hsweep]
    · simpa [stunOf, hstun] using h.stun
  | @stun text =>
    have hkind : isDown (ascii "--stun") = false ∧ isService (ascii "--stun") = false ∧
        isSweep (ascii "--stun") = false ∧ isStun (ascii "--stun") = true := by decide +kernel
    obtain ⟨hdown, hservice, hsweep, hself⟩ := hkind
    refine ⟨?_, ?_, ?_, ?_, ?_, ?_⟩
    · simp only [List.forall_mem_append, List.forall_mem_singleton]
      exact ⟨h.known, Or.inr (by simp [isSetting_eq, hself])⟩
    · simpa [hdown] using h.down
    · simpa [hservice] using h.proto
    · simpa [hservice] using h.port
    · simpa [sweepOf, hsweep] using h.sweep
    · simp [stunOf, hself]

/-- What the loop leaves of the whole command line. -/
theorem readClient_leaves {host : Host} {argv : List Bytes} {a : ClientArgs}
    (h : readClient (optionsLoadEnv host optionsDefault) argv = .ok a) :
    Leaves host.getenv (Arguments.items isSetting argv) a :=
  Arguments.read_ok (initial_leaves host) (fun _ _ _ _ hbefore htake => hbefore.step (takeClient_ok htake)) h

/-- The loop takes any number of `--down`. -/
theorem readClient_down (opts : Options) {argv : List Bytes} (h : ∀ option ∈ argv, isDown option = true) :
    ∃ a, readClient opts argv = .ok a := by
  have hfold : ∀ a : ClientArgs, ∃ a', (argv.map fun option => (option, (none : Option Bytes))).foldlM
      takeClient a = Except.ok a' := by
    induction argv with
    | nil => exact fun a => ⟨a, rfl⟩
    | cons option argv ih =>
      intro a
      obtain ⟨hdown, hrest⟩ := List.forall_mem_cons.mp h
      obtain ⟨a', ha'⟩ := ih hrest { a with downMode := true }
      refine ⟨a', ?_⟩
      rw [List.map_cons, List.foldlM_cons]
      simp only [takeClient, hdown, if_true]
      exact ha'
  unfold readClient Arguments.read
  rw [Arguments.items_of_flags fun option ho => not_setting_of_isDown (h option ho)]
  exact hfold _

/-! ### What `--down` comes to -/

/-- A specification that the program accepts. -/
def ValidSpec (spec : Bytes) : Prop :=
  ∃ id idx, parseHostspec spec (idMax + 1) 256 = some (id, idx) ∧ isValidId id = true

theorem clientMain_valid {client : Client} {host : Host} {name spec : Bytes} {argv : List Bytes}
    (h : ValidSpec spec) : clientMain client host name (spec :: argv) =
      match readClient (optionsLoadEnv host optionsDefault) argv with
      | .error message => .fails message
      | .ok a => clientRun client host spec a := by
  obtain ⟨id, idx, hparse, hid⟩ := h
  rw [clientMain, hparse]
  dsimp only
  rw [hid]
  rfl

/-- The file that names the process of a client for a specification. -/
def clientPidPath (client : Client) (getenv : Environment) (spec : Bytes) : Option Bytes :=
  (cliStateDir getenv).bind fun sdir => pidPath sdir (ascii client.cmd) spec

theorem clientPidPath_isSome {client : Client} {getenv : Environment} {spec : Bytes} :
    (clientPidPath client getenv spec).isSome = true ↔
      (cliStateDir getenv).isSome = true ∧ spec.length < 256 := by
  have hcmd : ascii client.cmd ≠ ascii "idx" := by cases client <;> decide +kernel
  unfold clientPidPath pidPath sanitizeAddr
  cases cliStateDir getenv with
  | none => simp
  | some sdir =>
    simp only [Option.bind_some, hcmd, if_false, Option.isSome_some, true_and, Option.isSome_map]
    split <;> simp <;> omega

theorem clientRun_down {client : Client} {host : Host} {spec : Bytes} {a : ClientArgs}
    (h : a.downMode = true) : clientRun client host spec a =
      if a.proto ≠ 0 ∨ a.port ≠ 0 ∨ a.opts.sweep ≠ 0 ∨ a.opts.stunUrl ≠ [] then .fails downConflict
      else
        match clientPidPath client host.getenv spec with
        | some path => .stops path
        | none => .fails (if (cliStateDir host.getenv).isSome then ascii "path too long"
            else ascii "cannot resolve state directory") := by
  unfold clientRun clientPidPath
  simp only [h, true_and, if_true]
  split
  · rfl
  · cases cliStateDir host.getenv with
    | none => rfl
    | some sdir =>
      dsimp only [Option.bind_some]
      cases pidPath sdir (ascii client.cmd) spec <;> rfl

/-- Nothing but `--down` was given. -/
def OnlyDown (argv : List Bytes) : Prop := argv ≠ [] ∧ ∀ option ∈ argv, isDown option = true

/-- The option loop takes the arguments. -/
def Accepted (host : Host) (argv : List Bytes) : Prop :=
  ∃ a, readClient (optionsLoadEnv host optionsDefault) argv = .ok a

/-- `--down` alone stops the process that the file names, and where it is given it is refused exactly for
being given beside an option that sets something. -/
structure DownUsable (client : Client) (host : Host) (name spec : Bytes) (argv : List Bytes) : Prop where
  stops : OnlyDown argv → ∃ path, clientPidPath client host.getenv spec = some path ∧
    clientMain client host name (spec :: argv) = .stops path
  refuses : Accepted host argv → Arguments.given isDown (Arguments.items isSetting argv) = true →
    (clientMain client host name (spec :: argv) = .fails downConflict ↔
      Arguments.given isSetting (Arguments.items isSetting argv) = true)

/-- The environment and the options ask for a sweep or a STUN server. -/
def Asks (getenv : Environment) (options : List (Bytes × Option Bytes)) : Prop :=
  sweepOf getenv options ≠ 0 ∨ stunOf getenv options ≠ []

/-- Where `--down` does what it is for. Beside a setting there is one in the end; without one the
environment asks for none, has a place for the file, and the name of the file fits. -/
def DownWorks (getenv : Environment) (spec : Bytes) (options : List (Bytes × Option Bytes)) : Prop :=
  if Arguments.given isSetting options = true then
    Arguments.given isService options = true ∨ Asks getenv options
  else ¬ Asks getenv options ∧ (cliStateDir getenv).isSome = true ∧ spec.length < 256

theorem onlyDown_of_leaves {getenv : Environment} {argv : List Bytes} {a : ClientArgs}
    (h : Leaves getenv (Arguments.items isSetting argv) a)
    (hdown : Arguments.given isDown (Arguments.items isSetting argv) = true)
    (hsetting : Arguments.given isSetting (Arguments.items isSetting argv) = false) : OnlyDown argv := by
  have hflags := Arguments.flags_of_not_given hsetting
  rw [Arguments.items_of_flags hflags] at hdown
  constructor
  · rintro rfl
    exact nomatch hdown
  · intro option ho
    have hknown := h.known (option, none) (by
      rw [Arguments.items_of_flags hflags]
      exact List.mem_map.mpr ⟨option, ho, rfl⟩)
    exact hknown.resolve_right (by simp [hflags option ho])

theorem given_of_onlyDown {argv : List Bytes} (h : OnlyDown argv) :
    Arguments.given isDown (Arguments.items isSetting argv) = true ∧
      Arguments.given isSetting (Arguments.items isSetting argv) = false := by
  obtain ⟨hne, hall⟩ := h
  rw [Arguments.items_of_flags fun option ho => not_setting_of_isDown (hall option ho)]
  cases argv with
  | nil => exact absurd rfl hne
  | cons option argv =>
    refine ⟨by simp [Arguments.given, hall option (by simp)], ?_⟩
    rw [Arguments.given, List.any_eq_false]
    intro item hitem
    obtain ⟨x, hx, rfl⟩ := List.mem_map.mp hitem
    simp [not_setting_of_isDown (hall x hx)]

/-- What refuses `--down`, in terms of the options and the environment. -/
theorem refused_iff {host : Host} {options : List (Bytes × Option Bytes)} {a : ClientArgs}
    (h : Leaves host.getenv options a) :
    (a.proto ≠ 0 ∨ a.port ≠ 0 ∨ a.opts.sweep ≠ 0 ∨ a.opts.stunUrl ≠ []) ↔
      (Arguments.given isService options = true ∨ Asks host.getenv options) := by
  rw [h.sweep, h.stun, Asks]
  constructor
  · rintro (hproto | hport | hasks)
    · exact Or.inl (h.proto.mp hproto)
    · exact Or.inl (h.port hport)
    · exact Or.inr hasks
  · rintro (hservice | hasks)
    · exact Or.inl (h.proto.mpr hservice)
    · exact Or.inr (Or.inr hasks)

theorem service_setting {options : List (Bytes × Option Bytes)}
    (h : Arguments.given isService options = true) : Arguments.given isSetting options = true := by
  rw [Arguments.given, List.any_eq_true] at h ⊢
  obtain ⟨item, hitem, hservice⟩ := h
  exact ⟨item, hitem, by simp [isSetting_eq, hservice]⟩

/-- `--down` is usable exactly where the sweep and the STUN server that the environment and the program
itself ask for do not stand in its way. -/
theorem down_usable_iff (client : Client) (host : Host) (name : Bytes) {spec : Bytes} (argv : List Bytes)
    (hspec : ValidSpec spec) : DownUsable client host name spec argv ↔
      (Accepted host argv → Arguments.given isDown (Arguments.items isSetting argv) = true →
        DownWorks host.getenv spec (Arguments.items isSetting argv)) := by
  have hmain : ∀ a, readClient (optionsLoadEnv host optionsDefault) argv = .ok a →
      clientMain client host name (spec :: argv) = clientRun client host spec a := by
    intro a ha
    rw [clientMain_valid hspec, ha]
  have hfails : ∀ a, readClient (optionsLoadEnv host optionsDefault) argv = .ok a → a.downMode = true →
      (clientMain client host name (spec :: argv) = .fails downConflict ↔
        (Arguments.given isService (Arguments.items isSetting argv) = true ∨
          Asks host.getenv (Arguments.items isSetting argv))) := by
    intro a ha hdown
    rw [hmain a ha, clientRun_down hdown, ← refused_iff (readClient_leaves ha)]
    constructor
    · intro h
      by_contra hnot
      rw [if_neg hnot] at h
      split at h
      · exact nomatch h
      · have htext := Outcome.fails.inj h
        split at htext
        · exact absurd htext (by decide +kernel)
        · exact absurd htext (by decide +kernel)
    · exact fun h => if_pos h
  constructor
  · rintro ⟨hstops, hrefuses⟩ ⟨a, ha⟩ hdown
    have hleaves := readClient_leaves ha
    unfold DownWorks
    split
    · next hsetting => exact (hfails a ha (hleaves.down.trans hdown)).mp ((hrefuses ⟨a, ha⟩ hdown).mpr hsetting)
    · next hsetting =>
      have honly := onlyDown_of_leaves hleaves hdown (by simpa using hsetting)
      obtain ⟨path, hpath, hstopped⟩ := hstops honly
      refine ⟨fun hasks => ?_, clientPidPath_isSome.mp (Option.isSome_iff_exists.mpr ⟨path, hpath⟩)⟩
      have hfailed := (hfails a ha (hleaves.down.trans hdown)).mpr (Or.inr hasks)
      rw [hstopped] at hfailed
      exact nomatch hfailed
  · intro hworks
    constructor
    · intro honly
      obtain ⟨a, ha⟩ := readClient_down (optionsLoadEnv host optionsDefault) honly.2
      obtain ⟨hdown, hsetting⟩ := given_of_onlyDown honly
      have hleaves := readClient_leaves ha
      have hplace := hworks ⟨a, ha⟩ hdown
      rw [DownWorks, if_neg (by simp [hsetting])] at hplace
      obtain ⟨path, hpath⟩ := Option.isSome_iff_exists.mp (clientPidPath_isSome.mpr hplace.2)
      refine ⟨path, hpath, ?_⟩
      rw [hmain a ha, clientRun_down (hleaves.down.trans hdown), if_neg, hpath]
      rw [refused_iff hleaves]
      rintro (hservice | hasks)
      · exact absurd (service_setting hservice) (by simp [hsetting])
      · exact hplace.1 hasks
    · rintro ⟨a, ha⟩ hdown
      have hleaves := readClient_leaves ha
      have hplace := hworks ⟨a, ha⟩ hdown
      rw [hfails a ha (hleaves.down.trans hdown)]
      unfold DownWorks at hplace
      split at hplace
      · next hsetting => exact ⟨fun _ => hsetting, fun _ => hplace⟩
      · next hsetting =>
        constructor
        · rintro (hservice | hasks)
          · exact service_setting hservice
          · exact absurd hasks hplace.1
        · exact fun h => absurd h hsetting

/-- An environment with a home directory and one more variable. -/
def homeWith (entry value : String) : Environment := fun name =>
  if name = "HOME" then some (ascii "/home/p") else if name = entry then some (ascii value) else none

theorem sampleSpec_valid : ValidSpec (ascii "p@index") :=
  ⟨ascii "p", (ascii "index", portDefault), by decide +kernel, by decide +kernel⟩

/-- Without a sweep of 0 in the environment, `--down` stops no publisher. -/
theorem down_unusable :
    ¬ DownUsable .pub ⟨homeWith "REDP2P_STUN" "", true, true⟩ (ascii "redp2p") (ascii "p@index")
      [ascii "--down"] := by
  intro h
  obtain ⟨path, -, hstopped⟩ := h.stops ⟨by simp, by decide +kernel⟩
  have hfailed : pubMain ⟨homeWith "REDP2P_STUN" "", true, true⟩ (ascii "redp2p")
      [ascii "p@index", ascii "--down"] = .fails downConflict := by rfl
  exact nomatch hfailed.symm.trans hstopped

/-- With a sweep of 0 it does. -/
theorem down_usable_sample :
    DownUsable .pub ⟨homeWith "REDP2P_SWEEP" "0", true, true⟩ (ascii "redp2p") (ascii "p@index")
      [ascii "--down"] :=
  (down_usable_iff .pub _ _ _ sampleSpec_valid).mpr fun _ _ => by
    rw [DownWorks, if_neg (by decide +kernel)]
    refine ⟨?_, by decide +kernel, by decide +kernel⟩
    rintro (hsweep | hstun)
    · exact absurd hsweep (by decide +kernel)
    · exact absurd hstun (by decide +kernel)

end Redp2p.Cli
