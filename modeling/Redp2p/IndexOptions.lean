import Redp2p.CliRequests
import Redp2p.Serving

/-! The seats and the difficulty of an index: from the options and the environment of the command line
program, through its request, to the context that the runner starts. -/

namespace Redp2p

open ByteString

/-! ### What the runner sets -/

theorem runnerSetPass_limits {ctx ctx' : RunnerContext} {args : JsonObject Rat}
    (h : runnerSetPass ctx args = some ctx') : ctx'.index.limits = ctx.index.limits := by
  unfold runnerSetPass at h
  split at h
  · obtain rfl := Option.some.inj h
    rfl
  next pass _ =>
  unfold Context.setPass at h
  split at h
  · next index heq =>
    obtain rfl := Option.some.inj h
    split at heq
    · exact nomatch (Prod.mk.inj heq).2
    · obtain ⟨rfl, -⟩ := Prod.mk.inj heq
      rfl
  · exact nomatch h

/-- The number of seats in a request, if there is one. -/
def setSeatsOption (index : Context) : Option Nat → Option Context
  | none => some index
  | some seats =>
    match index.setSeats seats with
    | (index, .ok) => some index
    | _ => none

/-- The difficulty in a request, if there is one. -/
def setPowOption (index : Context) : Option Nat → Option Context
  | none => some index
  | some bits => if (bits : Int) > powMax then none else some (index.setPow bits).1

theorem runnerSetupIndex_eq (ctx : RunnerContext) (mem : Context.VipMemory) (args : JsonObject Rat) :
    runnerSetupIndex ctx mem args =
      (runnerSetPass ctx args).bind fun ctx =>
      (runnerCount args "seats").bind fun seats =>
      (setSeatsOption ctx.index seats).bind fun index =>
      (runnerCount args "pow").bind fun pow =>
      (setPowOption index pow).bind fun index =>
        match index.setVip mem ((args.getString (ascii "vip")).getD []) with
        | (index, .ok _) => some { ctx with index }
        | (_, .error _) => none := by
  unfold runnerSetupIndex setSeatsOption setPowOption
  cases runnerSetPass ctx args with
  | none => rfl
  | some ctx =>
    cases runnerCount args "seats" with
    | none => rfl
    | some seats =>
      cases runnerCount args "pow" with
      | none =>
        cases seats with
        | none => rfl
        | some seats =>
          simp only [Option.bind_eq_bind, Option.bind_some, Option.bind_none]
          obtain ⟨index, status⟩ := ctx.index.setSeats seats
          cases status <;> rfl
      | some pow =>
        cases pow with
        | none =>
          cases seats with
          | none => rfl
          | some seats =>
            simp only [Option.bind_eq_bind, Option.bind_some]
            obtain ⟨index, status⟩ := ctx.index.setSeats seats
            cases status <;> rfl
        | some bits =>
          cases seats with
          | none =>
            simp only [Option.bind_eq_bind, Option.bind_some]
            split <;> rfl
          | some seats =>
            simp only [Option.bind_eq_bind, Option.bind_some]
            obtain ⟨index, status⟩ := ctx.index.setSeats seats
            cases status with
            | ok => by_cases hbits : (bits : Int) > powMax <;> simp only [hbits, if_true, if_false] <;> rfl
            | _ => rfl

theorem setSeatsOption_limits {index index' : Context} {seats : Option Nat}
    (h : setSeatsOption index seats = some index') :
    index'.limits = (seats.isSome || index.seatsSet, seats.getD index.nPeersCap, index.powBits) := by
  cases seats with
  | none =>
    obtain rfl := Option.some.inj h
    rfl
  | some n =>
    simp only [setSeatsOption, Context.setSeats] at h
    split at h
    · next heq =>
      obtain rfl := Option.some.inj h
      split at heq
      · cases (Prod.mk.inj heq).2
      · obtain ⟨rfl, -⟩ := Prod.mk.inj heq
        rw [Context.updateNonvipCap_limits]
        rfl
    · cases h

theorem setPowOption_limits {index index' : Context} {pow : Option Nat}
    (h : setPowOption index pow = some index') :
    index'.limits = (index.seatsSet, index.nPeersCap, (pow.map Int.ofNat).getD index.powBits) := by
  cases pow with
  | none =>
    obtain rfl := Option.some.inj h
    rfl
  | some bits =>
    unfold setPowOption at h
    dsimp only at h
    split at h
    · exact nomatch h
    · obtain rfl := Option.some.inj h
      have hguard : ¬ (decide ((bits : Int) < 0) || decide ((bits : Int) > powMax)) = true := by
        simp only [Bool.or_eq_true, decide_eq_true_eq, not_or]
        omega
      rw [Context.setPow, if_neg hguard]
      rfl

/-- The seats and the difficulty that the runner sets are the numbers of the request. -/
theorem runnerSetupIndex_limits {ctx ctx' : RunnerContext} {mem : Context.VipMemory} {args : JsonObject Rat}
    (h : runnerSetupIndex ctx mem args = some ctx') : ∃ seats pow, runnerCount args "seats" = some seats ∧
      runnerCount args "pow" = some pow ∧ ctx'.index.limits =
        (seats.isSome || ctx.index.seatsSet, seats.getD ctx.index.nPeersCap,
          (pow.map Int.ofNat).getD ctx.index.powBits) := by
  rw [runnerSetupIndex_eq] at h
  obtain ⟨ctx₁, hpass, h⟩ := Option.bind_eq_some_iff.mp h
  obtain ⟨seats, hseats, h⟩ := Option.bind_eq_some_iff.mp h
  obtain ⟨index₁, hsetSeats, h⟩ := Option.bind_eq_some_iff.mp h
  obtain ⟨pow, hpow, h⟩ := Option.bind_eq_some_iff.mp h
  obtain ⟨index₂, hsetPow, hvip⟩ := Option.bind_eq_some_iff.mp h
  refine ⟨seats, pow, hseats, hpow, ?_⟩
  have hstart := runnerSetPass_limits hpass
  have hmiddle := setSeatsOption_limits hsetSeats
  have hlast := setPowOption_limits hsetPow
  simp only [Context.limits, Prod.mk.injEq] at hstart hmiddle
  rw [hmiddle.1, hmiddle.2.1, hmiddle.2.2, hstart.1, hstart.2.1, hstart.2.2] at hlast
  rw [← hlast]
  have hkept := index₂.setVip_limits mem ((args.getString (ascii "vip")).getD [])
  split at hvip
  · next heq =>
    obtain rfl := Option.some.inj hvip
    rwa [heq] at hkept
  · exact nomatch hvip

/-- The context that the runner starts, when nothing else runs in the program. -/
def startedContext (env : OpenEnv) (args : JsonObject Rat) : Option RunnerContext :=
  match Runner.start.runnerOpen env args with
  | (runner, .opened handle _) => (runner.slots[handle - 1]?).bind RunnerSlot.ctx
  | _ => none

theorem startedContext_idx {env : OpenEnv} {args : JsonObject Rat} {ctx : RunnerContext}
    (hop : args.getString (ascii "op") = some (ascii "idx")) (h : startedContext env args = some ctx) :
    ∃ ctx₀ : RunnerContext, ctx₀.index = .opened env.etimeoutSec ∧
      runnerSetupIndex ctx₀ env.vips args = some ctx := by
  have hidx : RunnerOp.ofText (ascii "idx") = some .idx := by decide +kernel
  unfold startedContext Runner.runnerOpen at h
  rw [hop, Option.bind_some, hidx] at h
  dsimp only at h
  cases halloc : Runner.start.slotAlloc env.growth with
  | none =>
    rw [halloc] at h
    exact nomatch h
  | some place =>
    obtain ⟨runner, handle⟩ := place
    rw [halloc] at h
    dsimp only at h
    cases hconfigure : (Runner.openContext env args).bind fun ctx =>
        runnerConfigure ctx env.vips handle args .idx with
    | none =>
      rw [hconfigure] at h
      exact nomatch h
    | some slot =>
      rw [hconfigure] at h
      dsimp only at h
      cases hstarted : env.started with
      | false =>
        rw [hstarted] at h
        exact nomatch h
      | true =>
        rw [hstarted] at h
        simp only [Bool.not_true, Bool.false_eq_true, if_false, Runner.setSlot] at h
        obtain ⟨slot', hslot', hctx⟩ := Option.bind_eq_some_iff.mp h
        have hlt := (List.getElem?_eq_some_iff.mp hslot').1
        rw [List.length_set] at hlt
        rw [List.getElem?_set_self hlt] at hslot'
        obtain rfl := Option.some.inj hslot'
        obtain ⟨ctx₀, hopen, hconfigure⟩ := Option.bind_eq_some_iff.mp hconfigure
        simp only [runnerConfigure, Option.bind_eq_bind, Option.bind_eq_some_iff, Option.pure_def,
          Option.some.injEq] at hconfigure
        obtain ⟨port, hport, ctx₁, hsetup, rfl⟩ := hconfigure
        obtain rfl := Option.some.inj hctx
        refine ⟨ctx₀, ?_, hsetup⟩
        unfold Runner.openContext at hopen
        split at hopen
        · exact nomatch hopen
        dsimp only at hopen
        split at hopen
        · obtain rfl := Option.some.inj hopen
          rfl
        · split at hopen
          · obtain rfl := Option.some.inj hopen
            rfl
          · obtain rfl := Option.some.inj hopen
            unfold RunnerContext.setStateDir
            split <;> rfl

namespace Cli

/-! ### What the option loop leaves -/

/-- One turn of the loop: it takes a number of seats or a difficulty, or leaves both as they are. -/
inductive IdxTook (a : IdxArgs) (option : Bytes) : Option Bytes → IdxArgs → Prop
  | seats {text : Bytes} {a' : IdxArgs} (h : isSeats option = true)
    (hvalue : decimalIn text 0 sizeMax = some a'.seats) (hset : a'.seatsSet = true)
    (hpow : a'.powBits = a.powBits ∧ a'.powOptionSet = a.powOptionSet) : IdxTook a option (some text) a'
  | pow {text : Bytes} {a' : IdxArgs} (h : isPow option = true)
    (hvalue : decimalIn text 0 32 = some a'.powBits) (hset : a'.powOptionSet = true)
    (hseats : a'.seats = a.seats ∧ a'.seatsSet = a.seatsSet) : IdxTook a option (some text) a'
  | other {value : Option Bytes} {a' : IdxArgs} (h : isSeats option = false ∧ isPow option = false)
    (hpow : a'.powBits = a.powBits ∧ a'.powOptionSet = a.powOptionSet)
    (hseats : a'.seats = a.seats ∧ a'.seatsSet = a.seatsSet) : IdxTook a option value a'

theorem takeIdx_ok {a a' : IdxArgs} {option : Bytes} {value : Option Bytes}
    (h : takeIdx a (option, value) = .ok a') : IdxTook a option value a' := by
  unfold takeIdx at h
  dsimp only at h
  have hmode : ∀ {name : Bytes}, option = name → isSeats name = false ∧ isPow name = false →
      isSeats option = false ∧ isPow option = false := fun heq hname => heq ▸ hname
  split at h
  · next hlist =>
    obtain rfl := Except.ok.inj h
    exact .other (hlist.elim (hmode · (by decide +kernel)) (hmode · (by decide +kernel))) ⟨rfl, rfl⟩ ⟨rfl, rfl⟩
  split at h
  · next hprune =>
    obtain rfl := Except.ok.inj h
    exact .other (hprune.elim (hmode · (by decide +kernel)) (hmode · (by decide +kernel))) ⟨rfl, rfl⟩ ⟨rfl, rfl⟩
  split at h
  · next hdown =>
    obtain rfl := Except.ok.inj h
    simp only [isDown, Bool.or_eq_true, beq_iff_eq] at hdown
    exact .other (hdown.elim (hmode · (by decide +kernel)) (hmode · (by decide +kernel))) ⟨rfl, rfl⟩ ⟨rfl, rfl⟩
  split at h
  · next hseats =>
    split at h
    · exact nomatch h
    split at h
    · exact nomatch h
    next hvalue =>
    obtain rfl := Except.ok.inj h
    exact .seats hseats (by rwa [parseSize, parseU_eq] at hvalue) rfl ⟨rfl, rfl⟩
  next hseats =>
  split at h
  · next hpow =>
    split at h
    · exact nomatch h
    split at h
    · exact nomatch h
    next hvalue =>
    obtain rfl := Except.ok.inj h
    exact .pow hpow (by rwa [parseDecimal, parseU_eq] at hvalue) rfl ⟨rfl, rfl⟩
  next hpow =>
  split at h
  · obtain rfl := Except.ok.inj h
    exact .other ⟨by simpa using hseats, by simpa using hpow⟩ ⟨rfl, rfl⟩ ⟨rfl, rfl⟩
  · exact nomatch h

/-- What the loop leaves of one of the two settings: the value of the last option for it, or nothing. -/
def Holds (kind : Bytes → Bool) (max : Nat) (options : List (Bytes × Option Bytes)) (value : Nat)
    (set : Bool) : Prop :=
  match Arguments.last kind options with
  | some text => decimalIn text 0 max = some value ∧ set = true
  | none => value = 0 ∧ set = false

theorem Holds.same {kind : Bytes → Bool} {max value value' : Nat} {options : List (Bytes × Option Bytes)}
    {set set' : Bool} (h : Holds kind max options value set) {item : Bytes × Option Bytes}
    (hkind : kind item.1 = false) (hsame : value' = value ∧ set' = set) :
    Holds kind max (options ++ [item]) value' set' := by
  obtain ⟨rfl, rfl⟩ := hsame
  unfold Holds
  rw [Arguments.last_concat, hkind]
  exact h

theorem Holds.taken {kind : Bytes → Bool} {max value : Nat} {options : List (Bytes × Option Bytes)}
    {set : Bool} {option text : Bytes} (hkind : kind option = true)
    (hvalue : decimalIn text 0 max = some value) (hset : set = true) :
    Holds kind max (options ++ [(option, some text)]) value set := by
  unfold Holds
  rw [Arguments.last_concat, hkind]
  exact ⟨hvalue, hset⟩

/-- What the loop leaves of both settings. -/
structure IdxLeaves (options : List (Bytes × Option Bytes)) (a : IdxArgs) : Prop where
  seats : Holds isSeats sizeMax options a.seats a.seatsSet
  pow : Holds isPow 32 options a.powBits a.powOptionSet

theorem isSeats_not_isPow {option : Bytes} (h : isSeats option = true) : isPow option = false := by
  obtain rfl : option = ascii "--seats" := by simpa [isSeats] using h
  decide +kernel

theorem isPow_not_isSeats {option : Bytes} (h : isPow option = true) : isSeats option = false := by
  obtain rfl : option = ascii "--pow" := by simpa [isPow] using h
  decide +kernel

theorem IdxLeaves.step {options : List (Bytes × Option Bytes)} {a a' : IdxArgs}
    {item : Bytes × Option Bytes} (h : IdxLeaves options a) (htook : IdxTook a item.1 item.2 a') :
    IdxLeaves (options ++ [item]) a' := by
  obtain ⟨option, value⟩ := item
  cases htook with
  | seats hkind hvalue hset hpow => exact ⟨.taken hkind hvalue hset, h.pow.same (isSeats_not_isPow hkind) hpow⟩
  | pow hkind hvalue hset hseats => exact ⟨h.seats.same (isPow_not_isSeats hkind) hseats, .taken hkind hvalue hset⟩
  | other hkind hpow hseats => exact ⟨h.seats.same hkind.1 hseats, h.pow.same hkind.2 hpow⟩

/-- The options of an `idx` command. -/
def idxOptions (argv : List Bytes) : List (Bytes × Option Bytes) :=
  Arguments.items (fun option => isSeats option || isPow option) argv

/-! ### The request -/

/-- What the environment leaves of the flag for the seats. -/
theorem loadIndexOptions_seatsSet {host : Host} {opts opts' : Options} {set set' : Bool}
    (h : loadIndexOptions host opts set = some (opts', set')) :
    match host.getenv "REDP2P_SEATS" with
    | none => set' = set
    | some text => set' = true ∧ (decimalIn text 0 (sizeMax / peerSize)).isSome = true := by
  unfold loadIndexOptions at h
  dsimp only at h
  obtain ⟨⟨seats, set₁⟩, hseats, h⟩ := Option.bind_eq_some_iff.mp h
  have hset : set' = set₁ := by
    dsimp only at h
    split at h
    · exact ((Prod.mk.inj (Option.some.inj h)).2).symm
    · split at h
      · exact ((Prod.mk.inj (Option.some.inj h)).2).symm
      · exact nomatch h
  subst hset
  cases hget : host.getenv "REDP2P_SEATS" with
  | none =>
    rw [hget] at hseats
    exact ((Prod.mk.inj (Option.some.inj hseats)).2).symm
  | some text =>
    rw [hget] at hseats
    obtain ⟨n, hn, hpair⟩ := Option.map_eq_some_iff.mp hseats
    refine ⟨((Prod.mk.inj hpair).2).symm, ?_⟩
    obtain ⟨m, hvalue, hfits⟩ := Option.bind_eq_some_iff.mp hn
    rw [parseSize, parseU_eq] at hvalue
    obtain ⟨hne, hdigits, hm, hmin, -⟩ := decimalIn_eq_some_iff.mp hvalue
    split at hfits
    · next hle =>
      exact Option.isSome_iff_exists.mpr ⟨m, decimalIn_eq_some_iff.mpr ⟨hne, hdigits, hm, hmin, hle⟩⟩
    · exact nomatch hfits

theorem idxRun_opens {host : Host} {opts : Options} {a : IdxArgs} {args : JsonObject Rat}
    {path : Option Bytes} (h : idxRun host opts a = .opens args path) :
    ∃ stateDir, args = idxRequest opts a stateDir := by
  unfold idxRun at h
  repeat' split at h
  all_goals cases h
  exact ⟨_, rfl⟩

/-- What an index is opened with. -/
theorem idxMain_opens {host : Host} {name : Bytes} {argv : List Bytes} {args : JsonObject Rat}
    {path : Option Bytes} (h : idxMain host name argv = .opens args path) : ∃ a opts set stateDir,
      IdxLeaves (idxOptions argv) a ∧ loadIndexOptions host optionsDefault a.seatsSet = some (opts, set) ∧
        args = idxRequest opts { a with seatsSet := set } stateDir := by
  unfold idxMain at h
  dsimp only at h
  split at h
  · exact nomatch h
  next a hread =>
  split at h
  · exact nomatch h
  split at h
  · exact nomatch h
  next opts set hload =>
  have hleaves : IdxLeaves (idxOptions argv) a :=
    Arguments.read_ok (P := IdxLeaves) ⟨⟨rfl, rfl⟩, ⟨rfl, rfl⟩⟩
      (fun _ _ _ _ hbefore htake => hbefore.step (takeIdx_ok htake)) hread
  obtain ⟨stateDir, hargs⟩ := idxRun_opens h
  exact ⟨a, opts, set, stateDir, hleaves, hload, hargs⟩

/-- The numbers that a request carries. -/
theorem idxRequest_values (opts : Options) (a : IdxArgs) (stateDir : Bytes) :
    (idxRequest opts a stateDir).getValue (ascii "op") = some (.str (ascii "idx")) ∧
    (idxRequest opts a stateDir).getValue (ascii "seats") =
      (if a.seatsSet then some (.num (toDouble a.seats : Nat)) else none) ∧
    (idxRequest opts a stateDir).getValue (ascii "pow") =
      (if a.powOptionSet then some (.num (toDouble a.powBits : Nat)) else none) := by
  have hrest : ∀ (obj : JsonObject Rat) (name : Bytes), ascii "pass" ≠ name → ascii "vip" ≠ name →
      ascii "state_dir" ≠ name →
      (setText (setOptional (setText obj "pass" opts.pass) "vip" opts.vip) "state_dir" stateDir).getValue name =
        obj.getValue name := by
    intro obj name hpass hvip hdir
    rw [getValue_setText_other _ hdir, getValue_setOptional_other _ hvip, getValue_setText_other _ hpass]
  have hstart : ∀ name : Bytes, ascii "op" ≠ name →
      (JsonObject.setString [] (ascii "op") (ascii "idx") : JsonObject Rat).getValue name = none :=
    fun name hop => getValue_setString_other [] hop _
  unfold idxRequest
  dsimp only
  refine ⟨?_, ?_, ?_⟩
  · have hvalid : isValidUtf8 (ascii "idx") = true := by decide +kernel
    rw [hrest _ _ (by decide +kernel) (by decide +kernel) (by decide +kernel),
      getValue_setCount_other _ (by decide +kernel), getValue_setCount_other _ (by decide +kernel),
      getValue_setNumber_other _ (by decide +kernel), getValue_setString, hvalid, if_pos rfl]
  · rw [hrest _ _ (by decide +kernel) (by decide +kernel) (by decide +kernel),
      getValue_setCount_other _ (by decide +kernel), getValue_setCount,
      getValue_setNumber_other _ (by decide +kernel), hstart _ (by decide +kernel)]
  · rw [hrest _ _ (by decide +kernel) (by decide +kernel) (by decide +kernel), getValue_setCount,
      getValue_setCount_other _ (by decide +kernel), getValue_setNumber_other _ (by decide +kernel),
      hstart _ (by decide +kernel)]

theorem runnerCount_number {args : JsonObject Rat} {key : String} {set : Bool} {n : Nat}
    (h : args.getValue (ascii key) = if set then some (.num (n : Nat)) else none) :
    runnerCount args key = some (if set then some n else none) := by
  unfold runnerCount
  rw [h]
  cases set with
  | false => rfl
  | true =>
    have htruncate : truncate ((n : Nat) : Rat) = n := by
      have hpos : ¬ ((n : Nat) : Rat) < 0 := not_lt.mpr (by exact_mod_cast Nat.zero_le n)
      rw [truncate, if_neg hpos]
      exact_mod_cast Rat.floor_intCast (n : Int)
    have hguard : ¬ ((n : Nat) : Int) < 0 := by omega
    simp [htruncate, hguard]

/-! ### Precedence -/

/-- The context that the runner starts for a command. -/
def startedIndex (env : OpenEnv) : Outcome → Option RunnerContext
  | .opens args _ => startedContext env args
  | _ => none

/-- The seats that the options and the environment ask for, if any. -/
def documentedSeats (getenv : Environment) (options : List (Bytes × Option Bytes)) : Option Nat :=
  match Arguments.last isSeats options with
  | some text => decimalIn text 0 sizeMax
  | none => (getenv "REDP2P_SEATS").bind fun text => decimalIn text 0 (sizeMax / peerSize)

/-- The difficulty that the options and the environment ask for. -/
def documentedPow (getenv : Environment) (options : List (Bytes × Option Bytes)) : Nat :=
  match Arguments.last isPow options with
  | some text => (decimalIn text 0 32).getD 0
  | none => ((getenv "REDP2P_POW").bind fun text => decimalIn text 0 32).getD 0

/-- An index has the seats and the difficulty that were asked for. -/
def TakesEffect (getenv : Environment) (options : List (Bytes × Option Bytes)) (ctx : RunnerContext) : Prop :=
  (match documentedSeats getenv options with
    | some seats => ctx.index.seatsSet = true ∧ ctx.index.nPeersCap = seats
    | none => ctx.index.seatsSet = false) ∧
  ctx.index.powBits = documentedPow getenv options

theorem TakesEffect.seats {getenv : Environment} {options : List (Bytes × Option Bytes)}
    {ctx : RunnerContext} (h : TakesEffect getenv options ctx) {seats : Nat}
    (hseats : documentedSeats getenv options = some seats) : ctx.index.nPeersCap = seats := by
  obtain ⟨hleft, -⟩ := h
  rw [hseats] at hleft
  exact hleft.2

/-- The environment asks for nothing but 0 where no option is given, and a number of seats that is given
is one of the doubles. -/
structure Kept (getenv : Environment) (options : List (Bytes × Option Bytes)) : Prop where
  exact : ∀ text ∈ Arguments.last isSeats options, ∀ n, decimalIn text 0 sizeMax = some n → toDouble n = n
  seats : Arguments.last isSeats options = none → ∀ text ∈ getenv "REDP2P_SEATS",
    decimalIn text 0 sizeMax = some 0
  pow : Arguments.last isPow options = none → ∀ text ∈ getenv "REDP2P_POW", ∀ n,
    decimalIn text 0 32 = some n → n = 0

/-- The seats and the difficulty of a started index are those of its request. -/
theorem startedIndex_limits {host : Host} {name : Bytes} {argv : List Bytes} {env : OpenEnv}
    {ctx : RunnerContext} (h : startedIndex env (idxMain host name argv) = some ctx) :
    ∃ a opts set, IdxLeaves (idxOptions argv) a ∧
      loadIndexOptions host optionsDefault a.seatsSet = some (opts, set) ∧ ctx.index.limits =
        (set, if set then toDouble a.seats else 0, if a.powOptionSet then (toDouble a.powBits : Int) else 0) := by
  cases hmain : idxMain host name argv with
  | opens args path =>
    rw [hmain] at h
    obtain ⟨a, opts, set, stateDir, hleaves, hload, rfl⟩ := idxMain_opens hmain
    obtain ⟨hop, hseats, hpow⟩ := idxRequest_values opts { a with seatsSet := set } stateDir
    have hidx : (idxRequest opts { a with seatsSet := set } stateDir).getString (ascii "op") =
        some (ascii "idx") := by
      rw [JsonObject.getString, hop]
      decide +kernel
    obtain ⟨ctx₀, hopened, hsetup⟩ := startedContext_idx hidx h
    obtain ⟨seats, pow, hcount, hcount', hlimits⟩ := runnerSetupIndex_limits hsetup
    rw [runnerCount_number hseats] at hcount
    rw [runnerCount_number hpow] at hcount'
    obtain rfl := Option.some.inj hcount
    obtain rfl := Option.some.inj hcount'
    refine ⟨a, opts, set, hleaves, hload, ?_⟩
    rw [hlimits, hopened]
    cases set <;> cases a.powOptionSet <;> rfl
  | fails message | prunes | lists port | stops path =>
    rw [hmain] at h
    exact nomatch h

theorem seats_iff {host : Host} {options : List (Bytes × Option Bytes)} {a : IdxArgs} {opts : Options}
    {set : Bool} (h : Holds isSeats sizeMax options a.seats a.seatsSet)
    (hload : loadIndexOptions host optionsDefault a.seatsSet = some (opts, set)) :
    (match documentedSeats host.getenv options with
      | some seats => set = true ∧ (if set then toDouble a.seats else 0) = seats
      | none => set = false) ↔
      (∀ text ∈ Arguments.last isSeats options, ∀ n, decimalIn text 0 sizeMax = some n → toDouble n = n) ∧
      (Arguments.last isSeats options = none → ∀ text ∈ host.getenv "REDP2P_SEATS",
        decimalIn text 0 sizeMax = some 0) := by
  have hset := loadIndexOptions_seatsSet hload
  unfold documentedSeats
  unfold Holds at h
  cases hlast : Arguments.last isSeats options with
  | some text =>
    rw [hlast] at h
    obtain ⟨hvalue, hgiven⟩ := h
    have htrue : set = true := by
      split at hset
      · exact hset.trans hgiven
      · exact hset.1
    simp [hvalue, htrue]
  | none =>
    rw [hlast] at h
    obtain ⟨hzero, hgiven⟩ := h
    cases hget : host.getenv "REDP2P_SEATS" with
    | none =>
      rw [hget] at hset
      simp [hset, hgiven]
    | some text =>
      rw [hget] at hset
      obtain ⟨htrue, hsome⟩ := hset
      obtain ⟨n, hn⟩ := Option.isSome_iff_exists.mp hsome
      have hwide : decimalIn text 0 sizeMax = some n := by
        obtain ⟨hne, hdigits, hvalue, hmin, hmax⟩ := decimalIn_eq_some_iff.mp hn
        exact decimalIn_eq_some_iff.mpr
          ⟨hne, hdigits, hvalue, hmin, Nat.le_trans hmax (Nat.div_le_self _ _)⟩
      have hdouble : toDouble 0 = 0 := by decide
      simp [hn, hwide, htrue, hzero, hdouble, eq_comm]

theorem pow_iff (getenv : Environment) {options : List (Bytes × Option Bytes)} {a : IdxArgs}
    (h : Holds isPow 32 options a.powBits a.powOptionSet) :
    (if a.powOptionSet then (toDouble a.powBits : Int) else 0) = documentedPow getenv options ↔
      (Arguments.last isPow options = none → ∀ text ∈ getenv "REDP2P_POW", ∀ n,
        decimalIn text 0 32 = some n → n = 0) := by
  unfold documentedPow
  unfold Holds at h
  cases hlast : Arguments.last isPow options with
  | some text =>
    rw [hlast] at h
    obtain ⟨hvalue, hgiven⟩ := h
    have hsmall : a.powBits < 2 ^ 53 := Nat.lt_of_le_of_lt (decimalIn_range hvalue).2 (by decide)
    simp [hvalue, hgiven, toDouble_small hsmall]
  | none =>
    rw [hlast] at h
    rw [h.2]
    cases hget : getenv "REDP2P_POW" with
    | none => simp
    | some text => cases hvalue : decimalIn text 0 32 <;> simp [hvalue, eq_comm]

/-- A started index has the seats and the difficulty that were asked for exactly when the environment asks
for nothing that an option does not, and the number of seats is a double. -/
theorem index_options_iff (host : Host) (name : Bytes) (argv : List Bytes) (env : OpenEnv)
    {ctx : RunnerContext} (h : startedIndex env (idxMain host name argv) = some ctx) :
    TakesEffect host.getenv (idxOptions argv) ctx ↔ Kept host.getenv (idxOptions argv) := by
  obtain ⟨a, opts, set, hleaves, hload, hlimits⟩ := startedIndex_limits h
  simp only [Context.limits, Prod.mk.injEq] at hlimits
  obtain ⟨hset, hcap, hbits⟩ := hlimits
  have hseats := seats_iff hleaves.seats hload
  have hpow := pow_iff host.getenv hleaves.pow
  unfold TakesEffect
  rw [hset, hcap, hbits, hpow]
  constructor
  · rintro ⟨hleft, hright⟩
    obtain ⟨hexact, hnone⟩ := hseats.mp hleft
    exact ⟨hexact, hnone, hright⟩
  · rintro ⟨hexact, hnone, hright⟩
    exact ⟨hseats.mpr ⟨hexact, hnone⟩, hright⟩

/-- A host on which everything can be allocated. -/
def hostWith (getenv : Environment) : Host := ⟨getenv, true, true⟩

def sampleOpen : OpenEnv := ⟨.inPlace, true, 120, ⟨true, fun _ => true⟩, true, true⟩

/-- Five seats and a difficulty of 8. -/
def fiveSeats : Environment := fun name =>
  if name = "REDP2P_SEATS" then some (ascii "5") else if name = "REDP2P_POW" then some (ascii "8") else none

/-- With five seats in the environment the index has none, and it asks for no work. -/
theorem index_options_ignored : ∃ ctx, startedIndex sampleOpen
      (idxMain (hostWith fiveSeats) (ascii "redp2p") [ascii "9876"]) = some ctx ∧
    ctx.index.limits = (true, 0, 0) ∧ ¬ TakesEffect fiveSeats (idxOptions [ascii "9876"]) ctx := by
  have hstarted : (startedIndex sampleOpen
      (idxMain (hostWith fiveSeats) (ascii "redp2p") [ascii "9876"])).map (fun ctx => ctx.index.limits) =
        some (true, 0, 0) := by decide +kernel
  obtain ⟨ctx, hctx, hlimits⟩ := Option.map_eq_some_iff.mp hstarted
  refine ⟨ctx, hctx, hlimits, fun h => ?_⟩
  have hseats : documentedSeats fiveSeats (idxOptions [ascii "9876"]) = some 5 := by decide +kernel
  have hcap := h.seats hseats
  simp only [Context.limits, Prod.mk.injEq] at hlimits
  exact absurd (hlimits.2.1.symm.trans hcap) (by decide)

/-- Five seats and a difficulty of 8 that are given as options take effect. -/
theorem index_options_sample : ∃ ctx, startedIndex sampleOpen (idxMain (hostWith fun _ => none) (ascii "redp2p")
      [ascii "9876", ascii "--seats", ascii "5", ascii "--pow", ascii "8"]) = some ctx ∧
    TakesEffect (fun _ => none)
      (idxOptions [ascii "9876", ascii "--seats", ascii "5", ascii "--pow", ascii "8"]) ctx := by
  have hstarted : (startedIndex sampleOpen (idxMain (hostWith fun _ => none) (ascii "redp2p")
      [ascii "9876", ascii "--seats", ascii "5", ascii "--pow", ascii "8"])).isSome = true := by decide +kernel
  obtain ⟨ctx, hctx⟩ := Option.isSome_iff_exists.mp hstarted
  have hlast : Arguments.last isSeats
      (idxOptions [ascii "9876", ascii "--seats", ascii "5", ascii "--pow", ascii "8"]) = some (ascii "5") := by
    decide +kernel
  refine ⟨ctx, hctx, (index_options_iff (hostWith fun _ => none) _ _ sampleOpen hctx).mpr ⟨?_, ?_, ?_⟩⟩
  · intro text htext n hn
    obtain rfl := Option.some.inj (hlast.symm.trans htext)
    have hvalue : decimalIn (ascii "5") 0 sizeMax = some 5 := by decide +kernel
    obtain rfl := Option.some.inj (hvalue.symm.trans hn)
    decide
  · intro hnone
    rw [hlast] at hnone
    exact nomatch hnone
  · intro _ text htext
    exact nomatch htext

end Cli

end Redp2p
