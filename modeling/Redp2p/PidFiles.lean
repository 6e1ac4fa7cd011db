import Redp2p.Cli
import Redp2p.Lib.FileTree
import Redp2p.Lib.Runs

/-! The process files of background instances: how one is written with the directories above it, and how the
instance that it names is stopped. -/

namespace Redp2p.Cli

open ByteString FileTree

/-! ### Paths -/

/-- A file system, with the contents of its files. -/
abbrev Files := Tree Bytes Bytes

def isSlash (b : UInt8) : Bool := b == 0x2f

def pathStep (name : Bytes) : Step Bytes :=
  if name = ascii "." then .here else if name = ascii ".." then .up else .into name

/-- How the system reads the text of a path, in a current directory. -/
def filePath (cwd : Place Bytes) (text : Bytes) : Path Bytes where
  start := if text.head? = some 0x2f then [] else cwd
  steps := (Runs.runs isSlash text).map pathStep
  closed := text.getLast? = some 0x2f

/-! ### Writing -/

def mkdir (cwd : Place Bytes) (fs : Files) (text : Bytes) : Files :=
  (fs.mkdir (filePath cwd text)).getD fs

/-- The loop of `cli_mkdir_p` behind the front of a path, and the call after it. -/
def mkdirLoop (cwd : Place Bytes) (fs : Files) (front : Bytes) : Bytes → Files
  | [] => mkdir cwd fs front
  | c :: rest => mkdirLoop cwd (if c = 0x2f then mkdir cwd fs front else fs) (front ++ [c]) rest

def mkdirPathSz : Nat := 1024

/-- `cli_mkdir_p`, for a path that is not empty. -/
def mkdirP (cwd : Place Bytes) (fs : Files) (path : Bytes) : Int × Files :=
  if path.length ≥ mkdirPathSz then (-1, fs) else (0, mkdirLoop cwd fs (path.take 1) (path.drop 1))

/-- A process id, as `getpid` returns it. -/
structure ProcessId where
  value : Nat
  pos : 0 < value
  bound : value < 2 ^ 31

/-- What `cli_pid_write` writes. -/
def pidText (pid : ProcessId) : Bytes := decimal pid.value ++ [0x0a]

def pidWrite (cwd : Place Bytes) (fs : Files) (path : Bytes) (pid : ProcessId) : Nat × Files :=
  let (_, fs) := mkdirP cwd fs path
  match fs.write (filePath cwd path) (pidText pid) with
  | none => (1, fs)
  | some fs => (0, fs)

/-! ### Stopping -/

/-- `fscanf` with `%ld`, which saturates. -/
def scanLong (data : Bytes) : Option Int :=
  let text := data.dropWhile isSpace
  let signed := text.head? = some 0x2d ∨ text.head? = some 0x2b
  let digits := (if signed then text.tail else text).takeWhile isDigit
  let value : Int := Redp2p.parseDecimal digits
  if digits = [] then none
  else if text.head? = some 0x2d then some (max (-2 ^ 63) (-value)) else some (min (2 ^ 63 - 1) value)

def sigterm : Int := 15

/-- What `cli_pid_stop` returns, the calls of `kill` that it makes, what it prints, and what it leaves. -/
structure Stopping where
  status : Nat
  kills : List (Int × Int)
  message : String
  files : Files

/-- `cli_pid_stop`. A directory is opened like a file, and reads as an empty one. -/
def pidStop (kill : Int → Int → Bool) (cwd : Place Bytes) (fs : Files) (path : Bytes) : Stopping :=
  let removed := (fs.remove (filePath cwd path)).getD fs
  match fs.stat (filePath cwd path) with
  | none => ⟨1, [], "no background instance found", fs⟩
  | some node =>
    match scanLong (match node with | .dir => [] | .file data => data) with
    | none => ⟨1, [], "invalid PID file", removed⟩
    | some pid =>
      if pid ≤ 0 then ⟨1, [], "invalid PID file", removed⟩
      else
        let pid := Int.bmod pid (2 ^ 32)
        if !kill pid 0 then ⟨1, [(pid, 0)], "process not running", removed⟩
        else if !kill pid sigterm then ⟨1, [(pid, 0), (pid, sigterm)], "failed to signal process", fs⟩
        else ⟨0, [(pid, 0), (pid, sigterm)], "stopped", removed⟩

/-! ### Round trips -/

/-- A process file is written as a regular file with the process id, and a stop afterwards signals the process, as
long as it runs. -/
def PidRoundTrip (cwd : Place Bytes) (fs : Files) (path : Bytes) (pid : ProcessId) : Prop :=
  ∃ written, pidWrite cwd fs path pid = (0, written) ∧
    written.stat (filePath cwd path) = some (.file (pidText pid)) ∧
    ∀ kill : Int → Int → Bool, kill pid.value 0 = true →
      (pidStop kill cwd written path).kills = [((pid.value : Int), 0), ((pid.value : Int), sigterm)]

/-- A path names a regular file that already exists, as soon as the directories on its way are there. -/
structure NamesFile (cwd : Place Bytes) (fs : Files) (path : Bytes) : Prop where
  start : fs.get (filePath cwd path).start = some .dir
  closed : (filePath cwd path).closed = false
  file : ∃ steps name data, (filePath cwd path).steps = steps ++ [.into name] ∧
    fs.Clear (filePath cwd path).start steps ∧
    fs.get (name :: locate (filePath cwd path).start steps) = some (.file data)

/-! ### Making the directories of a path -/

/-- The front of a path ends some names, and has begun another one. -/
def Splits (front : Bytes) (done : List Bytes) (run : Bytes) : Prop :=
  ∀ rest, Runs.runs isSlash (front ++ rest) = done ++ Runs.runsFrom isSlash run rest

theorem Splits.slash {front : Bytes} {done : List Bytes} {run : Bytes} (h : Splits front done run) :
    Splits (front ++ [0x2f]) (done ++ if run.isEmpty then [] else [run]) [] := by
  intro rest
  rw [List.append_assoc, List.singleton_append, h, Runs.runsFrom, if_pos (by decide), List.append_assoc]

theorem Splits.other {front : Bytes} {done : List Bytes} {run : Bytes} (h : Splits front done run) {c : UInt8}
    (hc : c ≠ 0x2f) : Splits (front ++ [c]) done (run ++ [c]) := by
  intro rest
  rw [List.append_assoc, List.singleton_append, h, Runs.runsFrom, if_neg (by simpa [isSlash] using hc)]

theorem Splits.steps {front : Bytes} {done : List Bytes} {run : Bytes} (h : Splits front done run)
    (hrun : run ≠ []) (cwd : Place Bytes) :
    (filePath cwd front).steps = done.map pathStep ++ [pathStep run] := by
  have hfront := h []
  rw [List.append_nil, Runs.runsFrom, if_neg (by simpa using hrun)] at hfront
  rw [filePath, hfront, List.map_append, List.map_singleton]

theorem mkdir_grown (cwd : Place Bytes) (fs : Files) (text : Bytes) :
    Tree.Grown (filePath cwd text).start fs (mkdir cwd fs text) :=
  Tree.mkdir_grown fs _

theorem filePath_start {cwd : Place Bytes} {front : Bytes} (hne : front ≠ []) (rest : Bytes) :
    (filePath cwd (front ++ rest)).start = (filePath cwd front).start := by
  simp only [filePath, List.head?_append_of_ne_nil _ hne]

/-- The loop only makes directories, and before its last call the directories on the way are there, unless a file
is in the way. -/
theorem mkdirLoop_spec {cwd start : Place Bytes} {fs : Files} (rest : Bytes) {front : Bytes} {done : List Bytes}
    {run : Bytes} {now : Files} (hne : front ≠ []) (hstart : (filePath cwd front).start = start)
    (hsplits : Splits front done run) (hrun : run = [] → front.getLast? = some 0x2f)
    (hgrown : Tree.Grown start fs now)
    (hwalk : fs.get start = some .dir → fs.Clear start (done.map pathStep) →
      now.walk start (done.map pathStep) = some (locate start (done.map pathStep))) :
    ∃ before, Tree.Grown start fs before ∧
      mkdirLoop cwd now front rest = mkdir cwd before (front ++ rest) ∧
      ((filePath cwd (front ++ rest)).closed = false → ∃ steps step,
        (filePath cwd (front ++ rest)).steps = steps ++ [step] ∧
        (fs.get start = some .dir → fs.Clear start steps → before.walk start steps = some (locate start steps))) := by
  induction rest generalizing front done run now with
  | nil =>
    rw [List.append_nil]
    refine ⟨now, hgrown, rfl, ?_⟩
    intro hopen
    have hbegun : run ≠ [] := by
      intro hnil
      simp [filePath, hrun hnil] at hopen
    exact ⟨_, _, hsplits.steps hbegun cwd, hwalk⟩
  | cons c rest ih =>
    have hne' : front ++ [c] ≠ [] := by simp
    have hstart' : (filePath cwd (front ++ [c])).start = start := (filePath_start hne [c]).trans hstart
    have hassoc : front ++ c :: rest = (front ++ [c]) ++ rest := by simp
    rw [hassoc, mkdirLoop]
    by_cases hc : c = 0x2f
    · subst hc
      rw [if_pos rfl]
      have hmade : Tree.Grown start now (mkdir cwd now front) := hstart ▸ mkdir_grown cwd now front
      refine ih hne' hstart' hsplits.slash (fun _ => by simp) (hgrown.trans hmade) ?_
      intro hdir hclear
      by_cases hnil : run = []
      · subst hnil
        rw [List.isEmpty_nil, if_pos rfl, List.append_nil] at hclear ⊢
        exact Tree.walk_mono (fun _ => hmade.dir) (hwalk hdir hclear)
      · rw [if_neg (by simpa using hnil), List.map_append, List.map_singleton] at hclear ⊢
        obtain ⟨hclear, hfile⟩ := Tree.clear_concat.mp hclear
        have hlast := Tree.walk_mkdir (hsplits.steps hnil cwd) (hstart ▸ hwalk hdir hclear)
          fun data hdata => hfile data (hgrown.file_iff.mp hdata)
        rw [hstart] at hlast
        rw [mkdir, hlast, locate, locate, List.foldl_append]
        rfl
    · rw [if_neg hc]
      exact ih hne' hstart' (hsplits.other hc) (fun h => absurd h (by simp)) hgrown hwalk

/-- Before the last call of `cli_mkdir_p` the directories on the way of a path are there, unless a file is in the
way. -/
theorem mkdirP_spec {cwd : Place Bytes} (fs : Files) {path : Bytes} (hne : path ≠ [])
    (hlength : path.length < mkdirPathSz) :
    ∃ before, Tree.Grown (filePath cwd path).start fs before ∧ mkdirP cwd fs path = (0, mkdir cwd before path) ∧
      ((filePath cwd path).closed = false → ∃ steps step, (filePath cwd path).steps = steps ++ [step] ∧
        (fs.get (filePath cwd path).start = some .dir → fs.Clear (filePath cwd path).start steps →
          before.walk (filePath cwd path).start steps = some (locate (filePath cwd path).start steps))) := by
  obtain ⟨c, rest, rfl⟩ := List.exists_cons_of_ne_nil hne
  have hstart : (filePath cwd [c]).start = (filePath cwd (c :: rest)).start :=
    (filePath_start (List.cons_ne_nil c []) rest).symm
  have hsplits : ∃ run, Splits [c] [] run ∧ (run = [] → [c].getLast? = some 0x2f) := by
    by_cases hc : c = 0x2f
    · refine ⟨[], ?_, fun _ => by rw [hc]; rfl⟩
      intro rest
      rw [hc, List.singleton_append, Runs.runs_sep (by decide)]
      rfl
    · refine ⟨[c], ?_, nofun⟩
      intro rest
      rw [List.singleton_append, Runs.runs, Runs.runsFrom, if_neg (by simpa [isSlash] using hc)]
      rfl
  obtain ⟨run, hsplits, hrun⟩ := hsplits
  obtain ⟨before, hgrown, hloop, hsteps⟩ := mkdirLoop_spec rest (List.cons_ne_nil c []) hstart hsplits hrun
    (Tree.Grown.refl _ fs) fun hdir _ => by simp only [List.map_nil, Tree.walk, if_pos hdir]; rfl
  refine ⟨before, hgrown, ?_, hsteps⟩
  rw [mkdirP, if_neg (by omega)]
  exact congrArg (Prod.mk 0) hloop

/-! ### Reading a process id back -/

theorem isSpace_of_isDigit {b : UInt8} (h : isDigit b = true) : isSpace b = false := by
  by_contra hspace
  simp only [Bool.not_eq_false, isSpace, Bool.or_eq_true, beq_iff_eq] at hspace
  rcases hspace with ((((rfl | rfl) | rfl) | rfl) | rfl) | rfl <;> exact absurd h (by decide)

theorem scanLong_pidText (pid : ProcessId) : scanLong (pidText pid) = some (pid.value : Int) := by
  obtain ⟨b, digits, hdecimal⟩ := List.exists_cons_of_ne_nil (decimal_ne_nil pid.value)
  have hdigits := decimal_isDigit pid.value
  have hb : isDigit b = true := hdigits b (by rw [hdecimal]; exact List.mem_cons_self)
  have htext : (pidText pid).dropWhile isSpace = pidText pid := by
    rw [pidText, hdecimal, List.cons_append, List.dropWhile_cons_of_neg (by simp [isSpace_of_isDigit hb])]
  have hhead : (pidText pid).head? = some b := by
    rw [pidText, hdecimal]
    rfl
  have htake : (pidText pid).takeWhile isDigit = decimal pid.value := by
    rw [pidText, List.takeWhile_append_of_pos hdigits]
    simp [isDigit, inRange]
  have hvalue : Redp2p.parseDecimal (decimal pid.value) = pid.value := by
    have hparse := parseU_decimal (Nat.zero_le pid.value) (Nat.le_refl pid.value)
    rw [parseU_eq] at hparse
    exact (decimalIn_eq_some_iff.mp hparse).2.2.1
  have hminus : ¬ some b = some 0x2d := by
    rintro ⟨⟩
    exact absurd hb (by decide)
  have hplus : ¬ some b = some 0x2b := by
    rintro ⟨⟩
    exact absurd hb (by decide)
  have hrange := pid.bound
  simp only [scanLong, htext, hhead, hminus, hplus, or_self, if_false, htake, decimal_ne_nil, hvalue]
  congr 1
  omega

/-- A stop at the file of a process that runs. -/
theorem pidStop_written {cwd : Place Bytes} {fs : Files} {path : Bytes} {pid : ProcessId}
    (hstat : fs.stat (filePath cwd path) = some (.file (pidText pid))) {kill : Int → Int → Bool}
    (hkill : kill pid.value 0 = true) :
    (pidStop kill cwd fs path).kills = [((pid.value : Int), 0), ((pid.value : Int), sigterm)] := by
  have hpos : ¬ (pid.value : Int) ≤ 0 := by
    have := pid.pos
    omega
  have hcast : Int.bmod pid.value (2 ^ 32) = pid.value := by
    have := pid.bound
    refine Int.bmod_eq_of_le ?_ ?_
    · omega
    · omega
  simp only [pidStop, hstat, scanLong_pidText, if_neg hpos, hcast, hkill, Bool.not_true, Bool.false_eq_true,
    if_false]
  cases kill pid.value sigterm <;> rfl

/-! ### Round trips -/

/-- A process file makes its round trip exactly when its path leads to a regular file that is there already: where
nothing lies at the end of the path, `cli_mkdir_p` makes a directory of it. -/
theorem pid_round_trip_iff (cwd : Place Bytes) (fs : Files) {path : Bytes} (hne : path ≠ [])
    (hlength : path.length < 1024) (pid : ProcessId) :
    PidRoundTrip cwd fs path pid ↔ NamesFile cwd fs path := by
  obtain ⟨before, hgrown, hmkdirP, hsteps⟩ := mkdirP_spec fs hne hlength
  have hmade := hgrown.trans (mkdir_grown cwd before path)
  constructor
  · rintro ⟨written, hwrite, -, -⟩
    simp only [pidWrite, hmkdirP] at hwrite
    cases hfile : (mkdir cwd before path).write (filePath cwd path) (pidText pid) with
    | none => simp [hfile] at hwrite
    | some tree =>
      obtain ⟨hopen, place, htarget, hfree, -⟩ := Tree.write_eq_some hfile
      obtain ⟨steps, name, parent, heq, hwalk, rfl⟩ := Tree.target_eq_some_iff.mp htarget
      have hsome : (mkdir cwd before path).get (name :: parent) ≠ none := Tree.mkdir_target htarget
      refine ⟨hmade.start (Tree.walk_start hwalk), hopen, steps, name, ?_⟩
      rw [← Tree.walk_locate hwalk]
      cases hget : (mkdir cwd before path).get (name :: parent) with
      | none => exact absurd hget hsome
      | some node =>
        cases node with
        | dir => exact absurd hget hfree
        | file data => exact ⟨data, heq, hmade.clear hwalk, hmade.file_iff.mp hget⟩
  · rintro ⟨hdir, hopen, steps, name, data, hpath, hclear, hfile⟩
    obtain ⟨steps', step, hpath', hwalk⟩ := hsteps hopen
    obtain ⟨rfl, -⟩ := List.append_inj' (hpath.symm.trans hpath') rfl
    have hway := Tree.walk_mono (fun _ => (mkdir_grown cwd before path).dir) (hwalk hdir hclear)
    have htarget := Tree.target_eq_some_iff.mpr ⟨steps, name, _, hpath, hway, rfl⟩
    have hthere := hmade.file_iff.mpr hfile
    have hfree : (mkdir cwd before path).get (name :: locate (filePath cwd path).start steps) ≠ some .dir := by
      rw [hthere]
      exact nofun
    obtain ⟨written, hwrite⟩ := Tree.write_of_target (pidText pid) hopen htarget hfree
    obtain ⟨-, place, hplace, -, hget⟩ := Tree.write_eq_some hwrite
    obtain rfl := Option.some.inj (htarget.symm.trans hplace)
    -- Only a file was replaced, so the way to it is as before.
    have hkept : ∀ q, (mkdir cwd before path).get q = some .dir → written.get q = some .dir := by
      intro q hq
      rw [hget, if_neg, hq]
      rintro rfl
      exact hfree hq
    have hstat : written.stat (filePath cwd path) = some (.file (pidText pid)) := by
      rw [Tree.stat_file hpath hopen (Tree.walk_mono hkept hway), hget, if_pos rfl]
    refine ⟨written, ?_, hstat, fun kill hkill => pidStop_written hstat hkill⟩
    simp only [pidWrite, hmkdirP, hwrite]

/-- Where nothing is found at a path that leads to a file all the same, the path goes up again from a directory
that is missing. -/
theorem namesFile_up {cwd : Place Bytes} {fs : Files} {path : Bytes} (h : NamesFile cwd fs path)
    (habsent : fs.stat (filePath cwd path) = none) : .up ∈ (filePath cwd path).steps := by
  obtain ⟨-, hopen, steps, name, data, hpath, -, hfile⟩ := h
  by_contra hup
  rw [hpath, List.mem_append, not_or] at hup
  have hwalk := Tree.walk_down hup.1 (Tree.get_tail hfile)
  rw [Tree.stat_file hpath hopen hwalk, hfile] at habsent
  exact nomatch habsent

/-- A tree of nothing but its root. -/
def emptyTree : Files := ⟨[], fun _ h => absurd h List.not_mem_nil⟩

/-- A tree with a file below its root. -/
def oneFile : Files := ⟨[([ascii "idx_80.pid"], .file [])], by decide⟩

def samplePid : ProcessId := ⟨4242, by decide, by decide⟩

/-- A directory is made where the process file of an index goes: it is not written, and no process is stopped. -/
theorem pid_file_is_directory :
    let path := ascii "/s/pids/idx_80.pid"
    let (status, written) := pidWrite [] emptyTree path samplePid
    emptyTree.stat (filePath [] path) = none ∧ status = 1 ∧ written.stat (filePath [] path) = some .dir ∧
      (pidStop (fun _ _ => true) [] written path).kills = [] ∧ ¬ PidRoundTrip [] emptyTree path samplePid := by
  refine ⟨?_, ?_, ?_, ?_, ?_⟩
  · decide +kernel
  · decide +kernel
  · decide +kernel
  · decide +kernel
  · rintro ⟨written, hwrite, -⟩
    have hstatus : (pidWrite [] emptyTree (ascii "/s/pids/idx_80.pid") samplePid).1 ≠ 0 := by decide +kernel
    exact hstatus (congrArg Prod.fst hwrite)

/-- A path that comes back from a missing directory to a file. -/
theorem pid_round_trip_sample : PidRoundTrip [] oneFile (ascii "/n/../idx_80.pid") samplePid := by
  refine (pid_round_trip_iff [] oneFile (by decide) (by decide) samplePid).mpr ⟨by decide +kernel, by decide +kernel, ?_⟩
  refine ⟨[.into (ascii "n"), .up], ascii "idx_80.pid", [], by decide +kernel, ?_, by decide +kernel⟩
  refine ⟨?_, ?_, trivial⟩
  · intro data
    exact nofun
  · intro data
    exact nofun

end Redp2p.Cli
