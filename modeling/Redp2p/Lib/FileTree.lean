import Mathlib.Data.List.Basic
import Mathlib.Data.List.Induction

/-! File trees: the files and directories of a file system by their places, the walk along the steps of a path,
and the calls that look up, make and remove what lies there. There are no symbolic links, and every directory
may be written. -/

namespace FileTree

/-! ### Trees -/

/-- The names that lead to a place, the last one first. The root is the empty place. -/
abbrev Place (Name : Type) := List Name

inductive Node (Data : Type) where
  | dir
  | file (data : Data)
  deriving DecidableEq

variable {Name Data : Type} [DecidableEq Name]

/-- What lies at a place. -/
def find (entries : List (Place Name × Node Data)) (place : Place Name) : Option (Node Data) :=
  if place = [] then some .dir else entries.lookup place

/-- A file tree: whatever lies in it lies in a directory. -/
structure Tree (Name Data : Type) [DecidableEq Name] where
  entries : List (Place Name × Node Data)
  parents : ∀ entry ∈ entries, find entries entry.1.tail = some .dir

/-! ### Paths -/

/-- A step of a path. -/
inductive Step (Name : Type) where
  | here
  | up
  | into (name : Name)
  deriving DecidableEq

/-- A path: where its walk starts, its steps, and whether a separator closes it. -/
structure Path (Name : Type) where
  start : Place Name
  steps : List (Step Name)
  closed : Bool

def enter (place : Place Name) : Step Name → Place Name
  | .here => place
  | .up => place.tail
  | .into name => name :: place

/-- Where steps lead by their names. -/
def locate (place : Place Name) (steps : List (Step Name)) : Place Name := steps.foldl enter place

namespace Tree

def get (tree : Tree Name Data) (place : Place Name) : Option (Node Data) := find tree.entries place

theorem get_nil (tree : Tree Name Data) : tree.get [] = some .dir := rfl

theorem get_tail {tree : Tree Name Data} {place : Place Name} {node : Node Data}
    (h : tree.get place = some node) : tree.get place.tail = some .dir := by
  by_cases hroot : place = []
  · rw [hroot]
    rfl
  · rw [get, find, if_neg hroot] at h
    obtain ⟨before, after, heq, -⟩ := List.lookup_eq_some_iff.mp h
    exact tree.parents (place, node) (by simp [heq])

/-- The tree with a node put in a directory, where no directory is. -/
def put (tree : Tree Name Data) (place : Place Name) (node : Node Data)
    (hparent : tree.get place.tail = some .dir) (hfree : tree.get place ≠ some .dir) : Tree Name Data where
  entries := (place, node) :: tree.entries
  parents := by
    have hroot : place ≠ [] := fun h => hfree (h ▸ tree.get_nil)
    have hkept : ∀ q, tree.get q = some .dir → find ((place, node) :: tree.entries) q = some .dir := by
      intro q hq
      have hne : (q == place) = false := beq_false_of_ne fun h => hfree (h ▸ hq)
      rw [find, List.lookup_cons, hne]
      exact hq
    intro entry hentry
    rcases List.mem_cons.mp hentry with rfl | hold
    · exact hkept _ hparent
    · exact hkept _ (tree.parents entry hold)

theorem get_put {tree : Tree Name Data} {place : Place Name} {node : Node Data}
    (hparent : tree.get place.tail = some .dir) (hfree : tree.get place ≠ some .dir) (q : Place Name) :
    (tree.put place node hparent hfree).get q = if q = place then some node else tree.get q := by
  have hroot : place ≠ [] := fun h => hfree (h ▸ tree.get_nil)
  simp only [get, find, put, List.lookup_cons]
  by_cases hq : q = place
  · subst hq
    simp [hroot]
  · rw [beq_false_of_ne hq, if_neg hq]

/-- The tree without what lies at a place, where nothing lies below. -/
def erase (tree : Tree Name Data) (place : Place Name) (hempty : ∀ entry ∈ tree.entries, entry.1.tail ≠ place) :
    Tree Name Data where
  entries := tree.entries.filter (·.1 ≠ place)
  parents := by
    have hkept : ∀ (entries : List (Place Name × Node Data)) (q : Place Name), q ≠ place →
        find (entries.filter (·.1 ≠ place)) q = find entries q := by
      intro entries q hq
      induction entries with
      | nil => rfl
      | cons entry entries ih =>
        simp only [find] at ih ⊢
        by_cases hentry : entry.1 = place
        · have hne : (q == entry.1) = false := beq_false_of_ne fun h => hq (h.trans hentry)
          rw [List.filter_cons_of_neg (by simpa using hentry), ih, List.lookup_cons, hne]
        · rw [List.filter_cons_of_pos (by simpa using hentry), List.lookup_cons, List.lookup_cons]
          split
          · rfl
          · simp_all
    intro entry hentry
    have hold := List.mem_of_mem_filter hentry
    rw [hkept _ _ (hempty entry hold)]
    exact tree.parents entry hold

/-! ### Trees that grow by directories -/

/-- No step leads to a file. -/
def Clear (tree : Tree Name Data) : Place Name → List (Step Name) → Prop
  | _, [] => True
  | place, step :: steps =>
    (∀ data, tree.get (enter place step) ≠ some (.file data)) ∧ Clear tree (enter place step) steps

theorem clear_concat {tree : Tree Name Data} {place : Place Name} {steps : List (Step Name)} {step : Step Name} :
    Clear tree place (steps ++ [step]) ↔
      Clear tree place steps ∧ ∀ data, tree.get (enter (locate place steps) step) ≠ some (.file data) := by
  induction steps generalizing place with
  | nil => simp [Clear, locate]
  | cons first steps ih =>
    rw [List.cons_append, Clear, Clear, ih, and_assoc]
    rfl

/-- Whatever lies in a tree lies in another one, which may have more directories, but not the one that a walk
starts from. -/
def Grown (start : Place Name) (tree tree' : Tree Name Data) : Prop :=
  ∀ q, tree'.get q = tree.get q ∨ (tree.get q = none ∧ tree'.get q = some .dir ∧ q ≠ start)

theorem Grown.refl (start : Place Name) (tree : Tree Name Data) : Grown start tree tree := fun _ => Or.inl rfl

theorem Grown.trans {start : Place Name} {t1 t2 t3 : Tree Name Data} (h : Grown start t1 t2)
    (h' : Grown start t2 t3) : Grown start t1 t3 := by
  intro q
  rcases h' q with heq | ⟨hnone, hdir, hne⟩
  · rw [heq]
    exact h q
  · rcases h q with heq | ⟨-, hdir', -⟩
    · exact Or.inr ⟨heq ▸ hnone, hdir, hne⟩
    · exact nomatch hnone.symm.trans hdir'

theorem Grown.dir {start : Place Name} {tree tree' : Tree Name Data} (h : Grown start tree tree')
    {q : Place Name} (hdir : tree.get q = some .dir) : tree'.get q = some .dir := by
  rcases h q with heq | ⟨hnone, -⟩
  · rw [heq, hdir]
  · exact nomatch hnone.symm.trans hdir

theorem Grown.file_iff {start : Place Name} {tree tree' : Tree Name Data} (h : Grown start tree tree')
    {q : Place Name} {data : Data} : tree'.get q = some (.file data) ↔ tree.get q = some (.file data) := by
  rcases h q with heq | ⟨hnone, hdir, -⟩
  · rw [heq]
  · rw [hnone, hdir]
    exact iff_of_false nofun nofun

theorem Grown.start {start : Place Name} {tree tree' : Tree Name Data} (h : Grown start tree tree')
    (hdir : tree'.get start = some .dir) : tree.get start = some .dir := by
  rcases h start with heq | ⟨-, -, hne⟩
  · rw [← heq, hdir]
  · exact absurd rfl hne

/-! ### Calls -/

section Calls

variable [DecidableEq Data]

/-- The directory that steps lead to, through directories. -/
def walk (tree : Tree Name Data) : Place Name → List (Step Name) → Option (Place Name)
  | place, [] => if tree.get place = some .dir then some place else none
  | place, step :: steps => if tree.get place = some .dir then walk tree (enter place step) steps else none

/-- The place that a path names in a directory, if its last step is a name. -/
def target (tree : Tree Name Data) (path : Path Name) : Option (Place Name) :=
  match path.steps.getLast? with
  | some (.into name) => (tree.walk path.start path.steps.dropLast).map fun place => name :: place
  | _ => none

/-- What a path leads to. -/
def stat (tree : Tree Name Data) (path : Path Name) : Option (Node Data) :=
  match path.steps.getLast? with
  | none => if path.closed then tree.get path.start else none
  | some step => do
    let place ← tree.walk path.start path.steps.dropLast
    let node ← tree.get (enter place step)
    if path.closed ∧ node ≠ .dir then none else some node

theorem walk_dir {tree : Tree Name Data} {place q : Place Name} {steps : List (Step Name)}
    (h : tree.walk place steps = some q) : tree.get q = some .dir := by
  induction steps generalizing place with
  | nil =>
    simp only [walk] at h
    split at h
    · rename_i hdir
      obtain rfl := Option.some.inj h
      exact hdir
    · exact nomatch h
  | cons step steps ih =>
    simp only [walk] at h
    split at h
    · exact ih h
    · exact nomatch h

theorem target_parent {tree : Tree Name Data} {path : Path Name} {place : Place Name}
    (h : tree.target path = some place) : tree.get place.tail = some .dir := by
  unfold target at h
  split at h
  · obtain ⟨parent, hwalk, rfl⟩ := Option.map_eq_some_iff.mp h
    exact walk_dir hwalk
  · exact nomatch h

/-- A directory is made where nothing lies. -/
def mkdir (tree : Tree Name Data) (path : Path Name) : Option (Tree Name Data) :=
  match h : tree.target path with
  | none => none
  | some place =>
    if hfree : tree.get place = none then
      some (tree.put place .dir (target_parent h) (by rw [hfree]; exact nofun))
    else none

/-- A file is made or replaced. A path that a separator closes names no file. -/
def write (tree : Tree Name Data) (path : Path Name) (data : Data) : Option (Tree Name Data) :=
  if path.closed then none
  else
    match h : tree.target path with
    | none => none
    | some place =>
      if hfree : tree.get place = some .dir then none
      else some (tree.put place (.file data) (target_parent h) hfree)

/-- A file or an empty directory is removed. -/
def remove (tree : Tree Name Data) (path : Path Name) : Option (Tree Name Data) :=
  match tree.target path with
  | none => none
  | some place =>
    if hempty : ∀ entry ∈ tree.entries, entry.1.tail ≠ place then
      match tree.get place with
      | none => none
      | some .dir => some (tree.erase place hempty)
      | some (.file _) => if path.closed then none else some (tree.erase place hempty)
    else none

/-! ### What the calls do -/

theorem mkdir_eq_some {tree tree' : Tree Name Data} {path : Path Name} (h : tree.mkdir path = some tree') :
    ∃ place, tree.target path = some place ∧ tree.get place = none ∧
      ∀ q, tree'.get q = if q = place then some .dir else tree.get q := by
  unfold mkdir at h
  split at h
  · exact nomatch h
  · rename_i place htarget
    split at h
    · rename_i hfree
      obtain rfl := Option.some.inj h
      exact ⟨place, htarget, hfree, get_put _ _⟩
    · exact nomatch h

theorem mkdir_eq_none {tree : Tree Name Data} {path : Path Name} (h : tree.mkdir path = none)
    {place : Place Name} (htarget : tree.target path = some place) : tree.get place ≠ none := by
  intro hfree
  unfold mkdir at h
  split at h
  · rename_i hnone
    exact nomatch htarget.symm.trans hnone
  · rename_i other hother
    obtain rfl := Option.some.inj (htarget.symm.trans hother)
    rw [dif_pos hfree] at h
    exact nomatch h

theorem write_eq_some {tree tree' : Tree Name Data} {path : Path Name} {data : Data}
    (h : tree.write path data = some tree') :
    path.closed = false ∧ ∃ place, tree.target path = some place ∧ tree.get place ≠ some .dir ∧
      ∀ q, tree'.get q = if q = place then some (.file data) else tree.get q := by
  unfold write at h
  split at h
  · exact nomatch h
  rename_i hopen
  split at h
  · exact nomatch h
  · rename_i place htarget
    split at h
    · exact nomatch h
    · rename_i hfree
      obtain rfl := Option.some.inj h
      exact ⟨by simpa using hopen, place, htarget, hfree, get_put _ _⟩

theorem write_of_target {tree : Tree Name Data} {path : Path Name} (data : Data) (hopen : path.closed = false)
    {place : Place Name} (htarget : tree.target path = some place) (hfree : tree.get place ≠ some .dir) :
    ∃ tree', tree.write path data = some tree' := by
  unfold write
  rw [if_neg (by simp [hopen])]
  split
  · rename_i hnone
    exact nomatch htarget.symm.trans hnone
  · rename_i other hother
    obtain rfl := Option.some.inj (htarget.symm.trans hother)
    exact ⟨_, dif_neg hfree⟩

/-! ### Walks -/

theorem walk_concat {tree : Tree Name Data} {place : Place Name} {steps : List (Step Name)} {step : Step Name} :
    tree.walk place (steps ++ [step]) =
      (tree.walk place steps).bind fun q =>
        if tree.get (enter q step) = some .dir then some (enter q step) else none := by
  induction steps generalizing place with
  | nil =>
    simp only [List.nil_append, walk]
    split <;> rfl
  | cons first steps ih =>
    simp only [List.cons_append, walk, ih]
    split <;> rfl

theorem walk_locate {tree : Tree Name Data} {place q : Place Name} {steps : List (Step Name)}
    (h : tree.walk place steps = some q) : q = locate place steps := by
  induction steps generalizing place with
  | nil =>
    simp only [walk] at h
    split at h
    · exact (Option.some.inj h).symm
    · exact nomatch h
  | cons step steps ih =>
    simp only [walk] at h
    split at h
    · exact ih h
    · exact nomatch h

/-- Without a step up, a directory is reached through directories. -/
theorem walk_down {tree : Tree Name Data} {place : Place Name} {steps : List (Step Name)} (hup : .up ∉ steps)
    (h : tree.get (locate place steps) = some .dir) : tree.walk place steps = some (locate place steps) := by
  induction steps using List.reverseRecOn with
  | nil => exact if_pos h
  | append_singleton steps step ih =>
    have hlocate : locate place (steps ++ [step]) = enter (locate place steps) step := by
      simp only [locate, List.foldl_append, List.foldl_cons, List.foldl_nil]
    rw [hlocate] at h ⊢
    have hparent : tree.get (locate place steps) = some .dir := by
      cases step with
      | here => exact h
      | up => exact absurd (List.mem_append_right steps List.mem_cons_self) hup
      | into name => exact get_tail h
    rw [walk_concat, ih (fun hmem => hup (List.mem_append_left _ hmem)) hparent, Option.bind_some, if_pos h]

theorem walk_start {tree : Tree Name Data} {place q : Place Name} {steps : List (Step Name)}
    (h : tree.walk place steps = some q) : tree.get place = some .dir := by
  cases steps with
  | nil =>
    simp only [walk] at h
    split at h
    · assumption
    · exact nomatch h
  | cons step steps =>
    simp only [walk] at h
    split at h
    · assumption
    · exact nomatch h

/-! ### Making directories -/

/-- A walk goes on where directories stay. -/
theorem walk_mono {tree tree' : Tree Name Data} (h : ∀ q, tree.get q = some .dir → tree'.get q = some .dir)
    {place q : Place Name} {steps : List (Step Name)} (hwalk : tree.walk place steps = some q) :
    tree'.walk place steps = some q := by
  induction steps generalizing place with
  | nil =>
    have hdir := walk_start hwalk
    simp only [walk, hdir, if_true] at hwalk
    simp only [walk, h place hdir, if_true, hwalk]
  | cons step steps ih =>
    have hdir := walk_start hwalk
    simp only [walk, hdir, if_true] at hwalk
    simp only [walk, h place hdir, if_true]
    exact ih hwalk

theorem target_eq_some_iff {tree : Tree Name Data} {path : Path Name} {place : Place Name} :
    tree.target path = some place ↔ ∃ steps name parent, path.steps = steps ++ [.into name] ∧
      tree.walk path.start steps = some parent ∧ place = name :: parent := by
  constructor
  · intro h
    unfold target at h
    split at h
    · rename_i name hlast
      obtain ⟨parent, hwalk, rfl⟩ := Option.map_eq_some_iff.mp h
      exact ⟨_, name, parent, (List.dropLast_append_getLast? _ hlast).symm, hwalk, rfl⟩
    · exact nomatch h
  · rintro ⟨steps, name, parent, hsteps, hwalk, rfl⟩
    simp only [target, hsteps, List.getLast?_concat, List.dropLast_concat, hwalk, Option.map_some]

theorem Grown.target {start : Place Name} {tree tree' : Tree Name Data} (h : Grown start tree tree')
    {path : Path Name} {place : Place Name} (htarget : tree.target path = some place) :
    tree'.target path = some place := by
  obtain ⟨steps, name, parent, hsteps, hwalk, heq⟩ := target_eq_some_iff.mp htarget
  exact target_eq_some_iff.mpr ⟨steps, name, parent, hsteps, walk_mono (fun _ => h.dir) hwalk, heq⟩

/-- Where a walk succeeds after all, no file was in its way. -/
theorem Grown.clear {start : Place Name} {tree tree' : Tree Name Data} (h : Grown start tree tree')
    {place q : Place Name} {steps : List (Step Name)} (hwalk : tree'.walk place steps = some q) :
    Clear tree place steps := by
  induction steps generalizing place with
  | nil => trivial
  | cons step steps ih =>
    have hdir := walk_start hwalk
    simp only [Tree.walk, hdir, if_true] at hwalk
    refine ⟨?_, ih hwalk⟩
    intro data hfile
    exact nomatch (h.file_iff.mpr hfile).symm.trans (walk_start hwalk)

theorem mkdir_grown (tree : Tree Name Data) (path : Path Name) :
    Grown path.start tree ((tree.mkdir path).getD tree) := by
  cases hmkdir : tree.mkdir path with
  | none => exact Grown.refl _ _
  | some tree' =>
    obtain ⟨place, htarget, hfree, hget⟩ := mkdir_eq_some hmkdir
    obtain ⟨_, _, _, -, hwalk, -⟩ := target_eq_some_iff.mp htarget
    intro q
    rw [Option.getD_some, hget]
    by_cases hq : q = place
    · subst hq
      refine Or.inr ⟨hfree, if_pos rfl, ?_⟩
      rintro rfl
      exact nomatch hfree.symm.trans (walk_start hwalk)
    · exact Or.inl (if_neg hq)

/-- A directory is made at the end of a walk, unless a file is there. -/
theorem walk_mkdir {tree : Tree Name Data} {path : Path Name} {steps : List (Step Name)} {step : Step Name}
    (hsteps : path.steps = steps ++ [step]) {q : Place Name} (hwalk : tree.walk path.start steps = some q)
    (hclear : ∀ data, tree.get (enter q step) ≠ some (.file data)) :
    ((tree.mkdir path).getD tree).walk path.start (steps ++ [step]) = some (enter q step) := by
  have hgrown := mkdir_grown tree path
  have hdir : ((tree.mkdir path).getD tree).get (enter q step) = some .dir := by
    cases step with
    | here => exact hgrown.dir (walk_dir hwalk)
    | up => exact hgrown.dir (get_tail (walk_dir hwalk))
    | into name =>
      have htarget := target_eq_some_iff.mpr ⟨steps, name, q, hsteps, hwalk, rfl⟩
      cases hmkdir : tree.mkdir path with
      | none =>
        have hsome := mkdir_eq_none hmkdir htarget
        cases hget : tree.get (name :: q) with
        | none => exact absurd hget hsome
        | some node =>
          cases node with
          | dir => exact hget
          | file data => exact absurd hget (hclear data)
      | some tree' =>
        obtain ⟨place, hother, -, hput⟩ := mkdir_eq_some hmkdir
        obtain rfl := Option.some.inj (htarget.symm.trans hother)
        exact (hput _).trans (if_pos rfl)
  rw [walk_concat, walk_mono (fun _ => hgrown.dir) hwalk, Option.bind_some, if_pos hdir]

/-- After a directory was to be made something lies at the end of the path. -/
theorem mkdir_target {tree : Tree Name Data} {path : Path Name} {place : Place Name}
    (htarget : ((tree.mkdir path).getD tree).target path = some place) :
    ((tree.mkdir path).getD tree).get place ≠ none := by
  have hgrown := mkdir_grown tree path
  cases hmkdir : tree.mkdir path with
  | none =>
    rw [hmkdir] at htarget
    exact mkdir_eq_none hmkdir htarget
  | some tree' =>
    obtain ⟨other, hother, -, hput⟩ := mkdir_eq_some hmkdir
    obtain rfl := Option.some.inj ((hgrown.target hother).symm.trans htarget)
    rw [Option.getD_some, hput, if_pos rfl]
    exact nofun

theorem stat_file {tree : Tree Name Data} {path : Path Name} {steps : List (Step Name)} {name : Name}
    (hsteps : path.steps = steps ++ [.into name]) (hopen : path.closed = false) {parent : Place Name}
    (hwalk : tree.walk path.start steps = some parent) : tree.stat path = tree.get (name :: parent) := by
  simp only [stat, hsteps, List.getLast?_concat, List.dropLast_concat, hwalk, hopen, Bool.false_eq_true, false_and,
    if_false, Option.bind_eq_bind, Option.bind_some, enter, Option.bind_fun_some]

end Calls

end Tree

end FileTree
