import Redp2p.Lib.Transition

/-! Programs that are made of atomic statements over a shared state. A program runs alone, or in a pool
whose threads take their statements in any order. -/

/-- A program over statements `S`, each with a result of its own type. -/
inductive Program (S : Type) (R : S → Type) (α : Type) : Type
  | done (result : α)
  | act (statement : S) (next : R statement → Program S R α)

namespace Program

variable {S : Type} {R : S → Type} {σ α β : Type}

def bind : Program S R α → (α → Program S R β) → Program S R β
  | done result, f => f result
  | act statement next, f => act statement fun r => (next r).bind f

instance : Monad (Program S R) where
  pure := done
  bind := bind

/-- The program of one statement. -/
def perform (statement : S) : Program S R (R statement) := act statement done

@[simp] theorem pure_eq (a : α) : (pure a : Program S R α) = done a := rfl

@[simp] theorem done_bind (a : α) (f : α → Program S R β) : (done a : Program S R α) >>= f = f a := rfl

@[simp] theorem act_bind (statement : S) (next : R statement → Program S R α) (f : α → Program S R β) :
    act statement next >>= f = act statement fun r => next r >>= f := rfl

@[simp] theorem perform_bind (statement : S) (f : R statement → Program S R β) :
    perform statement >>= f = act statement f := rfl

/-- The statement that comes next. -/
def statement : Program S R α → Option S
  | done _ => none
  | act statement _ => some statement

/-- The result of a program that has come to its end. -/
def result : Program S R α → Option α
  | done result => some result
  | act _ _ => none

/-- Every statement that a program can come to is good, and so is every result. -/
def Uses (good : S → Prop) (post : α → Prop) : Program S R α → Prop
  | done result => post result
  | act statement next => good statement ∧ ∀ r, (next r).Uses good post

variable {good : S → Prop}

@[simp] theorem uses_done {post : α → Prop} (a : α) :
    (done a : Program S R α).Uses good post ↔ post a := Iff.rfl

@[simp] theorem uses_act {post : α → Prop} (statement : S) (next : R statement → Program S R α) :
    (act statement next).Uses good post ↔ good statement ∧ ∀ r, (next r).Uses good post := Iff.rfl

theorem Uses.imp {good' : S → Prop} {post post' : α → Prop} {p : Program S R α} (h : p.Uses good post)
    (hgood : ∀ statement, good statement → good' statement) (hpost : ∀ a, post a → post' a) :
    p.Uses good' post' := by
  induction p with
  | done a => exact hpost a h
  | act statement next ih => exact ⟨hgood statement h.1, fun r => ih r (h.2 r)⟩

theorem Uses.bind {middle : α → Prop} {post : β → Prop} {p : Program S R α} {f : α → Program S R β}
    (hp : p.Uses good middle) (hf : ∀ a, middle a → (f a).Uses good post) :
    (p >>= f).Uses good post := by
  induction p with
  | done a => exact hf a hp
  | act statement next ih => exact ⟨hp.1, fun r => ih r (hp.2 r)⟩

/-! ### A program among others -/

section Guarded

variable (exec : (s : S) → σ → σ × R s) (rely : σ → σ → Prop) (pre : S → σ → Prop)

/-- Every statement meets a state in which it may be taken, whatever others do to the state within what
is relied on. -/
def Guarded : Program S R α → σ → Prop
  | done _, _ => True
  | act statement next, s => ∀ s', rely s s' →
      pre statement s' ∧ (next (exec statement s').2).Guarded (exec statement s').1

variable {exec rely pre}

theorem Guarded.mono (htrans : ∀ a b c, rely a b → rely b c → rely a c) {p : Program S R α} {s s' : σ}
    (h : p.Guarded exec rely pre s) (hrely : rely s s') : p.Guarded exec rely pre s' := by
  cases p with
  | done a => trivial
  | act statement next => exact fun t ht => h t (htrans _ _ _ hrely ht)

/-- A program guards its statements when they may be taken in every state. -/
theorem Uses.guarded {p : Program S R α} (h : p.Uses (fun statement => ∀ s, pre statement s) fun _ => True)
    (s : σ) : p.Guarded exec rely pre s := by
  induction p generalizing s with
  | done a => trivial
  | act statement next ih => exact fun s' _ => ⟨h.1 s', ih _ (h.2 _) _⟩

end Guarded

/-! ### A program alone -/

section Alone

variable (exec : (s : S) → σ → σ × R s)

/-- The state and the result after all statements. -/
def runAlone : Program S R α → σ → σ × α
  | done result, s => (s, result)
  | act statement next, s => (next (exec statement s).2).runAlone (exec statement s).1

@[simp] theorem runAlone_done (a : α) (s : σ) : (done a : Program S R α).runAlone exec s = (s, a) := rfl

@[simp] theorem runAlone_act (statement : S) (next : R statement → Program S R α) (s : σ) :
    (act statement next).runAlone exec s =
      (next (exec statement s).2).runAlone exec (exec statement s).1 := rfl

@[simp] theorem runAlone_bind (p : Program S R α) (f : α → Program S R β) (s : σ) :
    (p >>= f).runAlone exec s = (f (p.runAlone exec s).2).runAlone exec (p.runAlone exec s).1 := by
  induction p generalizing s with
  | done a => rfl
  | act statement next ih => exact ih _ _

@[simp] theorem runAlone_perform (statement : S) (s : σ) :
    (perform statement : Program S R _).runAlone exec s = exec statement s := rfl

end Alone

end Program

/-! ### A pool of threads -/

/-- A state and the threads that work on it, each with the rest of its program. -/
structure Pool (S : Type) (R : S → Type) (σ α : Type) where
  state : σ
  threads : List (Program S R α)

/-- What happens to a pool: a thread is started, a thread takes its next statement, or the state changes
from outside. -/
inductive PoolEvent (S : Type) (R : S → Type) (ε α : Type)
  | start (program : Program S R α)
  | advance (thread : Nat)
  | outside (event : ε)

namespace Pool

variable {S : Type} {R : S → Type} {σ ε α : Type} {exec : (s : S) → σ → σ × R s}
  {change : ε → σ → σ}

variable (exec) in
/-- A thread takes its next statement. -/
def advance (pool : Pool S R σ α) (thread : Nat) : Pool S R σ α :=
  match pool.threads[thread]? with
  | some (.act statement next) =>
    ⟨(exec statement pool.state).1, pool.threads.set thread (next (exec statement pool.state).2)⟩
  | _ => pool

variable (exec change) in
def step (pool : Pool S R σ α) : PoolEvent S R ε α → Pool S R σ α × List Empty
  | .start program => (⟨pool.state, pool.threads ++ [program]⟩, [])
  | .advance thread => (pool.advance exec thread, [])
  | .outside event => (⟨change event pool.state, pool.threads⟩, [])

/-- What a thread needs to know: a fact about the state, a fact about each program and the state, and a
fact about each two programs. -/
structure Sound (shared : σ → Prop) (own : Program S R α → σ → Prop)
    (apart : Program S R α → Program S R α → Prop) (pool : Pool S R σ α) : Prop where
  shared : shared pool.state
  own : ∀ (i : Nat) (p : Program S R α), pool.threads[i]? = some p → own p pool.state
  apart : ∀ (i j : Nat) (p q : Program S R α), i ≠ j → pool.threads[i]? = some p →
    pool.threads[j]? = some q → apart p q

variable {shared : σ → Prop} {own : Program S R α → σ → Prop}
  {apart : Program S R α → Program S R α → Prop} {pool : Pool S R σ α}

theorem Sound.empty {s : σ} (h : shared s) : Sound shared own apart (⟨s, []⟩ : Pool S R σ α) where
  shared := h
  own := by simp
  apart := by simp

/-- A thread that starts knows its own facts, and so do the others of it. -/
theorem Sound.start (h : pool.Sound shared own apart) {program : Program S R α}
    (hown : own program pool.state)
    (hapart : ∀ q, own q pool.state → apart program q ∧ apart q program) :
    (⟨pool.state, pool.threads ++ [program]⟩ : Pool S R σ α).Sound shared own apart := by
  have hget : ∀ {i : Nat} {p : Program S R α}, (pool.threads ++ [program])[i]? = some p →
      pool.threads[i]? = some p ∨ i = pool.threads.length ∧ p = program := by
    intro i p hp
    by_cases hi : i < pool.threads.length
    · rw [List.getElem?_append_left hi] at hp
      exact Or.inl hp
    · have hlt := (List.getElem?_eq_some_iff.mp hp).1
      rw [List.length_append, List.length_singleton] at hlt
      obtain rfl : i = pool.threads.length := by omega
      exact Or.inr ⟨rfl, by simpa using hp.symm⟩
  refine ⟨h.shared, ?_, ?_⟩
  · intro i p hp
    rcases hget hp with hold | ⟨-, rfl⟩
    · exact h.own i p hold
    · exact hown
  · intro i j p q hij hp hq
    rcases hget hp with holdp | ⟨rfl, rfl⟩
    · rcases hget hq with holdq | ⟨-, rfl⟩
      · exact h.apart i j p q hij holdp holdq
      · exact (hapart p (h.own i p holdp)).2
    · rcases hget hq with holdq | ⟨rfl, -⟩
      · exact (hapart q (h.own j q holdq)).1
      · exact absurd rfl hij

/-- A statement keeps the facts when it keeps those of its own thread and disturbs no other one. -/
theorem Sound.advance (h : pool.Sound shared own apart) {thread : Nat} {statement : S}
    {next : R statement → Program S R α} (hthread : pool.threads[thread]? = some (.act statement next))
    (hshared : shared (exec statement pool.state).1)
    (hown : own (next (exec statement pool.state).2) (exec statement pool.state).1)
    (hothers : ∀ (j : Nat) (q : Program S R α), j ≠ thread → pool.threads[j]? = some q →
      own q (exec statement pool.state).1 ∧ apart (next (exec statement pool.state).2) q ∧
        apart q (next (exec statement pool.state).2)) :
    (pool.advance exec thread).Sound shared own apart := by
  have hget : ∀ {i : Nat} {p : Program S R α},
      (pool.threads.set thread (next (exec statement pool.state).2))[i]? = some p →
      i = thread ∧ p = next (exec statement pool.state).2 ∨ i ≠ thread ∧ pool.threads[i]? = some p := by
    intro i p hp
    by_cases hi : thread = i
    · rw [hi, List.getElem?_set_self (hi ▸ (List.getElem?_eq_some_iff.mp hthread).1)] at hp
      exact Or.inl ⟨hi.symm, (Option.some.inj hp).symm⟩
    · rw [List.getElem?_set_ne hi] at hp
      exact Or.inr ⟨Ne.symm hi, hp⟩
  unfold Pool.advance
  rw [hthread]
  refine ⟨hshared, ?_, ?_⟩
  · intro i p hp
    rcases hget hp with ⟨-, rfl⟩ | ⟨hne, hold⟩
    · exact hown
    · exact (hothers i p hne hold).1
  · intro i j p q hij hp hq
    rcases hget hp with ⟨rfl, rfl⟩ | ⟨hi, holdp⟩
    · rcases hget hq with ⟨rfl, -⟩ | ⟨hj, holdq⟩
      · exact absurd rfl hij
      · exact (hothers j q hj holdq).2.1
    · rcases hget hq with ⟨rfl, rfl⟩ | ⟨hj, holdq⟩
      · exact (hothers i p hi holdp).2.2
      · exact h.apart i j p q hij holdp holdq

/-- A change from outside keeps the facts when it keeps each. -/
theorem Sound.outside (h : pool.Sound shared own apart) {s : σ} (hshared : shared s)
    (hown : ∀ p, own p pool.state → own p s) :
    (⟨s, pool.threads⟩ : Pool S R σ α).Sound shared own apart :=
  ⟨hshared, fun i p hp => hown p (h.own i p hp), h.apart⟩

end Pool
