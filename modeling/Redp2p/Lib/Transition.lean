import Mathlib.Algebra.BigOperators.Group.List.Basic
import Mathlib.Data.List.Basic
import Mathlib.Tactic.Abel

/-! Runs of a deterministic system that answers each event with a list of outputs: what one step
preserves, a whole run preserves. -/

namespace Transition

variable {σ τ ε ο : Type}

/-- The state after the events, and the outputs in order. -/
def run (step : σ → ε → σ × List ο) : σ → List ε → σ × List ο
  | s, [] => (s, [])
  | s, e :: es => ((run step (step s e).1 es).1, (step s e).2 ++ (run step (step s e).1 es).2)

@[simp] theorem run_nil (step : σ → ε → σ × List ο) (s : σ) : run step s [] = (s, []) := rfl

@[simp] theorem run_cons (step : σ → ε → σ × List ο) (s : σ) (e : ε) (es : List ε) :
    run step s (e :: es) =
      ((run step (step s e).1 es).1, (step s e).2 ++ (run step (step s e).1 es).2) := rfl

theorem run_append (step : σ → ε → σ × List ο) (s : σ) (es fs : List ε) :
    run step s (es ++ fs) =
      ((run step (run step s es).1 fs).1,
        (run step s es).2 ++ (run step (run step s es).1 fs).2) := by
  induction es generalizing s with
  | nil => rfl
  | cons e es ih => simp [ih, List.append_assoc]

/-- An invariant that every step keeps holds after every run. -/
theorem run_invariant {step : σ → ε → σ × List ο} (inv : σ → Prop)
    (hstep : ∀ s e, inv s → inv (step s e).1) {s : σ} (hs : inv s) (es : List ε) :
    inv (run step s es).1 := by
  induction es generalizing s with
  | nil => exact hs
  | cons e es ih => exact ih (hstep s e hs)

/-- What a state contains was there at the start or was brought by an event, if no step adds more than
its event brings. -/
theorem run_origin {α : Type} {step : σ → ε → σ × List ο} (contains : σ → α → Prop) (brings : ε → α → Prop)
    (hstep : ∀ s e a, contains (step s e).1 a → contains s a ∨ brings e a) {s : σ} {es : List ε} {a : α}
    (h : contains (run step s es).1 a) : contains s a ∨ ∃ e ∈ es, brings e a := by
  induction es generalizing s with
  | nil => exact Or.inl h
  | cons e es ih =>
    rcases ih h with hnext | ⟨e', he', hbrings⟩
    · rcases hstep s e a hnext with hbefore | hbrings
      · exact Or.inl hbefore
      · exact Or.inr ⟨e, by simp, hbrings⟩
    · exact Or.inr ⟨e', by simp [he'], hbrings⟩

/-- The state that each event of a run meets admits it. -/
def Along (step : σ → ε → σ × List ο) (ok : σ → ε → Prop) : σ → List ε → Prop
  | _, [] => True
  | s, e :: es => ok s e ∧ Along step ok (step s e).1 es

theorem along_append {step : σ → ε → σ × List ο} {ok : σ → ε → Prop} {s : σ} {es fs : List ε} :
    Along step ok s (es ++ fs) ↔ Along step ok s es ∧ Along step ok (run step s es).1 fs := by
  induction es generalizing s with
  | nil => simp [Along]
  | cons e es ih => simp [Along, ih, and_assoc]

/-- An invariant that admitted steps keep holds after every run of admitted events. -/
theorem run_along {step : σ → ε → σ × List ο} (inv : σ → Prop) {ok : σ → ε → Prop}
    (hstep : ∀ s e, inv s → ok s e → inv (step s e).1) {s : σ} (hs : inv s) {es : List ε}
    (hok : Along step ok s es) : inv (run step s es).1 := by
  induction es generalizing s with
  | nil => exact hs
  | cons e es ih => exact ih (hstep s e hs hok.1) hok.2

/-- An invariant that depends on what was met so far. After a run of admitted events it holds for what some
state before the last event met. -/
theorem run_met {step : σ → ε → σ × List ο} (inv : Prop → σ → Prop) (met : σ → Prop) {ok : σ → ε → Prop}
    (hmono : ∀ p q s, (p → q) → inv p s → inv q s)
    (hstep : ∀ p s e, inv p s → ok s e → inv (p ∨ met s) (step s e).1) {p : Prop} {s : σ} (hs : inv p s)
    {es : List ε} (hok : Along step ok s es) :
    inv (p ∨ ∃ fs e gs, es = fs ++ e :: gs ∧ met (run step s fs).1) (run step s es).1 := by
  induction es generalizing p s with
  | nil => exact hmono _ _ _ Or.inl hs
  | cons e es ih =>
    refine hmono _ _ _ ?_ (ih (hstep p s e hs hok.1) hok.2)
    rintro ((hp | hmet) | ⟨fs, e', gs, rfl, hmet⟩)
    · exact Or.inl hp
    · exact Or.inr ⟨[], e, es, rfl, hmet⟩
    · exact Or.inr ⟨e :: fs, e', gs, rfl, hmet⟩

/-- What admitted steps put out in a state with the invariant, a run of admitted events puts out. -/
theorem outputs_along {step : σ → ε → σ × List ο} {inv : σ → Prop} {ok : σ → ε → Prop} {good : ο → Prop}
    (hstep : ∀ s e, inv s → ok s e → inv (step s e).1 ∧ ∀ o ∈ (step s e).2, good o) {s : σ} (hs : inv s)
    {es : List ε} (hok : Along step ok s es) : ∀ o ∈ (run step s es).2, good o := by
  induction es generalizing s with
  | nil => simp
  | cons e es ih =>
    obtain ⟨hinv, hgood⟩ := hstep s e hs hok.1
    intro o ho
    rcases List.mem_append.mp ho with ho | ho
    · exact hgood o ho
    · exact ih hinv hok.2 o ho

/-- If every step balances what it gains and loses against the level of the state, so does every
run. -/
theorem run_balance {M : Type} [AddCommMonoid M] {step : σ → ε → σ × List ο} (level : σ → M)
    {gain loss : ο → M}
    (hstep : ∀ s e, ((step s e).2.map gain).sum + level s =
      level (step s e).1 + ((step s e).2.map loss).sum) (s : σ) (es : List ε) :
    ((run step s es).2.map gain).sum + level s =
      level (run step s es).1 + ((run step s es).2.map loss).sum := by
  induction es generalizing s with
  | nil => simp
  | cons e es ih =>
    have hrest := ih (step s e).1
    simp only [run_cons, List.map_append, List.sum_append]
    calc ((step s e).2.map gain).sum + ((run step (step s e).1 es).2.map gain).sum + level s
        _ = ((step s e).2.map gain).sum + level s + ((run step (step s e).1 es).2.map gain).sum := by
          abel
        _ = ((run step (step s e).1 es).2.map gain).sum + level (step s e).1 +
            ((step s e).2.map loss).sum := by rw [hstep]; abel
        _ = level (run step (step s e).1 es).1 +
            (((step s e).2.map loss).sum + ((run step (step s e).1 es).2.map loss).sum) := by
          rw [hrest]; abel

/-! ### Runs under a clock -/

variable {T : Type} [LE T]

/-- The readings of the events that read the clock never decrease and start at `t` or later. -/
def Timed (clock : ε → Option T) : T → List ε → Prop
  | _, [] => True
  | t, e :: es => t ≤ (clock e).getD t ∧ Timed clock ((clock e).getD t) es

theorem timed_of_pairwise [Std.IsPreorder T] {clock : ε → Option T} {t : T} {es : List ε}
    (hfirst : ∀ c ∈ es.filterMap clock, t ≤ c) (hes : (es.filterMap clock).Pairwise (· ≤ ·)) :
    Timed clock t es := by
  induction es generalizing t with
  | nil => trivial
  | cons e es ih =>
    cases hc : clock e with
    | none =>
      rw [List.filterMap_cons_none hc] at hfirst hes
      simpa [Timed, hc, Std.le_refl] using ih hfirst hes
    | some c =>
      rw [List.filterMap_cons_some hc] at hfirst hes
      obtain ⟨hlater, hes⟩ := List.pairwise_cons.mp hes
      exact ⟨by simpa [hc] using hfirst c (by simp), by simpa [hc] using ih hlater hes⟩

/-- An invariant that may speak of the last reading, kept by every step that reads no earlier one,
holds after every run; and what every such step puts out, the run puts out. -/
theorem run_timed {step : σ → ε → σ × List ο} {clock : ε → Option T} {inv : T → σ → Prop}
    {good : ο → Prop}
    (hstep : ∀ t s e, inv t s → t ≤ (clock e).getD t →
      inv ((clock e).getD t) (step s e).1 ∧ ∀ o ∈ (step s e).2, good o)
    {t : T} {s : σ} (hs : inv t s) {es : List ε} (hes : Timed clock t es) :
    (∃ last, inv last (run step s es).1) ∧ ∀ o ∈ (run step s es).2, good o := by
  induction es generalizing t s with
  | nil => exact ⟨⟨t, hs⟩, by simp⟩
  | cons e es ih =>
    obtain ⟨hlater, hrest⟩ := hes
    obtain ⟨hinv, hgood⟩ := hstep t s e hs hlater
    obtain ⟨hlast, hall⟩ := ih hinv hrest
    refine ⟨hlast, fun o ho => ?_⟩
    rcases List.mem_append.mp ho with ho | ho
    · exact hgood o ho
    · exact hall o ho

/-- Two conditions that agree in every state with the invariant agree along the run. -/
theorem along_congr_timed {step : σ → ε → σ × List ο} {clock : ε → Option T} {inv : T → σ → Prop}
    {ok ok' : σ → ε → Prop}
    (hstep : ∀ t s e, inv t s → t ≤ (clock e).getD t → inv ((clock e).getD t) (step s e).1)
    (hok : ∀ t s e, inv t s → t ≤ (clock e).getD t → (ok s e ↔ ok' s e)) {t : T} {s : σ} (hs : inv t s)
    {es : List ε} (hes : Timed clock t es) : Along step ok s es ↔ Along step ok' s es := by
  induction es generalizing t s with
  | nil => exact Iff.rfl
  | cons e es ih => exact and_congr (hok t s e hs hes.1) (ih (hstep t s e hs hes.1) hes.2)

/-- Hidden events put nothing out and may be left away: a relation that they keep on one side, and
that all other events keep on both sides with the same outputs, makes the outputs of a run those of
the run without them. -/
theorem run_hidden {step : σ → ε → σ × List ο} {clock : ε → Option T} {visible : ε → Bool}
    {sim : T → σ → σ → Prop}
    (hhidden : ∀ t a b e, sim t a b → t ≤ (clock e).getD t → visible e = false →
      sim ((clock e).getD t) (step a e).1 b ∧ (step a e).2 = [])
    (hvisible : ∀ t a b e, sim t a b → t ≤ (clock e).getD t → visible e = true →
      sim ((clock e).getD t) (step a e).1 (step b e).1 ∧ (step a e).2 = (step b e).2)
    {t : T} {a b : σ} (hab : sim t a b) {es : List ε} (hes : Timed clock t es) :
    (run step a es).2 = (run step b (es.filter visible)).2 := by
  induction es generalizing t a b with
  | nil => rfl
  | cons e es ih =>
    obtain ⟨hlater, hrest⟩ := hes
    cases hv : visible e with
    | false =>
      obtain ⟨hsim, hout⟩ := hhidden t a b e hab hlater hv
      rw [List.filter_cons_of_neg (by simp [hv]), run_cons, hout, List.nil_append]
      exact ih hsim hrest
    | true =>
      obtain ⟨hsim, hout⟩ := hvisible t a b e hab hlater hv
      rw [List.filter_cons_of_pos hv, run_cons, run_cons, hout, ih hsim hrest]

end Transition
