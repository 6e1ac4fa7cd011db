import Mathlib.Algebra.Ring.Nat

/-! Waiting for the first of several things to become due, up to a limit. -/

namespace Deadline

/-- A wait that ends when something is due, or at the limit: nothing is due before its end, and something
is due at its end unless it lasts to the limit. -/
structure Exact (limit : Nat) (due : Nat → Prop) (wait : Nat) : Prop where
  capped : wait ≤ limit
  asleep : ∀ delay < wait, ¬ due delay
  woken : wait < limit → due wait

variable {limit wait wait' : Nat} {due due' : Nat → Prop}

theorem Exact.never (limit : Nat) : Exact limit (fun _ => False) limit :=
  ⟨Nat.le_refl _, fun _ _ h => h, fun h => absurd h (Nat.lt_irrefl _)⟩

theorem Exact.now (h : due 0) : Exact limit due 0 :=
  ⟨Nat.zero_le _, fun _ hdelay => absurd hdelay (Nat.not_lt_zero _), fun _ => h⟩

theorem Exact.congr (h : Exact limit due wait) (hsame : ∀ delay ≤ limit, due delay ↔ due' delay) :
    Exact limit due' wait where
  capped := h.capped
  asleep delay hdelay hdue := by
    have hcapped := h.capped
    exact h.asleep delay hdelay ((hsame delay (by omega)).mpr hdue)
  woken hwait := (hsame wait h.capped).mp (h.woken hwait)

/-- What becomes due at one moment, and stays due up to the limit. -/
theorem Exact.moment (hmoment : ∀ delay ≤ limit, due delay ↔ wait ≤ delay) :
    Exact limit due (min wait limit) where
  capped := Nat.min_le_right _ _
  asleep delay hdelay hdue := by
    have hlater := (hmoment delay (by omega)).mp hdue
    omega
  woken hwait := (hmoment _ (Nat.min_le_right _ _)).mpr (by omega)

/-- The earlier of two waits is the wait for either. -/
theorem Exact.or (h : Exact limit due wait) (h' : Exact limit due' wait') :
    Exact limit (fun delay => due delay ∨ due' delay) (min wait wait') where
  capped := by
    have hcapped := h.capped
    omega
  asleep delay hdelay hdue := by
    rcases hdue with hdue | hdue
    · exact h.asleep delay (by omega) hdue
    · exact h'.asleep delay (by omega) hdue
  woken hwait := by
    rcases Nat.le_total wait wait' with hle | hle
    · rw [Nat.min_eq_left hle] at hwait ⊢
      exact .inl (h.woken hwait)
    · rw [Nat.min_eq_right hle] at hwait ⊢
      exact .inr (h'.woken hwait)

end Deadline
