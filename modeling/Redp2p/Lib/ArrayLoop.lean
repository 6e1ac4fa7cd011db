import Mathlib.Data.List.Induction
import Mathlib.Data.List.Perm.Basic
import Mathlib.Data.List.Basic
import Mathlib.Data.List.Lemmas
import Mathlib.Data.List.ReduceOption

/-! Loops that remove entries from an array while they walk it: one walks backward and closes each
hole by moving the tail down, one walks forward and fills each hole with the last entry. -/

namespace ArrayLoop

open scoped List

variable {α : Type}

/-! ### Backward, keeping the order -/

/-- The first `i` entries of `l`, last first: each one that satisfies `p` is removed and the entries
after it move down. -/
def compactBackward (p : α → Bool) : Nat → List α → List α
  | 0, l => l
  | i + 1, l => compactBackward p i (if (l[i]?).any p then l.eraseIdx i else l)

theorem compactBackward_append (p : α → Bool) (front back : List α) :
    compactBackward p front.length (front ++ back) = front.filter (fun a => !p a) ++ back := by
  induction front using List.reverseRecOn generalizing back with
  | nil => rfl
  | append_singleton front a ih =>
    have hget : (front ++ [a] ++ back)[front.length]? = some a := by simp
    rw [List.length_append, List.length_singleton, compactBackward, hget]
    cases hp : p a with
    | true =>
      have herase : (front ++ [a] ++ back).eraseIdx front.length = front ++ back := by
        rw [List.append_assoc, List.eraseIdx_append_of_length_le (Nat.le_refl _)]
        simp
      simp only [Option.any_some, hp, if_true]
      rw [herase, ih]
      simp [hp]
    | false =>
      have hkeep : front ++ [a] ++ back = front ++ (a :: back) := by simp
      simp only [Option.any_some, hp, Bool.false_eq_true, if_false]
      rw [hkeep, ih]
      simp [hp]

/-- A backward walk over the whole array keeps, in order, the entries that do not satisfy `p`. -/
theorem compactBackward_length (p : α → Bool) (l : List α) :
    compactBackward p l.length l = l.filter fun a => !p a := by
  simpa using compactBackward_append p l []

/-! ### Forward, filling with the last entry -/

/-- `l` without entry `i`, whose place the last entry takes. -/
def swapRemove (l : List α) (i : Nat) : List α :=
  match l.getLast? with
  | none => l
  | some last => if i < l.length then (l.set i last).dropLast else l

theorem swapRemove_concat_lt {front : List α} {last : α} {i : Nat} (h : i < front.length) :
    swapRemove (front ++ [last]) i = front.set i last := by
  have hi : i < (front ++ [last]).length := by simp; omega
  simp [swapRemove, h]
  omega

theorem swapRemove_concat_last (front : List α) (last : α) :
    swapRemove (front ++ [last]) front.length = front := by
  simp [swapRemove]

theorem swapRemove_perm {l : List α} {i : Nat} (h : i < l.length) :
    (l[i] :: swapRemove l i).Perm l := by
  obtain ⟨front, last, rfl⟩ : ∃ front last, l = front ++ [last] := by
    rcases List.eq_nil_or_concat l with rfl | ⟨front, last, rfl⟩
    · simp at h
    · exact ⟨front, last, List.concat_eq_append⟩
  by_cases hi : i < front.length
  · rw [swapRemove_concat_lt hi, List.getElem_append_left hi]
    calc front[i] :: front.set i last
        _ ~ front[i] :: last :: front.eraseIdx i := (List.set_perm_cons_eraseIdx hi last).cons _
        _ ~ last :: front[i] :: front.eraseIdx i := List.Perm.swap _ _ _
        _ ~ last :: front := (List.getElem_cons_eraseIdx_perm hi).cons _
        _ ~ front ++ [last] := (List.perm_append_singleton last front).symm
  · have hlast : i = front.length := by simp at h; omega
    subst hlast
    rw [swapRemove_concat_last]
    simpa using (List.perm_append_singleton last front).symm

theorem swapRemove_length {l : List α} {i : Nat} (h : i < l.length) :
    (swapRemove l i).length + 1 = l.length := by
  simpa using (swapRemove_perm h).length_eq

/-- Entries before the hole stay where they are. -/
theorem swapRemove_take {l : List α} {i : Nat} (h : i < l.length) :
    (swapRemove l i).take i = l.take i := by
  obtain ⟨front, last, rfl⟩ : ∃ front last, l = front ++ [last] := by
    rcases List.eq_nil_or_concat l with rfl | ⟨front, last, rfl⟩
    · simp at h
    · exact ⟨front, last, List.concat_eq_append⟩
  by_cases hi : i < front.length
  · rw [swapRemove_concat_lt hi, List.take_set_of_le (Nat.le_refl _),
      List.take_append_of_le_length (by omega)]
  · have hlast : i = front.length := by simp at h; omega
    subst hlast
    rw [swapRemove_concat_last]
    simp

/-- From entry `i` on, each entry that satisfies `p` is taken out by `swapRemove`, and the entry
that fills its place is looked at next. The result is what was taken out, in order, and what is
left. Every turn either moves past an entry or shortens the array, so `l.length - i` turns reach the
end. -/
def swapOut (p : α → Bool) : Nat → Nat → List α → List α × List α
  | 0, _, l => ([], l)
  | turns + 1, i, l =>
    match l[i]? with
    | none => ([], l)
    | some a =>
      if p a then
        let rest := swapOut p turns i (swapRemove l i)
        (a :: rest.1, rest.2)
      else swapOut p turns (i + 1) l

theorem swapOut_perm (p : α → Bool) (turns i : Nat) (l : List α) :
    ((swapOut p turns i l).1 ++ (swapOut p turns i l).2).Perm l := by
  induction turns generalizing i l with
  | zero => exact List.Perm.refl l
  | succ turns ih =>
    unfold swapOut
    cases hget : l[i]? with
    | none => exact List.Perm.refl l
    | some a =>
      obtain ⟨hi, rfl⟩ := List.getElem?_eq_some_iff.mp hget
      dsimp only
      split
      · exact ((ih i (swapRemove l i)).cons l[i]).trans (swapRemove_perm hi)
      · exact ih (i + 1) l

theorem swapOut_removed (p : α → Bool) (turns i : Nat) (l : List α) :
    ∀ a ∈ (swapOut p turns i l).1, p a = true := by
  induction turns generalizing i l with
  | zero => simp [swapOut]
  | succ turns ih =>
    unfold swapOut
    cases hget : l[i]? with
    | none => simp
    | some a =>
      dsimp only
      split
      · rename_i hp
        intro b hb
        rcases List.mem_cons.mp hb with rfl | hb
        · exact hp
        · exact ih _ _ b hb
      · exact ih _ _

/-- With `l.length - i` turns nothing from entry `i` on still satisfies `p`. The invariant is that
the entries before `i` do not. -/
theorem swapOut_kept (p : α → Bool) {turns i : Nat} {l : List α} (hturns : l.length ≤ i + turns)
    (hbefore : ∀ a ∈ l.take i, p a = false) : ∀ a ∈ (swapOut p turns i l).2, p a = false := by
  induction turns generalizing i l with
  | zero =>
    rw [List.take_of_length_le (by omega)] at hbefore
    exact hbefore
  | succ turns ih =>
    unfold swapOut
    cases hget : l[i]? with
    | none =>
      rw [List.take_of_length_le (List.getElem?_eq_none_iff.mp hget)] at hbefore
      exact hbefore
    | some a =>
      obtain ⟨hi, rfl⟩ := List.getElem?_eq_some_iff.mp hget
      dsimp only
      split
      · have hlen := swapRemove_length hi
        exact ih (by omega) (by rw [swapRemove_take hi]; exact hbefore)
      · rename_i hp
        refine ih (by omega) ?_
        rw [List.take_succ_eq_append_getElem hi]
        intro b hb
        rcases List.mem_append.mp hb with hb | hb
        · exact hbefore b hb
        · obtain rfl := List.mem_singleton.mp hb
          simpa using hp

/-- A whole forward walk takes out exactly the entries that satisfy `p`. -/
theorem swapOut_spec (p : α → Bool) (l : List α) :
    (swapOut p l.length 0 l).1.Perm (l.filter p) ∧
      (swapOut p l.length 0 l).2.Perm (l.filter fun a => !p a) := by
  have hperm := swapOut_perm p l.length 0 l
  have hout := swapOut_removed p l.length 0 l
  have hin := swapOut_kept p (show l.length ≤ 0 + l.length by omega) (l := l) (by simp)
  constructor
  · have h := hperm.filter p
    rwa [List.filter_append, List.filter_eq_self.mpr hout,
      List.filter_eq_nil_iff.mpr fun a ha => by simp [hin a ha], List.append_nil] at h
  · have h := hperm.filter fun a => !p a
    rwa [List.filter_append, List.filter_eq_nil_iff.mpr fun a ha => by simp [hout a ha],
      List.nil_append, List.filter_eq_self.mpr fun a ha => by simp [hin a ha]] at h

/-! ### Backward, filling with the last entry -/

/-- The first `i` entries of `l`, last first, with a state: `f` keeps or changes an entry in its place,
or it has it taken out by `swapRemove`. -/
def sweepBackward {σ : Type} (f : σ → α → σ × Option α) : Nat → σ → List α → σ × List α
  | 0, s, l => (s, l)
  | i + 1, s, l =>
    match l[i]? with
    | none => sweepBackward f i s l
    | some a =>
      match f s a with
      | (s, none) => sweepBackward f i s (swapRemove l i)
      | (s, some a) => sweepBackward f i s (l.set i a)

/-- The last entry only moves to where the walk has already been. -/
theorem swapRemove_append (front : List α) (a : α) (back : List α) :
    ∃ back', swapRemove (front ++ a :: back) front.length = front ++ back' ∧ back'.Perm back := by
  rcases List.eq_nil_or_concat back with rfl | ⟨middle, last, rfl⟩
  · exact ⟨[], by rw [swapRemove_concat_last, List.append_nil], List.Perm.refl _⟩
  · refine ⟨last :: middle, ?_, ?_⟩
    · have hsplit : front ++ a :: middle.concat last = (front ++ a :: middle) ++ [last] := by simp
      rw [hsplit, swapRemove_concat_lt (by simp)]
      simp
    · rw [List.concat_eq_append]
      exact (List.perm_append_singleton last middle).symm

/-- When the state does not decide what is kept, a backward walk keeps what `g` makes of each entry. -/
theorem sweepBackward_append {σ : Type} {f : σ → α → σ × Option α} {g : α → Option α}
    (hf : ∀ s a, (f s a).2 = g a) (s : σ) (front back : List α) :
    (sweepBackward f front.length s (front ++ back)).2.Perm (front.filterMap g ++ back) := by
  induction front using List.reverseRecOn generalizing s back with
  | nil => exact List.Perm.refl _
  | append_singleton front a ih =>
    have hget : (front ++ [a] ++ back)[front.length]? = some a := by simp
    have hstep := hf s a
    rw [List.length_append, List.length_singleton, sweepBackward, hget, List.filterMap_append]
    dsimp only
    cases hresult : f s a with
    | mk s' kept =>
      rw [hresult] at hstep
      cases kept with
      | none =>
        obtain ⟨back', hback, hperm⟩ := swapRemove_append front a back
        have hnone : [a].filterMap g = [] := by simp [← hstep]
        dsimp only
        rw [List.append_assoc, List.singleton_append, hback, hnone, List.append_nil]
        exact (ih s' back').trans (hperm.append_left _)
      | some a' =>
        have hset : (front ++ [a] ++ back).set front.length a' = front ++ (a' :: back) := by simp
        have hsome : [a].filterMap g = [a'] := by simp [← hstep]
        dsimp only
        rw [hset, hsome, List.append_assoc]
        exact ih s' (a' :: back)

theorem sweepBackward_length {σ : Type} {f : σ → α → σ × Option α} {g : α → Option α}
    (hf : ∀ s a, (f s a).2 = g a) (s : σ) (l : List α) :
    (sweepBackward f l.length s l).2.Perm (l.filterMap g) := by
  simpa using sweepBackward_append hf s l []

theorem mapAccumr_concat {σ β : Type} (f : α → σ → σ × β) (l : List α) (a : α) (s : σ) :
    (l ++ [a]).mapAccumr f s =
      ((l.mapAccumr f (f a s).1).1, (l.mapAccumr f (f a s).1).2 ++ [(f a s).2]) := by
  induction l with
  | nil => rfl
  | cons b l ih => simp only [List.cons_append, List.mapAccumr, ih]

theorem sweepBackward_mapAccumr_append {σ : Type} (f : σ → α → σ × Option α) (s : σ) (front back : List α) :
    (sweepBackward f front.length s (front ++ back)).1 = (front.mapAccumr (fun a s => f s a) s).1 ∧
      (sweepBackward f front.length s (front ++ back)).2.Perm
        ((front.mapAccumr (fun a s => f s a) s).2.reduceOption ++ back) := by
  induction front using List.reverseRecOn generalizing s back with
  | nil => exact ⟨rfl, List.Perm.refl _⟩
  | append_singleton front a ih =>
    have hget : (front ++ [a] ++ back)[front.length]? = some a := by simp
    rw [List.length_append, List.length_singleton, sweepBackward, hget, mapAccumr_concat,
      List.reduceOption_append]
    dsimp only
    cases hresult : f s a with
    | mk s' kept =>
      cases kept with
      | none =>
        obtain ⟨back', hback, hperm⟩ := swapRemove_append front a back
        dsimp only
        rw [List.append_assoc, List.singleton_append, hback, List.reduceOption_singleton, Option.toList_none,
          List.append_nil]
        exact ⟨(ih s' back').1, (ih s' back').2.trans (hperm.append_left _)⟩
      | some a' =>
        have hset : (front ++ [a] ++ back).set front.length a' = front ++ (a' :: back) := by simp
        dsimp only
        rw [hset, List.reduceOption_singleton, Option.toList_some, List.append_assoc]
        exact ih s' (a' :: back)

/-- A backward walk looks once at each entry that the array had at its start, from the last one to the first,
and what it keeps is left in some order. -/
theorem sweepBackward_mapAccumr {σ : Type} (f : σ → α → σ × Option α) (s : σ) (l : List α) :
    (sweepBackward f l.length s l).1 = (l.mapAccumr (fun a s => f s a) s).1 ∧
      (sweepBackward f l.length s l).2.Perm (l.mapAccumr (fun a s => f s a) s).2.reduceOption := by
  simpa using sweepBackward_mapAccumr_append f s l []

/-- A walk whose state says less than that of another does the same. -/
theorem sweepBackward_hom {σ τ : Type} {f : σ → α → σ × Option α} {g : τ → α → τ × Option α} {π : τ → σ}
    (h : ∀ t a, f (π t) a = (π (g t a).1, (g t a).2)) (n : Nat) (t : τ) (l : List α) :
    sweepBackward f n (π t) l = (π (sweepBackward g n t l).1, (sweepBackward g n t l).2) := by
  induction n generalizing t l with
  | zero => rfl
  | succ n ih =>
    unfold sweepBackward
    cases l[n]? with
    | none => exact ih t l
    | some a =>
      dsimp only
      rw [h]
      cases hresult : g t a with
      | mk t' kept => cases kept <;> exact ih t' _

end ArrayLoop
