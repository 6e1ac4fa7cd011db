import Mathlib.Data.List.Basic
import Mathlib.Data.List.Nodup

/-! Tables as arrays of rows with a key: what a search, a change of the row found, its removal and
a filter do to the row of each key when no two rows share one. -/

namespace Keyed

variable {α κ : Type} [DecidableEq κ] {key : α → κ}

/-- The position of the first row with key `k`. -/
def indexOf (key : α → κ) (k : κ) (l : List α) : Option Nat := l.findIdx? fun a => key a = k

/-- The first row with key `k`. -/
def lookup (key : α → κ) (k : κ) (l : List α) : Option α := l.find? fun a => key a = k

/-- No two rows share a key. -/
def Unique (key : α → κ) (l : List α) : Prop := (l.map key).Nodup

@[simp] theorem lookup_nil (k : κ) : lookup key k [] = none := rfl

theorem lookup_cons (k : κ) (a : α) (l : List α) :
    lookup key k (a :: l) = if key a = k then some a else lookup key k l := by
  by_cases h : key a = k <;> simp [lookup, h]

theorem lookup_some {k : κ} {a : α} {l : List α} (h : lookup key k l = some a) :
    a ∈ l ∧ key a = k :=
  ⟨List.mem_of_find?_eq_some h, by simpa using List.find?_some h⟩

theorem lookup_eq_none_iff {k : κ} {l : List α} : lookup key k l = none ↔ ∀ a ∈ l, key a ≠ k := by
  simp [lookup]

theorem lookup_eq_some_iff {k : κ} {a : α} {l : List α} (hl : Unique key l) :
    lookup key k l = some a ↔ a ∈ l ∧ key a = k := by
  refine ⟨lookup_some, ?_⟩
  rintro ⟨ha, hk⟩
  induction l with
  | nil => simp at ha
  | cons b l ih =>
    obtain ⟨hb, hl⟩ := List.nodup_cons.mp hl
    rw [lookup_cons]
    rcases List.mem_cons.mp ha with rfl | ha
    · rw [if_pos hk]
    · have hne : key b ≠ k := by
        rintro rfl
        exact hb (List.mem_map.mpr ⟨a, ha, hk⟩)
      rw [if_neg hne]
      exact ih hl ha

/-! ### Positions -/

theorem indexOf_eq_none_iff {k : κ} {l : List α} :
    indexOf key k l = none ↔ lookup key k l = none := by
  simp [indexOf, lookup]

theorem indexOf_cons (k : κ) (a : α) (l : List α) :
    indexOf key k (a :: l) = if key a = k then some 0 else (indexOf key k l).map (· + 1) := by
  by_cases h : key a = k <;> simp [indexOf, List.findIdx?_cons, h]

theorem getElem?_indexOf {k : κ} {i : Nat} {l : List α} (h : indexOf key k l = some i) :
    l[i]? = lookup key k l := by
  induction l generalizing i with
  | nil => simp [indexOf] at h
  | cons a l ih =>
    rw [indexOf_cons] at h
    rw [lookup_cons]
    by_cases hk : key a = k
    · rw [if_pos hk] at h
      obtain rfl := Option.some.inj h
      simp [hk]
    · rw [if_neg hk, Option.map_eq_some_iff] at h
      obtain ⟨j, hj, rfl⟩ := h
      simp [hk, ih hj]

/-- A change of the row found changes the row of that key only. -/
theorem modify_indexOf {k : κ} {i : Nat} {l : List α} {f : α → α} (hl : Unique key l)
    (h : indexOf key k l = some i) :
    l.modify i f = l.map fun a => if key a = k then f a else a := by
  induction l generalizing i with
  | nil => simp [indexOf] at h
  | cons a l ih =>
    obtain ⟨ha, hl⟩ := List.nodup_cons.mp hl
    rw [indexOf_cons] at h
    by_cases hk : key a = k
    · rw [if_pos hk] at h
      obtain rfl := Option.some.inj h
      have hrest : ∀ b ∈ l, (if key b = k then f b else b) = b := by
        intro b hb
        rw [if_neg]
        rintro rfl
        exact ha (List.mem_map.mpr ⟨b, hb, hk.symm⟩)
      simp [hk, List.map_congr_left hrest]
    · rw [if_neg hk, Option.map_eq_some_iff] at h
      obtain ⟨j, hj, rfl⟩ := h
      simp [hk, ih hl hj]

/-- Removing the row found removes the row of that key only. -/
theorem eraseIdx_indexOf {k : κ} {i : Nat} {l : List α} (hl : Unique key l)
    (h : indexOf key k l = some i) : l.eraseIdx i = l.filter fun a => key a ≠ k := by
  induction l generalizing i with
  | nil => simp [indexOf] at h
  | cons a l ih =>
    obtain ⟨ha, hl⟩ := List.nodup_cons.mp hl
    rw [indexOf_cons] at h
    by_cases hk : key a = k
    · rw [if_pos hk] at h
      obtain rfl := Option.some.inj h
      have hrest : ∀ b ∈ l, decide (key b ≠ k) = true := by
        intro b hb
        rw [decide_eq_true_eq]
        rintro rfl
        exact ha (List.mem_map.mpr ⟨b, hb, hk.symm⟩)
      rw [List.filter_cons_of_neg (by simp [hk]), List.filter_eq_self.mpr hrest]
      rfl
    · rw [if_neg hk, Option.map_eq_some_iff] at h
      obtain ⟨j, hj, rfl⟩ := h
      simp [hk, ih hl hj]

/-! ### Rows by key -/

omit [DecidableEq κ] in
theorem unique_map {l : List α} {f : α → α} (hf : ∀ a, key (f a) = key a) (hl : Unique key l) :
    Unique key (l.map f) := by
  have heq : (l.map f).map key = l.map key := by simp [Function.comp_def, hf]
  rw [Unique, heq]
  exact hl

omit [DecidableEq κ] in
theorem unique_filter {l : List α} (p : α → Bool) (hl : Unique key l) : Unique key (l.filter p) :=
  (List.filter_sublist.map key).nodup hl

theorem unique_concat {a : α} {l : List α} (hl : Unique key l)
    (ha : lookup key (key a) l = none) : Unique key (l ++ [a]) := by
  rw [Unique, List.map_append, List.nodup_append]
  refine ⟨hl, by simp, fun b hb c hc => ?_⟩
  obtain ⟨d, hd, rfl⟩ := List.mem_map.mp hb
  obtain rfl : c = key a := by simpa using hc
  exact lookup_eq_none_iff.mp ha d hd

theorem lookup_map {k : κ} {l : List α} {f : α → α} (hf : ∀ a, key (f a) = key a) :
    lookup key k (l.map f) = (lookup key k l).map f := by
  induction l with
  | nil => rfl
  | cons a l ih =>
    rw [List.map_cons, lookup_cons, lookup_cons, hf, ih]
    split <;> rfl

theorem lookup_filter {k : κ} {l : List α} (p : α → Bool) (hl : Unique key l) :
    lookup key k (l.filter p) = (lookup key k l).filter p := by
  induction l with
  | nil => rfl
  | cons a l ih =>
    obtain ⟨ha, hl⟩ := List.nodup_cons.mp hl
    by_cases hk : key a = k
    · subst hk
      have habsent : lookup key (key a) (l.filter p) = none := by
        refine lookup_eq_none_iff.mpr fun b hb heq => ha ?_
        exact List.mem_map.mpr ⟨b, (List.mem_filter.mp hb).1, heq⟩
      cases hp : p a <;> simp [hp, lookup_cons, habsent, Option.filter]
    · cases hp : p a <;> simp [hp, lookup_cons, hk, ih hl]

theorem lookup_concat {k : κ} {a : α} {l : List α} :
    lookup key k (l ++ [a]) = (lookup key k l).or (if key a = k then some a else none) := by
  rw [lookup, List.find?_append]
  by_cases h : key a = k <;> simp [lookup, h]

/-- A row in another state, with the key it had. -/
theorem lookup_set {k : κ} {i : Nat} {a b : α} {l : List α} (hl : Unique key l) (ha : l[i]? = some a)
    (hkey : key b = key a) :
    lookup key k (l.set i b) = if key a = k then some b else lookup key k l := by
  induction l generalizing i with
  | nil => simp at ha
  | cons c l ih =>
    obtain ⟨hc, hl⟩ := List.nodup_cons.mp hl
    cases i with
    | zero =>
      obtain rfl : c = a := by simpa using ha
      rw [List.set_cons_zero, lookup_cons, lookup_cons, hkey]
      split <;> rfl
    | succ i =>
      rw [List.getElem?_cons_succ] at ha
      have hne : key c ≠ key a := fun heq =>
        hc (List.mem_map.mpr ⟨a, List.mem_of_getElem? ha, heq.symm⟩)
      rw [List.set_cons_succ, lookup_cons, lookup_cons, ih hl ha]
      by_cases hk : key c = k
      · rw [if_pos hk, if_pos hk, if_neg fun heq => hne (hk.trans heq.symm)]
      · rw [if_neg hk, if_neg hk]

omit [DecidableEq κ] in
theorem map_set {i : Nat} {a b : α} {l : List α} (ha : l[i]? = some a) (hkey : key b = key a) :
    (l.set i b).map key = l.map key := by
  apply List.ext_getElem?
  intro j
  rw [List.map_set, List.getElem?_set]
  split
  · rename_i hij
    subst hij
    obtain ⟨hbound, helem⟩ := List.getElem?_eq_some_iff.mp ha
    simp [hbound, helem, hkey]
  · rfl

omit [DecidableEq κ] in
theorem unique_set {i : Nat} {a b : α} {l : List α} (hl : Unique key l) (ha : l[i]? = some a)
    (hkey : key b = key a) : Unique key (l.set i b) := by
  rw [Unique, map_set ha hkey]
  exact hl

end Keyed
