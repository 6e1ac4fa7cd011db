import Mathlib.Data.List.TakeWhile

/-! Words between separators: the maximal runs of elements that are no separators. -/

namespace Runs

variable {α : Type} (sep : α → Bool)

/-- The runs of a text, the first of which goes on a run that has begun. -/
def runsFrom (run : List α) : List α → List (List α)
  | [] => if run.isEmpty then [] else [run]
  | a :: text =>
    if sep a then (if run.isEmpty then [] else [run]) ++ runsFrom [] text else runsFrom (run ++ [a]) text

def runs (text : List α) : List (List α) := runsFrom sep [] text

variable {sep}

theorem runs_sep {a : α} (h : sep a = true) (text : List α) : runs sep (a :: text) = runs sep text := by
  simp [runs, runsFrom, h]

theorem runsFrom_append {word : List α} (h : ∀ a ∈ word, sep a = false) (run rest : List α) :
    runsFrom sep run (word ++ rest) = runsFrom sep (run ++ word) rest := by
  induction word generalizing run with
  | nil => rw [List.nil_append, List.append_nil]
  | cons a word ih =>
    obtain ⟨ha, hword⟩ := List.forall_mem_cons.mp h
    rw [List.cons_append, runsFrom, if_neg (by simp [ha]), ih hword, List.append_assoc, List.singleton_append]

/-- A word ends at the end of the text or at a separator. -/
theorem runs_word {word rest : List α} (h : ∀ a ∈ word, sep a = false) (hne : word ≠ [])
    (hrest : ∀ a ∈ rest.head?, sep a = true) : runs sep (word ++ rest) = word :: runs sep rest := by
  rw [runs, runsFrom_append h, List.nil_append]
  cases rest with
  | nil => simp [runsFrom, runs, hne]
  | cons a rest =>
    have ha : sep a = true := hrest a rfl
    rw [runs_sep ha, runsFrom, if_pos ha, if_neg (by simpa using hne), List.singleton_append]
    rfl

/-- Separators before a text do not matter. -/
theorem runs_dropWhile {p : α → Bool} {text : List α} (h : ∀ a ∈ text, p a = true → sep a = true) :
    runs sep (text.dropWhile p) = runs sep text := by
  induction text with
  | nil => rfl
  | cons a text ih =>
    obtain ⟨ha, htext⟩ := List.forall_mem_cons.mp h
    by_cases hp : p a = true
    · rw [List.dropWhile_cons_of_pos hp, ih htext, runs_sep (ha hp)]
    · rw [List.dropWhile_cons_of_neg hp]

/-- Separators behind a text do not matter. -/
theorem runsFrom_append_sep {tail : List α} (h : ∀ a ∈ tail, sep a = true) (run text : List α) :
    runsFrom sep run (text ++ tail) = runsFrom sep run text := by
  induction text generalizing run with
  | nil =>
    cases tail with
    | nil => rfl
    | cons a tail =>
      obtain ⟨ha, htail⟩ := List.forall_mem_cons.mp h
      have hnone : runsFrom sep [] tail = [] := by
        have hdrop : runs sep (tail.dropWhile sep) = runs sep tail := runs_dropWhile fun _ _ => id
        rw [List.dropWhile_eq_nil_iff.mpr htail] at hdrop
        exact hdrop.symm
      simp only [List.nil_append, runsFrom, ha, if_true, hnone, List.append_nil]
  | cons a text ih =>
    rw [List.cons_append, runsFrom, runsFrom, ih, ih]

/-- A text without the elements at both its ends that satisfy `p`. -/
def strip (p : α → Bool) (text : List α) : List α := ((text.dropWhile p).reverse.dropWhile p).reverse

theorem strip_split (p : α → Bool) (text : List α) :
    text.dropWhile p = strip p text ++ ((text.dropWhile p).reverse.takeWhile p).reverse := by
  have hsplit := List.takeWhile_append_dropWhile (p := p) (l := (text.dropWhile p).reverse)
  have hreverse := congrArg List.reverse hsplit
  rw [List.reverse_append, List.reverse_reverse] at hreverse
  exact hreverse.symm

theorem runs_strip {p : α → Bool} {text : List α} (h : ∀ a ∈ text, p a = true → sep a = true) :
    runs sep (strip p text) = runs sep text := by
  rw [← runs_dropWhile h, strip_split p text]
  refine (runsFrom_append_sep (fun a ha => ?_) [] (strip p text)).symm
  have hmem := List.mem_reverse.mp ha
  refine h a ?_ (List.mem_takeWhile_imp hmem)
  exact (List.dropWhile_sublist p).subset (List.mem_reverse.mp ((List.takeWhile_sublist p).subset hmem))

/-- A text that does not begin with a separator begins with its first word. -/
theorem runs_takeWhile {text : List α} (hne : text ≠ []) (hhead : ∀ a ∈ text.head?, sep a = false) :
    runs sep text = text.takeWhile (fun a => !sep a) :: runs sep (text.dropWhile fun a => !sep a) := by
  have hsplit := List.takeWhile_append_dropWhile (p := fun a => !sep a) (l := text)
  refine (congrArg (runs sep) hsplit).symm.trans (runs_word ?_ ?_ ?_)
  · intro a ha
    simpa using List.mem_takeWhile_imp ha
  · cases text with
    | nil => exact absurd rfl hne
    | cons a text =>
      have ha : sep a = false := hhead a rfl
      simp [ha]
  · intro a ha
    have hnot := List.head?_dropWhile_not (p := fun a => !sep a) text
    rw [Option.mem_def.mp ha] at hnot
    simpa using hnot

theorem mem_runsFrom {word : List α} {run text : List α} (hrun : ∀ a ∈ run, sep a = false)
    (h : word ∈ runsFrom sep run text) : word ≠ [] ∧ ∀ a ∈ word, sep a = false := by
  have hended : word ∈ (if run.isEmpty then [] else [run]) → word ≠ [] ∧ ∀ a ∈ word, sep a = false := by
    intro hmem
    split at hmem
    · exact absurd hmem List.not_mem_nil
    · next hne =>
      obtain rfl := List.mem_singleton.mp hmem
      exact ⟨by simpa using hne, hrun⟩
  induction text generalizing run with
  | nil => exact hended h
  | cons a text ih =>
    unfold runsFrom at h
    split at h
    · rcases List.mem_append.mp h with hmem | hmem
      · exact hended hmem
      · refine ih (fun _ hnil => absurd hnil List.not_mem_nil) hmem fun hnil => ?_
        exact absurd hnil List.not_mem_nil
    · next ha =>
      have hrun' : ∀ b ∈ run ++ [a], sep b = false := by
        intro b hb
        rcases List.mem_append.mp hb with hb | hb
        · exact hrun b hb
        · obtain rfl := List.mem_singleton.mp hb
          simpa using ha
      refine ih hrun' h fun hmem => ?_
      split at hmem
      · exact absurd hmem List.not_mem_nil
      · next hne =>
        obtain rfl := List.mem_singleton.mp hmem
        exact ⟨by simp, hrun'⟩

theorem runsFrom_length (run text : List α) :
    (runsFrom sep run text).length ≤ text.length + if run.isEmpty then 0 else 1 := by
  induction text generalizing run with
  | nil =>
    unfold runsFrom
    split <;> simp
  | cons a text ih =>
    unfold runsFrom
    have hrest := ih []
    have hgoes := ih (run ++ [a])
    simp only [List.isEmpty_nil, if_true, List.length_cons] at hrest ⊢
    split
    · rw [List.length_append]
      split
      · rw [List.length_nil]
        omega
      · rw [List.length_singleton]
        omega
    · rw [if_neg (by simp)] at hgoes
      omega

theorem runs_length (text : List α) : (runs sep text).length ≤ text.length := by
  exact runsFrom_length [] text

end Runs
