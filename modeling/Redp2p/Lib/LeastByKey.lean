import Mathlib.Data.List.Induction
import Mathlib.Data.List.Sort
import Mathlib.Order.Defs.LinearOrder

/-! Lists in normal form: in strict order, with the least element of every key and no other. An array
reaches it in place, by one scan that keeps the better of two elements with the same key and by an
insertion sort. -/

namespace LeastByKey

open scoped List

variable {α κ : Type} [LinearOrder α] (key : α → κ)

/-! ### The normal form -/

/-- The elements of `input` that are least for their key, in strict order. -/
structure NormalForm (input result : List α) : Prop where
  sorted : result.Pairwise (· < ·)
  least : ∀ a ∈ result, a ∈ input ∧ ∀ b ∈ input, key b = key a → a ≤ b
  covers : ∀ b ∈ input, ∃ a ∈ result, key a = key b

variable {key} {input other result result' : List α}

theorem NormalForm.mem_iff (h : NormalForm key input result) {a : α} :
    a ∈ result ↔ a ∈ input ∧ ∀ b ∈ input, key b = key a → a ≤ b := by
  constructor
  · exact h.least a
  · rintro ⟨hmem, hle⟩
    obtain ⟨b, hb, hkey⟩ := h.covers a hmem
    obtain ⟨hbmem, hble⟩ := h.least b hb
    have heq : a = b := le_antisymm (hle b hbmem hkey) (hble a hmem hkey.symm)
    rwa [heq]

theorem NormalForm.unique (h : NormalForm key input result) (h' : NormalForm key input result') :
    result = result' :=
  h.sorted.eq_of_mem_iff h'.sorted fun _ => h.mem_iff.trans h'.mem_iff.symm

theorem NormalForm.congr (h : NormalForm key input result) (hsame : ∀ a, a ∈ input ↔ a ∈ other) :
    NormalForm key other result where
  sorted := h.sorted
  least := fun a ha => ⟨(hsame a).mp (h.least a ha).1, fun b hb => (h.least a ha).2 b ((hsame b).mpr hb)⟩
  covers := fun b hb => h.covers b ((hsame b).mpr hb)

/-- Two elements of a normal form have different keys. -/
theorem NormalForm.key_inj (h : NormalForm key input result) {a b : α} (ha : a ∈ result) (hb : b ∈ result)
    (hkey : key a = key b) : a = b :=
  le_antisymm ((h.least a ha).2 b (h.least b hb).1 hkey.symm) ((h.least b hb).2 a (h.least a ha).1 hkey)

theorem NormalForm.self (h : NormalForm key input result) : NormalForm key result result where
  sorted := h.sorted
  least := fun _ ha => ⟨ha, fun _ hb hkey => le_of_eq (h.key_inj ha hb hkey.symm)⟩
  covers := fun b hb => ⟨b, hb, rfl⟩

/-! ### Keeping the better of two -/

/-- `kept` has one element for every key of `seen`, the least. -/
structure KeepsLeast (key : α → κ) (seen kept : List α) : Prop where
  nodup : (kept.map key).Nodup
  least : ∀ a ∈ kept, a ∈ seen ∧ ∀ b ∈ seen, key b = key a → a ≤ b
  covers : ∀ b ∈ seen, ∃ a ∈ kept, key a = key b

theorem keepsLeast_nil : KeepsLeast key [] [] := ⟨List.nodup_nil, nofun, nofun⟩

/-- In strict order, the kept elements are the normal form. -/
theorem KeepsLeast.normalForm {seen kept : List α} (h : KeepsLeast key seen kept) (hperm : result ~ kept)
    (hsorted : result.Pairwise (· ≤ ·)) : NormalForm key seen result where
  sorted := by
    have hnodup : result.Nodup := hperm.nodup_iff.mpr (List.Nodup.of_map key h.nodup)
    exact (hsorted.and hnodup).imp fun hle => lt_of_le_of_ne hle.1 hle.2
  least := fun a ha => h.least a (hperm.mem_iff.mp ha)
  covers := fun b hb => by
    obtain ⟨a, ha, hkey⟩ := h.covers b hb
    exact ⟨a, hperm.mem_iff.mpr ha, hkey⟩

/-- A key that is new. -/
theorem KeepsLeast.append {seen kept : List α} (h : KeepsLeast key seen kept) {item : α}
    (hnew : ∀ a ∈ kept, key a ≠ key item) : KeepsLeast key (seen ++ [item]) (kept ++ [item]) := by
  have hfresh : ∀ b ∈ seen, key b ≠ key item := by
    intro b hb
    obtain ⟨a, ha, hkey⟩ := h.covers b hb
    exact hkey ▸ hnew a ha
  constructor
  · rw [List.map_append, List.nodup_append]
    exact ⟨h.nodup, by simp, by simpa using hnew⟩
  · intro a ha
    rcases List.mem_append.mp ha with hold | ha
    · refine ⟨List.mem_append_left _ (h.least a hold).1, fun b hb hkey => ?_⟩
      rcases List.mem_append.mp hb with hb | hb
      · exact (h.least a hold).2 b hb hkey
      · obtain rfl := List.mem_singleton.mp hb
        exact absurd hkey.symm (hnew a hold)
    · obtain rfl := List.mem_singleton.mp ha
      refine ⟨by simp, fun b hb hkey => ?_⟩
      rcases List.mem_append.mp hb with hb | hb
      · exact absurd hkey (hfresh b hb)
      · exact le_of_eq (List.mem_singleton.mp hb).symm
  · intro b hb
    rcases List.mem_append.mp hb with hb | hb
    · obtain ⟨a, ha, hkey⟩ := h.covers b hb
      exact ⟨a, List.mem_append_left _ ha, hkey⟩
    · obtain rfl := List.mem_singleton.mp hb
      exact ⟨b, by simp, rfl⟩

/-- A key that is there already, with an element that is no worse. -/
theorem KeepsLeast.keep {seen kept : List α} (h : KeepsLeast key seen kept) {item old : α} (hold : old ∈ kept)
    (hkey : key old = key item) (hle : old ≤ item) : KeepsLeast key (seen ++ [item]) kept where
  nodup := h.nodup
  least := fun a ha => by
    refine ⟨List.mem_append_left _ (h.least a ha).1, fun b hb hb' => ?_⟩
    rcases List.mem_append.mp hb with hb | hb
    · exact (h.least a ha).2 b hb hb'
    · obtain rfl := List.mem_singleton.mp hb
      have hsame : a = old := List.inj_on_of_nodup_map h.nodup ha hold (hb'.symm.trans hkey.symm)
      rwa [hsame]
  covers := fun b hb => by
    rcases List.mem_append.mp hb with hb | hb
    · exact h.covers b hb
    · obtain rfl := List.mem_singleton.mp hb
      exact ⟨old, hold, hkey⟩

/-- A key that is there already, with an element that is worse. -/
theorem KeepsLeast.replace {seen front back : List α} {item old : α}
    (h : KeepsLeast key seen (front ++ old :: back)) (hkey : key old = key item) (hlt : item < old) :
    KeepsLeast key (seen ++ [item]) (front ++ item :: back) := by
  have hkeys : (front ++ item :: back).map key = (front ++ old :: back).map key := by simp [hkey]
  have hold : old ∈ front ++ old :: back := by simp
  have hnodup : ((front ++ item :: back).map key).Nodup := hkeys ▸ h.nodup
  have hitem : item ∈ front ++ item :: back := by simp
  constructor
  · exact hnodup
  · intro a ha
    by_cases hsame : key a = key item
    · obtain rfl : a = item := List.inj_on_of_nodup_map hnodup ha hitem hsame
      refine ⟨by simp, fun b hb hb' => ?_⟩
      rcases List.mem_append.mp hb with hb | hb
      · exact hlt.le.trans ((h.least old hold).2 b hb (hb'.trans hkey.symm))
      · exact le_of_eq (List.mem_singleton.mp hb).symm
    · have hmem : a ∈ front ++ old :: back := by
        simp only [List.mem_append, List.mem_cons] at ha ⊢
        rcases ha with ha | rfl | ha
        · exact Or.inl ha
        · exact absurd rfl hsame
        · exact Or.inr (Or.inr ha)
      refine ⟨List.mem_append_left _ (h.least a hmem).1, fun b hb hb' => ?_⟩
      rcases List.mem_append.mp hb with hb | hb
      · exact (h.least a hmem).2 b hb hb'
      · obtain rfl := List.mem_singleton.mp hb
        exact absurd hb'.symm hsame
  · intro b hb
    have hmem : key b ∈ (front ++ item :: back).map key := by
      rcases List.mem_append.mp hb with hb | hb
      · obtain ⟨a, ha, hb'⟩ := h.covers b hb
        exact hkeys ▸ List.mem_map.mpr ⟨a, ha, hb'⟩
      · obtain rfl := List.mem_singleton.mp hb
        exact List.mem_map.mpr ⟨b, hitem, rfl⟩
    exact List.mem_map.mp hmem

/-! ### The scan -/

/-- One turn of the scan: the first `n` cells are kept, and `item` replaces the first of them that is the
same, if it comes before it, or follows them. -/
def place (same before : α → α → Bool) (cells : List α) (n : Nat) (item : α) : List α × Nat :=
  match (cells.take n).findIdx? fun old => same old item with
  | none => (cells.set n item, n + 1)
  | some j => if (cells[j]?).any (before item) then (cells.set j item, n) else (cells, n)

/-- The cells are those kept, those that the scan has passed and those it has yet to read. -/
theorem place_keeps {same before : α → α → Bool} {seen kept passed : List α} (unread : List α) {item : α}
    (hsame : ∀ a ∈ kept, same a item = true ↔ key a = key item)
    (hbefore : ∀ a ∈ kept, before item a = true ↔ item < a) (hpassed : passed ≠ [])
    (h : KeepsLeast key seen kept) :
    ∃ kept' passed', place same before (kept ++ passed ++ unread) kept.length item =
        (kept' ++ passed' ++ unread, kept'.length) ∧
      kept'.length + passed'.length = kept.length + passed.length ∧
      KeepsLeast key (seen ++ [item]) kept' := by
  have htake : (kept ++ passed ++ unread).take kept.length = kept := by
    rw [List.append_assoc, List.take_left]
  unfold place
  rw [htake]
  cases hfind : kept.findIdx? fun old => same old item with
  | none =>
    obtain ⟨first, passed', rfl⟩ := List.exists_cons_of_ne_nil hpassed
    refine ⟨kept ++ [item], passed', ?_, by simp; omega, h.append fun a ha hkey => ?_⟩
    · simp
    · exact absurd ((hsame a ha).mpr hkey) (by simpa using List.findIdx?_eq_none_iff.mp hfind a ha)
  | some j =>
    obtain ⟨hj, hjsame, -⟩ := List.findIdx?_eq_some_iff_getElem.mp hfind
    obtain ⟨front, old, back, rfl, rfl⟩ : ∃ front old back, kept = front ++ old :: back ∧ front.length = j :=
      ⟨kept.take j, kept[j], kept.drop (j + 1), by simp, by simp; omega⟩
    have hold : old ∈ front ++ old :: back := by simp
    have hkey : key old = key item := (hsame old hold).mp (by simpa using hjsame)
    have hget : (front ++ old :: back ++ passed ++ unread)[front.length]? = some old := by simp
    dsimp only
    rw [hget, Option.any_some]
    by_cases hlt : item < old
    · rw [if_pos ((hbefore old hold).mpr hlt)]
      exact ⟨front ++ item :: back, passed, by simp, by simp, h.replace hkey hlt⟩
    · rw [if_neg fun hcon => hlt ((hbefore old hold).mp hcon)]
      exact ⟨front ++ old :: back, passed, rfl, rfl, h.keep hold hkey (not_lt.mp hlt)⟩

/-! ### The sort -/

section Turns

variable {α : Type} (before : α → α → Bool)

/-- The cells that `item` comes before move up, from the hole at an index on. -/
def shift (item : α) : List α → Nat → List α
  | cells, 0 => cells.set 0 item
  | cells, j + 1 =>
    match cells[j]? with
    | none => cells
    | some cell => if before item cell then shift item (cells.set (j + 1) cell) j else cells.set (j + 1) item

/-- The cells after the first turns, each of which inserts the next cell among those before it. -/
def sortTurns (cells : List α) : Nat → List α
  | 0 => cells
  | k + 1 =>
    match (sortTurns cells k)[k + 1]? with
    | none => sortTurns cells k
    | some item => shift before item (sortTurns cells k) (k + 1)

def insertionSort (cells : List α) : List α := sortTurns before cells (cells.length - 1)

theorem shift_append (item hole : α) (front back : List α) :
    ∃ low high, front = low ++ high ∧
      shift before item (front ++ hole :: back) front.length = low ++ item :: (high ++ back) ∧
      (∀ a ∈ high, before item a = true) ∧ ∀ a ∈ low.getLast?, before item a = false := by
  induction front using List.reverseRecOn generalizing hole back with
  | nil => exact ⟨[], [], rfl, rfl, nofun, nofun⟩
  | append_singleton front cell ih =>
    have hget : (front ++ [cell] ++ hole :: back)[front.length]? = some cell := by simp
    rw [List.length_append, List.length_singleton, shift, hget]
    dsimp only
    cases hcell : before item cell with
    | false =>
      refine ⟨front ++ [cell], [], by simp, ?_, nofun, ?_⟩
      · simp
      · simpa using hcell
    | true =>
      have hset : (front ++ [cell] ++ hole :: back).set (front.length + 1) cell =
          front ++ cell :: (cell :: back) := by simp
      obtain ⟨low, high, rfl, hshift, hhigh, hlow⟩ := ih cell (cell :: back)
      refine ⟨low, high ++ [cell], by simp, ?_, ?_, hlow⟩
      · rw [if_pos rfl, hset, hshift]
        simp
      · intro a ha
        rcases List.mem_append.mp ha with ha | ha
        · exact hhigh a ha
        · obtain rfl := List.mem_singleton.mp ha
          exact hcell

end Turns

section Order

variable {before : α → α → Bool}

theorem shift_sorted {item : α} {front : List α} (hole : α) (back : List α)
    (hbefore : ∀ a ∈ front, before item a = true ↔ item < a) (hsorted : front.Pairwise (· ≤ ·)) :
    ∃ sorted, shift before item (front ++ hole :: back) front.length = sorted ++ back ∧
      sorted ~ front ++ [item] ∧ sorted.Pairwise (· ≤ ·) := by
  obtain ⟨low, high, rfl, hshift, hhigh, hlow⟩ := shift_append before item hole front back
  obtain ⟨hlows, hhighs, hacross⟩ := List.pairwise_append.mp hsorted
  have hitem : ∀ a ∈ high, item ≤ a := fun a ha =>
    ((hbefore a (List.mem_append_right _ ha)).mp (hhigh a ha)).le
  have hbelow : ∀ a ∈ low, a ≤ item := by
    rcases List.eq_nil_or_concat low with rfl | ⟨low', last, rfl⟩
    · exact nofun
    · have hlast : last ≤ item := by
        rw [← not_lt, ← hbefore last (by simp)]
        simpa using hlow last (by simp)
      intro a ha
      rw [List.concat_eq_append] at ha hlows
      rcases List.mem_append.mp ha with ha | ha
      · exact ((List.pairwise_append.mp hlows).2.2 a ha last (by simp)).trans hlast
      · obtain rfl := List.mem_singleton.mp ha
        exact hlast
  refine ⟨low ++ item :: high, by rw [hshift, List.append_assoc, List.cons_append], ?_, ?_⟩
  · rw [List.append_assoc]
    exact List.Perm.append_left low (List.perm_append_singleton item high).symm
  · rw [List.pairwise_append, List.pairwise_cons]
    refine ⟨hlows, ⟨hitem, hhighs⟩, fun a ha b hb => ?_⟩
    rcases List.mem_cons.mp hb with rfl | hb
    · exact hbelow a ha
    · exact hacross a ha b hb

/-- After `k` turns the first `k + 1` cells are sorted and the others are as they were. -/
theorem sortTurns_sorted {cells : List α} (hbefore : ∀ a ∈ cells, ∀ b ∈ cells, before a b = true ↔ a < b)
    {k : Nat} (hk : k < cells.length) :
    ∃ sorted, sortTurns before cells k = sorted ++ cells.drop (k + 1) ∧ sorted ~ cells.take (k + 1) ∧
      sorted.Pairwise (· ≤ ·) := by
  induction k with
  | zero =>
    obtain ⟨first, rest, rfl⟩ := List.exists_cons_of_length_pos hk
    exact ⟨[first], rfl, .refl _, List.pairwise_singleton _ _⟩
  | succ k ih =>
    obtain ⟨sorted, hturns, hperm, hsorted⟩ := ih (by omega)
    have hlength : sorted.length = k + 1 := by
      rw [hperm.length_eq, List.length_take]
      omega
    have hdrop : cells.drop (k + 1) = cells[k + 1] :: cells.drop (k + 2) := List.drop_eq_getElem_cons hk
    have hget : (sorted ++ cells.drop (k + 1))[k + 1]? = some cells[k + 1] := by
      rw [hdrop, List.getElem?_append_right (by omega), hlength]
      simp
    have hmem : ∀ a ∈ sorted, before cells[k + 1] a = true ↔ cells[k + 1] < a := fun a ha =>
      hbefore _ (List.getElem_mem hk) a (List.mem_of_mem_take (hperm.mem_iff.mp ha))
    obtain ⟨sorted', hshift, hperm', hsorted'⟩ :=
      shift_sorted cells[k + 1] (cells.drop (k + 2)) hmem hsorted
    refine ⟨sorted', ?_, ?_, hsorted'⟩
    · rw [sortTurns, hturns, hget]
      rw [hlength] at hshift
      dsimp only
      rw [hdrop, hshift]
    · refine hperm'.trans ?_
      rw [List.take_succ_eq_append_getElem hk]
      exact hperm.append_right _

theorem insertionSort_sorted {cells : List α}
    (hbefore : ∀ a ∈ cells, ∀ b ∈ cells, before a b = true ↔ a < b) :
    insertionSort before cells ~ cells ∧ (insertionSort before cells).Pairwise (· ≤ ·) := by
  unfold insertionSort
  cases cells with
  | nil => exact ⟨.refl _, List.Pairwise.nil⟩
  | cons first rest =>
    obtain ⟨sorted, hturns, hperm, hsorted⟩ := sortTurns_sorted hbefore (k := rest.length) (by simp)
    rw [List.drop_eq_nil_of_le (by simp), List.append_nil] at hturns
    rw [List.take_of_length_le (by simp)] at hperm
    rw [List.length_cons, Nat.add_sub_cancel, hturns]
    exact ⟨hperm, hsorted⟩

end Order

end LeastByKey
