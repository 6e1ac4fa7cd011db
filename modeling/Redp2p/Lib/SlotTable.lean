import Mathlib.Data.List.Basic
import Mathlib.Data.List.Perm.Basic

/-! Tables of slots that are in use or free: an entry goes into the first free slot, or behind the last one
when none is free. Entries in use have distinct keys as long as entries keep theirs and new ones bring a key
that is not in use. -/

namespace SlotTable

variable {α β : Type} (active : α → Bool) (key : α → β)

/-- The first free slot. -/
def freeSlot (slots : List α) : Option Nat := slots.findIdx? fun a => !active a

/-- The table with one more entry in use. -/
def insert (slots : List α) (a : α) : List α :=
  match freeSlot active slots with
  | some index => slots.set index a
  | none => slots ++ [a]

/-- No two slots in use have the same key. -/
def Distinct (slots : List α) : Prop :=
  ∀ (i j : Nat) (a b : α), slots[i]? = some a → slots[j]? = some b → active a = true → active b = true →
    key a = key b → i = j

/-- Slots in use keep their keys, and free slots stay as they are. -/
structure Evolved (slots slots' : List α) : Prop where
  length : slots'.length = slots.length
  slot : ∀ (i : Nat) (a : α), slots[i]? = some a →
    ∃ b, slots'[i]? = some b ∧ (b = a ∨ active a = true ∧ key b = key a)

variable {active key}

theorem Evolved.refl (slots : List α) : Evolved active key slots slots :=
  ⟨rfl, fun _ a ha => ⟨a, ha, Or.inl rfl⟩⟩

/-- One slot in use changes. -/
theorem Evolved.set {slots : List α} {index : Nat} {a b : α} (ha : slots[index]? = some a)
    (hactive : active a = true) (hkey : key b = key a) : Evolved active key slots (slots.set index b) := by
  refine ⟨List.length_set, fun i c hc => ?_⟩
  have hbound := (List.getElem?_eq_some_iff.mp ha).1
  by_cases heq : index = i
  · subst heq
    obtain rfl := Option.some.inj (ha.symm.trans hc)
    exact ⟨b, by simp [hbound], Or.inr ⟨hactive, hkey⟩⟩
  · exact ⟨c, by rw [List.getElem?_set_ne heq, hc], Or.inl rfl⟩

/-- Every slot changes on its own. -/
theorem Evolved.map {slots : List α} {change : α → α}
    (h : ∀ a ∈ slots, change a = a ∨ active a = true ∧ key (change a) = key a) :
    Evolved active key slots (slots.map change) := by
  refine ⟨List.length_map _, fun i a ha => ⟨change a, by rw [List.getElem?_map, ha]; rfl, ?_⟩⟩
  exact h a (List.mem_of_getElem? ha)

theorem Distinct.evolved {slots slots' : List α} (h : Distinct active key slots)
    (hevolved : Evolved active key slots slots') : Distinct active key slots' := by
  intro i j a b ha hb hactive hactive' hkey
  have horigin : ∀ (k : Nat) (c : α), slots'[k]? = some c → active c = true →
      ∃ d, slots[k]? = some d ∧ active d = true ∧ key c = key d := by
    intro k c hc hc'
    have hbound := (List.getElem?_eq_some_iff.mp hc).1
    rw [hevolved.length] at hbound
    obtain ⟨c', hc'', hcases⟩ := hevolved.slot k _ (List.getElem?_eq_getElem hbound)
    obtain rfl := Option.some.inj (hc.symm.trans hc'')
    refine ⟨_, List.getElem?_eq_getElem hbound, ?_⟩
    rcases hcases with hsame | ⟨hold, hkept⟩
    · exact ⟨hsame ▸ hc', congrArg key hsame⟩
    · exact ⟨hold, hkept⟩
  obtain ⟨a', ha', hold, hkeyA⟩ := horigin i a ha hactive
  obtain ⟨b', hb', hold', hkeyB⟩ := horigin j b hb hactive'
  exact h i j a' b' ha' hb' hold hold' (hkeyA.symm.trans (hkey.trans hkeyB))

/-! ### Insertion -/

/-- The entry goes into a free slot, or behind the table when every slot is in use. -/
theorem insert_cases (active : α → Bool) (slots : List α) (a : α) :
    (∃ (index : Nat) (b : α), slots[index]? = some b ∧ active b = false ∧
      insert active slots a = slots.set index a) ∨
    ((∀ b ∈ slots, active b = true) ∧ insert active slots a = slots ++ [a]) := by
  unfold insert
  cases hfree : freeSlot active slots with
  | none =>
    refine Or.inr ⟨fun b hb => ?_, rfl⟩
    have hall := List.findIdx?_eq_none_iff.mp hfree b hb
    simpa using hall
  | some index =>
    obtain ⟨hbound, hinactive, -⟩ := List.findIdx?_eq_some_iff_getElem.mp hfree
    exact Or.inl ⟨index, _, List.getElem?_eq_getElem hbound, by simpa using hinactive, rfl⟩

/-- Slots in use stay as they are. -/
theorem insert_keeps {slots : List α} {a b : α} {i : Nat} (hb : slots[i]? = some b) (hactive : active b = true) :
    (insert active slots a)[i]? = some b := by
  rcases insert_cases active slots a with ⟨index, c, hc, hfree, hset⟩ | ⟨-, happend⟩
  · have hne : index ≠ i := by
      rintro rfl
      obtain rfl := Option.some.inj (hb.symm.trans hc)
      rw [hactive] at hfree
      exact nomatch hfree
    rw [hset, List.getElem?_set_ne hne, hb]
  · rw [happend, List.getElem?_append_left (List.getElem?_eq_some_iff.mp hb).1, hb]

theorem mem_insert {slots : List α} {a b : α} (h : b ∈ insert active slots a) : b = a ∨ b ∈ slots := by
  rcases insert_cases active slots a with ⟨index, c, hc, hfree, hset⟩ | ⟨-, happend⟩
  · rw [hset] at h
    exact (List.mem_or_eq_of_mem_set h).symm
  · rw [happend, List.mem_append, List.mem_singleton] at h
    exact h.symm

/-- A key that is not in use can be inserted. -/
theorem Distinct.insert {slots : List α} (h : Distinct active key slots) {a : α}
    (hfresh : ∀ b ∈ slots, active b = true → key b ≠ key a) :
    Distinct active key (SlotTable.insert active slots a) := by
  -- The new entry has one place; whatever else is in use was there before.
  obtain ⟨place, hplace⟩ : ∃ place : Nat, ∀ (k : Nat) (c : α), (SlotTable.insert active slots a)[k]? = some c →
      (k = place ∧ c = a) ∨ k ≠ place ∧ slots[k]? = some c := by
    rcases insert_cases active slots a with ⟨index, b, hb, -, hset⟩ | ⟨-, happend⟩
    · refine ⟨index, fun k c hc => ?_⟩
      rw [hset] at hc
      by_cases heq : index = k
      · subst heq
        rw [List.getElem?_set_self (List.getElem?_eq_some_iff.mp hb).1] at hc
        exact Or.inl ⟨rfl, (Option.some.inj hc).symm⟩
      · rw [List.getElem?_set_ne heq] at hc
        exact Or.inr ⟨Ne.symm heq, hc⟩
    · refine ⟨slots.length, fun k c hc => ?_⟩
      rw [happend, List.getElem?_append] at hc
      split at hc
      · exact Or.inr ⟨by omega, hc⟩
      · rename_i hbound
        rw [List.getElem?_singleton] at hc
        split at hc
        · exact Or.inl ⟨by omega, (Option.some.inj hc).symm⟩
        · exact nomatch hc
  intro i j c d hc hd hactive hactive' hkey
  rcases hplace i c hc with ⟨hi, hnew⟩ | ⟨-, hold⟩
  · rcases hplace j d hd with ⟨hj, -⟩ | ⟨-, hold'⟩
    · exact hi.trans hj.symm
    · exact absurd (hkey.symm.trans (congrArg key hnew)) (hfresh d (List.mem_of_getElem? hold') hactive')
  · rcases hplace j d hd with ⟨-, hnew⟩ | ⟨-, hold'⟩
    · exact absurd (hkey.trans (congrArg key hnew)) (hfresh c (List.mem_of_getElem? hold) hactive)
    · exact h i j c d hold hold' hactive hactive' hkey

/-! ### The entries in use -/

def inUse (active : α → Bool) (slots : List α) : List α := slots.filter active

theorem mem_inUse {slots : List α} {a : α} : a ∈ inUse active slots ↔ a ∈ slots ∧ active a = true := List.mem_filter

theorem inUse_get {slots : List α} {i : Nat} {a : α} (ha : slots[i]? = some a) (hactive : active a = true) :
    (inUse active slots).Perm (a :: inUse active (slots.eraseIdx i)) := by
  obtain ⟨hbound, rfl⟩ := List.getElem?_eq_some_iff.mp ha
  have hperm := (List.getElem_cons_eraseIdx_perm hbound).symm.filter active
  rwa [List.filter_cons_of_pos hactive] at hperm

theorem inUse_set {slots : List α} {i : Nat} {a : α} (ha : slots[i]? = some a) (b : α) :
    (inUse active (slots.set i b)).Perm (inUse active (b :: slots.eraseIdx i)) :=
  (List.set_perm_cons_eraseIdx (List.getElem?_eq_some_iff.mp ha).1 b).filter active

/-- One entry in use that two tables share is changed in both. -/
theorem inUse_change {slots slots' : List α} (h : (inUse active slots).Perm (inUse active slots')) {i j : Nat} {a : α}
    (ha : slots[i]? = some a) (ha' : slots'[j]? = some a) (hactive : active a = true) (b : α) :
    (inUse active (slots.set i b)).Perm (inUse active (slots'.set j b)) := by
  have hrest := (inUse_get ha hactive).symm.trans (h.trans (inUse_get ha' hactive))
  have hcons : (inUse active (b :: slots.eraseIdx i)).Perm (inUse active (b :: slots'.eraseIdx j)) := by
    unfold inUse
    cases hb : active b with
    | true =>
      rw [List.filter_cons_of_pos hb, List.filter_cons_of_pos hb]
      exact hrest.cons_inv.cons b
    | false =>
      rw [List.filter_cons_of_neg (by simp [hb]), List.filter_cons_of_neg (by simp [hb])]
      exact hrest.cons_inv
  exact (inUse_set ha b).trans (hcons.trans (inUse_set ha' b).symm)

theorem inUse_concat (slots : List α) {a : α} (hactive : active a = true) :
    (inUse active (slots ++ [a])).Perm (a :: inUse active slots) := by
  unfold inUse
  rw [List.filter_append, List.filter_cons_of_pos hactive, List.filter_nil]
  exact List.perm_append_comm

/-- An entry that is inserted is in use beside the others. -/
theorem inUse_insert (slots : List α) {a : α} (hactive : active a = true) :
    (inUse active (insert active slots a)).Perm (a :: inUse active slots) := by
  rcases insert_cases active slots a with ⟨i, b, hb, hfree, hset⟩ | ⟨-, happend⟩
  · have hold : (inUse active slots).Perm (inUse active (slots.eraseIdx i)) := by
      have hperm := (List.getElem_cons_eraseIdx_perm (List.getElem?_eq_some_iff.mp hb).1).symm.filter active
      rw [(List.getElem?_eq_some_iff.mp hb).2] at hperm
      rwa [List.filter_cons_of_neg (by simp [hfree])] at hperm
    rw [hset]
    have hnew : (inUse active (slots.set i a)).Perm (inUse active (a :: slots.eraseIdx i)) := inUse_set hb a
    unfold inUse at hnew hold ⊢
    rw [List.filter_cons_of_pos hactive] at hnew
    exact hnew.trans (hold.symm.cons a)
  · rw [happend]
    exact inUse_concat slots hactive

/-- Every slot changes on its own, and free ones stay free. -/
theorem inUse_map {slots slots' : List α} {change : α → α}
    (hfree : ∀ a, active a = false → active (change a) = false)
    (h : (inUse active slots).Perm (inUse active slots')) :
    (inUse active (slots.map change)).Perm (inUse active (slots'.map change)) := by
  have honly : ∀ slots : List α, inUse active (slots.map change) = inUse active ((inUse active slots).map change) := by
    intro slots
    unfold inUse
    rw [List.filter_map, List.filter_map, List.filter_filter]
    congr 1
    apply List.filter_congr
    intro a _
    show active (change a) = (active (change a) && active a)
    cases hactive : active a with
    | true => rw [Bool.and_true]
    | false => rw [hfree a hactive, Bool.and_false]
  rw [honly slots, honly slots']
  exact (h.map change).filter active

end SlotTable
