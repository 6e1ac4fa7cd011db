import Mathlib.Data.List.Basic

/-! Encodings that end by themselves: from a text that begins with the encoding of a value, the value and
what follows it can be told. Encodings of fixed length do, and texts up to a stop that they do not contain,
and so do encodings put one after another. -/

namespace Delimited

variable {α β σ : Type}

/-- No text begins with the encodings of two values, so what follows an encoding can be told from it. -/
def SelfDelimiting (encode : α → List σ) : Prop :=
  ∀ ⦃x y : α⦄ ⦃s t : List σ⦄, encode x ++ s = encode y ++ t → x = y ∧ s = t

theorem SelfDelimiting.injective {encode : α → List σ} (h : SelfDelimiting encode) :
    Function.Injective encode := by
  intro x y heq
  have happend : encode x ++ [] = encode y ++ [] := by rw [heq]
  exact (h happend).1

/-! ### Fields -/

theorem selfDelimiting_of_length {encode : α → List σ} {n : Nat} (hlength : ∀ x, (encode x).length = n)
    (hinj : Function.Injective encode) : SelfDelimiting encode := by
  intro x y s t heq
  have hlengths : (encode x).length = (encode y).length := by rw [hlength, hlength]
  obtain ⟨hhead, htail⟩ := List.append_inj heq hlengths
  exact ⟨hinj hhead, htail⟩

/-- The texts that do not contain the stop. -/
abbrev Terminated (stop : σ) : Type := { s : List σ // stop ∉ s }

/-- A text with the stop behind it. -/
def terminate {stop : σ} (s : Terminated stop) : List σ := s.val ++ [stop]

theorem selfDelimiting_terminate {stop : σ} : SelfDelimiting fun s : Terminated stop => terminate s := by
  rintro ⟨x, hx⟩ ⟨y, hy⟩ s t heq
  simp only [terminate, List.append_assoc, List.singleton_append] at heq
  induction x generalizing y with
  | nil =>
    cases y with
    | nil => exact ⟨rfl, List.tail_eq_of_cons_eq heq⟩
    | cons b y => exact absurd (List.head_eq_of_cons_eq heq ▸ List.mem_cons_self) hy
  | cons a x ih =>
    cases y with
    | nil => exact absurd (List.head_eq_of_cons_eq heq ▸ List.mem_cons_self) hx
    | cons b y =>
      obtain ⟨rfl, htail⟩ := List.cons.inj heq
      obtain ⟨hxy, hst⟩ := ih (fun h => hx (List.mem_cons_of_mem _ h)) y
        (fun h => hy (List.mem_cons_of_mem _ h)) htail
      exact ⟨Subtype.ext (congrArg (a :: ·) (Subtype.ext_iff.mp hxy)), hst⟩

/-- A text is cut at its last stop in one way only. -/
theorem append_stop_inj {stop : σ} {x y a b : List σ} (ha : stop ∉ a) (hb : stop ∉ b)
    (heq : x ++ stop :: a = y ++ stop :: b) : x = y ∧ a = b := by
  have ha' : stop ∉ a.reverse := fun h => ha (List.mem_reverse.mp h)
  have hb' : stop ∉ b.reverse := fun h => hb (List.mem_reverse.mp h)
  have hreverse : terminate ⟨a.reverse, ha'⟩ ++ x.reverse = terminate ⟨b.reverse, hb'⟩ ++ y.reverse := by
    simpa [terminate] using congrArg List.reverse heq
  obtain ⟨hab, hxy⟩ := selfDelimiting_terminate hreverse
  exact ⟨List.reverse_injective hxy, List.reverse_injective (Subtype.ext_iff.mp hab)⟩

/-! ### Records of fields -/

theorem SelfDelimiting.append {f : α → List σ} {g : β → List σ} (hf : SelfDelimiting f)
    (hg : SelfDelimiting g) : SelfDelimiting fun p : α × β => f p.1 ++ g p.2 := by
  rintro ⟨a, b⟩ ⟨a', b'⟩ s t heq
  simp only [List.append_assoc] at heq
  obtain ⟨rfl, hrest⟩ := hf heq
  obtain ⟨rfl, hst⟩ := hg hrest
  exact ⟨rfl, hst⟩

/-- The same tag before every encoding. -/
theorem SelfDelimiting.tagged {f : α → List σ} (hf : SelfDelimiting f) (tag : List σ) :
    SelfDelimiting fun a => tag ++ f a := by
  intro x y s t heq
  simp only [List.append_assoc, List.append_cancel_left_eq] at heq
  exact hf heq

theorem SelfDelimiting.comp {f : α → List σ} (hf : SelfDelimiting f) {fields : β → α}
    (hfields : Function.Injective fields) : SelfDelimiting fun b => f (fields b) := by
  intro x y s t heq
  obtain ⟨hxy, hst⟩ := hf heq
  exact ⟨hfields hxy, hst⟩

end Delimited
