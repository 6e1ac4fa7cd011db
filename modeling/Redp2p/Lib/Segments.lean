import Mathlib.Data.List.Basic
import Mathlib.Data.List.TakeWhile

/-! Texts that arrive in pieces: a reader that scans its whole buffer again after every piece, and when
the first result of its scans does not depend on the pieces. -/

namespace Segments

variable {α β : Type}

/-- The first result of a scan over the buffers that some pieces make of a buffer. -/
def firstResult (scan : List α → Option β) : List α → List (List α) → Option β
  | _, [] => none
  | buffer, piece :: pieces =>
    match scan (buffer ++ piece) with
    | none => firstResult scan (buffer ++ piece) pieces
    | some result => some result

/-- The pieces of a text. -/
structure Pieces (text : List α) (pieces : List (List α)) : Prop where
  ne : ∀ piece ∈ pieces, piece ≠ []
  flatten : pieces.flatten = text

theorem Pieces.nil {pieces : List (List α)} (h : Pieces [] pieces) : pieces = [] := by
  cases pieces with
  | nil => rfl
  | cons piece pieces =>
    have hflat := h.flatten
    rw [List.flatten_cons, List.append_eq_nil_iff] at hflat
    exact absurd hflat.1 (h.ne piece (by simp))

theorem Pieces.single {text : List α} (h : text ≠ []) : Pieces text [text] where
  ne := by simpa using h
  flatten := by simp

/-- A text cut once. -/
theorem Pieces.pair {text : List α} {k : Nat} (hpos : 0 < k) (hlt : k < text.length) :
    Pieces text [text.take k, text.drop k] where
  ne := by
    intro piece hpiece hnil
    simp only [List.mem_cons, List.not_mem_nil, or_false] at hpiece
    rcases hpiece with rfl | rfl
    · rw [List.take_eq_nil_iff] at hnil
      rcases hnil with hk | htext
      · omega
      · simp [htext] at hlt
    · rw [List.drop_eq_nil_iff] at hnil
      omega
  flatten := by simp

variable (scan : List α → Option β)

/-- Every prefix without the result of the whole has none. -/
def Settled (text : List α) (result : Option β) : Prop :=
  ∀ k, 0 < k → k ≤ text.length → scan (text.take k) = none ∨ scan (text.take k) = result

variable {scan}

theorem firstResult_settled {text : List α} {result : Option β} (h : Settled scan text result)
    (hwhole : scan text = result) {buffer : List α} {pieces : List (List α)}
    (hne : ∀ piece ∈ pieces, piece ≠ []) (htext : buffer ++ pieces.flatten = text)
    (hpieces : pieces ≠ []) : firstResult scan buffer pieces = result := by
  induction pieces generalizing buffer with
  | nil => exact absurd rfl hpieces
  | cons piece pieces ih =>
    have hpiece := List.length_pos_iff.mpr (hne piece (by simp))
    rw [List.flatten_cons, ← List.append_assoc] at htext
    have htake : buffer ++ piece = text.take (buffer.length + piece.length) := by
      rw [← htext, ← List.length_append, List.take_left]
    have hlength : buffer.length + piece.length ≤ text.length := by
      rw [← htext, List.length_append, List.length_append]
      omega
    have hsettled := h (buffer.length + piece.length) (by omega) hlength
    rw [← htake] at hsettled
    rw [firstResult]
    cases pieces with
    | nil =>
      rw [List.flatten_nil, List.append_nil] at htext
      rw [htext, hwhole]
      cases result <;> rfl
    | cons next pieces =>
      have hrest := ih (fun p hp => hne p (by simp [List.mem_cons.mp hp])) htext (by simp)
      rcases hsettled with hnone | hresult
      · rw [hnone]
        exact hrest
      · cases result with
        | none =>
          rw [hresult]
          exact hrest
        | some result => rw [hresult]

/-- The first result over a text cut once. -/
theorem firstResult_pair (scan : List α → Option β) (text : List α) (k : Nat) :
    firstResult scan [] [text.take k, text.drop k] = (scan (text.take k)).or (scan text) := by
  simp only [firstResult, List.nil_append, List.take_append_drop]
  cases scan (text.take k) <;> cases scan text <;> rfl

theorem firstResult_single (scan : List α → Option β) (text : List α) : firstResult scan [] [text] = scan text := by
  simp only [firstResult, List.nil_append]
  cases scan text <;> rfl

/-- A text gives a result in all pieces exactly when it does as a whole and no prefix has another. -/
theorem firstResult_eq_iff {text : List α} (htext : text ≠ []) (result : Option β) :
    (∀ pieces, Pieces text pieces → firstResult scan [] pieces = result) ↔
      scan text = result ∧ Settled scan text result := by
  constructor
  · intro h
    have hwhole : scan text = result := by
      rw [← firstResult_single scan text]
      exact h _ (.single htext)
    refine ⟨hwhole, fun k hpos hle => ?_⟩
    rcases Nat.lt_or_eq_of_le hle with hlt | rfl
    · have hpair := h _ (.pair hpos hlt)
      rw [firstResult_pair] at hpair
      cases hscan : scan (text.take k) with
      | none => exact Or.inl rfl
      | some other =>
        rw [hscan] at hpair
        exact Or.inr hpair
    · exact Or.inr (by rw [List.take_length, hwhole])
  · rintro ⟨hwhole, hsettled⟩ pieces hpieces
    refine firstResult_settled hsettled hwhole hpieces.ne (by simpa using hpieces.flatten) ?_
    rintro rfl
    exact htext hpieces.flatten.symm

/-- The first result does not depend on the pieces exactly when no prefix has another than the whole. -/
theorem firstResult_indifferent_iff (text : List α) :
    (∀ pieces pieces', Pieces text pieces → Pieces text pieces' →
      firstResult scan [] pieces = firstResult scan [] pieces') ↔ Settled scan text (scan text) := by
  by_cases htext : text = []
  · subst htext
    constructor
    · intro _ k hpos hle
      rw [List.length_nil] at hle
      omega
    · intro _ pieces pieces' h h'
      rw [h.nil, h'.nil]
  · constructor
    · intro h
      refine ((firstResult_eq_iff htext _).mp fun pieces hpieces => ?_).2
      rw [← firstResult_single scan text]
      exact h _ _ hpieces (.single htext)
    · intro h pieces pieces' hpieces hpieces'
      have hall := (firstResult_eq_iff htext (scan text)).mpr ⟨rfl, h⟩
      rw [hall pieces hpieces, hall pieces' hpieces']

end Segments
