import Mathlib.Data.List.Basic

/-! Hash states over blocks of fixed size: the chain over the complete blocks of a text, and the stream
that takes the text element by element into a buffer. -/

namespace BlockStream

variable {σ τ α : Type} (size : Nat) (compress : σ → List α → σ)

/-- The state after the complete blocks of a text, one after the other. -/
def chain (s : σ) (text : List α) : σ :=
  (List.range (text.length / size)).foldl (fun s i => compress s ((text.drop (size * i)).take size)) s

/-- One more element in the buffer, whose block is compressed when it is complete. -/
def feed (s : σ × List α) (a : α) : σ × List α :=
  if s.2.length + 1 = size then (compress s.1 (s.2 ++ [a]), []) else (s.1, s.2 ++ [a])

variable {size} {compress}

theorem chain_short {text : List α} (h : text.length < size) (s : σ) : chain size compress s text = s := by
  rw [chain, Nat.div_eq_of_lt h]
  rfl

theorem chain_block (hsize : 0 < size) {block : List α} (hblock : block.length = size) (s : σ)
    (rest : List α) : chain size compress s (block ++ rest) = chain size compress (compress s block) rest := by
  have hcount : (block ++ rest).length / size = rest.length / size + 1 := by
    rw [List.length_append, hblock, Nat.add_div_left _ hsize]
  have hfirst : ((block ++ rest).drop (size * 0)).take size = block := by
    rw [Nat.mul_zero, List.drop_zero, ← hblock, List.take_left]
  have hnext : ∀ i, ((block ++ rest).drop (size * (i + 1))).take size = (rest.drop (size * i)).take size := by
    intro i
    have hdrop : size * (i + 1) = block.length + size * i := by rw [hblock, Nat.mul_succ, Nat.add_comm]
    rw [hdrop, List.drop_length_add_append]
  unfold chain
  rw [hcount, List.range_succ_eq_map, List.foldl_cons, hfirst, List.foldl_map]
  simp only [Nat.succ_eq_add_one, hnext]

/-- The stream chains the complete blocks of what was in its buffer and of what it takes, and the rest
stays in the buffer. -/
theorem foldl_feed (hsize : 0 < size) (text : List α) {s : σ} {buf : List α} (hbuf : buf.length < size) :
    text.foldl (feed size compress) (s, buf) =
      (chain size compress s (buf ++ text), (buf ++ text).drop (size * ((buf ++ text).length / size))) := by
  induction text generalizing s buf with
  | nil => rw [List.append_nil, chain_short hbuf, Nat.div_eq_of_lt hbuf, Nat.mul_zero, List.drop_zero,
      List.foldl_nil]
  | cons a text ih =>
    rw [List.foldl_cons, feed]
    by_cases hfull : buf.length + 1 = size
    · have hblock : (buf ++ [a]).length = size := by simpa using hfull
      have hcount : size * ((buf ++ [a] ++ text).length / size) =
          (buf ++ [a]).length + size * (text.length / size) := by
        rw [List.length_append, hblock, Nat.add_div_left _ hsize, Nat.mul_succ, Nat.add_comm]
      rw [if_pos hfull, ih (by simpa using hsize), List.append_cons buf a text, chain_block hsize hblock,
        hcount, List.drop_length_add_append, List.nil_append]
    · have hshort : (buf ++ [a]).length < size := by
        rw [List.length_append, List.length_singleton]
        omega
      rw [if_neg hfull, ih hshort, List.append_assoc, List.singleton_append]

/-- The buffer is empty after complete blocks. -/
theorem foldl_feed_blocks (hsize : 0 < size) {text : List α} {s : σ} {buf : List α} (hbuf : buf.length < size)
    (hblocks : size ∣ (buf ++ text).length) :
    text.foldl (feed size compress) (s, buf) = (chain size compress s (buf ++ text), []) := by
  rw [foldl_feed hsize text hbuf, Nat.mul_div_cancel' hblocks, List.drop_length]

/-- What completes the block in the buffer. -/
theorem foldl_feed_block (hsize : 0 < size) {text : List α} {s : σ} {buf : List α} (hbuf : buf.length < size)
    (hblock : (buf ++ text).length = size) :
    text.foldl (feed size compress) (s, buf) = (compress s (buf ++ text), []) := by
  have hnil : chain size compress (compress s (buf ++ text)) [] = compress s (buf ++ text) :=
    chain_short hsize _
  have hchain : chain size compress s (buf ++ text ++ []) = chain size compress (compress s (buf ++ text)) [] :=
    chain_block hsize hblock s []
  rw [hnil, List.append_nil] at hchain
  rw [foldl_feed_blocks hsize hbuf (hblock ▸ Nat.dvd_refl size), hchain]

/-- A map of states that commutes with the compression of blocks commutes with the chain. -/
theorem chain_map {compress' : τ → List α → τ} (f : σ → τ)
    (hcompress : ∀ s block, block.length = size → f (compress s block) = compress' (f s) block) (s : σ)
    (text : List α) : f (chain size compress s text) = chain size compress' (f s) text := by
  have hfold : ∀ (indices : List Nat) (s : σ), (∀ i ∈ indices, i < text.length / size) →
      f (indices.foldl (fun s i => compress s ((text.drop (size * i)).take size)) s) =
        indices.foldl (fun s i => compress' s ((text.drop (size * i)).take size)) (f s) := by
    intro indices
    induction indices with
    | nil => exact fun _ _ => rfl
    | cons i indices ih =>
      intro s hindices
      obtain ⟨hi, hrest⟩ := List.forall_mem_cons.mp hindices
      have hfits : size * (i + 1) ≤ text.length :=
        Nat.le_trans (Nat.mul_le_mul_left size hi) (Nat.mul_div_le _ _)
      have hblock : ((text.drop (size * i)).take size).length = size := by
        rw [List.length_take, List.length_drop]
        rw [Nat.mul_succ] at hfits
        omega
      rw [List.foldl_cons, List.foldl_cons, ih _ hrest, hcompress _ _ hblock]
  exact hfold _ s fun i hi => List.mem_range.mp hi

end BlockStream
