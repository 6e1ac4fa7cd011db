import Redp2p.Lib.Transition

/-! Tables whose entries carry a timer that counts whole units of the clock: it is set when the entry is
opened, when its peer is heard, and when it is fed from the other side. What a timer says of the last sign
of the peer. -/

namespace Watchdog

/-- When the peer of an entry was last heard, and when the entry was last fed. -/
structure Mark where
  heard : Nat
  fed : Option Nat
  deriving DecidableEq

/-- A table of entries. `hears` and `feeds` tell which entry an event is a sign of the peer for and which
one it feeds; `feedable` entries can be fed. -/
structure System (σ ε α : Type) where
  step : σ → ε → σ
  entries : σ → List α
  timer : α → Nat
  feedable : α → Bool
  clock : ε → Option Nat
  hears : σ → ε → Option Nat
  feeds : σ → ε → Option Nat

namespace Mark

/-- The last time that set the timer. -/
def latest (m : Mark) : Nat := max m.heard (m.fed.getD 0)

/-- The peer gave no sign in the last `limit + 1` units. -/
def Silent (m : Mark) (unit limit now : Nat) : Prop := m.heard + (limit + 1) * unit ≤ now

/-- The peer gave a sign in the last `limit` units. -/
def Recent (m : Mark) (unit limit now : Nat) : Prop := now ≤ m.heard + limit * unit

/-- The peer is silent, but the entry was fed at most `limit` whole units ago. -/
def Pinned (m : Mark) (unit limit now : Nat) : Prop :=
  m.Silent unit limit now ∧ ∃ fed ∈ m.fed, now / unit ≤ fed / unit + limit

theorem fed_le_latest {m : Mark} {fed : Nat} (h : fed ∈ m.fed) : fed ≤ m.latest := by
  have hfed : m.fed = some fed := h
  rw [latest, hfed, Option.getD_some]
  exact Nat.le_max_right _ _

/-- The timer of an entry with a recent sign is not overdue. -/
theorem Recent.within {m : Mark} {unit limit now : Nat} (h : m.Recent unit limit now) (hunit : 0 < unit) :
    now / unit ≤ m.latest / unit + limit :=
  calc now / unit ≤ (m.heard + limit * unit) / unit := Nat.div_le_div_right h
    _ = m.heard / unit + limit := Nat.add_mul_div_right _ _ hunit
    _ ≤ m.latest / unit + limit := by
      have hle : m.heard / unit ≤ m.latest / unit := Nat.div_le_div_right (Nat.le_max_left _ _)
      omega

/-- The timer of an entry with a silent peer is overdue unless the entry was fed. -/
theorem Silent.overdue_iff {m : Mark} {unit limit now : Nat} (h : m.Silent unit limit now)
    (hunit : 0 < unit) : m.latest / unit + limit < now / unit ↔ ¬ m.Pinned unit limit now := by
  have hheard : m.heard / unit + limit < now / unit := by
    have hdiv : (m.heard + (limit + 1) * unit) / unit ≤ now / unit := Nat.div_le_div_right h
    rw [Nat.add_mul_div_right _ _ hunit] at hdiv
    omega
  constructor
  · rintro hover ⟨-, fed, hfed, hle⟩
    have hlatest : fed / unit ≤ m.latest / unit := Nat.div_le_div_right (fed_le_latest hfed)
    omega
  · intro hfree
    cases hfed : m.fed with
    | none => simpa [latest, hfed] using hheard
    | some fed =>
      have hlate : ¬ now / unit ≤ fed / unit + limit := fun hle => hfree ⟨h, fed, hfed, hle⟩
      have hlatest : m.latest = m.heard ∨ m.latest = fed := by
        simp only [latest, hfed, Option.getD_some]
        omega
      rcases hlatest with heq | heq <;> rw [heq] <;> omega

end Mark

namespace System

variable {σ ε α : Type}

/-- Where the timer of an entry after a step comes from. -/
inductive Entry (sys : System σ ε α) (unit : Nat) (s : σ) (e : ε) (i : Nat) (b : α) : Prop
  | kept (a : α) (ha : (sys.entries s)[i]? = some a) (hsame : sys.feedable b = sys.feedable a)
      (hheard : sys.hears s e ≠ some i) (hfed : sys.feeds s e ≠ some i) (htimer : sys.timer b = sys.timer a)
  | reset (a : α) (now : Nat) (ha : (sys.entries s)[i]? = some a)
      (hsame : sys.feedable b = sys.feedable a) (hsign : sys.hears s e = some i ∨ sys.feeds s e = some i)
      (hfeedable : sys.feeds s e = some i → sys.feedable a = true) (hclock : sys.clock e = some now)
      (htimer : sys.timer b = now / unit)
  | opened (now : Nat) (hnew : (sys.entries s).length ≤ i) (hclock : sys.clock e = some now)
      (htimer : sys.timer b = now / unit)

/-- An event that is a sign for one entry at most may change that entry. -/
theorem entry_of_set {sys : System σ ε α} {unit : Nat} {s : σ} {e : ε} {index : Nat} {b : α}
    (hset : sys.entries (sys.step s e) = (sys.entries s).set index b)
    (hsigns : ∀ i, sys.hears s e = some i ∨ sys.feeds s e = some i → i = index)
    (hself : sys.Entry unit s e index b) {i : Nat} {c : α} (hc : (sys.entries (sys.step s e))[i]? = some c) :
    sys.Entry unit s e i c := by
  rw [hset] at hc
  by_cases heq : index = i
  · subst heq
    have hbound := (List.getElem?_eq_some_iff.mp hc).1
    rw [List.length_set] at hbound
    rw [List.getElem?_set_self hbound] at hc
    obtain rfl := Option.some.inj hc
    exact hself
  · rw [List.getElem?_set_ne heq] at hc
    exact .kept c hc rfl (fun h => heq (hsigns i (Or.inl h)).symm) (fun h => heq (hsigns i (Or.inr h)).symm) rfl

/-- Every step treats the timers as it should. -/
def Timely (sys : System σ ε α) (unit : Nat) : Prop :=
  ∀ s e i b, (sys.entries (sys.step s e))[i]? = some b → sys.Entry unit s e i b

/-- A step, with the marks of all entries. -/
def watch (sys : System σ ε α) (w : σ × List Mark) (e : ε) : σ × List Mark :=
  let now := (sys.clock e).getD 0
  let s := sys.step w.1 e
  (s, (List.range (sys.entries s).length).map fun i =>
    match w.2[i]? with
    | none => ⟨now, none⟩
    | some m =>
      { heard := if sys.hears w.1 e = some i then now else m.heard
        fed := if sys.feeds w.1 e = some i then some now else m.fed })

/-- Every timer tells the last time that set it. -/
structure Dated (sys : System σ ε α) (unit t : Nat) (w : σ × List Mark) : Prop where
  length : w.2.length = (sys.entries w.1).length
  timer : ∀ (i : Nat) (a : α) (m : Mark), (sys.entries w.1)[i]? = some a → w.2[i]? = some m →
    sys.timer a = m.latest / unit
  past : ∀ (i : Nat) (m : Mark), w.2[i]? = some m → m.latest ≤ t
  fed : ∀ (i : Nat) (a : α) (m : Mark), (sys.entries w.1)[i]? = some a → w.2[i]? = some m →
    m.fed ≠ none → sys.feedable a = true

variable {sys : System σ ε α} {unit : Nat}

theorem Dated.of_empty {s : σ} (h : sys.entries s = []) (t : Nat) : Dated sys unit t (s, []) := by
  refine ⟨by simp [h], ?_, ?_, ?_⟩ <;> simp

/-- What a mark after a step says of its entry. -/
theorem Dated.entry {t : Nat} {w : σ × List Mark} (h : Dated sys unit t w) (htimely : sys.Timely unit)
    {e : ε} (hlater : t ≤ (sys.clock e).getD t) {i : Nat} {b : α} {m : Mark}
    (hb : (sys.entries (sys.step w.1 e))[i]? = some b) (hm : (sys.watch w e).2[i]? = some m) :
    sys.timer b = m.latest / unit ∧ m.latest ≤ (sys.clock e).getD t ∧
      (m.fed ≠ none → sys.feedable b = true) := by
  have hbound := (List.getElem?_eq_some_iff.mp hb).1
  simp only [watch, List.getElem?_map, List.getElem?_range hbound, Option.map_some,
    Option.some.injEq] at hm
  have hold : ∀ a, (sys.entries w.1)[i]? = some a → ∃ m', w.2[i]? = some m' := by
    intro a ha
    have hlt := (List.getElem?_eq_some_iff.mp ha).1
    rw [← h.length] at hlt
    exact ⟨_, List.getElem?_eq_getElem hlt⟩
  cases htimely w.1 e i b hb with
  | kept a ha hsame hheard hfed htimer =>
    obtain ⟨m', hm'⟩ := hold a ha
    rw [hm'] at hm
    simp only [if_neg hheard, if_neg hfed] at hm
    subst hm
    refine ⟨htimer.trans (h.timer i a m' ha hm'), Nat.le_trans (h.past i m' hm') hlater, fun hne => ?_⟩
    rw [hsame]
    exact h.fed i a m' ha hm' hne
  | reset a now ha hsame hsign hfeedable hclock htimer =>
    obtain ⟨m', hm'⟩ := hold a ha
    rw [hclock, Option.getD_some] at hlater
    rw [hm', hclock] at hm
    simp only [Option.getD_some] at hm
    have hpast := h.past i m' hm'
    -- Whatever the event does not set lies before it.
    have hlatest : m.latest = now := by
      subst hm
      simp only [Mark.latest] at hpast ⊢
      rcases hsign with hheard | hfed
      · rw [if_pos hheard]
        split
        · simp
        · omega
      · rw [if_pos hfed]
        simp only [Option.getD_some]
        split <;> omega
    refine ⟨by rw [hlatest, htimer], by rw [hlatest, hclock]; exact Nat.le_refl _, fun hne => ?_⟩
    rw [hsame]
    by_cases hfed : sys.feeds w.1 e = some i
    · exact hfeedable hfed
    · refine h.fed i a m' ha hm' ?_
      subst hm
      simpa [hfed] using hne
  | opened now hnew hclock htimer =>
    have hnone : w.2[i]? = none := List.getElem?_eq_none (by rw [h.length]; exact hnew)
    rw [hnone, hclock] at hm
    subst hm
    refine ⟨?_, ?_, fun hne => absurd rfl hne⟩
    · simpa [Mark.latest] using htimer
    · simp [Mark.latest, hclock]

theorem Dated.step {t : Nat} {w : σ × List Mark} (h : Dated sys unit t w) (htimely : sys.Timely unit)
    {e : ε} (hlater : t ≤ (sys.clock e).getD t) :
    Dated sys unit ((sys.clock e).getD t) (sys.watch w e) := by
  have hlength : (sys.watch w e).2.length = (sys.entries (sys.watch w e).1).length := by simp [watch]
  refine ⟨hlength, fun i b m hb hm => (h.entry htimely hlater hb hm).1, fun i m hm => ?_,
    fun i b m hb hm => (h.entry htimely hlater hb hm).2.2⟩
  have hbound := (List.getElem?_eq_some_iff.mp hm).1
  rw [hlength] at hbound
  exact (h.entry htimely hlater (List.getElem?_eq_getElem hbound) hm).2.1

/-- A run from a state without entries, with the marks. -/
def run (sys : System σ ε α) (s : σ) (es : List ε) : σ × List Mark :=
  (Transition.run (fun w e => (sys.watch w e, ([] : List Empty))) (s, []) es).1

/-- The events of a run meet a condition, each in the state that it finds. -/
def Along (sys : System σ ε α) (ok : σ × List Mark → ε → Prop) (s : σ) (es : List ε) : Prop :=
  Transition.Along (fun w e => (sys.watch w e, ([] : List Empty))) ok (s, []) es

theorem Along.last {ok : σ × List Mark → ε → Prop} {s : σ} {es : List ε} {e : ε}
    (h : sys.Along ok s (es ++ [e])) : ok (sys.run s es) e := (Transition.along_append.mp h).2.1

/-- Two conditions that agree wherever the timers are right agree along every run of a clock that does
not go back. -/
theorem along_congr (htimely : sys.Timely unit) {ok ok' : σ × List Mark → ε → Prop}
    (h : ∀ t w e, Dated sys unit t w → t ≤ (sys.clock e).getD t → (ok w e ↔ ok' w e)) {s : σ}
    (hs : sys.entries s = []) {es : List ε} (hes : Transition.Timed sys.clock 0 es) :
    sys.Along ok s es ↔ sys.Along ok' s es :=
  Transition.along_congr_timed (fun _ _ _ hw hlater => hw.step htimely hlater) h (Dated.of_empty hs 0) hes

end System

end Watchdog
