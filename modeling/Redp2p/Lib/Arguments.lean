import Mathlib.Data.List.Basic

/-! Command lines: options of which some take the next argument as their value, and a loop over them that
may refuse one. What the loop leaves is a matter of the options that were given. -/

namespace Arguments

variable {α σ ε : Type}

/-- The options of a command line, each with its value. The last one may lack the value that it takes. -/
def items (takesValue : α → Bool) : List α → List (α × Option α)
  | [] => []
  | [option] => [(option, none)]
  | option :: next :: rest =>
    if takesValue option then (option, some next) :: items takesValue rest
    else (option, none) :: items takesValue (next :: rest)

/-- The loop over the options. -/
def read (takesValue : α → Bool) (take : σ → α × Option α → Except ε σ) (s : σ) (args : List α) :
    Except ε σ :=
  (items takesValue args).foldlM take s

/-- Whether an option of a kind was given. -/
def given (kind : α → Bool) (options : List (α × Option α)) : Bool := options.any fun item => kind item.1

/-- The value of the last option of a kind. -/
def last (kind : α → Bool) (options : List (α × Option α)) : Option α :=
  (options.filter fun item => kind item.1).getLast?.bind Prod.snd

variable {kind : α → Bool}

@[simp]
theorem given_nil : given kind [] = false := rfl

@[simp]
theorem last_nil : last kind [] = none := rfl

@[simp]
theorem given_concat (options : List (α × Option α)) (item : α × Option α) :
    given kind (options ++ [item]) = (given kind options || kind item.1) := by
  simp [given]

@[simp]
theorem last_concat (options : List (α × Option α)) (item : α × Option α) :
    last kind (options ++ [item]) = if kind item.1 then item.2 else last kind options := by
  unfold last
  cases hkind : kind item.1 <;> simp [List.filter_append, hkind]

/-- Options without values are the arguments themselves. -/
theorem items_of_flags {takesValue : α → Bool} {args : List α}
    (h : ∀ option ∈ args, takesValue option = false) :
    items takesValue args = args.map fun option => (option, none) := by
  induction args using items.induct takesValue with
  | case1 => rfl
  | case2 option => rfl
  | case3 option next rest htakes ih =>
    rw [h option (by simp)] at htakes
    exact nomatch htakes
  | case4 option next rest htakes ih =>
    rw [items, if_neg htakes, List.map_cons, ih fun o ho => h o (by simp [List.mem_cons.mp ho])]

/-- Where no option takes a value, none of the arguments is such an option. -/
theorem flags_of_not_given {takesValue : α → Bool} {args : List α}
    (h : given takesValue (items takesValue args) = false) : ∀ option ∈ args, takesValue option = false := by
  induction args using items.induct takesValue with
  | case1 => simp
  | case2 option => simpa [items, given] using h
  | case3 option next rest htakes ih => simp [items, given, htakes] at h
  | case4 option next rest htakes ih =>
    rw [items, if_neg htakes] at h
    have hrest : given takesValue (items takesValue (next :: rest)) = false := by
      simpa [given, htakes] using h
    exact List.forall_mem_cons.mpr ⟨by simpa using htakes, ih hrest⟩

theorem foldlM_ok {take : σ → α × Option α → Except ε σ} {P : List (α × Option α) → σ → Prop}
    (hstep : ∀ before item s s', P before s → take s item = .ok s' → P (before ++ [item]) s')
    {before options : List (α × Option α)} {s s' : σ} (h : P before s)
    (hfold : options.foldlM take s = .ok s') : P (before ++ options) s' := by
  induction options generalizing before s with
  | nil =>
    obtain rfl := Except.ok.inj hfold
    rwa [List.append_nil]
  | cons item options ih =>
    rw [List.foldlM_cons] at hfold
    cases htake : take s item with
    | error message =>
      rw [htake] at hfold
      exact nomatch hfold
    | ok next =>
      rw [htake] at hfold
      have hrest := ih (hstep before item s next h htake) hfold
      rwa [List.append_assoc] at hrest

/-- A property of the options so far and the state that every turn keeps holds of the whole command line. -/
theorem read_ok {takesValue : α → Bool} {take : σ → α × Option α → Except ε σ}
    {P : List (α × Option α) → σ → Prop} {s s' : σ} {args : List α} (h : P [] s)
    (hstep : ∀ before item s s', P before s → take s item = .ok s' → P (before ++ [item]) s')
    (hread : read takesValue take s args = .ok s') : P (items takesValue args) s' :=
  foldlM_ok hstep h hread

end Arguments
