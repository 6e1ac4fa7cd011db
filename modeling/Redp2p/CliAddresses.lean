import Redp2p.CliRequests

/-! The address of an index, which the command line program reads before it hands the same text to the
runner, which reads it again. -/

namespace Redp2p

open ByteString

/-! ### The last separator -/

theorem splitLast_append {sep : UInt8} {front back : Bytes} (h : sep ∉ back) :
    splitLast sep (front ++ sep :: back) = some (front, back) := by
  have hbehind : (front ++ sep :: back).reverse.takeWhile (· != sep) = back.reverse := by
    have hall : ∀ b ∈ back.reverse, (b != sep) = true := by
      intro b hb
      simp only [bne_iff_ne]
      rintro rfl
      exact h (List.mem_reverse.mp hb)
    rw [List.reverse_append, List.reverse_cons, List.append_assoc, List.takeWhile_append_of_pos hall]
    simp
  have hfront : (front ++ sep :: back).length - back.length - 1 = front.length := by
    rw [List.length_append, List.length_cons]
    omega
  unfold splitLast
  rw [if_pos (by simp)]
  simp only [hbehind, List.reverse_reverse, hfront, List.take_left]

theorem exists_last {sep : UInt8} {text : Bytes} (h : sep ∈ text) :
    ∃ front back, text = front ++ sep :: back ∧ sep ∉ back := by
  obtain ⟨back, front, hsplit, hback⟩ := List.eq_append_cons_of_mem (List.mem_reverse.mpr h)
  refine ⟨front.reverse, back.reverse, ?_, fun hmem => hback (List.mem_reverse.mp hmem)⟩
  rw [← List.reverse_reverse text, hsplit]
  simp

theorem splitLast_some {sep : UInt8} {text front back : Bytes} (h : splitLast sep text = some (front, back)) :
    text = front ++ sep :: back ∧ sep ∉ back := by
  by_cases hmem : sep ∈ text
  · obtain ⟨front', back', rfl, hback⟩ := exists_last hmem
    rw [splitLast_append hback] at h
    obtain ⟨rfl, rfl⟩ := Prod.mk.inj (Option.some.inj h)
    exact ⟨rfl, hback⟩
  · rw [splitLast, if_neg (by simpa using hmem)] at h
    exact nomatch h

/-! ### Hosts -/

/-- The host and the port in the address of the runner. -/
def runnerParseHost (addr : Bytes) : Option (Bytes × UInt16) :=
  match splitLast 0x3a addr with
  | some (host, port) =>
    if host.contains 0x3a then if addr.length ≥ 256 then none else some (addr, portDefault)
    else if host.length = 0 ∨ host.length ≥ 256 then none
    else (parseU port 1 65535).map fun value => (host, UInt16.ofNat value)
  | none => if addr.length = 0 ∨ addr.length ≥ 256 then none else some (addr, portDefault)

theorem runnerParseAddr_eq (text : Bytes) : runnerParseAddr text =
    match splitLast 0x40 text with
    | none => none
    | some (hostname, addr) =>
      if hostname.length = 0 ∨ hostname.length ≥ idMax + 1 then none
      else (runnerParseHost addr).map fun idx => (hostname, idx) := by
  unfold runnerParseAddr runnerParseHost
  cases splitLast 0x40 text with
  | none => rfl
  | some parts =>
    obtain ⟨hostname, addr⟩ := parts
    dsimp only
    split
    · rfl
    · cases splitLast 0x3a addr with
      | none =>
        dsimp only
        split <;> rfl
      | some parts =>
        obtain ⟨host, port⟩ := parts
        dsimp only
        split
        · split <;> rfl
        · split
          · rfl
          · rw [Option.map_map]
            rfl

namespace Cli

/-- Without a bracket both read the same host and port. -/
theorem parseAddr_plain {addr : Bytes} (h : addr.head? ≠ some 0x5b) :
    parseAddr addr 256 = runnerParseHost addr := by
  unfold parseAddr runnerParseHost
  split
  · rfl
  · exact absurd rfl h
  · next hne _ =>
    have hlength : addr.length ≠ 0 := by simpa using hne
    cases splitLast 0x3a addr with
    | none => simp [hlength]
    | some parts =>
      obtain ⟨host, port⟩ := parts
      dsimp only
      split
      · rfl
      · by_cases hport : port = []
        · subst hport
          simp [parseU]
        · simp only [List.length_eq_zero_iff, hport, or_false]
          by_cases hhost : host = []
          · simp [hhost]
          · simp only [hhost, if_false, false_or]
            rfl

/-! ### Brackets -/

/-- What may follow the bracket that closes a host. -/
def BracketTail (tail : Bytes) : Prop :=
  tail = [] ∨ ∃ port n, tail = 0x3a :: port ∧ decimalIn port 1 65535 = some n

/-- A host in brackets, with or without a port. -/
def BracketedHost (addr : Bytes) : Prop :=
  ∃ host tail, addr = 0x5b :: (host ++ 0x5d :: tail) ∧ 0x5d ∉ host ∧ 0 < host.length ∧ host.length < 256 ∧
    BracketTail tail

theorem parseBracketTail_some {host host' tail : Bytes} {port : UInt16}
    (h : parseBracketTail host tail = some (host', port)) : host' = host ∧ BracketTail tail := by
  unfold parseBracketTail at h
  split at h
  · obtain ⟨rfl, -⟩ := Prod.mk.inj (Option.some.inj h)
    exact ⟨rfl, Or.inl rfl⟩
  · next text =>
    split at h
    · exact nomatch h
    · obtain ⟨n, hn, hpair⟩ := Option.map_eq_some_iff.mp h
      obtain ⟨rfl, -⟩ := Prod.mk.inj hpair
      exact ⟨rfl, Or.inr ⟨text, n, rfl, by rwa [parseDecimal, parseU_eq] at hn⟩⟩
  · exact nomatch h

theorem parseBracketTail_isSome {host tail : Bytes} (h : BracketTail tail) :
    (parseBracketTail host tail).isSome = true := by
  obtain rfl | ⟨port, n, rfl, hn⟩ := h
  · rfl
  · have hne : port ≠ [] := (decimalIn_eq_some_iff.mp hn).1
    rw [← parseU_eq] at hn
    simp [parseBracketTail, hne, parseDecimal, hn]

theorem parseAddr_bracket (rest : Bytes) (hostSz : Nat) : parseAddr (0x5b :: rest) hostSz =
    if !rest.contains 0x5d then none
    else
      let host := rest.takeWhile (· != 0x5d)
      if host.length = 0 ∨ host.length ≥ hostSz then none
      else parseBracketTail host (rest.drop (host.length + 1)) := rfl

theorem parseAddr_bracketed {rest host : Bytes} {port : UInt16}
    (h : parseAddr (0x5b :: rest) 256 = some (host, port)) :
    ∃ tail, rest = host ++ 0x5d :: tail ∧ 0x5d ∉ host ∧ 0 < host.length ∧ host.length < 256 ∧
      BracketTail tail := by
  rw [parseAddr_bracket] at h
  split at h
  · exact nomatch h
  next hclosed =>
  dsimp only at h
  split at h
  · exact nomatch h
  next hlength =>
  obtain ⟨rfl, htail⟩ := parseBracketTail_some h
  have hmem : (0x5d : UInt8) ∈ rest := by simpa using hclosed
  obtain ⟨front, back, rfl, hfront⟩ := List.eq_append_cons_of_mem hmem
  have hhost : (front ++ 0x5d :: back).takeWhile (· != 0x5d) = front := by
    rw [List.takeWhile_append_of_pos fun b hb => ?_]
    · simp
    · simp only [bne_iff_ne]
      rintro rfl
      exact hfront hb
  rw [hhost] at hlength htail ⊢
  refine ⟨back, rfl, hfront, by omega, by omega, ?_⟩
  rwa [← List.singleton_append, ← List.append_assoc, List.drop_left' (by simp)] at htail

theorem parseAddr_of_bracketed {addr : Bytes} (h : BracketedHost addr) :
    (parseAddr addr 256).isSome = true := by
  obtain ⟨host, tail, rfl, hhost, hpos, hlt, htail⟩ := h
  have htake : (host ++ 0x5d :: tail).takeWhile (· != 0x5d) = host := by
    rw [List.takeWhile_append_of_pos fun b hb => ?_]
    · simp
    · simp only [bne_iff_ne]
      rintro rfl
      exact hhost hb
  have hlength : ¬ (host.length = 0 ∨ host.length ≥ 256) := by omega
  have hdrop : (host ++ 0x5d :: tail).drop (host.length + 1) = tail := by
    rw [← List.singleton_append, ← List.append_assoc, List.drop_left' (by simp)]
  rw [parseAddr_bracket, if_neg (by simp)]
  simp only [htake, hlength, hdrop, if_false]
  exact parseBracketTail_isSome htail

/-- The runner never finds the host between the brackets. -/
theorem runnerParseHost_bracketed {host tail : Bytes} (hne : host ≠ []) (port : UInt16) :
    runnerParseHost (0x5b :: (host ++ 0x5d :: tail)) ≠ some (host, port) := by
  intro h
  have hlonger : 0x5b :: (host ++ 0x5d :: tail) ≠ host := by
    intro heq
    have hlength := congrArg List.length heq
    simp only [List.length_cons, List.length_append] at hlength
    omega
  unfold runnerParseHost at h
  split at h
  · next front back hsplit =>
    split at h
    · split at h
      · exact nomatch h
      · exact hlonger (Prod.mk.inj (Option.some.inj h)).1
    next hcolon =>
    split at h
    · exact nomatch h
    -- The colon would be the last byte of the host, but the runner leaves no colon in it.
    obtain ⟨n, -, hpair⟩ := Option.map_eq_some_iff.mp h
    obtain rfl := (Prod.mk.inj hpair).1
    obtain ⟨init, last, rfl⟩ := (List.eq_nil_or_concat front).resolve_left hne
    have heq := (splitLast_some hsplit).1
    rw [List.concat_eq_append, List.append_assoc, ← List.cons_append] at heq
    have hlast := (List.append_inj heq (by simp)).2
    obtain ⟨rfl, -⟩ := List.cons.inj hlast
    simp at hcolon
  · split at h
    · exact nomatch h
    · exact hlonger (Prod.mk.inj (Option.some.inj h)).1

/-! ### Specifications -/

theorem parseHostspec_eq (spec : Bytes) : parseHostspec spec (idMax + 1) 256 =
    match splitLast 0x40 spec with
    | none => none
    | some (hostname, addr) =>
      if hostname.length = 0 ∨ hostname.length ≥ idMax + 1 then none
      else (parseAddr addr 256).map fun idx => (hostname, idx) := by
  unfold parseHostspec
  split
  · next hempty =>
    subst hempty
    rfl
  · rfl

/-- A specification with a host in brackets, `id@[host]` or `id@[host]:port`. -/
def BracketedSpec (spec : Bytes) : Prop :=
  ∃ id addr, spec = id ++ 0x40 :: addr ∧ 0x40 ∉ addr ∧ 0 < id.length ∧ id.length ≤ idMax ∧
    BracketedHost addr

theorem parseHostspec_plain {spec : Bytes} (h : ¬ BracketedSpec spec) {r : Bytes × Bytes × UInt16}
    (hr : parseHostspec spec (idMax + 1) 256 = some r) : runnerParseAddr spec = some r := by
  rw [parseHostspec_eq] at hr
  rw [runnerParseAddr_eq]
  cases hsplit : splitLast 0x40 spec with
  | none =>
    rw [hsplit] at hr
    exact nomatch hr
  | some parts =>
    obtain ⟨id, addr⟩ := parts
    obtain ⟨rfl, hid⟩ := splitLast_some hsplit
    rw [hsplit] at hr
    dsimp only at hr ⊢
    split at hr
    · exact nomatch hr
    next hlength =>
    rw [if_neg hlength]
    by_cases hhead : addr.head? = some 0x5b
    · exfalso
      obtain ⟨rest, rfl⟩ := List.head?_eq_some_iff.mp hhead
      obtain ⟨⟨host, port⟩, hparse, -⟩ := Option.map_eq_some_iff.mp hr
      obtain ⟨tail, rfl, hhost⟩ := parseAddr_bracketed hparse
      exact h ⟨id, _, rfl, hid, by omega, by omega, host, tail, rfl, hhost⟩
    · rwa [← parseAddr_plain hhead]

theorem parseHostspec_bracketed {spec : Bytes} (h : BracketedSpec spec) :
    ∃ r, parseHostspec spec (idMax + 1) 256 = some r ∧ runnerParseAddr spec ≠ some r := by
  obtain ⟨id, addr, rfl, hid, hpos, hlength, hbracket⟩ := h
  obtain ⟨⟨host, port⟩, hparse⟩ := Option.isSome_iff_exists.mp (parseAddr_of_bracketed hbracket)
  have hguard : ¬ (id.length = 0 ∨ id.length ≥ idMax + 1) := by omega
  refine ⟨(id, host, port), ?_, ?_⟩
  · rw [parseHostspec_eq, splitLast_append hid]
    simp only [hguard, if_false, hparse, Option.map_some]
  · rw [runnerParseAddr_eq, splitLast_append hid]
    simp only [hguard, if_false]
    intro hr
    obtain ⟨idx, hrunner, hpair⟩ := Option.map_eq_some_iff.mp hr
    obtain ⟨-, rfl⟩ := Prod.mk.inj hpair
    obtain ⟨host', tail, rfl, -⟩ := hbracket
    obtain ⟨tail', hsame, -, hne, -⟩ := parseAddr_bracketed hparse
    rw [hsame] at hrunner
    exact runnerParseHost_bracketed (List.length_pos_iff.mp hne) port hrunner

/-- A command whose specification is refused opens nothing. -/
theorem clientMain_refused {spec : Bytes} (h : parseHostspec spec (idMax + 1) 256 = none) (client : Client)
    (host : Host) (name : Bytes) (argv : List Bytes) :
    clientMain client host name (spec :: argv) =
      .fails (ascii "invalid spec '" ++ spec ++ ascii "' (expected host@index:port)") := by
  rw [clientMain, h]

/-- What a command opens, it opens with the request for its specification. -/
theorem clientMain_opens {client : Client} {host : Host} {name spec : Bytes} {argv : List Bytes}
    {args : JsonObject Rat} {path : Option Bytes}
    (h : clientMain client host name (spec :: argv) = .opens args path) :
    ∃ a stateDir, args = clientRequest client spec a stateDir := by
  have hrun : ∀ a, clientRun client host spec a = .opens args path →
      ∃ stateDir, args = clientRequest client spec a stateDir := by
    intro a ha
    unfold clientRun at ha
    repeat' split at ha
    all_goals cases ha
    exact ⟨_, rfl⟩
  rw [clientMain] at h
  split at h
  · exact nomatch h
  split at h
  · exact nomatch h
  split at h
  · exact nomatch h
  · next a _ => exact ⟨a, hrun a h⟩

/-- The program and the runner agree on a specification: what the program accepts the runner reads alike,
what the program refuses the runner refuses or never gets, and it gets nothing but the specification. -/
structure SpecsAgree (spec : Bytes) : Prop where
  accepted : ∀ r, parseHostspec spec (idMax + 1) 256 = some r → runnerParseAddr spec = some r
  refused : parseHostspec spec (idMax + 1) 256 = none → runnerParseAddr spec = none ∨
    ∀ client host name argv args path, clientMain client host name (spec :: argv) ≠ .opens args path
  passed : ∀ client host name argv args path text,
    clientMain client host name (spec :: argv) = .opens args path →
      args.getString (ascii "addr") = some text → text = cstr spec

/-- They agree on every specification but those with a host in brackets. -/
theorem specs_agree_iff (spec : Bytes) : SpecsAgree spec ↔ ¬ BracketedSpec spec := by
  constructor
  · intro h hbracket
    obtain ⟨r, hr, hrunner⟩ := parseHostspec_bracketed hbracket
    exact hrunner (h.accepted r hr)
  · intro h
    refine ⟨fun r hr => parseHostspec_plain h hr, fun hnone => Or.inr ?_, ?_⟩
    · intro client host name argv args path hopens
      rw [clientMain_refused hnone] at hopens
      exact nomatch hopens
    · intro client host name argv args path text hopens htext
      obtain ⟨a, stateDir, rfl⟩ := clientMain_opens hopens
      unfold JsonObject.getString at htext
      rw [clientRequest_addr] at htext
      cases hvalid : isValidUtf8 spec with
      | true =>
        rw [hvalid] at htext
        exact (Option.some.inj htext).symm
      | false =>
        rw [hvalid] at htext
        exact nomatch htext

/-- The program looks for the index on port 7777 of `::1`, and the runner on the default port of a host
that is named with the brackets and the port. -/
theorem specs_differ : ¬ SpecsAgree (ascii "a@[::1]:7777") := by
  intro h
  have hrunner := h.accepted (ascii "a", ascii "::1", 7777) (by decide +kernel)
  exact absurd hrunner (by decide +kernel)

end Cli

end Redp2p
