import Redp2p.Punch

/-! What the parser of punch packets accepts, and which packets it reads back as they were written. -/

namespace Redp2p

open ByteString

theorem parseField_split {cursor field rest : Bytes} {cap : Nat} {delim : UInt8}
    (h : parseField cursor cap (some delim) = some (field, rest)) : cursor = field ++ delim :: rest := by
  unfold parseField at h
  dsimp only at h
  split at h
  · exact nomatch h
  rename_i hguard
  simp only [not_or, Bool.not_eq_true', Bool.not_eq_false] at hguard
  obtain ⟨rfl, rfl⟩ := Prod.mk.inj (Option.some.inj h)
  have hsplit := List.takeWhile_append_dropWhile (p := (· != delim)) (l := cursor)
  have hdrop : ∀ head tail, cursor = head ++ delim :: tail →
      cursor = head ++ delim :: cursor.drop (head.length + 1) := by
    rintro head tail rfl
    simp
  cases hrest : cursor.dropWhile (· != delim) with
  | nil =>
    have hall := List.dropWhile_eq_nil_iff.mp hrest delim (List.contains_iff_mem.mp hguard.1)
    simp at hall
  | cons b tail =>
    have hb : b = delim := by
      have hhead := List.head?_dropWhile_not (· != delim) cursor
      rw [hrest] at hhead
      simpa using hhead
    rw [hrest, hb] at hsplit
    exact hdrop _ tail hsplit.symm

theorem parseField_rest {cursor field rest : Bytes} {cap : Nat}
    (h : parseField cursor cap none = some (field, rest)) : field = cursor := by
  unfold parseField at h
  dsimp only at h
  split at h
  · exact nomatch h
  · exact (Prod.mk.inj (Option.some.inj h)).1.symm

theorem stripLineEnds_split (text : Bytes) :
    ∃ ending, (∀ c ∈ ending, isLineEnd c = true) ∧ text = stripLineEnds text ++ ending := by
  refine ⟨(text.reverse.takeWhile isLineEnd).reverse, ?_, ?_⟩
  · intro c hc
    exact List.mem_takeWhile_imp (List.mem_reverse.mp hc)
  · rw [stripLineEnds, ← List.reverse_append, List.takeWhile_append_dropWhile, List.reverse_reverse]

/-- What the parser accepts: the token, the fields of the packet with valid contents, and line ends. -/
def IsPunchPacket (token : Bytes) (packet : PunchPacket) (text : Bytes) : Prop :=
  isSessionToken packet.session = true ∧ isPunchId packet.fromId = true ∧ isPunchId packet.toId = true ∧
    ∃ ending, (∀ c ∈ ending, isLineEnd c = true) ∧
      text = token ++ packet.session ++ ascii ":" ++ packet.fromId ++ ascii ":" ++ packet.toId ++ ending

theorem parsePunchPacket_accepts {text token : Bytes} {packet : PunchPacket}
    (h : parsePunchPacket text token = some packet) : IsPunchPacket token packet text := by
  simp only [parsePunchPacket, Option.bind_eq_bind, Option.bind_eq_some_iff, Option.guard_eq_some',
    Option.pure_def, Option.some.injEq, Prod.exists] at h
  obtain ⟨_, hstart, session, rest, hsession, fromId, rest', hfrom, toId, rest'', hto, _, htokens, rfl⟩ := h
  simp only [Bool.and_eq_true] at htokens
  obtain ⟨ending, hending, hsplit⟩ := stripLineEnds_split toId
  obtain ⟨tail, rfl⟩ := List.isPrefixOf_iff_prefix.mp hstart
  have hcolon : ascii ":" = [0x3a] := by decide
  refine ⟨htokens.1.1, htokens.1.2, htokens.2, ending, hending, ?_⟩
  have hcursor : tail = session ++ 0x3a :: rest := by
    simpa using parseField_split hsession
  calc token ++ tail
      = token ++ (session ++ 0x3a :: (fromId ++ 0x3a :: toId)) := by
        rw [hcursor, parseField_split hfrom, parseField_rest hto]
    _ = token ++ (session ++ 0x3a :: (fromId ++ 0x3a :: (stripLineEnds toId ++ ending))) := by
        rw [← hsplit]
    _ = _ := by simp [hcolon]

/-- A packet that was written with a line end is read back, and nothing but such packets is accepted,
exactly for the identifiers that leave room for the line end in the last field. -/
theorem punch_packet_round_trip_iff {token session a b : Bytes} (htoken : IsPunchToken token)
    (hsession : isSessionToken session = true) (ha : isValidId a = true) (hb : isValidId b = true) :
    (parsePunchPacket (punchText token session a b (ascii "\n")) token = some ⟨session, a, b⟩ ∧
      ∀ text packet, parsePunchPacket text token = some packet → IsPunchPacket token packet text) ↔
      b.length < idMax := by
  have hparse := parsePunchPacket_punchText htoken hsession ha hb (Or.inr rfl)
  have hending : (ascii "\n").length = 1 := rfl
  rw [hparse, hending]
  constructor
  · rintro ⟨hread, -⟩
    by_contra hlong
    rw [if_neg (by omega)] at hread
    exact nomatch hread
  · intro hshort
    rw [if_pos (by omega)]
    exact ⟨rfl, fun _ _ => parsePunchPacket_accepts⟩

theorem punch_packet_round_trip_short :
    IsPunchToken ctrtokPunchPing ∧ isSessionToken (ascii "5f") = true ∧ isValidId (ascii "ana") = true ∧
      isValidId (ascii "bob") = true ∧
      ((parsePunchPacket (punchText ctrtokPunchPing (ascii "5f") (ascii "ana") (ascii "bob") (ascii "\n"))
          ctrtokPunchPing = some ⟨ascii "5f", ascii "ana", ascii "bob"⟩ ∧
        ∀ text packet, parsePunchPacket text ctrtokPunchPing = some packet →
          IsPunchPacket ctrtokPunchPing packet text) ↔ (ascii "bob").length < idMax) :=
  ⟨Or.inl rfl, by decide, by decide, by decide,
    punch_packet_round_trip_iff (Or.inl rfl) (by decide) (by decide) (by decide)⟩

/-- An identifier of the greatest length that is valid. -/
def longestId : Bytes := List.replicate idMax 0x61

/-- The parser refuses a packet for the longest identifier. -/
theorem punch_packet_refused :
    isSessionToken (ascii "5f") = true ∧ isValidId (ascii "ana") = true ∧ isValidId longestId = true ∧
      parsePunchPacket (punchText ctrtokPunchPing (ascii "5f") (ascii "ana") longestId (ascii "\n"))
        ctrtokPunchPing = none := by
  decide +kernel

end Redp2p
