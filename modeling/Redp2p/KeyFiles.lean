import Redp2p.Sessions
import Redp2p.Sha256

/-! The key files of a publisher: where they lie, what counts as a key in one, and how they are read,
replaced and removed. The outcome of every system call is given from outside. -/

namespace Redp2p

open ByteString

/-! ### Paths -/

/-- What the paths depend on. -/
structure KeyEnv where
  stateDir : Bytes
  home : Option Bytes

structure KeyPaths where
  dir : Bytes
  scopedPath : Bytes
  legacyPath : Bytes

def keyDirMax : Nat := 768
def keyPathMax : Nat := 848

/-- `redp2p_key_scope_hash`. -/
def keyScopeHash (indexHost : Bytes) (indexPort : UInt16) (id : Bytes) : Bytes :=
  let stop : Bytes := [0]
  let port : Bytes := [(indexPort >>> 8).toUInt8, indexPort.toUInt8]
  sha256 (ascii "redp2p-key-v1" ++ stop ++ indexHost ++ stop ++ port ++ id ++ stop)

/-- The directory of the key files. -/
def keyDir (env : KeyEnv) : Option Bytes :=
  if env.stateDir ≠ [] then some (env.stateDir ++ ascii "/keys")
  else
    match env.home with
    | none => none
    | some base => if base = [] then none else some (base ++ ascii "/.local/share/redp2p/keys")

/-- `redp2p_key_paths`. -/
def keyPaths (env : KeyEnv) (indexHost : Bytes) (indexPort : UInt16) (id : Bytes) : Option KeyPaths :=
  match keyDir env with
  | none => none
  | some dir =>
    if dir.length ≥ keyDirMax then none
    else
      let scopedPath := dir ++ ascii "/" ++ hexEncode (keyScopeHash indexHost indexPort id)
      let legacyPath := dir ++ ascii "/" ++ id
      if scopedPath.length ≥ keyPathMax then none
      else if legacyPath.length ≥ keyPathMax then none
      else some ⟨dir, scopedPath, legacyPath⟩

/-! ### Files -/

inductive KeyFile where
  | absent
  | regular (content : Bytes)
  | other
  deriving DecidableEq

/-- What lies at every path. -/
abbrev KeyStore := Bytes → KeyFile

/-- The length of what stands in a key file before its line ending. -/
def keyLen (data : Bytes) : Nat :=
  if data.length = keySz + 1 ∧ data[data.length - 1]? = some 0x0a then data.length - 1
  else if data.length = keySz + 2 ∧ data[data.length - 2]? = some 0x0d ∧
      data[data.length - 1]? = some 0x0a then data.length - 2
  else data.length

/-- `redp2p_key_parse`. -/
def keyParse (data : Bytes) : Option Bytes :=
  if keyLen data ≠ keySz then none
  else if (data.take (keyLen data)).all isHexDigit then some (data.take (keyLen data)) else none

/-- Which of the calls that read a key file succeed, as far as the file lets them. -/
structure LoadIo where
  opens : Bool
  inspects : Bool
  reads : Bool
  closes : Bool

/-- `redp2p_load_key_posix`. -/
def loadKeyPosix (io : LoadIo) (file : KeyFile) : Except Status Bytes :=
  if !io.opens then .error .error
  else
    match file with
    | .absent => .error .enoent
    | .other => .error .error
    | .regular content =>
      if !io.inspects then .error .error
      else if content.length < keySz ∨ content.length > keySz + 2 then .error .eproto
      else if !io.reads then .error .error
      else if !io.closes then .error .error
      else .ok (content.take (keySz + 3))

def loadKeyPath (io : LoadIo) (file : KeyFile) : Except Status Bytes :=
  match loadKeyPosix io file with
  | .error status => .error status
  | .ok data =>
    match keyParse data with
    | none => .error .eproto
    | some key => .ok key

/-- Which of the steps of a replacement succeed. -/
structure SaveIo where
  makesDir : Bool
  names : Bool
  creates : Bool
  writes : Bool
  chmods : Bool
  syncs : Bool
  closes : Bool
  renames : Bool
  opensDir : Bool
  syncsDir : Bool
  closesDir : Bool

/-- What `redp2p_save_key` writes for a key. -/
def keyContent (key : Bytes) : Bytes := key.take keySz ++ [0x0a]

/-- `redp2p_save_key_posix`. The temporary file, which is no key file, is left out. -/
def saveKeyPosix (io : SaveIo) (paths : KeyPaths) (content : Bytes) (files : KeyStore) :
    KeyStore × Status :=
  if !io.creates then (files, .error)
  else if !io.writes || !io.chmods || !io.syncs then (files, .error)
  else if !io.closes then (files, .error)
  else if !io.renames then (files, .error)
  else
    let files := Function.update files paths.scopedPath (.regular content)
    if !io.opensDir then (files, .error)
    else if !io.syncsDir then (files, .error)
    else if !io.closesDir then (files, .error)
    else (files, .ok)

/-- `redp2p_save_key`. -/
def saveKey (io : SaveIo) (paths : KeyPaths) (key : Bytes) (files : KeyStore) : KeyStore × Status :=
  if !io.makesDir then (files, .error)
  else if !io.names then (files, .error)
  else saveKeyPosix io paths (keyContent key) files

structure RemoveIo where
  load : LoadIo
  unlinks : Bool

/-- `redp2p_remove_key`. The lock keeps the threads of this process out, but not other processes: those
may change the files between the reading and the removal. -/
def removeKey (io : RemoveIo) (meanwhile : KeyStore → KeyStore) (path key : Bytes) (files : KeyStore) :
    KeyStore × Status :=
  match loadKeyPath io.load (files path) with
  | .error .enoent => (files, .ok)
  | .error _ => (files, .error)
  | .ok current =>
    if current ≠ key then (files, .error)
    else
      let files := meanwhile files
      if !io.unlinks || files path = .absent then (files, .error)
      else (Function.update files path .absent, .ok)

/-- How the request of a deregistration goes: whether it is allocated, whether the index is reached and
the request written, and what the reply comes to. -/
structure DeregisterRequest where
  allocates : Bool
  isWritten : Bool
  reply : Status

/-- The request reaches the index. -/
def DeregisterRequest.goesOut (request : DeregisterRequest) : Bool := request.allocates && request.isWritten

/-- `redp2p_deregister_with_key`, with the keys of the requests that it sends. A request that cannot be
written fails like the connection in `redp2p_http_client`. -/
def deregisterWithKey (request : DeregisterRequest) (key : Bytes) : Status × List Bytes :=
  if key = [] then (.enoent, [])
  else if !request.allocates then (.error, [])
  else if !request.isWritten then (.enet, [])
  else (request.reply, [key])

/-- The index accepted the deregistration. -/
def DeregisterRequest.accepted (request : DeregisterRequest) : Prop :=
  request.goesOut = true ∧ request.reply = .ok

theorem deregisterWithKey_sent (request : DeregisterRequest) {key : Bytes} (h : key ≠ []) :
    (deregisterWithKey request key).2 = if request.goesOut then [key] else [] := by
  obtain ⟨allocates, isWritten, reply⟩ := request
  rw [deregisterWithKey, if_neg h]
  cases allocates <;> cases isWritten <;> rfl

theorem deregisterWithKey_ok_iff (request : DeregisterRequest) {key : Bytes} (h : key ≠ []) :
    (deregisterWithKey request key).1 = .ok ↔ request.accepted := by
  obtain ⟨allocates, isWritten, reply⟩ := request
  rw [deregisterWithKey, if_neg h]
  cases allocates <;> cases isWritten <;> simp [DeregisterRequest.accepted, DeregisterRequest.goesOut]

/-! ### Keys in files -/

/-- A file holds a key. -/
def KeyFile.Holds (file : KeyFile) (key : Bytes) : Prop :=
  ∃ content, file = .regular content ∧ keyParse content = some key

theorem take_append_one {data : Bytes} {n : Nat} {b : UInt8} (hlength : data.length = n + 1)
    (hb : data[n]? = some b) : data = data.take n ++ [b] := by
  obtain ⟨hbound, hget⟩ := List.getElem?_eq_some_iff.mp hb
  have hdrop : data.drop n = [b] := by
    rw [List.drop_eq_getElem_cons hbound, hget, List.drop_of_length_le (by omega)]
  calc data = data.take n ++ data.drop n := (List.take_append_drop n data).symm
    _ = data.take n ++ [b] := by rw [hdrop]

theorem take_append_two {data : Bytes} {n : Nat} {a b : UInt8} (hlength : data.length = n + 2)
    (ha : data[n]? = some a) (hb : data[n + 1]? = some b) : data = data.take n ++ [a, b] := by
  have hinit : data.take (n + 1) = (data.take (n + 1)).take n ++ [a] :=
    take_append_one (by rw [List.length_take]; omega)
      (by rw [List.getElem?_take, if_pos (Nat.lt_succ_self n), ha])
  rw [List.take_take, Nat.min_eq_left (Nat.le_succ n)] at hinit
  calc data = data.take (n + 1) ++ [b] := take_append_one (by omega) hb
    _ = data.take n ++ [a, b] := by rw [hinit, List.append_assoc, List.singleton_append]

/-- What is left of a key file of this length without its line ending. -/
theorem keyLen_eq {data : Bytes} (h : keyLen data = keySz) :
    (data.take keySz).length = keySz ∧
      (data = data.take keySz ∨ data = data.take keySz ++ [0x0a] ∨
        data = data.take keySz ++ [0x0d, 0x0a]) := by
  unfold keyLen at h
  split at h
  · rename_i hlf
    refine ⟨by rw [List.length_take]; omega, Or.inr (Or.inl (take_append_one hlf.1 ?_))⟩
    rw [← hlf.2, hlf.1]
    rfl
  split at h
  · rename_i hcrlf
    refine ⟨by rw [List.length_take]; omega, Or.inr (Or.inr (take_append_two hcrlf.1 ?_ ?_))⟩
    · rw [← hcrlf.2.1, hcrlf.1]
      rfl
    · rw [← hcrlf.2.2, hcrlf.1]
      rfl
  · have hwhole : data.take keySz = data := List.take_of_length_le (Nat.le_of_eq h)
    exact ⟨by rw [hwhole, h], Or.inl hwhole.symm⟩

theorem keyLen_append {key ending : Bytes} (hlength : key.length = keySz)
    (hending : ending = [] ∨ ending = [0x0a] ∨ ending = [0x0d, 0x0a]) : keyLen (key ++ ending) = keySz := by
  unfold keyLen
  rcases hending with rfl | rfl | rfl
  · rw [List.append_nil, hlength, if_neg (by omega), if_neg (by omega)]
  · have hlast : (key ++ [0x0a])[keySz]? = some 0x0a := by
      rw [← hlength, List.getElem?_concat_length]
    rw [List.length_append, hlength, List.length_singleton, Nat.add_sub_cancel, if_pos ⟨rfl, hlast⟩]
  · have hget : ∀ k, (key ++ [0x0d, 0x0a])[keySz + k]? = ([0x0d, 0x0a] : Bytes)[k]? := by
      intro k
      rw [List.getElem?_append_right (by omega), hlength, Nat.add_sub_cancel_left]
    have hsize : (key ++ [0x0d, 0x0a]).length = keySz + 2 := by simp [hlength]
    rw [hsize, if_neg (by omega), Nat.add_sub_cancel, if_pos ⟨rfl, hget 0, hget 1⟩]

/-- A key file is sixteen hex digits, with or without a line ending. -/
theorem keyParse_iff {data key : Bytes} : keyParse data = some key ↔
    isHexToken key keySz = true ∧
      (data = key ∨ data = key ++ [0x0a] ∨ data = key ++ [0x0d, 0x0a]) := by
  unfold keyParse
  constructor
  · intro h
    split at h
    · exact nomatch h
    rename_i hlen
    rw [Decidable.not_not.mp hlen] at h
    split at h
    · rename_i hhex
      obtain rfl := Option.some.inj h
      obtain ⟨hlength, hdata⟩ := keyLen_eq (Decidable.not_not.mp hlen)
      exact ⟨isHexToken_iff.mpr ⟨hlength, List.all_eq_true.mp hhex⟩, hdata⟩
    · exact nomatch h
  · rintro ⟨hkey, hdata⟩
    obtain ⟨hlength, hhex⟩ := isHexToken_iff.mp hkey
    obtain ⟨ending, rfl, hending⟩ : ∃ ending, data = key ++ ending ∧
        (ending = [] ∨ ending = [0x0a] ∨ ending = [0x0d, 0x0a]) := by
      rcases hdata with rfl | rfl | rfl
      · exact ⟨[], (List.append_nil _).symm, Or.inl rfl⟩
      · exact ⟨[0x0a], rfl, Or.inr (Or.inl rfl)⟩
      · exact ⟨[0x0d, 0x0a], rfl, Or.inr (Or.inr rfl)⟩
    rw [keyLen_append hlength hending, List.take_append_of_le_length (Nat.le_of_eq hlength.symm),
      List.take_of_length_le (Nat.le_of_eq hlength)]
    rw [if_neg (not_not_intro rfl), if_pos (List.all_eq_true.mpr hhex)]

/-- What is written for a key holds it. -/
theorem keyParse_keyContent {key : Bytes} (h : isHexToken key keySz = true) :
    keyParse (keyContent key) = some key := by
  have hwhole : key.take keySz = key := List.take_of_length_le (Nat.le_of_eq (isHexToken_iff.mp h).1)
  exact keyParse_iff.mpr ⟨h, Or.inr (Or.inl (by rw [keyContent, hwhole]))⟩

def sampleKey : Bytes := ascii "0123456789abcdef"

example : keyParse (sampleKey ++ [0x0d, 0x0a]) = some sampleKey := by decide +kernel

example : keyParse (sampleKey ++ [0x20]) = none := by decide +kernel

/-! ### Outcomes -/

/-- Every call that reads a key file succeeds. -/
def LoadIo.works (io : LoadIo) : Bool := io.opens && io.inspects && io.reads && io.closes

theorem loadKeyPosix_ok {io : LoadIo} {file : KeyFile} {data : Bytes}
    (h : loadKeyPosix io file = .ok data) : io.works = true ∧ file = .regular data := by
  unfold loadKeyPosix at h
  split at h
  · exact nomatch h
  rename_i hopens
  split at h
  · exact nomatch h
  · exact nomatch h
  rename_i content
  split at h
  · exact nomatch h
  rename_i hinspects
  split at h
  · exact nomatch h
  rename_i hsize
  split at h
  · exact nomatch h
  rename_i hreads
  split at h
  · exact nomatch h
  rename_i hcloses
  rw [List.take_of_length_le (by omega)] at h
  simp only [Bool.not_eq_true', Bool.not_eq_false] at hopens hinspects hreads hcloses
  exact ⟨by rw [LoadIo.works, hopens, hinspects, hreads, hcloses]; rfl, by rw [Except.ok.inj h]⟩

/-- Only a file that holds a key gives it, and only if it can be read. -/
theorem loadKeyPath_ok_iff {io : LoadIo} {file : KeyFile} {key : Bytes} :
    loadKeyPath io file = .ok key ↔ io.works = true ∧ file.Holds key := by
  constructor
  · intro h
    unfold loadKeyPath at h
    split at h
    · exact nomatch h
    rename_i data hload
    obtain ⟨hworks, hfile⟩ := loadKeyPosix_ok hload
    split at h
    · exact nomatch h
    · rename_i hparse
      exact ⟨hworks, data, hfile, by rw [hparse, Except.ok.inj h]⟩
  · rintro ⟨hworks, content, rfl, hparse⟩
    simp only [LoadIo.works, Bool.and_eq_true] at hworks
    obtain ⟨⟨⟨hopens, hinspects⟩, hreads⟩, hcloses⟩ := hworks
    have hsize : keySz ≤ content.length ∧ content.length ≤ keySz + 2 := by
      obtain ⟨hkey, hcontent⟩ := keyParse_iff.mp hparse
      have hlength := (isHexToken_iff.mp hkey).1
      rcases hcontent with rfl | rfl | rfl
      · omega
      · simp [hlength]
      · simp [hlength]
    have hload : loadKeyPosix io (.regular content) = .ok content := by
      simp only [loadKeyPosix, hopens, hinspects, hreads, hcloses, Bool.not_true, Bool.false_eq_true,
        if_false]
      rw [if_neg (by omega), List.take_of_length_le (by omega)]
    rw [loadKeyPath, hload]
    simp only [hparse]

/-- How a reading fails: for a file that is missing, for a failed call, or for what the file holds. -/
theorem loadKeyPath_failed {io : LoadIo} {file : KeyFile} {status : Status}
    (h : loadKeyPath io file = .error status) :
    status = .enoent ∧ file = .absent ∨ status = .error ∨ status = .eproto := by
  unfold loadKeyPath at h
  split at h
  · rename_i hload
    obtain rfl := Except.error.inj h
    unfold loadKeyPosix at hload
    split at hload
    · exact Or.inr (Or.inl (Except.error.inj hload).symm)
    split at hload
    · exact Or.inl ⟨(Except.error.inj hload).symm, rfl⟩
    · exact Or.inr (Or.inl (Except.error.inj hload).symm)
    split at hload
    · exact Or.inr (Or.inl (Except.error.inj hload).symm)
    split at hload
    · exact Or.inr (Or.inr (Except.error.inj hload).symm)
    split at hload
    · exact Or.inr (Or.inl (Except.error.inj hload).symm)
    split at hload
    · exact Or.inr (Or.inl (Except.error.inj hload).symm)
    · exact nomatch hload
  · split at h
    · exact Or.inr (Or.inr (Except.error.inj h).symm)
    · exact nomatch h

/-- A file that is there is not reported as missing. -/
theorem loadKeyPath_enoent {io : LoadIo} {file : KeyFile} (h : loadKeyPath io file = .error .enoent) :
    file = .absent := by
  obtain ⟨-, hfile⟩ | hstatus | hstatus := loadKeyPath_failed h
  · exact hfile
  · exact nomatch hstatus
  · exact nomatch hstatus

/-- A failed reading is reported as a failure. -/
theorem loadKeyPath_error {io : LoadIo} {file : KeyFile} {status : Status}
    (h : loadKeyPath io file = .error status) : status ≠ .ok := by
  obtain ⟨rfl, -⟩ | rfl | rfl := loadKeyPath_failed h <;> exact nofun

/-- The new file takes the place of the old one. -/
def SaveIo.replaces (io : SaveIo) : Bool :=
  io.makesDir && io.names && io.creates && io.writes && io.chmods && io.syncs && io.closes && io.renames

/-- The replacement is durable. -/
def SaveIo.completes (io : SaveIo) : Bool := io.replaces && io.opensDir && io.syncsDir && io.closesDir

/-- A key is stored, or stored and reported as not stored, or the files stay as they are. -/
theorem saveKey_eq (io : SaveIo) (paths : KeyPaths) (key : Bytes) (files : KeyStore) :
    saveKey io paths key files =
      (if io.replaces then Function.update files paths.scopedPath (.regular (keyContent key)) else files,
        if io.completes then .ok else .error) := by
  obtain ⟨makesDir, names, creates, writes, chmods, syncs, closes, renames, opensDir, syncsDir, closesDir⟩ := io
  unfold saveKey saveKeyPosix SaveIo.completes SaveIo.replaces
  dsimp only
  cases makesDir; · rfl
  cases names; · rfl
  cases creates; · rfl
  cases writes; · rfl
  cases chmods; · rfl
  cases syncs; · rfl
  cases closes; · rfl
  cases renames; · rfl
  cases opensDir; · rfl
  cases syncsDir; · rfl
  cases closesDir <;> rfl

/-- A removal finds no file, or finds the key and the file is gone or cannot be removed, or leaves the
files as they are. -/
theorem removeKey_cases (io : RemoveIo) (meanwhile : KeyStore → KeyStore) (path key : Bytes)
    (files : KeyStore) :
    (loadKeyPath io.load (files path) = .error .enoent ∧
      removeKey io meanwhile path key files = (files, .ok)) ∨
    (loadKeyPath io.load (files path) = .ok key ∧ io.unlinks = true ∧ meanwhile files path ≠ .absent ∧
      removeKey io meanwhile path key files = (Function.update (meanwhile files) path .absent, .ok)) ∨
    (loadKeyPath io.load (files path) = .ok key ∧
      (io.unlinks = false ∨ meanwhile files path = .absent) ∧
      removeKey io meanwhile path key files = (meanwhile files, .error)) ∨
    (loadKeyPath io.load (files path) ≠ .error .enoent ∧ loadKeyPath io.load (files path) ≠ .ok key ∧
      removeKey io meanwhile path key files = (files, .error)) := by
  unfold removeKey
  split
  · rename_i hload
    exact Or.inl ⟨hload, rfl⟩
  · rename_i status hne hload
    refine Or.inr (Or.inr (Or.inr ⟨?_, ?_, rfl⟩))
    · rw [hload]
      exact fun h => hne (Except.error.inj h)
    · rw [hload]
      exact nofun
  · rename_i current hload
    rw [hload]
    split
    · rename_i hne
      exact Or.inr (Or.inr (Or.inr ⟨nofun, fun h => hne (Except.ok.inj h), rfl⟩))
    rename_i heq
    obtain rfl : current = key := Decidable.not_not.mp heq
    dsimp only
    split
    · rename_i hstuck
      refine Or.inr (Or.inr (Or.inl ⟨rfl, ?_, rfl⟩))
      simpa using hstuck
    · rename_i hfree
      simp only [Bool.or_eq_true, Bool.not_eq_true', decide_eq_true_eq, not_or, Bool.not_eq_false] at hfree
      exact Or.inr (Or.inl ⟨rfl, hfree.1, hfree.2, rfl⟩)

end Redp2p
