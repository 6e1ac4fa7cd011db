import Redp2p.Deregistration
import Redp2p.KeyPersistence
import Redp2p.Lib.Delimited

/-! The scopes of the registration keys. The name of a key file is the digest of a text that tells the
index and the publisher of its key, so the processes of one scope leave the key files of all others alone. -/

namespace Redp2p

open ByteString Delimited

/-! ### The text of a scope -/

/-- An index, by its host and its port, and the identifier of a publisher at it. -/
structure ScopeName where
  indexHost : Terminated (0 : UInt8)
  indexPort : UInt16
  id : Terminated (0 : UInt8)
  deriving DecidableEq

def keyScopeDomain : Bytes := ascii "redp2p-key-v1" ++ [0]

/-- The two bytes of a port, the high one first. -/
def portBytes (port : UInt16) : Bytes := [(port >>> 8).toUInt8, port.toUInt8]

/-- What `redp2p_key_scope_hash` feeds to the digest, one entry for each update. -/
def keyScopeUpdates (indexHost : Bytes) (indexPort : UInt16) (id : Bytes) : List Bytes :=
  [keyScopeDomain, indexHost ++ [0], portBytes indexPort, id ++ [0]]

/-- All bytes that are fed to the digest. -/
def ScopeName.text (scope : ScopeName) : Bytes :=
  (keyScopeUpdates scope.indexHost.val scope.indexPort scope.id.val).flatten

def ScopeName.paths (scope : ScopeName) (env : KeyEnv) : Option KeyPaths :=
  keyPaths env scope.indexHost.val scope.indexPort scope.id.val

theorem foldl_update (ctx : Sha256.Ctx) (parts : List Bytes) :
    parts.foldl Sha256.update ctx = Sha256.update ctx parts.flatten :=
  List.foldl_flatten.symm

/-- The digest of a scope, update by update. -/
theorem keyScopeHash_updates (indexHost : Bytes) (indexPort : UInt16) (id : Bytes) :
    Sha256.final ((keyScopeUpdates indexHost indexPort id).foldl Sha256.update Sha256.init) =
      keyScopeHash indexHost indexPort id := by
  rw [foldl_update, keyScopeHash, sha256]
  simp [keyScopeUpdates, keyScopeDomain, portBytes]

theorem ScopeName.hash_text (scope : ScopeName) :
    keyScopeHash scope.indexHost.val scope.indexPort scope.id.val = sha256 scope.text := by
  rw [← keyScopeHash_updates, foldl_update]
  rfl

theorem portBytes_injective : Function.Injective portBytes := by
  intro p q h
  obtain ⟨hhigh, hlow, -⟩ : (p >>> 8).toUInt8 = (q >>> 8).toUInt8 ∧ p.toUInt8 = q.toUInt8 ∧ True := by
    simpa [portBytes] using h
  have hhigh := congrArg UInt8.toNat hhigh
  have hlow := congrArg UInt8.toNat hlow
  have hp := p.toNat_lt
  have hq := q.toNat_lt
  simp only [UInt16.toNat_toUInt8, UInt16.toNat_shiftRight, UInt16.reduceToNat,
    Nat.shiftRight_eq_div_pow, Nat.reduceMod, Nat.reducePow] at hhigh hlow
  apply UInt16.toNat_inj.mp
  omega

/-- The host and the identifier end at their stops and the port has two bytes, so every field can be told
from the text whatever stands in the others. -/
theorem ScopeName.text_selfDelimiting : SelfDelimiting ScopeName.text := by
  have hstring : SelfDelimiting fun s : Terminated (0 : UInt8) => terminate s := selfDelimiting_terminate
  have hport : SelfDelimiting portBytes := selfDelimiting_of_length (n := 2) (fun _ => rfl) portBytes_injective
  have hfields := (hstring.append (hport.append hstring)).tagged keyScopeDomain
  have hscope : Function.Injective fun scope : ScopeName => (scope.indexHost, scope.indexPort, scope.id) := by
    rintro ⟨host, port, id⟩ ⟨host', port', id'⟩ h
    simpa using h
  have htext : ScopeName.text = fun scope => keyScopeDomain ++
      (terminate scope.indexHost ++ (portBytes scope.indexPort ++ terminate scope.id)) := by
    funext scope
    simp [ScopeName.text, keyScopeUpdates, terminate]
  rw [htext]
  exact hfields.comp hscope

/-! ### The files of a scope -/

/-- Two texts that have one digest. -/
def DigestCollision (text text' : Bytes) : Prop := text ≠ text' ∧ sha256 text = sha256 text'

theorem keyPaths_some {env : KeyEnv} {indexHost id : Bytes} {indexPort : UInt16} {paths : KeyPaths}
    (h : keyPaths env indexHost indexPort id = some paths) :
    paths.scopedPath = paths.dir ++ 0x2f :: hexEncode (keyScopeHash indexHost indexPort id) ∧
      paths.legacyPath = paths.dir ++ 0x2f :: id := by
  have hslash : ascii "/" = [0x2f] := by decide
  unfold keyPaths at h
  split at h
  · exact nomatch h
  split at h
  · exact nomatch h
  dsimp only at h
  split at h
  · exact nomatch h
  split at h
  · exact nomatch h
  rw [← Option.some.inj h, hslash]
  exact ⟨List.append_assoc _ _ _, List.append_assoc _ _ _⟩

theorem slash_not_mem {text : Bytes} (h : ∀ b ∈ text, isAlnum b = true) : 0x2f ∉ text :=
  fun hmem => absurd (h 0x2f hmem) (by decide)

theorem slash_not_mem_hexEncode (s : Bytes) : 0x2f ∉ hexEncode s :=
  slash_not_mem fun b hb => isAlnum_of_isHexDigit (hexEncode_isHexDigit s b hb)

theorem hexEncode_inj {s t : Bytes} (hlength : s.length = t.length) (h : hexEncode s = hexEncode t) : s = t := by
  have hdecode := hexDecode_hexEncode s
  rw [hlength, h, hexDecode_hexEncode] at hdecode
  exact (Option.some.inj hdecode).symm

@[simp] theorem keyScopeHash_length (indexHost : Bytes) (indexPort : UInt16) (id : Bytes) :
    (keyScopeHash indexHost indexPort id).length = 32 :=
  Sha256.final_length _

/-- Key files of one name are named by one digest, wherever they lie. -/
theorem scopedPath_inj {env env' : KeyEnv} {indexHost indexHost' id id' : Bytes} {indexPort indexPort' : UInt16}
    {paths paths' : KeyPaths} (h : keyPaths env indexHost indexPort id = some paths)
    (h' : keyPaths env' indexHost' indexPort' id' = some paths') (heq : paths.scopedPath = paths'.scopedPath) :
    keyScopeHash indexHost indexPort id = keyScopeHash indexHost' indexPort' id' := by
  rw [(keyPaths_some h).1, (keyPaths_some h').1] at heq
  have hname := (append_stop_inj (slash_not_mem_hexEncode _) (slash_not_mem_hexEncode _) heq).2
  exact hexEncode_inj (by simp) hname

/-- The name of a key file is longer than an identifier. -/
theorem scopedPath_ne_legacyPath {env env' : KeyEnv} {indexHost indexHost' id id' : Bytes}
    {indexPort indexPort' : UInt16} {paths paths' : KeyPaths}
    (h : keyPaths env indexHost indexPort id = some paths)
    (h' : keyPaths env' indexHost' indexPort' id' = some paths') (hid : isValidId id' = true) :
    paths.scopedPath ≠ paths'.legacyPath := by
  intro heq
  obtain ⟨-, hshort, halnum⟩ := isValidId_iff.mp hid
  rw [(keyPaths_some h).1, (keyPaths_some h').2] at heq
  have hname := (append_stop_inj (slash_not_mem_hexEncode _) (slash_not_mem halnum) heq).2
  have hlength := congrArg List.length hname
  rw [hexEncode_length, keyScopeHash_length] at hlength
  omega

/-- Scopes that differ are hashed from different texts, so the key file of one is that of the other only
where the digests of these texts collide. -/
theorem key_scopes_unambiguous {a b : ScopeName} (h : a ≠ b) :
    a.text ≠ b.text ∧
      ∀ (env env' : KeyEnv) (paths paths' : KeyPaths), a.paths env = some paths → b.paths env' = some paths' →
        paths.scopedPath = paths'.scopedPath → DigestCollision a.text b.text := by
  have htext : a.text ≠ b.text := fun heq => h (ScopeName.text_selfDelimiting.injective heq)
  refine ⟨htext, fun env env' paths paths' hpaths hpaths' heq => ⟨htext, ?_⟩⟩
  rw [← a.hash_text, ← b.hash_text]
  exact scopedPath_inj hpaths hpaths' heq

/-- One publisher at two ports of an index, each of which has a zero byte. -/
def sampleScopes : ScopeName × ScopeName :=
  (⟨⟨ascii "index", by decide⟩, 0x0070, ⟨ascii "ub", by decide⟩⟩,
    ⟨⟨ascii "index", by decide⟩, 0x7000, ⟨ascii "ub", by decide⟩⟩)

theorem key_scopes_unambiguous_sample :
    sampleScopes.1 ≠ sampleScopes.2 ∧ sampleScopes.1.text ≠ sampleScopes.2.text ∧
      ∀ (env env' : KeyEnv) (paths paths' : KeyPaths), sampleScopes.1.paths env = some paths →
        sampleScopes.2.paths env' = some paths' → paths.scopedPath = paths'.scopedPath →
          DigestCollision sampleScopes.1.text sampleScopes.2.text := by
  have hne : sampleScopes.1 ≠ sampleScopes.2 := by
    intro h
    exact absurd (congrArg ScopeName.indexPort h) (by decide)
  exact ⟨hne, key_scopes_unambiguous hne⟩

/-! ### The processes of other scopes -/

/-- What the processes of a scope do to the files of the keys. -/
inductive KeyAction where
  | persist (io : PersistIo) (key : Bytes)
  | reregister (io : PersistIo) (prepared : Status) (reply : Except Status (JsonObject Rat))
  | removeRegistration (request : DeregisterRequest) (io : RemoveIo) (meanwhile : KeyStore → KeyStore) (key : Bytes)
  | deregister (io : DeregisterIo) (others : Interference)

def KeyAction.files (scope : KeyScope) (files : KeyStore) : KeyAction → KeyStore
  | .persist io key => (publisherPersistRegistration scope io ⟨key, files, []⟩).1.files
  | .reregister io prepared reply => (publisherReregister scope io prepared reply ⟨[], files, []⟩).1.files
  | .removeRegistration request io meanwhile key =>
    (publisherRemoveRegistration scope request io meanwhile .ok ⟨key, files, []⟩).1.files
  | .deregister io others =>
    (Redp2p.deregister scope.env io others scope.indexHost scope.indexPort scope.selfId files).files

/-- The file at a path stays as it is. -/
def LeavesFile (path : Bytes) (change : KeyStore → KeyStore) : Prop :=
  ∀ files, change files path = files path

/-- The processes that step in during an action leave the file at a path alone. -/
def KeyAction.Relies (path : Bytes) : KeyAction → Prop
  | .persist .. | .reregister .. => True
  | .removeRegistration _ _ meanwhile _ => LeavesFile path meanwhile
  | .deregister _ others =>
    LeavesFile path others.betweenLoads ∧ LeavesFile path others.duringRequest ∧
      LeavesFile path others.beforeUnlink

theorem saveKey_other {path : Bytes} {paths : KeyPaths} (h : path ≠ paths.scopedPath) (io : SaveIo)
    (key : Bytes) (files : KeyStore) : (saveKey io paths key files).1 path = files path := by
  rw [saveKey_eq]
  dsimp only
  split
  · exact Function.update_of_ne h _ _
  · rfl

theorem removeKey_other {path path' : Bytes} (h : path ≠ path') {meanwhile : KeyStore → KeyStore}
    (hmeanwhile : LeavesFile path meanwhile) (io : RemoveIo) (key : Bytes) (files : KeyStore) :
    (removeKey io meanwhile path' key files).1 path = files path := by
  rcases removeKey_cases io meanwhile path' key files with
    ⟨-, hremove⟩ | ⟨-, -, -, hremove⟩ | ⟨-, -, hremove⟩ | ⟨-, -, hremove⟩
  · rw [hremove]
  · rw [hremove]
    exact (Function.update_of_ne h _ _).trans (hmeanwhile files)
  · rw [hremove]
    exact hmeanwhile files
  · rw [hremove]

theorem publisherPersistRegistration_files (scope : KeyScope) (io : PersistIo) (r : Registered) :
    (publisherPersistRegistration scope io r).1.files =
      match scope.paths with
      | none => r.files
      | some paths =>
        if r.key = [] then r.files
        else if io.save.completes then (saveKey io.save paths r.key r.files).1
        else (removeKey io.remove id paths.scopedPath r.key (saveKey io.save paths r.key r.files).1).1 := by
  unfold publisherPersistRegistration
  cases scope.paths with
  | none => split <;> rfl
  | some paths =>
    dsimp only
    split
    · rfl
    rw [saveKey_eq]
    cases io.save.completes <;> rfl

theorem publisherReregister_files (scope : KeyScope) (io : PersistIo) (prepared : Status)
    (reply : Except Status (JsonObject Rat)) (r : Registered) :
    (publisherReregister scope io prepared reply r).1.files =
      match publisherRegister prepared reply, scope.paths with
      | .ok key, some paths => (saveKey io.save paths key r.files).1
      | _, _ => r.files := by
  unfold publisherReregister
  rcases publisherRegister prepared reply with status | key
  · rfl
  cases scope.paths with
  | none => rfl
  | some paths =>
    dsimp only
    rw [saveKey_eq]
    cases io.save.completes <;> rfl

theorem publisherRemoveRegistration_files (scope : KeyScope) (request : DeregisterRequest) (io : RemoveIo)
    (meanwhile : KeyStore → KeyStore) (waitResult : Status) (r : Registered) :
    (publisherRemoveRegistration scope request io meanwhile waitResult r).1.files =
      match scope.paths with
      | none => r.files
      | some paths =>
        if r.key = [] ∨ (deregisterWithKey request r.key).1 ≠ .ok then r.files
        else (removeKey io meanwhile paths.scopedPath r.key r.files).1 := by
  unfold publisherRemoveRegistration
  by_cases hkey : r.key = []
  · cases scope.paths <;> simp [hkey]
  by_cases hreply : (deregisterWithKey request r.key).1 ≠ .ok
  · cases scope.paths <;> simp [hkey, hreply]
  cases scope.paths with
  | none => simp [hkey, hreply]
  | some paths =>
    simp only [hkey, hreply, if_false, or_self]
    rcases removeKey io meanwhile paths.scopedPath r.key r.files with ⟨files, status⟩
    cases status <;> rfl

section Frame

variable {path : Bytes} {scope : KeyScope}

theorem publisherPersistRegistration_other
    (h : ∀ paths, scope.paths = some paths → path ≠ paths.scopedPath) (io : PersistIo) (r : Registered) :
    (publisherPersistRegistration scope io r).1.files path = r.files path := by
  rw [publisherPersistRegistration_files]
  cases hpaths : scope.paths with
  | none => rfl
  | some paths =>
    have hsave := saveKey_other (h paths hpaths) io.save r.key r.files
    dsimp only
    split
    · rfl
    split
    · exact hsave
    · exact (removeKey_other (h paths hpaths) (fun _ => rfl) io.remove r.key _).trans hsave

theorem publisherReregister_other (h : ∀ paths, scope.paths = some paths → path ≠ paths.scopedPath)
    (io : PersistIo) (prepared : Status) (reply : Except Status (JsonObject Rat)) (r : Registered) :
    (publisherReregister scope io prepared reply r).1.files path = r.files path := by
  rw [publisherReregister_files]
  split
  · rename_i key paths hkey hpaths
    exact saveKey_other (h paths hpaths) io.save key r.files
  · rfl

theorem publisherRemoveRegistration_other
    (h : ∀ paths, scope.paths = some paths → path ≠ paths.scopedPath) {meanwhile : KeyStore → KeyStore}
    (hmeanwhile : LeavesFile path meanwhile) (request : DeregisterRequest) (io : RemoveIo) (waitResult : Status)
    (r : Registered) :
    (publisherRemoveRegistration scope request io meanwhile waitResult r).1.files path = r.files path := by
  rw [publisherRemoveRegistration_files]
  cases hpaths : scope.paths with
  | none => rfl
  | some paths =>
    dsimp only
    split
    · rfl
    · exact removeKey_other (h paths hpaths) hmeanwhile io r.key r.files

theorem deregister_invalid {env : KeyEnv} {io : DeregisterIo} {others : Interference} {indexHost id : Bytes}
    {indexPort : UInt16} {files : KeyStore} (h : isValidId id = false) :
    (deregister env io others indexHost indexPort id files).files = files := by
  unfold deregister
  split
  · rfl
  split
  · rfl
  rw [if_pos (by rw [h]; rfl)]

/-- Once the index was asked, a deregistration changes no file but the one that it read. -/
theorem Settled.other {io : DeregisterIo} {others : Interference} {keyPath key : Bytes} {asked : KeyStore}
    {d : Deregistration} (h : Settled io others keyPath key asked d) (hne : path ≠ keyPath)
    (hunlink : LeavesFile path others.beforeUnlink) : d.files path = asked path := by
  rcases h with ⟨-, hfiles, -⟩ | ⟨-, -, hfiles, -⟩ | ⟨-, -, hfiles, -⟩ | ⟨-, hfiles | hfiles, -⟩
  · rw [hfiles]
  · rw [hfiles]
  · rw [hfiles, Function.update_of_ne hne, hunlink]
  · rw [hfiles]
  · rw [hfiles, hunlink]

theorem deregister_other {env : KeyEnv} {indexHost id : Bytes} {indexPort : UInt16}
    (h : ∀ paths, keyPaths env indexHost indexPort id = some paths → isValidId id = true →
      path ≠ paths.scopedPath ∧ path ≠ paths.legacyPath)
    {io : DeregisterIo} {others : Interference} (hothers : (KeyAction.deregister io others).Relies path)
    (files : KeyStore) : (deregister env io others indexHost indexPort id files).files path = files path := by
  obtain ⟨hloads, hrequest, hunlink⟩ := hothers
  cases hid : isValidId id with
  | false => rw [deregister_invalid hid]
  | true =>
    rcases deregister_cases env io others indexHost indexPort id files with
      ⟨-, -, hfiles | hfiles⟩ | ⟨paths, keyPath, key, seen, hpaths, hloaded, -, hsettled⟩
    · rw [hfiles]
    · rw [hfiles, hloads]
    obtain ⟨hscoped, hlegacy⟩ := h paths hpaths hid
    have hne : path ≠ keyPath := by
      rcases hloaded with ⟨rfl, -⟩ | ⟨rfl, -⟩
      · exact hscoped
      · exact hlegacy
    have hseen : seen path = files path := by
      rcases hloaded with ⟨-, rfl, -⟩ | ⟨-, rfl, -⟩
      · rfl
      · exact hloads files
    rw [hsettled.other hne hunlink, hrequest, hseen]

end Frame

/-! ### The processes of one scope -/

section Local

variable {path : Bytes} {files files' : KeyStore} (hfile : files path = files' path)
include hfile

theorem saveKey_local {paths : KeyPaths} (hpath : paths.scopedPath = path) (io : SaveIo) (key : Bytes) :
    (saveKey io paths key files).1 path = (saveKey io paths key files').1 path := by
  rw [saveKey_eq, saveKey_eq]
  dsimp only
  split
  · rw [hpath, Function.update_self, Function.update_self]
  · exact hfile

theorem removeKey_local {meanwhile : KeyStore → KeyStore} (hmeanwhile : LeavesFile path meanwhile)
    (io : RemoveIo) (key : Bytes) :
    (removeKey io meanwhile path key files).1 path = (removeKey io meanwhile path key files').1 path := by
  have hlater : meanwhile files path = meanwhile files' path := by
    rw [hmeanwhile, hmeanwhile, hfile]
  unfold removeKey
  rw [← hfile]
  split
  · exact hfile
  · exact hfile
  split
  · exact hfile
  dsimp only
  rw [← hlater]
  split
  · exact hlater
  · dsimp only
    rw [Function.update_self, Function.update_self]

variable {scope : KeyScope} {paths : KeyPaths} (hpaths : scope.paths = some paths)
  (hpath : paths.scopedPath = path)
include hpaths hpath

theorem publisherPersistRegistration_local (io : PersistIo) (key : Bytes) :
    (publisherPersistRegistration scope io ⟨key, files, []⟩).1.files path =
      (publisherPersistRegistration scope io ⟨key, files', []⟩).1.files path := by
  subst hpath
  have hsave := saveKey_local hfile rfl io.save key
  rw [publisherPersistRegistration_files, publisherPersistRegistration_files, hpaths]
  dsimp only
  split
  · exact hfile
  split
  · exact hsave
  · exact removeKey_local hsave (fun _ => rfl) io.remove key

theorem publisherReregister_local (io : PersistIo) (prepared : Status)
    (reply : Except Status (JsonObject Rat)) :
    (publisherReregister scope io prepared reply ⟨[], files, []⟩).1.files path =
      (publisherReregister scope io prepared reply ⟨[], files', []⟩).1.files path := by
  rw [publisherReregister_files, publisherReregister_files, hpaths]
  rcases publisherRegister prepared reply with status | key
  · exact hfile
  · exact saveKey_local hfile hpath io.save key

theorem publisherRemoveRegistration_local {meanwhile : KeyStore → KeyStore}
    (hmeanwhile : LeavesFile path meanwhile) (request : DeregisterRequest) (io : RemoveIo) (key : Bytes) :
    (publisherRemoveRegistration scope request io meanwhile .ok ⟨key, files, []⟩).1.files path =
      (publisherRemoveRegistration scope request io meanwhile .ok ⟨key, files', []⟩).1.files path := by
  subst hpath
  rw [publisherRemoveRegistration_files, publisherRemoveRegistration_files, hpaths]
  dsimp only
  split
  · exact hfile
  · exact removeKey_local hfile hmeanwhile io key

omit hfile in
/-- A deregistration that finds no scoped file makes none. -/
theorem deregister_absent {io : DeregisterIo} {others : Interference}
    (hothers : (KeyAction.deregister io others).Relies path) (habsent : files path = .absent) :
    (deregister scope.env io others scope.indexHost scope.indexPort scope.selfId files).files path =
      .absent := by
  subst hpath
  obtain ⟨hloads, hrequest, hunlink⟩ := hothers
  cases hid : isValidId scope.selfId with
  | false => rw [deregister_invalid hid, habsent]
  | true =>
    rcases deregister_cases scope.env io others scope.indexHost scope.indexPort scope.selfId files with
      ⟨-, -, hfiles | hfiles⟩ | ⟨paths', keyPath, key, seen, hpaths', hloaded, -, hsettled⟩
    · rw [hfiles, habsent]
    · rw [hfiles, hloads, habsent]
    obtain rfl : paths = paths' := Option.some.inj (hpaths.symm.trans hpaths')
    obtain ⟨rfl, -, hholds⟩ | ⟨rfl, rfl, -⟩ := hloaded
    · rw [habsent] at hholds
      exact absurd hholds not_holds_absent
    have hne : paths.scopedPath ≠ paths.legacyPath := scopedPath_ne_legacyPath hpaths hpaths hid
    rw [hsettled.other hne hunlink, hrequest, hloads, habsent]

theorem deregister_local {io : DeregisterIo} {others : Interference}
    (hothers : (KeyAction.deregister io others).Relies path) :
    (deregister scope.env io others scope.indexHost scope.indexPort scope.selfId files).files path =
      (deregister scope.env io others scope.indexHost scope.indexPort scope.selfId files').files path := by
  by_cases habsent : files path = .absent
  · have habsent' : files' path = .absent := hfile ▸ habsent
    rw [deregister_absent hpaths hpath hothers habsent, deregister_absent hpaths hpath hothers habsent']
  subst hpath
  obtain ⟨-, hrequest, hunlink⟩ := hothers
  have hasked : others.duringRequest files paths.scopedPath = others.duringRequest files' paths.scopedPath := by
    rw [hrequest, hrequest, hfile]
  have hkeyPaths : keyPaths scope.env scope.indexHost scope.indexPort scope.selfId = some paths := hpaths
  unfold deregister
  split
  · exact hfile
  split
  · exact hfile
  split
  · exact hfile
  rw [hkeyPaths]
  dsimp only
  unfold deregisterLoad
  rw [← hfile]
  -- the legacy file is only read while there is no scoped one
  rcases hload : loadKeyPath io.loadScoped (files paths.scopedPath) with status | key
  · have hne : status ≠ .enoent := fun h => habsent (loadKeyPath_enoent (h ▸ hload))
    cases status with
    | enoent => exact absurd rfl hne
    | _ => exact hfile
  dsimp only
  split
  · exact removeKey_local hasked hunlink io.remove key
  · exact hasked

end Local

/-- A process acts for a scope. -/
structure KeyEvent where
  env : KeyEnv
  scope : ScopeName
  action : KeyAction

def KeyEvent.keyScope (event : KeyEvent) : KeyScope :=
  ⟨event.env, event.scope.indexHost.val, event.scope.indexPort, event.scope.id.val⟩

def KeyEvent.files (files : KeyStore) (event : KeyEvent) : KeyStore :=
  event.action.files event.keyScope files

/-- Whatever a process does for another scope, it leaves the key file of this one alone. -/
theorem KeyEvent.files_other {event : KeyEvent} {own : ScopeName} {env : KeyEnv} {paths : KeyPaths}
    (hown : own.paths env = some paths) (hscope : event.scope ≠ own)
    (hdigest : ¬ DigestCollision event.scope.text own.text) (hrelies : event.action.Relies paths.scopedPath)
    (files : KeyStore) : event.files files paths.scopedPath = files paths.scopedPath := by
  have hscoped : ∀ paths', event.keyScope.paths = some paths' → paths.scopedPath ≠ paths'.scopedPath := by
    intro paths' hpaths' heq
    have htext : event.scope.text ≠ own.text := fun h => hscope (ScopeName.text_selfDelimiting.injective h)
    refine hdigest ⟨htext, ?_⟩
    rw [← event.scope.hash_text, ← own.hash_text]
    exact scopedPath_inj hpaths' hown heq.symm
  unfold KeyEvent.files
  cases haction : event.action with
  | persist io key => exact publisherPersistRegistration_other hscoped io _
  | reregister io prepared reply => exact publisherReregister_other hscoped io prepared reply _
  | removeRegistration request io meanwhile key =>
    rw [haction] at hrelies
    exact publisherRemoveRegistration_other hscoped hrelies request io .ok _
  | deregister io others =>
    rw [haction] at hrelies
    refine deregister_other (fun paths' hpaths' hid => ?_) hrelies files
    exact ⟨hscoped paths' hpaths', scopedPath_ne_legacyPath hown hpaths' hid⟩

/-- A process that acts for a scope does to its key file what the file itself determines. -/
theorem KeyEvent.files_own {event : KeyEvent} {paths : KeyPaths}
    (hown : event.scope.paths event.env = some paths) (hrelies : event.action.Relies paths.scopedPath)
    {files files' : KeyStore} (hfile : files paths.scopedPath = files' paths.scopedPath) :
    event.files files paths.scopedPath = event.files files' paths.scopedPath := by
  have hpaths : event.keyScope.paths = some paths := hown
  unfold KeyEvent.files
  cases haction : event.action with
  | persist io key => exact publisherPersistRegistration_local hfile hpaths rfl io key
  | reregister io prepared reply => exact publisherReregister_local hfile hpaths rfl io prepared reply
  | removeRegistration request io meanwhile key =>
    rw [haction] at hrelies
    exact publisherRemoveRegistration_local hfile hpaths rfl hrelies request io key
  | deregister io others =>
    rw [haction] at hrelies
    exact deregister_local hfile hpaths rfl hrelies

/-- Every scope has a key file of its own: whatever the processes of other scopes do in between, after a run
the file is what the processes of its scope alone make of it, unless the digests of two scopes collide. -/
theorem key_file_of_own_scope {own : ScopeName} {env : KeyEnv} {paths : KeyPaths}
    (hown : own.paths env = some paths) {events : List KeyEvent}
    (hevents : ∀ event ∈ events, (event.scope = own → event.env = env) ∧
      ¬ DigestCollision event.scope.text own.text ∧ event.action.Relies paths.scopedPath)
    {files files' : KeyStore} (hfile : files paths.scopedPath = files' paths.scopedPath) :
    events.foldl KeyEvent.files files paths.scopedPath =
      (events.filter (·.scope = own)).foldl KeyEvent.files files' paths.scopedPath := by
  induction events generalizing files files' with
  | nil => exact hfile
  | cons event events ih =>
    obtain ⟨⟨henv, hdigest, hrelies⟩, hrest⟩ := List.forall_mem_cons.mp hevents
    rw [List.foldl_cons]
    by_cases hscope : event.scope = own
    · rw [List.filter_cons_of_pos (by simpa using hscope), List.foldl_cons]
      refine ih hrest (KeyEvent.files_own ?_ hrelies hfile)
      rw [hscope, henv hscope, hown]
    · rw [List.filter_cons_of_neg (by simpa using hscope)]
      exact ih hrest ((event.files_other hown hscope hdigest hrelies files).trans hfile)

/-- Two publishers save their keys. -/
def sampleKeyEvents : List KeyEvent :=
  let save : SaveIo := ⟨true, true, true, true, true, true, true, true, true, true, true⟩
  let persist (scope : ScopeName) (byte : UInt8) : KeyEvent :=
    ⟨⟨ascii "/s", none⟩, scope,
      .persist ⟨save, ⟨true, true, .ok⟩, ⟨⟨true, true, true, true⟩, true⟩⟩ (List.replicate 64 byte)⟩
  [persist sampleScopes.1 97, persist sampleScopes.2 98]

theorem key_file_of_own_scope_sample :
    ∃ paths, sampleScopes.1.paths ⟨ascii "/s", none⟩ = some paths ∧
      sampleKeyEvents.foldl KeyEvent.files (fun _ => .absent) paths.scopedPath =
        (sampleKeyEvents.filter (·.scope = sampleScopes.1)).foldl KeyEvent.files (fun _ => .absent)
          paths.scopedPath := by
  obtain ⟨paths, hown⟩ : ∃ paths, sampleScopes.1.paths ⟨ascii "/s", none⟩ = some paths :=
    Option.isSome_iff_exists.mp (by decide +kernel)
  refine ⟨paths, hown, key_file_of_own_scope hown (fun event hevent => ?_) rfl⟩
  have hdigests : sha256 sampleScopes.2.text ≠ sha256 sampleScopes.1.text := by decide +kernel
  rcases List.mem_cons.mp hevent with rfl | hevent
  · exact ⟨fun _ => rfl, fun h => h.1 rfl, trivial⟩
  · rw [List.mem_singleton.mp hevent]
    exact ⟨fun _ => rfl, fun h => hdigests h.2, trivial⟩

/-- However many processes act, a key file changes only for its own scope. -/
theorem key_file_of_other_scopes {own : ScopeName} {env : KeyEnv} {paths : KeyPaths}
    (hown : own.paths env = some paths) {events : List KeyEvent}
    (hevents : ∀ event ∈ events, event.scope ≠ own ∧ ¬ DigestCollision event.scope.text own.text ∧
      event.action.Relies paths.scopedPath) (files : KeyStore) :
    events.foldl KeyEvent.files files paths.scopedPath = files paths.scopedPath := by
  induction events generalizing files with
  | nil => rfl
  | cons event events ih =>
    obtain ⟨⟨hscope, hdigest, hrelies⟩, hrest⟩ := List.forall_mem_cons.mp hevents
    rw [List.foldl_cons, ih hrest]
    exact event.files_other hown hscope hdigest hrelies files

end Redp2p
