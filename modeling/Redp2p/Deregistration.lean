import Redp2p.KeyFiles

/-! The deregistration of a publisher from its key file: which key is sent, and what becomes of the file
while other processes may change it at any time. -/

namespace Redp2p

open ByteString

/-- What other processes do to the files during a deregistration: between the two readings, while the index
is asked, and between the last reading and the removal. -/
structure Interference where
  betweenLoads : KeyStore → KeyStore
  duringRequest : KeyStore → KeyStore
  beforeUnlink : KeyStore → KeyStore

structure DeregisterIo where
  loadScoped : LoadIo
  loadLegacy : LoadIo
  request : DeregisterRequest
  remove : RemoveIo

/-- What a deregistration leaves, and the keys that it sent. -/
structure Deregistration where
  files : KeyStore
  sent : List Bytes
  status : Status

/-- The reading of the key: what it gives, from which path, and the files at that time. -/
def deregisterLoad (io : DeregisterIo) (others : Interference) (paths : KeyPaths) (files : KeyStore) :
    Except Status Bytes × Bytes × KeyStore :=
  match loadKeyPath io.loadScoped (files paths.scopedPath) with
  | .error .enoent =>
    (loadKeyPath io.loadLegacy (others.betweenLoads files paths.legacyPath), paths.legacyPath,
      others.betweenLoads files)
  | loaded => (loaded, paths.scopedPath, files)

/-- `redp2p_deregister`. -/
def deregister (env : KeyEnv) (io : DeregisterIo) (others : Interference) (indexHost : Bytes)
    (indexPort : UInt16) (id : Bytes) (files : KeyStore) : Deregistration :=
  if indexHost = [] then ⟨files, [], .einval⟩
  else if indexPort = 0 then ⟨files, [], .einval⟩
  else if !isValidId id then ⟨files, [], .einval⟩
  else
    match keyPaths env indexHost indexPort id with
    | none => ⟨files, [], .error⟩
    | some paths =>
      match deregisterLoad io others paths files with
      | (.error status, _, files) => ⟨files, [], status⟩
      | (.ok key, path, files) =>
        let (status, sent) := deregisterWithKey io.request key
        let files := others.duringRequest files
        if status = .ok then
          let (files, status) := removeKey io.remove others.beforeUnlink path key files
          ⟨files, sent, status⟩
        else ⟨files, sent, status⟩

/-- The key was read from the scoped file, or from the legacy file while there was no scoped one. -/
def LoadedFrom (others : Interference) (paths : KeyPaths) (files : KeyStore) (path key : Bytes)
    (seen : KeyStore) : Prop :=
  (path = paths.scopedPath ∧ seen = files ∧ (files path).Holds key) ∨
    (path = paths.legacyPath ∧ seen = others.betweenLoads files ∧ files paths.scopedPath = .absent ∧
      (seen path).Holds key)

/-- What becomes of the file that a key was read from, once the index was asked. -/
def Settled (io : DeregisterIo) (others : Interference) (path key : Bytes) (asked : KeyStore)
    (d : Deregistration) : Prop :=
  (¬ io.request.accepted ∧ d.files = asked ∧ d.status ≠ .ok) ∨
    (io.request.accepted ∧ asked path = .absent ∧ d.files = asked ∧ d.status = .ok) ∨
    (io.request.accepted ∧ (asked path).Holds key ∧
      d.files = Function.update (others.beforeUnlink asked) path .absent ∧ d.status = .ok) ∨
    (io.request.accepted ∧ (d.files = asked ∨ d.files = others.beforeUnlink asked) ∧ d.status = .error ∧
      ((asked path).Holds key → io.remove.load.works = true → io.remove.unlinks = true →
        others.beforeUnlink asked path = .absent))

theorem deregisterLoad_ok {io : DeregisterIo} {others : Interference} {paths : KeyPaths} {files : KeyStore}
    {key path : Bytes} {seen : KeyStore} (h : deregisterLoad io others paths files = (.ok key, path, seen)) :
    LoadedFrom others paths files path key seen := by
  unfold deregisterLoad at h
  split at h
  · rename_i hscoped
    obtain ⟨hload, hpath, hseen⟩ : _ ∧ paths.legacyPath = path ∧ others.betweenLoads files = seen := by
      simpa [Prod.mk.injEq] using h
    subst hpath hseen
    exact Or.inr ⟨rfl, rfl, loadKeyPath_enoent hscoped, (loadKeyPath_ok_iff.mp hload).2⟩
  · obtain ⟨hload, hpath, hseen⟩ : _ ∧ paths.scopedPath = path ∧ files = seen := by
      simpa [Prod.mk.injEq] using h
    subst hpath hseen
    exact Or.inl ⟨rfl, rfl, (loadKeyPath_ok_iff.mp hload).2⟩

theorem deregisterLoad_error {io : DeregisterIo} {others : Interference} {paths : KeyPaths}
    {files : KeyStore} {status : Status} {path : Bytes} {seen : KeyStore}
    (h : deregisterLoad io others paths files = (.error status, path, seen)) :
    status ≠ .ok ∧ (seen = files ∨ seen = others.betweenLoads files) := by
  unfold deregisterLoad at h
  split at h
  · obtain ⟨hload, -, hseen⟩ : _ ∧ paths.legacyPath = path ∧ others.betweenLoads files = seen := by
      simpa [Prod.mk.injEq] using h
    exact ⟨loadKeyPath_error hload, Or.inr hseen.symm⟩
  · obtain ⟨hload, -, hseen⟩ : _ ∧ paths.scopedPath = path ∧ files = seen := by
      simpa [Prod.mk.injEq] using h
    exact ⟨loadKeyPath_error hload, Or.inl hseen.symm⟩

/-- The removal of the file, once the index accepted the deregistration. -/
theorem removeKey_settled {io : DeregisterIo} {others : Interference} {path key : Bytes} {asked : KeyStore}
    (haccepted : io.request.accepted) (sent : List Bytes) :
    Settled io others path key asked
      ⟨(removeKey io.remove others.beforeUnlink path key asked).1, sent,
        (removeKey io.remove others.beforeUnlink path key asked).2⟩ := by
  rcases removeKey_cases io.remove others.beforeUnlink path key asked with
    ⟨hnone, hremove⟩ | ⟨hok, -, -, hremove⟩ | ⟨-, hstuck, hremove⟩ | ⟨-, hother, hremove⟩
  · rw [hremove]
    exact Or.inr (Or.inl ⟨haccepted, loadKeyPath_enoent hnone, rfl, rfl⟩)
  · rw [hremove]
    exact Or.inr (Or.inr (Or.inl ⟨haccepted, (loadKeyPath_ok_iff.mp hok).2, rfl, rfl⟩))
  · rw [hremove]
    refine Or.inr (Or.inr (Or.inr ⟨haccepted, Or.inr rfl, rfl, fun _ _ hunlinks => ?_⟩))
    exact hstuck.resolve_left (by simp [hunlinks])
  · rw [hremove]
    refine Or.inr (Or.inr (Or.inr ⟨haccepted, Or.inl rfl, rfl, fun hholds hworks _ => ?_⟩))
    exact absurd (loadKeyPath_ok_iff.mpr ⟨hworks, hholds⟩) hother

/-- A deregistration that reads no key sends nothing, fails and leaves the files to the others. One that
reads a key sends it, if its request goes out at all, and settles its file. -/
theorem deregister_cases (env : KeyEnv) (io : DeregisterIo) (others : Interference) (indexHost : Bytes)
    (indexPort : UInt16) (id : Bytes) (files : KeyStore) :
    ((deregister env io others indexHost indexPort id files).sent = [] ∧
      (deregister env io others indexHost indexPort id files).status ≠ .ok ∧
      ((deregister env io others indexHost indexPort id files).files = files ∨
        (deregister env io others indexHost indexPort id files).files = others.betweenLoads files)) ∨
    ∃ paths path key seen, keyPaths env indexHost indexPort id = some paths ∧
      LoadedFrom others paths files path key seen ∧
      (deregister env io others indexHost indexPort id files).sent =
        (if io.request.goesOut then [key] else []) ∧
      Settled io others path key (others.duringRequest seen)
        (deregister env io others indexHost indexPort id files) := by
  unfold deregister
  split
  · exact Or.inl ⟨rfl, nofun, Or.inl rfl⟩
  split
  · exact Or.inl ⟨rfl, nofun, Or.inl rfl⟩
  split
  · exact Or.inl ⟨rfl, nofun, Or.inl rfl⟩
  cases hpaths : keyPaths env indexHost indexPort id with
  | none => exact Or.inl ⟨rfl, nofun, Or.inl rfl⟩
  | some paths =>
    dsimp only
    rcases hload : deregisterLoad io others paths files with ⟨status | key, path, seen⟩
    · obtain ⟨hstatus, hseen⟩ := deregisterLoad_error hload
      exact Or.inl ⟨rfl, hstatus, hseen⟩
    · have hloaded := deregisterLoad_ok hload
      have hkey : isHexToken key keySz = true := by
        rcases hloaded with ⟨-, -, _, -, hparse⟩ | ⟨-, -, -, _, -, hparse⟩
        · exact (keyParse_iff.mp hparse).1
        · exact (keyParse_iff.mp hparse).1
      have hne : key ≠ [] := by
        rintro rfl
        exact absurd hkey (by decide)
      have hok := deregisterWithKey_ok_iff io.request hne
      refine Or.inr ⟨paths, path, key, seen, rfl, hloaded, ?_⟩
      rw [← deregisterWithKey_sent io.request hne]
      dsimp only
      by_cases haccepted : (deregisterWithKey io.request key).1 = .ok
      · rw [if_pos haccepted]
        exact ⟨rfl, removeKey_settled (hok.mp haccepted) _⟩
      · rw [if_neg haccepted]
        exact ⟨rfl, Or.inl ⟨fun h => haccepted (hok.mpr h), rfl, haccepted⟩⟩

end Redp2p
