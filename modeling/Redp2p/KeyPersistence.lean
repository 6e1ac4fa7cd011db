import Redp2p.KeyFiles
import Redp2p.JsonText

/-! Whether a publisher keeps the key of its registration in its key file: at its start, and when it
registers again because its record expired. And how it gives the key up at its end. -/

namespace Redp2p

open ByteString

/-- What a registration stands in: the context, the key files, and the keys of the deregistrations that
were sent. -/
structure Registered where
  key : Bytes
  files : KeyStore
  deregistered : List Bytes

/-- The publisher and its index. -/
structure KeyScope where
  env : KeyEnv
  indexHost : Bytes
  indexPort : UInt16
  selfId : Bytes

def KeyScope.paths (scope : KeyScope) : Option KeyPaths :=
  keyPaths scope.env scope.indexHost scope.indexPort scope.selfId

/-- How storing a key goes, and how taking it back goes. -/
structure PersistIo where
  save : SaveIo
  request : DeregisterRequest
  remove : RemoveIo

/-- The key in the reply to a registration. -/
def registrationKey (reply : Except Status (JsonObject Rat)) : Except Status Bytes :=
  match reply with
  | .error status => .error status
  | .ok out =>
    match out.getString (ascii "key") with
    | none => .error .eproto
    | some key => if isHexToken key keySz then .ok key else .error .eproto

/-- `redp2p_publisher_register`, `prepared` being how everything before the registration itself ends. -/
def publisherRegister (prepared : Status) (reply : Except Status (JsonObject Rat)) : Except Status Bytes :=
  if prepared ≠ .ok then .error prepared else registrationKey reply

/-- A registration with an index: how everything before its request ends, the key that the index gave the
record when it accepted, and what becomes of the reply. A key in a reply is that of the record. -/
structure Registering where
  prepared : Status
  accepted : Option Bytes
  reply : Except Status (JsonObject Rat)
  asked : prepared ≠ .ok → accepted = none
  fails : reply ≠ .error .ok
  told : ∀ key, publisherRegister prepared reply = .ok key → accepted = some key

/-- `redp2p_publisher_persist_registration`. -/
def publisherPersistRegistration (scope : KeyScope) (io : PersistIo) (r : Registered) :
    Registered × Status :=
  if r.key = [] then (r, .eproto)
  else
    match scope.paths with
    | none =>
      ({ r with key := [], deregistered := r.deregistered ++ (deregisterWithKey io.request r.key).2 }, .error)
    | some paths =>
      match saveKey io.save paths r.key r.files with
      | (files, .ok) => ({ r with files }, .ok)
      | (files, _) =>
        ({ key := []
           files := (removeKey io.remove id paths.scopedPath r.key files).1
           deregistered := r.deregistered ++ (deregisterWithKey io.request r.key).2 }, .error)

/-- The start of a publisher in `redp2p_wait`. -/
def publisherStart (scope : KeyScope) (io : PersistIo) (prepared : Status)
    (reply : Except Status (JsonObject Rat)) (r : Registered) : Registered × Status :=
  match publisherRegister prepared reply with
  | .error status => (r, status)
  | .ok key => publisherPersistRegistration scope io { r with key }

/-- `redp2p_publisher_reregister`. -/
def publisherReregister (scope : KeyScope) (io : PersistIo) (prepared : Status)
    (reply : Except Status (JsonObject Rat)) (r : Registered) : Registered × Status :=
  match publisherRegister prepared reply with
  | .error status => (r, status)
  | .ok key =>
    match scope.paths with
    | none => ({ r with key }, .ok)
    | some paths =>
      match saveKey io.save paths key r.files with
      | (files, .ok) => ({ r with key, files }, .ok)
      | (files, _) =>
        ({ key := []
           files
           deregistered := r.deregistered ++ (deregisterWithKey io.request key).2 }, .error)

/-- `redp2p_publisher_remove_registration`. Other processes may change the files before the removal. -/
def publisherRemoveRegistration (scope : KeyScope) (request : DeregisterRequest) (io : RemoveIo)
    (meanwhile : KeyStore → KeyStore) (waitResult : Status) (r : Registered) : Registered × Status :=
  if r.key = [] then (r, waitResult)
  else
    let (deregistered, sent) := deregisterWithKey request r.key
    let forgotten : Registered := { r with key := [], deregistered := r.deregistered ++ sent }
    if deregistered ≠ .ok then (forgotten, waitResult)
    else
      match scope.paths with
      | none => (forgotten, .error)
      | some paths =>
        match removeKey io meanwhile paths.scopedPath r.key r.files with
        | (files, .ok) => ({ forgotten with files }, waitResult)
        | (files, _) => ({ forgotten with files }, .error)

/-- The key file of the publisher holds the key. -/
def KeyScope.Keeps (scope : KeyScope) (files : KeyStore) (key : Bytes) : Prop :=
  ∃ paths, scope.paths = some paths ∧ (files paths.scopedPath).Holds key

/-- The key was sent in a deregistration. -/
def Registered.TookBack (before after : Registered) (key : Bytes) : Prop :=
  ∃ sent, after.deregistered = before.deregistered ++ sent ∧ key ∈ sent

/-- A call that succeeds has stored the key that the index gave, and one that fails after the index gave a
key has taken the registration back and leaves no such key in the file. -/
def KeptOrTakenBack (scope : KeyScope) (accepted : Option Bytes) (before : Registered)
    (result : Registered × Status) : Prop :=
  (result.2 = .ok → ∃ key, accepted = some key ∧ scope.Keeps result.1.files key) ∧
    ∀ key, accepted = some key → result.2 ≠ .ok →
      before.TookBack result.1 key ∧ ¬ scope.Keeps result.1.files key

/-- The key lies in the key file after an attempt to store it that was not completed. -/
def LeftBehind (save : SaveIo) (file : KeyFile) (key : Bytes) : Prop :=
  save.completes = false ∧ (save.replaces = true ∨ file.Holds key)

/-- Every call of a removal succeeds. -/
def RemoveIo.works (io : RemoveIo) : Bool := io.load.works && io.unlinks

theorem registrationKey_ok {reply : Except Status (JsonObject Rat)} {key : Bytes}
    (h : registrationKey reply = .ok key) : isHexToken key keySz = true := by
  unfold registrationKey at h
  split at h
  · exact nomatch h
  split at h
  · exact nomatch h
  split at h
  · rename_i hkey
    rw [← Except.ok.inj h]
    exact hkey
  · exact nomatch h

theorem publisherRegister_ok {prepared : Status} {reply : Except Status (JsonObject Rat)} {key : Bytes}
    (h : publisherRegister prepared reply = .ok key) : isHexToken key keySz = true := by
  unfold publisherRegister at h
  split at h
  · exact nomatch h
  · exact registrationKey_ok h

theorem hexToken_ne_nil {key : Bytes} (h : isHexToken key keySz = true) : key ≠ [] := by
  rintro rfl
  exact absurd h (by decide)

theorem KeyScope.keeps_iff {scope : KeyScope} {paths : KeyPaths} (hpaths : scope.paths = some paths)
    (files : KeyStore) (key : Bytes) : scope.Keeps files key ↔ (files paths.scopedPath).Holds key := by
  constructor
  · rintro ⟨paths', hpaths', h⟩
    obtain rfl := Option.some.inj (hpaths.symm.trans hpaths')
    exact h
  · exact fun h => ⟨paths, hpaths, h⟩

/-- What the key file holds after an attempt to store a key. -/
theorem saveKey_holds (io : SaveIo) (paths : KeyPaths) {key : Bytes} (h : isHexToken key keySz = true)
    (files : KeyStore) : ((saveKey io paths key files).1 paths.scopedPath).Holds key ↔
      io.replaces = true ∨ (files paths.scopedPath).Holds key := by
  rw [saveKey_eq]
  cases io.replaces with
  | false => simp
  | true =>
    simp only [if_true, Function.update_self, true_or, iff_true]
    exact ⟨_, rfl, keyParse_keyContent h⟩

theorem not_holds_absent {key : Bytes} : ¬ KeyFile.absent.Holds key := fun ⟨_, h, _⟩ => nomatch h

/-- After a removal the file does not hold the key, unless it held it and something went wrong. -/
theorem removeKey_holds (io : RemoveIo) (path key : Bytes) (files : KeyStore) :
    ((removeKey io id path key files).1 path).Holds key ↔ (files path).Holds key ∧ io.works = false := by
  have hload : loadKeyPath io.load (files path) = .ok key ↔ io.load.works = true ∧ (files path).Holds key :=
    loadKeyPath_ok_iff
  rcases removeKey_cases io id path key files with
    ⟨hnone, hremove⟩ | ⟨hok, hunlinks, -, hremove⟩ | ⟨hok, hstuck, hremove⟩ | ⟨-, hne, hremove⟩
  · rw [hremove]
    dsimp only
    rw [loadKeyPath_enoent hnone]
    exact iff_of_false not_holds_absent fun h => not_holds_absent h.1
  · rw [hremove]
    simp only [Function.update_self, RemoveIo.works, (hload.mp hok).1, hunlinks]
    exact iff_of_false not_holds_absent nofun
  · rw [hremove]
    obtain ⟨-, hholds⟩ := hload.mp hok
    have hunlinks : io.unlinks = false := hstuck.resolve_right fun habsent => by
      have hstay : files path = .absent := habsent
      exact not_holds_absent (hstay ▸ hholds)
    simp [hholds, RemoveIo.works, hunlinks]
  · rw [hremove]
    refine ⟨fun hholds => ⟨hholds, ?_⟩, And.left⟩
    have hload' : io.load.works = false := by
      by_contra hworks
      exact hne (hload.mpr ⟨eq_true_of_ne_false hworks, hholds⟩)
    rw [RemoveIo.works, hload', Bool.false_and]

theorem SaveIo.replaces_of_completes {io : SaveIo} (h : io.completes = true) : io.replaces = true := by
  simp only [SaveIo.completes, Bool.and_eq_true] at h
  exact h.1.1.1

/-! ### The two ways to store a key -/

theorem keptOrTakenBack_ok {scope : KeyScope} {key : Bytes} {before r : Registered} :
    KeptOrTakenBack scope (some key) before (r, .ok) ↔ scope.Keeps r.files key := by
  constructor
  · intro h
    obtain ⟨key', hkey', hkeeps⟩ := h.1 rfl
    obtain rfl := Option.some.inj hkey'
    exact hkeeps
  · exact fun h => ⟨fun _ => ⟨key, rfl, h⟩, fun _ _ hfailed => absurd rfl hfailed⟩

theorem keptOrTakenBack_failed {scope : KeyScope} {key : Bytes} {before r : Registered} {status : Status}
    (hstatus : status ≠ .ok) : KeptOrTakenBack scope (some key) before (r, status) ↔
      before.TookBack r key ∧ ¬ scope.Keeps r.files key := by
  constructor
  · exact fun h => h.2 key rfl hstatus
  · refine fun h => ⟨fun hok => absurd hok hstatus, fun key' hkey' _ => ?_⟩
    obtain rfl := Option.some.inj hkey'
    exact h

theorem tookBack_iff {before after : Registered} {request : DeregisterRequest} {key : Bytes}
    (h : isHexToken key keySz = true)
    (hafter : after.deregistered = before.deregistered ++ (deregisterWithKey request key).2) :
    before.TookBack after key ↔ request.goesOut = true := by
  rw [deregisterWithKey_sent request (hexToken_ne_nil h)] at hafter
  constructor
  · rintro ⟨sent, hsent, hkey⟩
    rw [hafter] at hsent
    by_contra hstays
    rw [if_neg hstays] at hsent
    rw [← List.append_cancel_left hsent] at hkey
    cases hkey
  · intro hout
    rw [if_pos hout] at hafter
    exact ⟨[key], hafter, List.mem_singleton_self key⟩

/-- What the start of a publisher makes of a key that has a place. -/
theorem publisherPersistRegistration_eq {scope : KeyScope} {paths : KeyPaths}
    (hpaths : scope.paths = some paths) (io : PersistIo) {r : Registered}
    (h : isHexToken r.key keySz = true) :
    publisherPersistRegistration scope io r =
      if io.save.completes then ({ r with files := (saveKey io.save paths r.key r.files).1 }, .ok)
      else
        ({ key := []
           files := (removeKey io.remove id paths.scopedPath r.key (saveKey io.save paths r.key r.files).1).1
           deregistered := r.deregistered ++ (deregisterWithKey io.request r.key).2 }, .error) := by
  unfold publisherPersistRegistration
  rw [if_neg (hexToken_ne_nil h), hpaths]
  dsimp only
  rw [saveKey_eq]
  cases io.save.completes <;> rfl

/-- There is a place for the key, and it is stored there. -/
def KeyScope.Stores (scope : KeyScope) (save : SaveIo) : Prop := scope.paths.isSome ∧ save.completes = true

/-- At its start a publisher keeps the key or takes the registration back exactly when it stores the key, or
the deregistration goes out and a key that a failed attempt leaves in the file can be removed. -/
theorem publisherPersistRegistration_iff {scope : KeyScope} {io : PersistIo} {r : Registered}
    (h : isHexToken r.key keySz = true) :
    KeptOrTakenBack scope (some r.key) r (publisherPersistRegistration scope io r) ↔
      scope.Stores io.save ∨ io.request.goesOut = true ∧ ∀ paths, scope.paths = some paths →
        LeftBehind io.save (r.files paths.scopedPath) r.key → io.remove.works = true := by
  cases hpaths : scope.paths with
  | none =>
    have hnone : ∀ files, ¬ scope.Keeps files r.key := by
      rintro files ⟨paths, hsome, -⟩
      rw [hpaths] at hsome
      cases hsome
    unfold publisherPersistRegistration
    rw [if_neg (hexToken_ne_nil h), hpaths]
    dsimp only
    rw [keptOrTakenBack_failed (by simp), tookBack_iff h rfl]
    simp [KeyScope.Stores, hpaths, hnone]
  | some paths =>
    have hsaved := saveKey_holds io.save paths h r.files
    rw [publisherPersistRegistration_eq hpaths io h]
    cases hcompletes : io.save.completes with
    | true =>
      rw [if_pos rfl, keptOrTakenBack_ok, KeyScope.keeps_iff hpaths, hsaved]
      refine iff_of_true (Or.inl (SaveIo.replaces_of_completes hcompletes)) (Or.inl ⟨?_, hcompletes⟩)
      rw [hpaths]
      rfl
    | false =>
      have hstores : ¬ scope.Stores io.save := by simp [KeyScope.Stores, hcompletes]
      rw [if_neg (by simp), keptOrTakenBack_failed (by simp), tookBack_iff h rfl, KeyScope.keeps_iff hpaths,
        removeKey_holds, hsaved, or_iff_right hstores]
      apply and_congr_right
      intro _
      constructor
      · intro hgone paths' hpaths' hleft
        obtain rfl := Option.some.inj hpaths'
        by_contra hstuck
        exact hgone ⟨hleft.2, eq_false_of_ne_true hstuck⟩
      · rintro hworks ⟨hleft, hstuck⟩
        exact absurd (hworks paths rfl ⟨hcompletes, hleft⟩) (by simp [hstuck])

/-- What a publisher that registers again makes of a key that has a place. -/
theorem publisherReregister_eq {scope : KeyScope} {paths : KeyPaths} (hpaths : scope.paths = some paths)
    (io : PersistIo) {prepared : Status} {reply : Except Status (JsonObject Rat)} {r : Registered}
    {key : Bytes} (h : publisherRegister prepared reply = .ok key) :
    publisherReregister scope io prepared reply r =
      if io.save.completes then
        ({ r with key, files := (saveKey io.save paths key r.files).1 }, .ok)
      else
        ({ key := []
           files := (saveKey io.save paths key r.files).1
           deregistered := r.deregistered ++ (deregisterWithKey io.request key).2 }, .error) := by
  unfold publisherReregister
  rw [h]
  dsimp only
  rw [hpaths]
  dsimp only
  rw [saveKey_eq]
  cases io.save.completes <;> rfl

/-- A publisher that learns its new key keeps it or takes the registration back exactly when there is a
place for the key and it is stored, or the deregistration goes out and the failed attempt leaves no key. -/
theorem publisherReregister_iff {scope : KeyScope} {io : PersistIo} {prepared : Status}
    {reply : Except Status (JsonObject Rat)} {r : Registered} {key : Bytes}
    (h : publisherRegister prepared reply = .ok key) :
    KeptOrTakenBack scope (some key) r (publisherReregister scope io prepared reply r) ↔
      ∃ paths, scope.paths = some paths ∧ (io.save.completes = true ∨
        io.request.goesOut = true ∧ ¬ LeftBehind io.save (r.files paths.scopedPath) key) := by
  have hkey := publisherRegister_ok h
  cases hpaths : scope.paths with
  | none =>
    unfold publisherReregister
    rw [h, hpaths]
    dsimp only
    rw [keptOrTakenBack_ok]
    refine iff_of_false (fun ⟨_, hsome, _⟩ => ?_) fun ⟨_, hsome, _⟩ => by cases hsome
    rw [hpaths] at hsome
    cases hsome
  | some paths =>
    have hsaved := saveKey_holds io.save paths hkey r.files
    rw [publisherReregister_eq hpaths io h]
    cases hcompletes : io.save.completes with
    | true =>
      rw [if_pos rfl, keptOrTakenBack_ok, KeyScope.keeps_iff hpaths, hsaved]
      exact iff_of_true (Or.inl (SaveIo.replaces_of_completes hcompletes)) ⟨paths, rfl, Or.inl rfl⟩
    | false =>
      rw [if_neg (by simp), keptOrTakenBack_failed (by simp), tookBack_iff hkey rfl, KeyScope.keeps_iff hpaths,
        hsaved]
      constructor
      · rintro ⟨hout, hgone⟩
        exact ⟨paths, rfl, Or.inr ⟨hout, fun hleft => hgone hleft.2⟩⟩
      · rintro ⟨paths', hpaths', hstored | ⟨hout, hfree⟩⟩
        · cases hstored
        · obtain rfl := Option.some.inj hpaths'
          exact ⟨hout, fun hleft => hfree ⟨hcompletes, hleft⟩⟩

/-- A call that fails before it learns a key keeps to what is wanted exactly when the index gave none. -/
theorem keptOrTakenBack_unlearned {scope : KeyScope} {accepted : Option Bytes} {r : Registered}
    {status : Status} (hstatus : status ≠ .ok) : KeptOrTakenBack scope accepted r (r, status) ↔
      accepted = none := by
  have hnever : ∀ key, ¬ r.TookBack r key := by
    rintro key ⟨sent, hsent, hkey⟩
    rw [List.self_eq_append_right.mp hsent] at hkey
    cases hkey
  constructor
  · intro h
    apply Option.eq_none_iff_forall_ne_some.mpr
    intro key hkey
    exact hnever key (h.2 key hkey hstatus).1
  · rintro rfl
    exact ⟨fun hok => absurd hok hstatus, fun _ hkey => by cases hkey⟩

theorem publisherRegister_error {g : Registering} {status : Status}
    (h : publisherRegister g.prepared g.reply = .error status) : status ≠ .ok := by
  unfold publisherRegister registrationKey at h
  split at h
  · rename_i hprepared
    rwa [← Except.error.inj h]
  split at h
  · rename_i hreply
    rw [← Except.error.inj h]
    rintro rfl
    exact g.fails hreply
  split at h
  · cases h
    simp
  · split at h <;> cases h
    simp

/-! ### The end of a publisher -/

theorem publisherRemoveRegistration_forgets (scope : KeyScope) (request : DeregisterRequest) (io : RemoveIo)
    (meanwhile : KeyStore → KeyStore) (waitResult : Status) (r : Registered) :
    (publisherRemoveRegistration scope request io meanwhile waitResult r).1.key = [] := by
  unfold publisherRemoveRegistration
  split
  · assumption
  dsimp only
  split
  · rfl
  split
  · rfl
  split <;> rfl

/-- A publisher that had a key and ends well, after the index accepted, leaves no key file. -/
theorem publisherRemoveRegistration_absent {scope : KeyScope} {request : DeregisterRequest} {io : RemoveIo}
    {meanwhile : KeyStore → KeyStore} {waitResult : Status} {r : Registered} (hkey : r.key ≠ [])
    (haccepted : request.accepted)
    (hok : (publisherRemoveRegistration scope request io meanwhile waitResult r).2 ≠ .error) :
    ∃ paths, scope.paths = some paths ∧
      (publisherRemoveRegistration scope request io meanwhile waitResult r).1.files paths.scopedPath =
        .absent := by
  have hstatus := (deregisterWithKey_ok_iff request hkey).mpr haccepted
  unfold publisherRemoveRegistration at hok ⊢
  rw [if_neg hkey] at hok ⊢
  dsimp only at hok ⊢
  rw [if_neg (not_not_intro hstatus)] at hok ⊢
  cases hpaths : scope.paths with
  | none =>
    rw [hpaths] at hok
    exact absurd rfl hok
  | some paths =>
    refine ⟨paths, rfl, ?_⟩
    rw [hpaths] at hok
    dsimp only at hok ⊢
    rcases removeKey_cases io meanwhile paths.scopedPath r.key r.files with
      ⟨hnone, hremove⟩ | ⟨-, -, -, hremove⟩ | ⟨-, -, hremove⟩ | ⟨-, -, hremove⟩
    · rw [hremove]
      exact loadKeyPath_enoent hnone
    · rw [hremove]
      exact Function.update_self ..
    · rw [hremove] at hok
      exact absurd rfl hok
    · rw [hremove] at hok
      exact absurd rfl hok

/-! ### Registrations that are kept -/

/-- A publisher keeps the key of its registration in its key file or takes the registration back exactly
when it learns a key that the index gave, and
- at its start it stores the key, or the deregistration goes out and a key that a failed attempt to store it
  leaves in the file can be removed,
- when it registers again there is a place for the key and it is stored, or the deregistration goes out and
  the failed attempt leaves no key. -/
theorem registration_persisted_iff (scope : KeyScope) (io : PersistIo) (g : Registering) (r : Registered) :
    (KeptOrTakenBack scope g.accepted r (publisherStart scope io g.prepared g.reply r) ↔
      ∀ key, g.accepted = some key → publisherRegister g.prepared g.reply = .ok key ∧
        (scope.Stores io.save ∨ io.request.goesOut = true ∧ ∀ paths, scope.paths = some paths →
          LeftBehind io.save (r.files paths.scopedPath) key → io.remove.works = true)) ∧
    (KeptOrTakenBack scope g.accepted r (publisherReregister scope io g.prepared g.reply r) ↔
      ∀ key, g.accepted = some key → publisherRegister g.prepared g.reply = .ok key ∧
        ∃ paths, scope.paths = some paths ∧ (io.save.completes = true ∨
          io.request.goesOut = true ∧ ¬ LeftBehind io.save (r.files paths.scopedPath) key)) := by
  cases hlearned : publisherRegister g.prepared g.reply with
  | error status =>
    have hfails : KeptOrTakenBack scope g.accepted r (r, status) ↔ g.accepted = none :=
      keptOrTakenBack_unlearned (publisherRegister_error hlearned)
    have hnone : g.accepted = none ↔ ∀ key, g.accepted ≠ some key := Option.eq_none_iff_forall_ne_some
    unfold publisherStart publisherReregister
    rw [hlearned]
    dsimp only
    rw [hfails, hnone]
    simp
  | ok key =>
    have haccepted := g.told key hlearned
    have hstart : KeptOrTakenBack scope (some key) { r with key }
        (publisherPersistRegistration scope io { r with key }) ↔ _ :=
      publisherPersistRegistration_iff (publisherRegister_ok hlearned)
    have hagain : KeptOrTakenBack scope (some key) r (publisherReregister scope io g.prepared g.reply r) ↔ _ :=
      publisherReregister_iff hlearned
    have hsame : ∀ result, KeptOrTakenBack scope (some key) { r with key } result ↔
        KeptOrTakenBack scope (some key) r result := fun _ => Iff.rfl
    rw [haccepted, hagain]
    unfold publisherStart
    rw [hlearned]
    dsimp only
    rw [← hsame, hstart]
    constructor
    · constructor
      · intro h key' hkey'
        obtain rfl := Option.some.inj hkey'
        exact ⟨rfl, h⟩
      · exact fun h => (h key rfl).2
    · constructor
      · intro h key' hkey'
        obtain rfl := Option.some.inj hkey'
        exact ⟨rfl, h⟩
      · exact fun h => (h key rfl).2

def sampleScope : KeyScope := ⟨⟨ascii "/state", none⟩, ascii "index", 7777, ascii "pub"⟩

def sampleKeyReply : Except Status (JsonObject Rat) := .ok [(ascii "key", .str sampleKey)]

/-- Everything succeeds but the synchronization of the directory. -/
def unsyncedIo : PersistIo where
  save := ⟨true, true, true, true, true, true, true, true, true, false, true⟩
  request := ⟨true, true, .ok⟩
  remove := ⟨⟨true, true, true, true⟩, true⟩

/-- Nothing is stored yet. -/
def freshRegistered : Registered := ⟨[], fun _ => .absent, []⟩

/-- The index accepts, and its reply arrives. -/
def sampleRegistering : Registering where
  prepared := .ok
  accepted := some sampleKey
  reply := sampleKeyReply
  asked h := absurd rfl h
  fails h := by cases h
  told key h := by
    have hkey : publisherRegister .ok sampleKeyReply = .ok sampleKey := by decide +kernel
    rw [hkey] at h
    rw [Except.ok.inj h]

/-- A publisher that cannot synchronize the directory at its start takes the registration back, if it
reaches the index again. -/
theorem registration_persisted_sample :
    KeptOrTakenBack sampleScope (some sampleKey) freshRegistered
        (publisherStart sampleScope unsyncedIo .ok sampleKeyReply freshRegistered) ∧
      ¬ KeptOrTakenBack sampleScope (some sampleKey) freshRegistered
        (publisherStart sampleScope { unsyncedIo with request := ⟨true, false, .ok⟩ } .ok sampleKeyReply
          freshRegistered) := by
  have hlearned : publisherRegister .ok sampleKeyReply = .ok sampleKey := by decide +kernel
  constructor
  · apply (registration_persisted_iff sampleScope unsyncedIo sampleRegistering freshRegistered).1.mpr
    intro key hkey
    rw [← Option.some.inj hkey]
    exact ⟨hlearned, Or.inr ⟨rfl, fun _ _ _ => rfl⟩⟩
  · intro hkept
    obtain ⟨-, ⟨-, hstored⟩ | ⟨hout, -⟩⟩ := (registration_persisted_iff sampleScope
      { unsyncedIo with request := ⟨true, false, .ok⟩ } sampleRegistering freshRegistered).1.mp hkept _ rfl
    · cases hstored
    · cases hout

/-- A publisher that registers again and cannot synchronize the directory takes the registration back but
leaves the key in its file. One that has no place for its key goes on with a key that is stored nowhere. -/
theorem reregistration_unpersisted :
    publisherRegister .ok sampleKeyReply = .ok sampleKey ∧
      ¬ KeptOrTakenBack sampleScope (some sampleKey) freshRegistered
        (publisherReregister sampleScope unsyncedIo .ok sampleKeyReply freshRegistered) ∧
      ¬ KeptOrTakenBack ⟨⟨[], none⟩, ascii "index", 7777, ascii "pub"⟩ (some sampleKey) freshRegistered
        (publisherReregister ⟨⟨[], none⟩, ascii "index", 7777, ascii "pub"⟩ unsyncedIo .ok sampleKeyReply
          freshRegistered) := by
  have hkey : publisherRegister .ok sampleKeyReply = .ok sampleKey := by decide +kernel
  refine ⟨hkey, fun hkept => ?_, fun hkept => ?_⟩
  · obtain ⟨_, _, hstored | ⟨_, hfree⟩⟩ := (publisherReregister_iff hkey).mp hkept
    · cases hstored
    · exact hfree ⟨rfl, Or.inl rfl⟩
  · obtain ⟨_, hpaths, _⟩ := (publisherReregister_iff hkey).mp hkept
    cases hpaths

end Redp2p
