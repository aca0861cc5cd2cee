import ArkiveSync.Model.VaultService

/-!
# The key belongs to the account

The row, the key in memory and the secret of the stored session are written by
different services.  What ties them together is that each holds the master key
of the user whose id is in the row, if it holds a key at all.

## Main results

* `Consistent`: what ties the row, the key and the secrets together.
* `persistSession_keeps`, `unlock_keeps`, `restoreSession_keeps`: a call of the
  vault service keeps it, wherever it fails.
* `unlocked_key_belongs`: so does a whole run in which the user in the row only
  changes while the vault is locked and no session is stored.
* `not_unlocked_key_belongs`: another user signs in and has no vault.
-/

namespace ArkiveSync.VaultKeys

open Library

variable {ν : Type}

/-! ## The property -/

/-- The key is the master key of the user in the row. -/
def KeyOf (masterKeyOf : MasterKeys) (s : VaultRun) (masterKey : Bytes) :
    Prop :=
  ∃ account userId, s.account = some account ∧
    account.userId = some userId ∧ masterKey = masterKeyOf userId

/-- If the vault is unlocked, its key is that of the user in the row. -/
def Owned (masterKeyOf : MasterKeys) (s : VaultRun) : Prop :=
  s.masterKey ≠ [] → KeyOf masterKeyOf s s.masterKey

/-- The same of the key that is there, and of the one that the next process
restores. -/
structure Belongs (crypto : VaultCrypto ν) (masterKeyOf : MasterKeys)
    (s : VaultRun) : Prop where
  unlocked : Owned masterKeyOf s
  restored : ∀ env, Owned masterKeyOf
    (VaultService.restoreSession crypto env { s with masterKey := [] }).state

/-! ## The condition -/

/-- The row holds this session. -/
def Stored (s : VaultRun) (keyId blob : String) : Prop :=
  ∃ account, s.account = some account ∧
    account.vaultSessionKeyId = some keyId ∧
    account.vaultSessionBlob = some blob

/-- The blob is unwrapped under this key. -/
def Opens (crypto : VaultCrypto ν) (blob : String) (wrappingKey masterKey :
    Bytes) : Prop :=
  ∃ encrypted, decodeBase64 blob = some encrypted ∧
    crypto.unwrapMasterKey encrypted wrappingKey
      (ArkiveAad.toBytes ArkiveAad.kSessionMasterKey) = some masterKey

/-- The secure storage has the key of the stored session. -/
def Restorable (crypto : VaultCrypto ν) (s : VaultRun) : Prop :=
  ∃ keyId blob wrappingKey masterKey, Stored s keyId blob ∧
    s.secrets keyId = some wrappingKey ∧ Opens crypto blob wrappingKey masterKey

/-- Nothing of the user in the row is left behind. -/
def Vacant (crypto : VaultCrypto ν) (s : VaultRun) : Prop :=
  s.masterKey = [] ∧ ¬ Restorable crypto s

/-- Where the user in the row changes, nothing of the former one is left; and
the vault is locked where the row is cleared. -/
def Leaves (crypto : VaultCrypto ν) (s : VaultRun) : VaultAction ν → Prop
  | .login env answers email password =>
      AuthService.ChangesUser env
        (AuthService.loginRecord answers email password) s → Vacant crypto s
  | .refreshVaultMaterial env answers password =>
      AuthService.ChangesUser env
        (AuthService.refreshedRecord answers password) s → Vacant crypto s
  | .logout env answers =>
      AuthService.ClearsAccount env answers → s.account ≠ none → s.masterKey = []
  | _ => True

/-! ## What ties it together -/

/-- What ties the row, the key in memory and the stored session together. -/
structure Consistent (crypto : VaultCrypto ν) (masterKeyOf : MasterKeys)
    (s : VaultRun) : Prop where
  unlocked : Owned masterKeyOf s
  material : ∀ account encryptedMasterKey, s.account = some account →
    account.encryptedMasterKey = some encryptedMasterKey →
    ∃ userId, account.userId = some userId ∧
      Material crypto masterKeyOf userId encryptedMasterKey
  session : ∀ keyId blob wrappingKey masterKey, Stored s keyId blob →
    s.secrets keyId = some wrappingKey →
    Opens crypto blob wrappingKey masterKey →
    KeyOf masterKeyOf s masterKey ∧ keyId ≠ "" ∧ blob ≠ "" ∧
      wrappingKey ≠ [] ∧ masterKey ≠ []
  drawn : ∀ keyId blob wrappingKey masterKey, Stored s keyId blob →
    Opens crypto blob wrappingKey masterKey → wrappingKey ∈ s.drawn

section Keeps

variable {crypto : VaultCrypto ν} {masterKeyOf : MasterKeys}
  {env : VaultEnv ν} {s s' : VaultRun}

theorem stored_of_account (haccount : s'.account = s.account)
    {keyId blob : String} (h : Stored s' keyId blob) : Stored s keyId blob := by
  obtain ⟨account, hrow, hsession⟩ := h
  exact ⟨account, haccount ▸ hrow, hsession⟩

theorem keyOf_of_account (haccount : s'.account = s.account)
    {masterKey : Bytes} (h : KeyOf masterKeyOf s masterKey) :
    KeyOf masterKeyOf s' masterKey := by
  obtain ⟨account, userId, hrow, huser⟩ := h
  exact ⟨account, userId, haccount.trans hrow, huser⟩

/-- The row stays, and a new secret does not open the session in it. -/
theorem Consistent.of_account (h : Consistent crypto masterKeyOf s)
    (haccount : s'.account = s.account) (howned : Owned masterKeyOf s')
    (hdrawn : ∀ wrappingKey ∈ s.drawn, wrappingKey ∈ s'.drawn)
    (hsecrets : ∀ keyId wrappingKey, s'.secrets keyId = some wrappingKey →
      s.secrets keyId = some wrappingKey ∨
        ∀ blob masterKey, Stored s keyId blob →
          ¬ Opens crypto blob wrappingKey masterKey) :
    Consistent crypto masterKeyOf s' := by
  refine ⟨howned, ?_, ?_, ?_⟩
  · intro account encryptedMasterKey hrow
    exact h.material account encryptedMasterKey (haccount ▸ hrow)
  · intro keyId blob wrappingKey masterKey hstored hsecret hopens
    have hold := stored_of_account haccount hstored
    rcases hsecrets keyId wrappingKey hsecret with hsame | hnew
    · obtain ⟨hkey, hrest⟩ :=
        h.session keyId blob wrappingKey masterKey hold hsame hopens
      exact ⟨keyOf_of_account haccount hkey, hrest⟩
    · exact absurd hopens (hnew blob masterKey hold)
  · intro keyId blob wrappingKey masterKey hstored hopens
    exact hdrawn wrappingKey (h.drawn keyId blob wrappingKey masterKey
      (stored_of_account haccount hstored) hopens)

/-- The vault is locked. -/
theorem Consistent.locked (h : Consistent crypto masterKeyOf s) :
    Consistent crypto masterKeyOf { s with masterKey := [] } :=
  h.of_account rfl (fun hkey => absurd rfl hkey) (fun _ hin => hin)
    (fun _ _ hsecret => Or.inl hsecret)

/-- The vault has a key of the user. -/
theorem Consistent.unlocks (h : Consistent crypto masterKeyOf s)
    {masterKey : Bytes} (hkey : KeyOf masterKeyOf s masterKey) :
    Consistent crypto masterKeyOf { s with masterKey := masterKey } :=
  h.of_account rfl (fun _ => hkey) (fun _ hin => hin)
    (fun _ _ hsecret => Or.inl hsecret)

/-- A row without a session. -/
theorem Consistent.of_no_session {account : AccountRecord}
    (howned : Owned masterKeyOf s) (hrow : s.account = some account)
    (hsession : account.vaultSessionKeyId = none)
    (hmaterial : ∀ encryptedMasterKey,
      account.encryptedMasterKey = some encryptedMasterKey →
      ∃ userId, account.userId = some userId ∧
        Material crypto masterKeyOf userId encryptedMasterKey) :
    Consistent crypto masterKeyOf s := by
  have hnone : ∀ keyId blob, ¬ Stored s keyId blob := by
    intro keyId blob hstored
    obtain ⟨other, hother, hid, -⟩ := hstored
    rw [hrow] at hother
    cases hother
    rw [hsession] at hid
    cases hid
  refine ⟨howned, ?_, ?_, ?_⟩
  · intro other encryptedMasterKey hother
    rw [hrow] at hother
    cases hother
    exact hmaterial encryptedMasterKey
  · intro keyId blob wrappingKey masterKey hstored
    exact absurd hstored (hnone keyId blob)
  · intro keyId blob wrappingKey masterKey hstored
    exact absurd hstored (hnone keyId blob)

/-! ## The calls of the vault service -/

/-- What `deleteSecret` leaves: the secrets that were not deleted. -/
structure Fewer (s s' : VaultRun) : Prop where
  account : s'.account = s.account
  masterKey : s'.masterKey = s.masterKey
  drawn : s'.drawn = s.drawn
  secrets : ∀ keyId wrappingKey, s'.secrets keyId = some wrappingKey →
    s.secrets keyId = some wrappingKey

theorem Fewer.refl (s : VaultRun) : Fewer s s :=
  ⟨rfl, rfl, rfl, fun _ _ h => h⟩

theorem fewer_deleteSecret (name : String) :
    Fewer s (SecureStorage.deleteSecret env name s).state := by
  unfold SecureStorage.deleteSecret
  split
  · exact Fewer.refl s
  · refine andThen_keeps (P := Fewer s) (Fewer.refl s)
      (fun _ => ⟨rfl, rfl, rfl, ?_⟩)
    intro keyId wrappingKey h
    change (if keyId = name then none else s.secrets keyId) = _ at h
    split at h
    · cases h
    · exact h

theorem fewer_deleteOldSecret (account : AccountRecord) (sessionKeyId : String) :
    Fewer s (VaultService.deleteOldSecret env account sessionKeyId s).state := by
  unfold VaultService.deleteOldSecret
  split
  · exact Fewer.refl s
  · split
    · exact fewer_deleteSecret _
    · exact Fewer.refl s

theorem Consistent.fewer (h : Consistent crypto masterKeyOf s)
    (hfewer : Fewer s s') : Consistent crypto masterKeyOf s' := by
  refine h.of_account hfewer.account ?_ ?_ ?_
  · intro hkey
    rw [hfewer.masterKey] at hkey ⊢
    exact keyOf_of_account hfewer.account (h.unlocked hkey)
  · intro wrappingKey hin
    rw [hfewer.drawn]
    exact hin
  · exact fun keyId wrappingKey hsecret =>
      Or.inl (hfewer.secrets keyId wrappingKey hsecret)

theorem clearVaultSession_keeps (h : Consistent crypto masterKeyOf s) :
    Consistent crypto masterKeyOf (UserRepo.clearVaultSession env s).state := by
  refine andThen_keeps (P := Consistent crypto masterKeyOf) h (fun _ => ?_)
  cases hrow : s.account with
  | none =>
      refine h.of_account ?_ ?_ (fun _ hin => hin)
        (fun _ _ hsecret => Or.inl hsecret)
      · show s.account.map _ = s.account
        rw [hrow]
        rfl
      · intro hkey
        obtain ⟨account, userId, haccount, -⟩ := h.unlocked hkey
        rw [hrow] at haccount
        cases haccount
  | some account =>
      have hcleared : s.account.map (UserRepo.withSession none none) =
          some (UserRepo.withSession none none account) := by
        rw [hrow]
        rfl
      refine Consistent.of_no_session ?_ hcleared rfl ?_
      · intro hkey
        obtain ⟨other, userId, hother, huser, hsame⟩ := h.unlocked hkey
        rw [hrow] at hother
        cases hother
        exact ⟨_, userId, hcleared, huser, hsame⟩
      · intro encryptedMasterKey hmaterial
        exact h.material account encryptedMasterKey hrow hmaterial

theorem clearPersistedSession_keeps (h : Consistent crypto masterKeyOf s) :
    Consistent crypto masterKeyOf
      (VaultService.clearPersistedSession env s).state := by
  refine andThen_keeps (P := Consistent crypto masterKeyOf) h (fun _ => ?_)
  split
  · exact h
  · rename_i keyId hkeyId
    split
    · exact h
    · have hfewer : Consistent crypto masterKeyOf
          (SecureStorage.deleteSecret env keyId s).state :=
        h.fewer (fewer_deleteSecret keyId)
      exact andThen_keeps (P := Consistent crypto masterKeyOf) hfewer
        (fun _ => clearVaultSession_keeps hfewer)

/-- Clearing the session leaves the key in memory alone. -/
theorem masterKey_clearPersistedSession (s : VaultRun) :
    (VaultService.clearPersistedSession env s).state.masterKey =
      s.masterKey := by
  refine andThen_keeps (P := fun s' => s'.masterKey = s.masterKey) rfl
    (fun _ => ?_)
  split
  · rfl
  · rename_i keyId hkeyId
    split
    · rfl
    · have hfewer : Fewer s (SecureStorage.deleteSecret env keyId s).state :=
        fewer_deleteSecret keyId
      refine andThen_keeps (P := fun s' => s'.masterKey = s.masterKey)
        hfewer.masterKey (fun _ => ?_)
      exact andThen_keeps (P := fun s' => s'.masterKey = s.masterKey)
        hfewer.masterKey (fun _ => hfewer.masterKey)

/-- No key that is about to be drawn opens the stored session. -/
theorem Consistent.unopened (h : Consistent crypto masterKeyOf s)
    {wrappingKey : Bytes} (hfresh : wrappingKey ∉ s.drawn)
    (keyId blob : String) (masterKey : Bytes) (hstored : Stored s keyId blob) :
    ¬ Opens crypto blob wrappingKey masterKey :=
  fun hopens => hfresh (h.drawn keyId blob wrappingKey masterKey hstored hopens)

theorem encodeBase64_ne_empty {bytes : Bytes} (h : bytes ≠ []) :
    encodeBase64 bytes ≠ "" := by
  intro hempty
  have hround := decodeBase64_encodeBase64 bytes
  rw [hempty] at hround
  have hnone : decodeBase64 "" = some [] := by decide
  rw [hnone] at hround
  cases hround
  exact h rfl

/-- The row with the session that has just been wrapped. -/
theorem Consistent.saved (hcrypto : crypto.Authentic)
    (h : Consistent crypto masterKeyOf s) (hkey : s.masterKey ≠ [])
    (nonce : ν) {wrappingKey wrapped : Bytes} {keyId : String}
    (hwrap : crypto.wrapMasterKey nonce s.masterKey wrappingKey
      (ArkiveAad.toBytes ArkiveAad.kSessionMasterKey) = some wrapped)
    (hdrawn : wrappingKey ∈ s.drawn) (hid : keyId ≠ "")
    (hwrappingKey : wrappingKey ≠ [])
    (haccount : s'.account = s.account.map
      (UserRepo.withSession (some keyId) (some (encodeBase64 wrapped))))
    (hmaster : s'.masterKey = s.masterKey) (hdraws : s'.drawn = s.drawn) :
    Consistent crypto masterKeyOf s' := by
  obtain ⟨account, userId, hrow, huser, hsame⟩ := h.unlocked hkey
  have hnew : s'.account = some (UserRepo.withSession (some keyId)
      (some (encodeBase64 wrapped)) account) := by
    rw [haccount, hrow]
    rfl
  have hopens : ∀ wrappingKey' masterKey,
      Opens crypto (encodeBase64 wrapped) wrappingKey' masterKey →
      wrappingKey' = wrappingKey ∧ masterKey = s.masterKey := by
    intro wrappingKey' masterKey hopens
    obtain ⟨encrypted, hdecode, hunwrap⟩ := hopens
    rw [decodeBase64_encodeBase64] at hdecode
    cases hdecode
    exact hcrypto.unwrap_only _ _ _ _ _ _ _ hwrap hunwrap
  have hwritten : ∀ keyId' blob, Stored s' keyId' blob →
      keyId' = keyId ∧ blob = encodeBase64 wrapped := by
    intro keyId' blob hstored
    obtain ⟨other, hother, hid', hblob⟩ := hstored
    rw [hnew] at hother
    cases hother
    cases hid'
    cases hblob
    exact ⟨rfl, rfl⟩
  have howner : KeyOf masterKeyOf s' s.masterKey :=
    ⟨_, userId, hnew, huser, hsame⟩
  refine ⟨?_, ?_, ?_, ?_⟩
  · intro _
    rw [hmaster]
    exact howner
  · intro other encryptedMasterKey hother hmaterial
    rw [hnew] at hother
    cases hother
    exact h.material account encryptedMasterKey hrow hmaterial
  · intro keyId' blob wrappingKey' masterKey hstored hsecret hopen
    obtain ⟨hid', hblob⟩ := hwritten keyId' blob hstored
    subst hid' hblob
    obtain ⟨hwrapping, hmaster'⟩ := hopens wrappingKey' masterKey hopen
    subst hwrapping hmaster'
    exact ⟨howner, hid, encodeBase64_ne_empty
      (hcrypto.wrapped_nonempty _ _ _ _ _ hwrap), hwrappingKey, hkey⟩
  · intro keyId' blob wrappingKey' masterKey hstored hopen
    obtain ⟨hid', hblob⟩ := hwritten keyId' blob hstored
    subst hid' hblob
    rw [(hopens wrappingKey' masterKey hopen).1, hdraws]
    exact hdrawn

/-- What `storeSecret` leaves alone, and that it refuses empty arguments. -/
theorem storeSecret_frame (env : VaultEnv ν) (name : String) (secret : Bytes) :
    ((SecureStorage.storeSecret env name secret s).state.account = s.account ∧
      (SecureStorage.storeSecret env name secret s).state.masterKey =
        s.masterKey ∧
      (SecureStorage.storeSecret env name secret s).state.drawn = s.drawn) ∧
    ((SecureStorage.storeSecret env name secret s).returned = true →
      name ≠ "" ∧ secret ≠ []) := by
  unfold SecureStorage.storeSecret
  split
  · exact ⟨⟨rfl, rfl, rfl⟩, fun h => absurd h Bool.false_ne_true⟩
  · rename_i hnonempty
    refine ⟨?_, fun _ => ⟨fun h => hnonempty (Or.inl h),
      fun h => hnonempty (Or.inr h)⟩⟩
    exact andThen_keeps (P := fun s' => s'.account = s.account ∧
      s'.masterKey = s.masterKey ∧ s'.drawn = s.drawn) ⟨rfl, rfl, rfl⟩
      (fun _ => ⟨rfl, rfl, rfl⟩)

/-- A secret that does not open the stored session. -/
theorem storeSecret_keeps (h : Consistent crypto masterKeyOf s)
    (env : VaultEnv ν) (name : String) (secret : Bytes)
    (hunopened : ∀ keyId blob masterKey, Stored s keyId blob →
      ¬ Opens crypto blob secret masterKey) :
    Consistent crypto masterKeyOf
      (SecureStorage.storeSecret env name secret s).state := by
  unfold SecureStorage.storeSecret
  split
  · exact h
  refine andThen_keeps (P := Consistent crypto masterKeyOf) h (fun _ => ?_)
  refine h.of_account rfl h.unlocked (fun _ hin => hin) ?_
  intro keyId wrappingKey hsecret
  change (if keyId = name then some secret else s.secrets keyId) = _ at hsecret
  split at hsecret
  · cases hsecret
    exact Or.inr (hunopened keyId)
  · exact Or.inl hsecret

/-- Storing a session, wherever it ends. -/
theorem persistSession_keeps (hcrypto : crypto.Authentic)
    (h : Consistent crypto masterKeyOf s) (hfresh : env.wrappingKey ∉ s.drawn) :
    Consistent crypto masterKeyOf
      (VaultService.persistSession crypto env s).state := by
  unfold VaultService.persistSession
  split
  · exact h
  rename_i hkey
  refine andThen_keeps (P := Consistent crypto masterKeyOf) h (fun _ => ?_)
  split
  · exact h
  rename_i account hrow
  split
  · exact h
  rename_i sessionKeyId hsession
  refine andThen_keeps (P := Consistent crypto masterKeyOf) h (fun _ => ?_)
  -- From here on the wrapping key counts as drawn.
  have hdrawn : Consistent crypto masterKeyOf
      { s with drawn := env.wrappingKey :: s.drawn } :=
    h.of_account rfl h.unlocked (fun _ hin => List.mem_cons_of_mem _ hin)
      (fun _ _ hsecret => Or.inl hsecret)
  refine andThen_keeps (P := Consistent crypto masterKeyOf) hdrawn
    (fun _ => ?_)
  split
  · exact hdrawn
  rename_i wrapped hwrap
  have hfewer : Fewer { s with drawn := env.wrappingKey :: s.drawn }
      (VaultService.deleteOldSecret env _ sessionKeyId
        { s with drawn := env.wrappingKey :: s.drawn }).state :=
    fewer_deleteOldSecret account sessionKeyId
  have hleft := hdrawn.fewer hfewer
  refine andThen_keeps (P := Consistent crypto masterKeyOf) hleft (fun _ => ?_)
  have hstored := storeSecret_keeps hleft env sessionKeyId env.wrappingKey
    (fun keyId blob masterKey hold =>
      h.unopened hfresh keyId blob masterKey
        (stored_of_account hfewer.account hold))
  refine andThen_keeps (P := Consistent crypto masterKeyOf) hstored
    (fun hreturned => ?_)
  obtain ⟨⟨haccount, hmaster, hdraws⟩, hnonempty⟩ :=
    storeSecret_frame (s := (VaultService.deleteOldSecret env
      account sessionKeyId
      { s with drawn := env.wrappingKey :: s.drawn }).state)
      env sessionKeyId env.wrappingKey
  obtain ⟨hid, hwrappingKey⟩ := hnonempty hreturned
  have hsame := hmaster.trans hfewer.masterKey
  refine andThen_keeps (P := Consistent crypto masterKeyOf) hstored
    (fun _ => ?_)
  refine hstored.saved hcrypto ?_ env.nonce ?_ ?_ hid hwrappingKey rfl rfl rfl
  · rw [hsame]
    exact hkey
  · rw [hsame]
    exact hwrap
  · rw [hdraws, hfewer.drawn]
    exact List.mem_cons_self

/-- Unlocking, wherever it ends. -/
theorem unlock_keeps (hcrypto : crypto.Authentic)
    (h : Consistent crypto masterKeyOf s) (hfresh : env.wrappingKey ∉ s.drawn)
    (password : String) :
    Consistent crypto masterKeyOf
      (VaultService.unlock crypto env password s).state := by
  refine andThen_keeps (P := Consistent crypto masterKeyOf) h (fun _ => ?_)
  split
  · exact h
  rename_i account hrow
  split
  next salt encrypted hsalt hencrypted =>
      refine andThen_keeps (P := Consistent crypto masterKeyOf) h (fun _ => ?_)
      split
      · exact h
      rename_i kek hkek
      refine andThen_keeps (P := Consistent crypto masterKeyOf) h (fun _ => ?_)
      split
      · exact h
      rename_i masterKey hunwrap
      have hkey : KeyOf masterKeyOf s masterKey := by
        obtain ⟨encryptedMasterKey, hsome, hdecode⟩ :=
          Option.bind_eq_some_iff.mp hencrypted
        obtain ⟨userId, huser, hmaterial⟩ :=
          h.material account encryptedMasterKey hrow hsome
        exact ⟨account, userId, hrow, huser,
          hmaterial encrypted kek masterKey hdecode hunwrap⟩
      exact persistSession_keeps hcrypto (h.unlocks hkey) hfresh
  next => exact h

/-- Restoring the session, wherever it ends. -/
theorem restoreSession_keeps (h : Consistent crypto masterKeyOf s) :
    Consistent crypto masterKeyOf
      (VaultService.restoreSession crypto env s).state := by
  unfold VaultService.restoreSession
  split
  · exact h
  refine andThen_keeps (P := Consistent crypto masterKeyOf) h (fun _ => ?_)
  split
  · exact h
  rename_i account hrow
  split
  next keyId blob hkeyId hblob =>
      split
      · exact h
      refine andThen_keeps (P := Consistent crypto masterKeyOf) h (fun _ => ?_)
      split
      · exact clearVaultSession_keeps h
      rename_i wrappingKey hsecret
      split
      · exact clearVaultSession_keeps h
      split
      · exact h
      rename_i encrypted hdecode
      refine andThen_keeps (P := Consistent crypto masterKeyOf) h (fun _ => ?_)
      split
      · exact h
      rename_i masterKey hunwrap
      exact h.unlocks (h.session keyId blob wrappingKey masterKey
        ⟨account, hrow, hkeyId, hblob⟩ hsecret ⟨encrypted, hdecode, hunwrap⟩).1
  next => exact h

theorem ensureUnlocked_keeps (h : Consistent crypto masterKeyOf s) :
    Consistent crypto masterKeyOf
      (VaultService.ensureUnlocked crypto env s).state := by
  have hrestored : Consistent crypto masterKeyOf
      (VaultService.restoreSession crypto env s).state := restoreSession_keeps h
  refine andThen_keeps (P := Consistent crypto masterKeyOf) hrestored
    (fun _ => ?_)
  split
  · exact hrestored
  · exact hrestored

/-! ## Signing in and out -/

/-- A row for the same user, or for another one when nothing is left of the
former. -/
theorem Consistent.replaced (h : Consistent crypto masterKeyOf s)
    {account updated : AccountRecord} (hrow : s.account = some account)
    (hkeyId : updated.vaultSessionKeyId = account.vaultSessionKeyId)
    (hblob : updated.vaultSessionBlob = account.vaultSessionBlob)
    (huser : updated.userId ≠ account.userId → Vacant crypto s)
    (hmaterial : ∀ encryptedMasterKey,
      updated.encryptedMasterKey = some encryptedMasterKey →
      ∃ userId, updated.userId = some userId ∧
        Material crypto masterKeyOf userId encryptedMasterKey) :
    Consistent crypto masterKeyOf { s with account := some updated } := by
  have hstored : ∀ keyId blob,
      Stored { s with account := some updated } keyId blob →
      Stored s keyId blob := by
    intro keyId blob hnew
    obtain ⟨other, hother, hid, hsession⟩ := hnew
    cases hother
    exact ⟨account, hrow, hkeyId ▸ hid, hblob ▸ hsession⟩
  have hkeyOf : ∀ masterKey, updated.userId = account.userId →
      KeyOf masterKeyOf s masterKey →
      KeyOf masterKeyOf { s with account := some updated } masterKey := by
    intro masterKey hsame hkey
    obtain ⟨other, userId, hother, hid, hmaster⟩ := hkey
    rw [hrow] at hother
    cases hother
    exact ⟨updated, userId, rfl, hsame.trans hid, hmaster⟩
  refine ⟨?_, ?_, ?_, ?_⟩
  · intro hkey
    by_cases hsame : updated.userId = account.userId
    · exact hkeyOf _ hsame (h.unlocked hkey)
    · exact absurd (huser hsame).1 hkey
  · intro other encryptedMasterKey hother
    cases hother
    exact hmaterial encryptedMasterKey
  · intro keyId blob wrappingKey masterKey hnew hsecret hopens
    have hold := hstored keyId blob hnew
    by_cases hsame : updated.userId = account.userId
    · obtain ⟨hkey, hrest⟩ :=
        h.session keyId blob wrappingKey masterKey hold hsecret hopens
      exact ⟨hkeyOf masterKey hsame hkey, hrest⟩
    · exact absurd ⟨keyId, blob, wrappingKey, masterKey, hold, hsecret, hopens⟩
        (huser hsame).2
  · intro keyId blob wrappingKey masterKey hnew hopens
    exact h.drawn keyId blob wrappingKey masterKey (hstored keyId blob hnew)
      hopens

/-- What a record of the server's answers holds. -/
structure Answered (crypto : VaultCrypto ν) (masterKeyOf : MasterKeys)
    (account updated : AccountRecord) : Prop where
  keyId : updated.vaultSessionKeyId = account.vaultSessionKeyId
  blob : updated.vaultSessionBlob = account.vaultSessionBlob
  material : ∀ encryptedMasterKey,
    updated.encryptedMasterKey = some encryptedMasterKey →
    ∃ userId, updated.userId = some userId ∧
      Material crypto masterKeyOf userId encryptedMasterKey

theorem answered_applyIdentity {answers : AuthAnswers}
    (hhonest : answers.Honest crypto masterKeyOf)
    {account updated : AccountRecord}
    {email : Option String} {response : LoginResponse} {me : Option String}
    (hmaterial : answers.material = some response) (hme : answers.me = some me)
    (h : AuthService.applyIdentity account email response me = some updated) :
    Answered crypto masterKeyOf account updated := by
  unfold AuthService.applyIdentity at h
  dsimp only at h
  split at h
  · cases h
  rename_i huser
  cases h
  refine ⟨rfl, rfl, ?_⟩
  intro encryptedMasterKey hsome
  refine ⟨me.getD "", rfl, ?_⟩
  cases me with
  | none => exact absurd rfl huser
  | some userId =>
      change (if response.encryptedMasterKey = "" then none
        else some response.encryptedMasterKey) = _ at hsome
      split at hsome
      · cases hsome
      · cases hsome
        exact hhonest response userId hmaterial hme

theorem answered_loginRecord {answers : AuthAnswers} {email password : String}
    (hhonest : answers.Honest crypto masterKeyOf)
    {account updated : AccountRecord}
    (h : AuthService.loginRecord answers email password account =
      some updated) : Answered crypto masterKeyOf account updated := by
  unfold AuthService.loginRecord at h
  split at h
  · cases h
  split at h
  next response me hmaterial hme =>
      exact answered_applyIdentity hhonest hmaterial hme h
  next => cases h

theorem answered_refreshedRecord {answers : AuthAnswers} {password : String}
    (hhonest : answers.Honest crypto masterKeyOf)
    {account updated : AccountRecord}
    (h : AuthService.refreshedRecord answers password account =
      some updated) : Answered crypto masterKeyOf account updated := by
  unfold AuthService.refreshedRecord at h
  split at h
  · cases h
  split at h
  next response me hmaterial hme =>
      exact answered_applyIdentity hhonest hmaterial hme h
  next => cases h

theorem replaceAccount_keeps (h : Consistent crypto masterKeyOf s)
    {record : AccountRecord → Option AccountRecord}
    (hanswered : ∀ account updated, record account = some updated →
      Answered crypto masterKeyOf account updated)
    (hleaves : AuthService.ChangesUser env record s → Vacant crypto s) :
    Consistent crypto masterKeyOf
      (AuthService.replaceAccount env record s).state := by
  rcases AuthService.replaceAccount_cases env s record with hsame | hnew
  · rw [hsame]
    exact h
  · obtain ⟨account, updated, hrow, hrecord, hread, hwrite, hstate⟩ := hnew
    obtain ⟨hkeyId, hblob, hmaterial⟩ := hanswered account updated hrecord
    rw [hstate]
    refine h.replaced hrow hkeyId hblob ?_ hmaterial
    intro huser
    exact hleaves ⟨account, updated, hrow, hrecord, hread, hwrite, huser⟩

theorem logout_keeps (h : Consistent crypto masterKeyOf s)
    {answers : AuthAnswers}
    (hleaves : AuthService.ClearsAccount env answers → s.account ≠ none →
      s.masterKey = []) :
    Consistent crypto masterKeyOf (AuthService.logout env answers s).state := by
  rcases AuthService.logout_cases env answers s with hsame | ⟨hclears, hnew⟩
  · rw [hsame]
    exact h
  · rw [hnew]
    cases hrow : s.account with
    | none =>
        show Consistent crypto masterKeyOf { s with account := none }
        rw [← hrow]
        exact h
    | some account =>
        have hlocked : s.masterKey = [] :=
          hleaves hclears (by rw [hrow]; exact Option.some_ne_none _)
        refine Consistent.of_no_session ?_ rfl rfl ?_
        · intro hkey
          exact absurd hlocked hkey
        · intro encryptedMasterKey hsome
          cases hsome

/-- Every step keeps it that leaves nothing of a former user. -/
theorem Consistent.step {action : VaultAction ν} (hcrypto : crypto.Authentic)
    (h : Consistent crypto masterKeyOf s)
    (hstep : VaultStep crypto masterKeyOf s action s')
    (hleaves : Leaves crypto s action) :
    Consistent crypto masterKeyOf s' := by
  obtain ⟨hserved, hstate⟩ := hstep
  subst hstate
  cases action with
  | login env answers email password =>
      exact replaceAccount_keeps h
        (fun _ _ hrecord => answered_loginRecord hserved hrecord) hleaves
  | refreshVaultMaterial env answers password =>
      exact replaceAccount_keeps h
        (fun _ _ hrecord => answered_refreshedRecord hserved hrecord) hleaves
  | logout env answers => exact logout_keeps h hleaves
  | unlock env password => exact unlock_keeps hcrypto h hserved password
  | lock => exact h.locked
  | restoreSession env => exact restoreSession_keeps h
  | ensureUnlocked env => exact ensureUnlocked_keeps h
  | clearPersistedSession env => exact clearPersistedSession_keeps h
  | restart => exact h.locked

theorem Consistent.belongs (h : Consistent crypto masterKeyOf s) :
    Belongs crypto masterKeyOf s :=
  ⟨h.unlocked, fun _ => (restoreSession_keeps h.locked).unlocked⟩

/-! ## What is left of a former user -/

/-- A session that can be restored is restored when nothing throws. -/
theorem restoreSession_restores (nonce : ν) (wrappingKey : Bytes)
    {account : AccountRecord} {keyId blob : String} {secret masterKey : Bytes}
    (hrow : s.account = some account)
    (hkeyId : account.vaultSessionKeyId = some keyId)
    (hblob : account.vaultSessionBlob = some blob) (hid : keyId ≠ "")
    (hsession : blob ≠ "") (hsecret : s.secrets keyId = some secret)
    (hnonempty : secret ≠ []) (hopens : Opens crypto blob secret masterKey) :
    (VaultService.restoreSession crypto
      { fails := fun _ => false, wrappingKey := wrappingKey, nonce := nonce }
      { s with masterKey := [] }).state = { s with masterKey := masterKey } := by
  obtain ⟨encrypted, hdecode, hunwrap⟩ := hopens
  simp [VaultService.restoreSession, VaultService.isUnlocked,
    attempt_andThen_state, hrow, hkeyId, hblob, hid, hsession, hsecret,
    hnonempty, hdecode, hunwrap, VaultService.lock, Calls.pass]

/-- The key of one user is not that of another one. -/
theorem not_keyOf_updated (hkeys : Function.Injective masterKeyOf)
    {account updated : AccountRecord} {masterKey : Bytes}
    (hrow : s.account = some account) (hnew : s'.account = some updated)
    (huser : updated.userId ≠ account.userId)
    (hold : KeyOf masterKeyOf s masterKey) : ¬ KeyOf masterKeyOf s' masterKey := by
  intro hkey
  obtain ⟨other, userId, hother, hid, hmaster⟩ := hold
  rw [hrow] at hother
  cases hother
  obtain ⟨other', userId', hother', hid', hmaster'⟩ := hkey
  rw [hnew] at hother'
  cases hother'
  have hsame : userId = userId' := hkeys (hmaster.symm.trans hmaster')
  rw [hid, hid', hsame] at huser
  exact huser rfl

theorem replaced_not_belongs (h : Consistent crypto masterKeyOf s)
    (hkeys : Function.Injective masterKeyOf)
    {record : AccountRecord → Option AccountRecord}
    (hanswered : ∀ account updated, record account = some updated →
      Answered crypto masterKeyOf account updated)
    (hchanges : AuthService.ChangesUser env record s)
    (hvacant : ¬ Vacant crypto s) : ¬ Belongs crypto masterKeyOf
      (AuthService.replaceAccount env record s).state := by
  obtain ⟨account, updated, hrow, hrecord, hread, hwrite, huser⟩ := hchanges
  have hstate : (AuthService.replaceAccount env record s).state =
      { s with account := some updated } := by
    simp [AuthService.replaceAccount, UserRepo.upsertAccount,
      attempt_andThen_state, hread, hwrite, hrow, hrecord, Calls.pass]
  rw [hstate]
  intro hbelongs
  by_cases hlocked : s.masterKey = []
  · have hrestorable : Restorable crypto s := by
      by_contra hnot
      exact hvacant ⟨hlocked, hnot⟩
    obtain ⟨keyId, blob, secret, masterKey, hstored, hsecret, hopens⟩ :=
      hrestorable
    obtain ⟨hkey, hid, hblob, hsecret', hmaster⟩ :=
      h.session keyId blob secret masterKey hstored hsecret hopens
    obtain ⟨other, hother, hkeyId, hsession⟩ := hstored
    rw [hrow] at hother
    cases hother
    obtain ⟨hsameId, hsameBlob, -⟩ := hanswered account updated hrecord
    have hrestores := restoreSession_restores
      (s := { s with account := some updated }) env.nonce [] rfl
      (hsameId.trans hkeyId)
      (hsameBlob.trans hsession) hid hblob hsecret hsecret' hopens
    have howned := hbelongs.restored
      { fails := fun _ => false, wrappingKey := [], nonce := env.nonce }
    rw [hrestores] at howned
    exact not_keyOf_updated hkeys hrow rfl huser hkey (howned hmaster)
  · exact not_keyOf_updated hkeys hrow rfl huser (h.unlocked hlocked)
      (hbelongs.unlocked hlocked)

theorem cleared_not_belongs {answers : AuthAnswers}
    (hclears : AuthService.ClearsAccount env answers)
    (hrow : s.account ≠ none) (hkey : s.masterKey ≠ []) :
    ¬ Belongs crypto masterKeyOf (AuthService.logout env answers s).state := by
  have hstate : (AuthService.logout env answers s).state =
      { s with account := s.account.map (fun account =>
        { baseUrl := account.baseUrl }) } := by
    obtain ⟨hanswers, hcall⟩ := hclears
    rcases hanswers with hsession | ⟨hsession, hlogout⟩
    · simp [AuthService.logout, UserRepo.clearAccount, UserRepo.updateAccount,
        attempt_andThen_state, hsession, hcall, Calls.pass]
    · simp [AuthService.logout, UserRepo.clearAccount, UserRepo.updateAccount,
        attempt_andThen_state, hsession, hlogout, hcall, Calls.pass]
  rw [hstate]
  intro hbelongs
  obtain ⟨account, userId, hnew, huser, -⟩ := hbelongs.unlocked hkey
  cases hold : s.account with
  | none => exact hrow hold
  | some old =>
      change s.account.map _ = _ at hnew
      rw [hold] at hnew
      cases hnew
      cases huser

/-- A step that leaves something of a former user. -/
theorem not_belongs_of_not_leaves {action : VaultAction ν}
    (h : Consistent crypto masterKeyOf s)
    (hkeys : Function.Injective masterKeyOf)
    (hstep : VaultStep crypto masterKeyOf s action s')
    (hleaves : ¬ Leaves crypto s action) : ¬ Belongs crypto masterKeyOf s' := by
  obtain ⟨hserved, hstate⟩ := hstep
  subst hstate
  cases action with
  | login env answers email password =>
      obtain ⟨hchanges, hvacant⟩ := Classical.not_imp.mp hleaves
      exact replaced_not_belongs h hkeys
        (fun _ _ hrecord => answered_loginRecord hserved hrecord) hchanges
        hvacant
  | refreshVaultMaterial env answers password =>
      obtain ⟨hchanges, hvacant⟩ := Classical.not_imp.mp hleaves
      exact replaced_not_belongs h hkeys
        (fun _ _ hrecord => answered_refreshedRecord hserved hrecord) hchanges
        hvacant
  | logout env answers =>
      obtain ⟨hclears, hrest⟩ := Classical.not_imp.mp hleaves
      obtain ⟨hrow, hkey⟩ := Classical.not_imp.mp hrest
      exact cleared_not_belongs hclears hrow hkey
  | unlock env password => exact absurd trivial hleaves
  | lock => exact absurd trivial hleaves
  | restoreSession env => exact absurd trivial hleaves
  | ensureUnlocked env => exact absurd trivial hleaves
  | clearPersistedSession env => exact absurd trivial hleaves
  | restart => exact absurd trivial hleaves

end Keeps

/-! ## Every run -/

/-- Nobody has signed in yet: the row has no user, no material and no session,
and the vault is locked. -/
structure Fresh (s : VaultRun) : Prop where
  locked : s.masterKey = []
  row : ∃ baseUrl, s.account = some { baseUrl := baseUrl }

theorem Fresh.consistent {crypto : VaultCrypto ν} {masterKeyOf : MasterKeys}
    {s : VaultRun} (h : Fresh s) : Consistent crypto masterKeyOf s := by
  obtain ⟨hlocked, baseUrl, hrow⟩ := h
  refine Consistent.of_no_session (fun hkey => absurd hlocked hkey) hrow rfl ?_
  intro encryptedMasterKey hsome
  cases hsome

/-- In every run of the services' calls, in any order and with any of their
calls throwing, in which nothing of the user in the row is left where that user
changes: if the vault is unlocked, or the session is restored later, the key is
that of the user in the row.  And the first step that leaves something ends in a
state in which it is not. -/
theorem unlocked_key_belongs {crypto : VaultCrypto ν} {masterKeyOf : MasterKeys}
    (hcrypto : crypto.Authentic) {s : VaultRun} (hfresh : Fresh s) :
    (∀ s', Run (Guarded (VaultStep crypto masterKeyOf) (Leaves crypto)) s s' →
      Belongs crypto masterKeyOf s') ∧
    (Function.Injective masterKeyOf → ∀ s₁ action s₂,
      Run (Guarded (VaultStep crypto masterKeyOf) (Leaves crypto)) s s₁ →
      VaultStep crypto masterKeyOf s₁ action s₂ → ¬ Leaves crypto s₁ action →
      ¬ Belongs crypto masterKeyOf s₂) := by
  have hkeep : Preserves
      (Guarded (VaultStep crypto masterKeyOf) (Leaves crypto))
      (Consistent crypto masterKeyOf) := by
    intro a b hguarded ha
    obtain ⟨action, hstep, hleaves⟩ := hguarded
    exact ha.step hcrypto hstep hleaves
  constructor
  · intro s' hrun
    exact (hkeep.run hrun hfresh.consistent).belongs
  · intro hkeys s₁ action s₂ hrun hstep hleaves
    exact not_belongs_of_not_leaves (hkeep.run hrun hfresh.consistent) hkeys
      hstep hleaves

/-- The command `logout` never leaves anything, whatever is signed in. -/
theorem logout_leaves_nothing {crypto : VaultCrypto ν}
    {masterKeyOf : MasterKeys} {env : VaultEnv ν} {answers : AuthAnswers}
    (s : VaultRun) :
    Run (Guarded (VaultStep crypto masterKeyOf) (Leaves crypto)) s
      (AuthCommands.logout env answers s).state := by
  have hlocked : (VaultService.clearPersistedSession env
      (VaultService.lock s)).state.masterKey = [] :=
    masterKey_clearPersistedSession (VaultService.lock s)
  have hcleared : Run (Guarded (VaultStep crypto masterKeyOf) (Leaves crypto))
      s (VaultService.clearPersistedSession env (VaultService.lock s)).state :=
    .tail (.single ⟨.lock, ⟨trivial, rfl⟩, trivial⟩)
      ⟨.clearPersistedSession env, ⟨trivial, rfl⟩, trivial⟩
  refine andThen_keeps (P := Run _ s) hcleared (fun _ => ?_)
  exact hcleared.tail ⟨.logout env answers, ⟨trivial, rfl⟩,
    fun _ _ => hlocked⟩

/-! ## Two users -/

namespace TwoUsers

/-- A wrapping under keys of one byte. -/
def crypto : VaultCrypto Unit where
  derivePasswordKek := fun _ salt => some salt
  wrapMasterKey := fun _ masterKey kek _ =>
    match kek with
    | [b] => some (b :: masterKey)
    | _ => none
  unwrapMasterKey := fun encrypted kek _ =>
    match encrypted, kek with
    | b :: masterKey, [c] => if b = c then some masterKey else none
    | _, _ => none
  sha256HashHex := fun _ => "session"

theorem authentic : crypto.Authentic where
  unwrap_wrap := by
    intro nonce masterKey kek aad output hwrap
    match kek with
    | [] => cases hwrap
    | [b] =>
        cases hwrap
        exact if_pos rfl
    | _ :: _ :: _ => cases hwrap
  unwrap_only := by
    intro nonce masterKey kek aad output kek' masterKey' hwrap hunwrap
    match kek with
    | [] => cases hwrap
    | [b] =>
        cases hwrap
        match kek' with
        | [] => cases hunwrap
        | [c] =>
            change (if b = c then some masterKey else none) = _ at hunwrap
            split at hunwrap
            · rename_i hsame
              cases hunwrap
              rw [hsame]
              exact ⟨rfl, rfl⟩
            · cases hunwrap
        | _ :: _ :: _ => cases hunwrap
    | _ :: _ :: _ => cases hwrap
  wrapped_nonempty := by
    intro nonce masterKey kek aad output hwrap
    match kek with
    | [] => cases hwrap
    | [b] =>
        cases hwrap
        exact List.cons_ne_nil _ _
    | _ :: _ :: _ => cases hwrap

/-- The first user's key, and everybody else's. -/
def masterKeyOf : MasterKeys := fun userId => if userId = "a" then [1] else [2]

/-- Nothing throws. -/
def env : VaultEnv Unit :=
  { fails := fun _ => false, wrappingKey := [9], nonce := () }

/-- The first user has a vault. -/
def firstUser : AuthAnswers :=
  { material := some { salt := "Bw==", encryptedMasterKey := "BwE=" }
    me := some (some "a")
    session := some false
    logout := true }

/-- The second one has none yet. -/
def secondUser : AuthAnswers :=
  { firstUser with
    material := some { salt := "", encryptedMasterKey := "" }
    me := some (some "b") }

def start : VaultRun :=
  { account := some { baseUrl := "https://arkive.test" }
    secrets := fun _ => none
    masterKey := []
    drawn := [] }

theorem fresh : Fresh start := ⟨rfl, _, rfl⟩

theorem honest_first : firstUser.Honest crypto masterKeyOf := by
  intro response userId hmaterial hme encrypted kek masterKey hdecode hunwrap
  cases hmaterial
  cases hme
  have hbytes : decodeBase64 "BwE=" = some [7, 1] := by decide
  rw [hbytes] at hdecode
  cases hdecode
  match kek with
  | [] => cases hunwrap
  | [c] =>
      change (if (7 : UInt8) = c then some [1] else none) = _ at hunwrap
      split at hunwrap
      · cases hunwrap
        rfl
      · cases hunwrap
  | _ :: _ :: _ => cases hunwrap

theorem honest_second : secondUser.Honest crypto masterKeyOf := by
  intro response userId hmaterial hme encrypted kek masterKey hdecode hunwrap
  cases hmaterial
  have hbytes : decodeBase64 "" = some [] := by decide
  rw [hbytes] at hdecode
  cases hdecode
  cases hunwrap

/-- The first user has signed in and unlocked the vault. -/
def signedIn : VaultRun :=
  (AuthCommands.login crypto env env firstUser "a@arkive.test" "p" start).state

/-- The second one has signed in, and the vault could not be unlocked. -/
def replaced : VaultRun :=
  (AuthCommands.login crypto env { env with wrappingKey := [8] } secondUser
    "b@arkive.test" "q" signedIn).state

end TwoUsers

open TwoUsers in
/-- The first user signs in, and the vault is unlocked. -/
theorem unlocked_key_belongs_first :
    signedIn.masterKey = [1] ∧ Belongs crypto masterKeyOf signedIn := by
  have hdrawn : env.wrappingKey ∉
      (AuthService.login env firstUser "a@arkive.test" "p" start).state.drawn := by
    decide
  refine ⟨by decide, (unlocked_key_belongs authentic fresh).1 _
    (.tail (.single ⟨.login env firstUser "a@arkive.test" "p",
      ⟨honest_first, rfl⟩, ?_⟩)
      ⟨.unlock env "p", ⟨hdrawn, rfl⟩, trivial⟩)⟩
  intro _
  refine ⟨rfl, ?_⟩
  rintro ⟨keyId, blob, secret, masterKey, hstored, hsecret, -⟩
  cases hsecret

open TwoUsers in
/-- The second user signs in while the vault is unlocked, and the command ends
with an exception: the key in memory is still the first user's. -/
theorem not_unlocked_key_belongs :
    ∃ (crypto : VaultCrypto Unit) (masterKeyOf : MasterKeys) (s s' : VaultRun),
      crypto.Authentic ∧ Fresh s ∧
      Run (VaultRun.Next crypto masterKeyOf) s s' ∧
      ¬ Belongs crypto masterKeyOf s' := by
  have hfirst : Run (VaultRun.Next crypto masterKeyOf) start signedIn :=
    AuthCommands.login_run start _ _ honest_first (by decide)
  have hsecond : Run (VaultRun.Next crypto masterKeyOf) signedIn replaced :=
    AuthCommands.login_run signedIn _ _ honest_second (by decide)
  refine ⟨crypto, masterKeyOf, start, replaced, authentic, fresh,
    hfirst.trans hsecond, ?_⟩
  intro hbelongs
  have hkey : replaced.masterKey = [1] := by decide
  have hrow : replaced.account.bind AccountRecord.userId = some "b" := by decide
  obtain ⟨account, userId, haccount, huser, hmaster⟩ :=
    hbelongs.unlocked (by decide)
  rw [haccount] at hrow
  change account.userId = some "b" at hrow
  rw [huser] at hrow
  cases hrow
  rw [hkey] at hmaster
  exact absurd hmaster (by decide)

end ArkiveSync.VaultKeys
