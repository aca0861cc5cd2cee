import ArkiveSync.Proofs.VaultKeys

/-!
# Sessions that are only half stored

`persistSession` deletes the secret of the old session, stores the new one and
saves the new blob in the row.  When the id of the session stays the same, the
new secret takes the place of the old one while the row still has the old blob:
whoever stops there leaves a secret and a blob of different sessions.  `unlock`
has replaced the key in memory by then.

A process that stops before a call leaves behind what a call that throws leaves
behind; so the calls that throw stand for both.
-/

namespace ArkiveSync.VaultKeys

open Library

variable {ν : Type}

/-! ## The property -/

/-- The blob is a wrapping of this master key. -/
def HoldsKey (crypto : VaultCrypto ν) (blob : String) (masterKey : Bytes) :
    Prop :=
  ∃ nonce wrappingKey wrapped,
    crypto.wrapMasterKey nonce masterKey wrappingKey
      (ArkiveAad.toBytes ArkiveAad.kSessionMasterKey) = some wrapped ∧
    decodeBase64 blob = some wrapped

/-- The next process restores the session: when no call fails it does not
throw, and the vault is locked or has the key of the stored session. -/
def RestoresSafely (crypto : VaultCrypto ν) (s : VaultRun) : Prop :=
  ∀ env : VaultEnv ν, (∀ c, env.fails c = false) →
    let later := VaultService.restoreSession crypto env
      { s with masterKey := [] }
    later.returned = true ∧
      (later.state.masterKey = [] ∨ ∃ keyId blob, Stored s keyId blob ∧
        ∀ masterKey, HoldsKey crypto blob masterKey →
          later.state.masterKey = masterKey)

/-- Unlocking fails safe: the session can be restored wherever it ends, and the
key in memory is the former one if it throws. -/
structure FailsSafe (crypto : VaultCrypto ν) (env : VaultEnv ν)
    (password : String) (s : VaultRun) : Prop where
  session : RestoresSafely crypto
    (VaultService.unlock crypto env password s).state
  memory : (VaultService.unlock crypto env password s).returned = false →
    (VaultService.unlock crypto env password s).state.masterKey = s.masterKey

/-! ## The condition -/

/-- The secret of the stored session opens its blob. -/
def Coherent (crypto : VaultCrypto ν) (s : VaultRun) : Prop :=
  ∀ keyId blob wrappingKey, Stored s keyId blob → keyId ≠ "" → blob ≠ "" →
    s.secrets keyId = some wrappingKey → wrappingKey ≠ [] →
    ∃ masterKey, Opens crypto blob wrappingKey masterKey

section Condition

variable (crypto : VaultCrypto ν) (env : VaultEnv ν) (password : String)
  (s : VaultRun)

/-- The password opens the key in the row. -/
def Unwraps (masterKey : Bytes) : Prop :=
  env.fails .getAccount = false ∧ env.fails .derivePasswordKek = false ∧
    env.fails .unwrapMasterKey = false ∧
    ∃ account salt encrypted kek, s.account = some account ∧
      account.vaultSalt.bind decodeBase64 = some salt ∧
      account.encryptedMasterKey.bind decodeBase64 = some encrypted ∧
      crypto.derivePasswordKek password salt = some kek ∧
      crypto.unwrapMasterKey encrypted kek
        (ArkiveAad.toBytes ArkiveAad.kMasterKey) = some masterKey

/-- A new session of the key gets this id and is wrapped. -/
def Wraps (masterKey : Bytes) (keyId : String) (wrapped : Bytes) : Prop :=
  masterKey ≠ [] ∧ env.fails .getAccountAgain = false ∧
    env.fails .generateMasterKey = false ∧ env.fails .wrapMasterKey = false ∧
    ∃ account, s.account = some account ∧
      VaultService.makeVaultSessionKeyId crypto account = some keyId ∧
      crypto.wrapMasterKey env.nonce masterKey env.wrappingKey
        (ArkiveAad.toBytes ArkiveAad.kSessionMasterKey) = some wrapped

/-- The id of the old session. -/
def oldKeyId : Option String :=
  s.account.bind AccountRecord.vaultSessionKeyId

/-- The row has a session under another id. -/
def ReplacesOld (keyId : String) : Prop :=
  ∃ old, oldKeyId s = some old ∧ old ≠ keyId

/-- The secret under another id, if there is one, can be deleted. -/
def ClearsOld (keyId : String) : Prop :=
  ReplacesOld s keyId →
    oldKeyId s ≠ some "" ∧ env.fails .deleteSecret = false

/-- The new secret can be stored. -/
def StoresSecret (keyId : String) : Prop :=
  ClearsOld env s keyId ∧ keyId ≠ "" ∧ env.wrappingKey ≠ [] ∧
    env.fails .storeSecret = false

/-- When `unlock` fails safe: it saves the session or unwraps the key that is
in memory already; a session that it leaves as it is can be restored; and it
does not end between the new secret and the new blob while the row has a blob
under the same id. -/
structure Secured : Prop where
  memory : ∀ masterKey, Unwraps crypto env password s masterKey →
    masterKey = s.masterKey ∨
      ∃ keyId wrapped, Wraps crypto env s masterKey keyId wrapped ∧
        StoresSecret env s keyId ∧ env.fails .saveVaultSession = false
  untouched : (∀ masterKey keyId wrapped,
    Unwraps crypto env password s masterKey →
    Wraps crypto env s masterKey keyId wrapped → ClearsOld env s keyId →
    ¬ ReplacesOld s keyId ∧ ¬ StoresSecret env s keyId) → Coherent crypto s
  between : ∀ masterKey keyId wrapped blob,
    Unwraps crypto env password s masterKey →
    Wraps crypto env s masterKey keyId wrapped → StoresSecret env s keyId →
    env.fails .saveVaultSession = true → Stored s keyId blob → blob ≠ "" →
    ∃ opened, Opens crypto blob env.wrappingKey opened

end Condition

/-! ## How a call ends -/

section Ends

variable {env : VaultEnv ν} {P : VaultRun → Bool → Prop}

/-- A call fails or is followed by the rest. -/
theorem attempt_rule {c : VaultCall} {s : VaultRun}
    {next : VaultRun → VaultCalls} (hfails : env.fails c = true → P s false)
    (hnext : env.fails c = false → P (next s).state (next s).returned) :
    P ((attempt env c s).andThen next).state
      ((attempt env c s).andThen next).returned := by
  cases hcall : env.fails c with
  | true =>
      have heq : (attempt env c s).andThen next = attempt env c s := by
        unfold Calls.andThen attempt Calls.call
        rw [hcall]
        rfl
      rw [heq]
      unfold attempt Calls.call
      rw [hcall]
      exact hfails hcall
  | false =>
      rw [Calls.andThen_of_returned (by
        unfold attempt Calls.call
        rw [hcall]
        rfl)]
      exact hnext hcall

/-- The rest follows if there was no exception. -/
theorem andThen_rule {first : VaultCalls} {next : VaultRun → VaultCalls}
    (hfirst : first.returned = false → P first.state false)
    (hnext : first.returned = true →
      P (next first.state).state (next first.state).returned) :
    P (first.andThen next).state (first.andThen next).returned := by
  cases hreturned : first.returned with
  | true =>
      rw [Calls.andThen_of_returned hreturned]
      exact hnext hreturned
  | false =>
      unfold Calls.andThen
      rw [hreturned]
      simp only [Bool.false_eq_true, if_false]
      rw [hreturned]
      exact hfirst hreturned

/-- A call with an effect, and the rest. -/
theorem effect_rule {c : VaultCall} {s : VaultRun} {f : VaultRun → VaultRun}
    {next : VaultRun → VaultCalls} (hfails : env.fails c = true → P s false)
    (hnext : env.fails c = false →
      P (next (f s)).state (next (f s)).returned) :
    P (((attempt env c s).andThen (fun s => .pass (f s))).andThen next).state
      (((attempt env c s).andThen (fun s => .pass (f s))).andThen
        next).returned := by
  cases hcall : env.fails c with
  | true =>
      have heq : ((attempt env c s).andThen (fun s => .pass (f s))).andThen
          next = attempt env c s := by
        simp [Calls.andThen, attempt, Calls.call, hcall]
      rw [heq]
      simp only [attempt, Calls.call, hcall]
      exact hfails hcall
  | false =>
      have hstate : (((attempt env c s).andThen
          (fun s => .pass (f s))).andThen next).state = (next (f s)).state := by
        simp [Calls.andThen, attempt, Calls.call, Calls.pass, hcall]
      have hreturned : (((attempt env c s).andThen
          (fun s => .pass (f s))).andThen next).returned =
            (next (f s)).returned := by
        simp [Calls.andThen, attempt, Calls.call, Calls.pass, hcall]
      rw [hstate, hreturned]
      exact hnext hcall

end Ends

/-! ## Restoring -/

section Restoring

variable {crypto : VaultCrypto ν} {s : VaultRun}

/-- How restoring ends when no call fails. -/
inductive RestoreEnd (crypto : VaultCrypto ν) (s : VaultRun) :
    VaultRun → Bool → Prop where
  | nothing (s' : VaultRun) (hlocked : s'.masterKey = [])
      (hnone : ∀ keyId blob wrappingKey, Stored s keyId blob → keyId ≠ "" →
        blob ≠ "" → s.secrets keyId = some wrappingKey → wrappingKey = []) :
      RestoreEnd crypto s s' true
  | restored (s' : VaultRun) (keyId blob : String) (wrappingKey : Bytes)
      (hstored : Stored s keyId blob)
      (hsecret : s.secrets keyId = some wrappingKey)
      (hopens : Opens crypto blob wrappingKey s'.masterKey) :
      RestoreEnd crypto s s' true
  | threw (s' : VaultRun) (keyId blob : String) (wrappingKey : Bytes)
      (hstored : Stored s keyId blob) (hid : keyId ≠ "") (hblob : blob ≠ "")
      (hsecret : s.secrets keyId = some wrappingKey) (hkey : wrappingKey ≠ [])
      (hopens : ∀ masterKey, ¬ Opens crypto blob wrappingKey masterKey) :
      RestoreEnd crypto s s' false

/-- The row stores one session. -/
theorem stored_iff {account : AccountRecord} {keyId blob : String}
    (hrow : s.account = some account) : Stored s keyId blob ↔
      account.vaultSessionKeyId = some keyId ∧
        account.vaultSessionBlob = some blob := by
  unfold Stored
  rw [hrow]
  constructor
  · rintro ⟨other, hsame, hsession⟩
    cases hsame
    exact hsession
  · intro hsession
    exact ⟨account, rfl, hsession⟩

theorem restoreSession_end (crypto : VaultCrypto ν) (env : VaultEnv ν)
    (s : VaultRun) (hlocked : s.masterKey = [])
    (hcalls : ∀ c, env.fails c = false) :
    RestoreEnd crypto s (VaultService.restoreSession crypto env s).state
      (VaultService.restoreSession crypto env s).returned := by
  have hcall : ∀ {c : VaultCall} {p : Prop}, env.fails c = true → p := by
    intro c p hfails
    rw [hcalls c] at hfails
    cases hfails
  have hopen : ¬ VaultService.isUnlocked s = true := by
    simp [VaultService.isUnlocked, hlocked]
  unfold VaultService.restoreSession
  rw [if_neg hopen]
  refine attempt_rule (P := RestoreEnd crypto s) hcall (fun _ => ?_)
  cases hrow : s.account with
  | none =>
      refine .nothing s hlocked ?_
      rintro keyId blob wrappingKey ⟨account, hsome, -⟩
      rw [hrow] at hsome
      cases hsome
  | some account =>
      dsimp only
      split
      next keyId blob hkeyId hblob =>
          have honly : ∀ {keyId' blob'}, Stored s keyId' blob' →
              keyId' = keyId ∧ blob' = blob := by
            intro keyId' blob' hstored
            obtain ⟨hid', hblob'⟩ := (stored_iff hrow).mp hstored
            rw [hkeyId] at hid'
            rw [hblob] at hblob'
            cases hid'
            cases hblob'
            exact ⟨rfl, rfl⟩
          have hstored : Stored s keyId blob :=
            (stored_iff hrow).mpr ⟨hkeyId, hblob⟩
          split
          next hempty =>
              refine .nothing s hlocked ?_
              intro keyId' blob' wrappingKey hstored' hid hne
              obtain ⟨rfl, rfl⟩ := honly hstored'
              rcases hempty with hempty | hempty
              · exact absurd hempty hid
              · exact absurd hempty hne
          next hnonempty =>
              rw [not_or] at hnonempty
              refine attempt_rule (P := RestoreEnd crypto s) hcall
                (fun _ => ?_)
              have hcleared : ∀ hnone : (∀ wrappingKey,
                  s.secrets keyId = some wrappingKey → wrappingKey = []),
                  RestoreEnd crypto s (UserRepo.clearVaultSession env s).state
                    (UserRepo.clearVaultSession env s).returned := by
                intro hnone
                refine attempt_rule (P := RestoreEnd crypto s) hcall
                  (fun _ => .nothing _ hlocked ?_)
                intro keyId' blob' wrappingKey hstored' _ _ hsecret
                obtain ⟨rfl, rfl⟩ := honly hstored'
                exact hnone wrappingKey hsecret
              cases hsecret : s.secrets keyId with
              | none =>
                  refine hcleared ?_
                  intro wrappingKey hsome
                  rw [hsecret] at hsome
                  cases hsome
              | some wrappingKey =>
                  dsimp only
                  split
                  next hnil =>
                      refine hcleared ?_
                      intro other hsome
                      rw [hsecret] at hsome
                      cases hsome
                      exact hnil
                  next hkey =>
                      cases hdecode : decodeBase64 blob with
                      | none =>
                          refine .threw s keyId blob wrappingKey hstored
                            hnonempty.1 hnonempty.2 hsecret hkey ?_
                          rintro masterKey ⟨encrypted, hsome, -⟩
                          rw [hdecode] at hsome
                          cases hsome
                      | some sessionBlob =>
                          refine attempt_rule (P := RestoreEnd crypto s) hcall
                            (fun _ => ?_)
                          cases hunwrap : crypto.unwrapMasterKey sessionBlob
                              wrappingKey (ArkiveAad.toBytes
                                ArkiveAad.kSessionMasterKey) with
                          | none =>
                              refine .threw s keyId blob wrappingKey hstored
                                hnonempty.1 hnonempty.2 hsecret hkey ?_
                              rintro masterKey ⟨encrypted, hsome, hopens⟩
                              rw [hdecode] at hsome
                              cases hsome
                              rw [hunwrap] at hopens
                              cases hopens
                          | some restoredMasterKey =>
                              exact .restored _ keyId blob wrappingKey hstored
                                hsecret ⟨sessionBlob, hdecode, hunwrap⟩
      next hnone =>
          refine .nothing s hlocked ?_
          intro keyId blob wrappingKey hstored
          obtain ⟨hkeyId, hblob⟩ := (stored_iff hrow).mp hstored
          exact absurd hblob (hnone keyId blob hkeyId)

theorem stored_unique {keyId keyId' blob blob' : String}
    (h : Stored s keyId blob) (h' : Stored s keyId' blob') :
    keyId' = keyId ∧ blob' = blob := by
  obtain ⟨account, hrow, hid, hblob⟩ := h
  obtain ⟨hid', hblob'⟩ := (stored_iff hrow).mp h'
  rw [hid] at hid'
  rw [hblob] at hblob'
  cases hid'
  cases hblob'
  exact ⟨rfl, rfl⟩

/-- A blob gives its own key only. -/
theorem opens_holdsKey (hcrypto : crypto.Authentic) {blob : String}
    {wrappingKey masterKey masterKey' : Bytes}
    (hopens : Opens crypto blob wrappingKey masterKey)
    (hholds : HoldsKey crypto blob masterKey') : masterKey = masterKey' := by
  obtain ⟨encrypted, hdecode, hunwrap⟩ := hopens
  obtain ⟨nonce, kek, wrapped, hwrap, hdecode'⟩ := hholds
  rw [hdecode] at hdecode'
  cases hdecode'
  exact (hcrypto.unwrap_only _ _ _ _ _ _ _ hwrap hunwrap).2

/-- A session can be restored safely if and only if its secret opens its
blob. -/
theorem restoresSafely_iff (hcrypto : crypto.Authentic) (nonce : ν) :
    RestoresSafely crypto s ↔ Coherent crypto s := by
  constructor
  · intro h keyId blob wrappingKey hstored hid hblob hsecret hkey
    obtain ⟨hreturned, -⟩ :=
      h { fails := fun _ => false, wrappingKey := [], nonce := nonce }
        (fun _ => rfl)
    have hend := restoreSession_end crypto
      { fails := fun _ => false, wrappingKey := [], nonce := nonce }
      { s with masterKey := [] } rfl (fun _ => rfl)
    rw [hreturned] at hend
    cases hend with
    | nothing _ hnone =>
        exact absurd (hnone keyId blob wrappingKey hstored hid hblob hsecret)
          hkey
    | restored keyId' blob' wrappingKey' hstored' hsecret' hopens =>
        obtain ⟨rfl, rfl⟩ := stored_unique hstored hstored'
        change s.secrets keyId' = some wrappingKey' at hsecret'
        rw [hsecret] at hsecret'
        cases hsecret'
        exact ⟨_, hopens⟩
  · intro h env hcalls
    have hend := restoreSession_end crypto env { s with masterKey := [] } rfl
      hcalls
    dsimp only
    generalize (VaultService.restoreSession crypto env
      { s with masterKey := [] }).state = final at hend ⊢
    generalize (VaultService.restoreSession crypto env
      { s with masterKey := [] }).returned = returned at hend ⊢
    cases hend with
    | nothing hlocked _ => exact ⟨rfl, Or.inl hlocked⟩
    | restored keyId blob wrappingKey hstored _ hopens =>
        refine ⟨rfl, Or.inr ⟨keyId, blob, hstored, ?_⟩⟩
        exact fun masterKey hholds => opens_holdsKey hcrypto hopens hholds
    | threw keyId blob wrappingKey hstored hid hblob hsecret hkey hopens =>
        obtain ⟨masterKey, hopened⟩ :=
          h keyId blob wrappingKey hstored hid hblob hsecret hkey
        exact absurd hopened (hopens masterKey)

end Restoring

/-! ## Unlocking -/

section Unlocking

variable {crypto : VaultCrypto ν} {env : VaultEnv ν} {password : String}
  {s : VaultRun}

/-- The secrets without that of an old session under another id. -/
def withoutOld (s : VaultRun) (keyId : String) : String → Option Bytes :=
  fun name =>
    if oldKeyId s = some name ∧ name ≠ keyId then none else s.secrets name

/-- The secrets with the new one. -/
def withNew (env : VaultEnv ν) (s : VaultRun) (keyId : String) :
    String → Option Bytes :=
  fun name =>
    if name = keyId then some env.wrappingKey else withoutOld s keyId name

/-- How unlocking ends. -/
inductive UnlockEnd (crypto : VaultCrypto ν) (env : VaultEnv ν)
    (password : String) (s : VaultRun) : VaultRun → Bool → Prop where
  | refused
      (hno : ∀ masterKey, ¬ Unwraps crypto env password s masterKey) :
      UnlockEnd crypto env password s s false
  | unwrapped (masterKey : Bytes) (drawn : List Bytes)
      (hunwraps : Unwraps crypto env password s masterKey)
      (hno : ∀ keyId wrapped, Wraps crypto env s masterKey keyId wrapped →
        ¬ ClearsOld env s keyId) :
      UnlockEnd crypto env password s
        { s with masterKey := masterKey, drawn := drawn } false
  | cleared (masterKey : Bytes) (drawn : List Bytes) (keyId : String)
      (wrapped : Bytes) (hunwraps : Unwraps crypto env password s masterKey)
      (hwraps : Wraps crypto env s masterKey keyId wrapped)
      (hclears : ClearsOld env s keyId) (hno : ¬ StoresSecret env s keyId) :
      UnlockEnd crypto env password s
        { s with masterKey := masterKey, drawn := drawn
                 secrets := withoutOld s keyId } false
  | stored (masterKey : Bytes) (drawn : List Bytes) (keyId : String)
      (wrapped : Bytes) (hunwraps : Unwraps crypto env password s masterKey)
      (hwraps : Wraps crypto env s masterKey keyId wrapped)
      (hstores : StoresSecret env s keyId)
      (hno : env.fails .saveVaultSession = true) :
      UnlockEnd crypto env password s
        { s with masterKey := masterKey, drawn := drawn
                 secrets := withNew env s keyId } false
  | saved (masterKey : Bytes) (drawn : List Bytes) (keyId : String)
      (wrapped : Bytes) (hunwraps : Unwraps crypto env password s masterKey)
      (hwraps : Wraps crypto env s masterKey keyId wrapped)
      (hstores : StoresSecret env s keyId)
      (hsaves : env.fails .saveVaultSession = false) :
      UnlockEnd crypto env password s
        { account := s.account.map (UserRepo.withSession (some keyId)
            (some (encodeBase64 wrapped)))
          masterKey := masterKey, drawn := drawn
          secrets := withNew env s keyId } true

/-- What is unwrapped, for the row and its two fields. -/
theorem Unwraps.of_row {masterKey : Bytes} {account : AccountRecord}
    {salt encrypted : Bytes} (h : Unwraps crypto env password s masterKey)
    (hrow : s.account = some account)
    (hsalt : account.vaultSalt.bind decodeBase64 = some salt)
    (hencrypted : account.encryptedMasterKey.bind decodeBase64 =
      some encrypted) :
    ∃ kek, crypto.derivePasswordKek password salt = some kek ∧
      crypto.unwrapMasterKey encrypted kek
        (ArkiveAad.toBytes ArkiveAad.kMasterKey) = some masterKey := by
  obtain ⟨-, -, -, account', salt', encrypted', kek, hrow', hsalt',
    hencrypted', hkek, hunwrap⟩ := h
  rw [hrow] at hrow'
  cases hrow'
  rw [hsalt] at hsalt'
  cases hsalt'
  rw [hencrypted] at hencrypted'
  cases hencrypted'
  exact ⟨kek, hkek, hunwrap⟩

/-- What the new session is, for the row. -/
theorem Wraps.of_row {masterKey wrapped : Bytes} {keyId : String}
    {account : AccountRecord} (h : Wraps crypto env s masterKey keyId wrapped)
    (hrow : s.account = some account) :
    VaultService.makeVaultSessionKeyId crypto account = some keyId ∧
      crypto.wrapMasterKey env.nonce masterKey env.wrappingKey
        (ArkiveAad.toBytes ArkiveAad.kSessionMasterKey) = some wrapped := by
  obtain ⟨-, -, -, -, account', hrow', hid, hwrap⟩ := h
  rw [hrow] at hrow'
  cases hrow'
  exact ⟨hid, hwrap⟩

theorem unwraps_unique {masterKey masterKey' : Bytes}
    (h : Unwraps crypto env password s masterKey)
    (h' : Unwraps crypto env password s masterKey') :
    masterKey' = masterKey := by
  obtain ⟨-, -, -, account, salt, encrypted, kek, hrow, hsalt, hencrypted,
    hkek, hunwrap⟩ := h
  obtain ⟨kek', hkek', hunwrap'⟩ := h'.of_row hrow hsalt hencrypted
  rw [hkek] at hkek'
  cases hkek'
  rw [hunwrap] at hunwrap'
  cases hunwrap'
  rfl

theorem wraps_unique {masterKey : Bytes} {keyId keyId' : String}
    {wrapped wrapped' : Bytes}
    (h : Wraps crypto env s masterKey keyId wrapped)
    (h' : Wraps crypto env s masterKey keyId' wrapped') :
    keyId' = keyId ∧ wrapped' = wrapped := by
  obtain ⟨-, -, -, -, account, hrow, hid, hwrap⟩ := h
  obtain ⟨hid', hwrap'⟩ := h'.of_row hrow
  rw [hid] at hid'
  cases hid'
  rw [hwrap] at hwrap'
  cases hwrap'
  exact ⟨rfl, rfl⟩

/-- What `deleteOldSecret` leaves when it returns, and when it does. -/
theorem deleteOldSecret_rule {P : VaultRun → Bool → Prop} {s₁ : VaultRun}
    {account : AccountRecord} {keyId : String}
    {next : VaultRun → VaultCalls} (hrow : s.account = some account)
    (hsecrets : s₁.secrets = s.secrets)
    (hfails : ¬ ClearsOld env s keyId → P s₁ false)
    (hnext : ClearsOld env s keyId →
      P (next { s₁ with secrets := withoutOld s keyId }).state
        (next { s₁ with secrets := withoutOld s keyId }).returned) :
    P ((VaultService.deleteOldSecret env account keyId s₁).andThen next).state
      ((VaultService.deleteOldSecret env account keyId s₁).andThen
        next).returned := by
  have hold : oldKeyId s = account.vaultSessionKeyId := by
    unfold oldKeyId
    rw [hrow]
    rfl
  -- Without another id there is nothing to delete.
  have hkeep : ¬ ReplacesOld s keyId → P (next s₁).state (next s₁).returned := by
    intro hno
    have hsame : withoutOld s keyId = s₁.secrets := by
      funext name
      unfold withoutOld
      rw [if_neg (fun h => hno ⟨name, h.1, h.2⟩), hsecrets]
    have hpassed := hnext (fun h => absurd h hno)
    rw [hsame] at hpassed
    exact hpassed
  unfold VaultService.deleteOldSecret
  cases hid : account.vaultSessionKeyId with
  | none =>
      refine andThen_rule (fun h => by cases h) (fun _ => hkeep ?_)
      rintro ⟨old, hsome, -⟩
      rw [hold, hid] at hsome
      cases hsome
  | some old =>
      dsimp only
      split
      next hother =>
          have hreplaces : ReplacesOld s keyId := ⟨old, hold.trans hid, hother⟩
          unfold SecureStorage.deleteSecret
          split
          next hempty =>
              refine andThen_rule (fun _ => hfails ?_) (fun h => by cases h)
              intro hclears
              refine (hclears hreplaces).1 ?_
              rw [hold, hid, hempty]
          next hnonempty =>
              refine effect_rule (fun hcall => hfails ?_) (fun hcall => ?_)
              · intro hclears
                rw [(hclears hreplaces).2] at hcall
                cases hcall
              · have hclears : ClearsOld env s keyId := by
                  intro _
                  refine ⟨?_, hcall⟩
                  rw [hold, hid]
                  exact fun h => hnonempty (Option.some.inj h)
                have hdeleted : (fun name => if name = old then none
                    else s₁.secrets name) = withoutOld s keyId := by
                  funext name
                  unfold withoutOld
                  rw [hold, hid, hsecrets]
                  by_cases hname : name = old
                  · rw [if_pos hname, if_pos ⟨congrArg some hname.symm,
                      hname ▸ hother⟩]
                  · rw [if_neg hname, if_neg (fun h => hname
                      (Option.some.inj h.1).symm)]
                rw [hdeleted]
                exact hnext hclears
      next hsame =>
          refine andThen_rule (fun h => by cases h) (fun _ => hkeep ?_)
          rintro ⟨other, hsome, hne⟩
          rw [hold, hid] at hsome
          cases hsome
          exact hsame hne

/-- How storing the new session ends, once the old one is out of the way. -/
theorem storeSession_end {masterKey : Bytes} {keyId : String}
    {wrapped : Bytes} (hunwraps : Unwraps crypto env password s masterKey)
    (hwraps : Wraps crypto env s masterKey keyId wrapped)
    (hclears : ClearsOld env s keyId) (drawn : List Bytes) :
    let cleared := { s with
      masterKey := masterKey, drawn := drawn, secrets := withoutOld s keyId }
    UnlockEnd crypto env password s
      ((SecureStorage.storeSecret env keyId env.wrappingKey cleared).andThen
        (UserRepo.saveVaultSession env keyId (encodeBase64 wrapped))).state
      ((SecureStorage.storeSecret env keyId env.wrappingKey cleared).andThen
        (UserRepo.saveVaultSession env keyId
          (encodeBase64 wrapped))).returned := by
  dsimp only
  have hends : ¬ StoresSecret env s keyId → UnlockEnd crypto env password s
      { s with masterKey := masterKey, drawn := drawn
               secrets := withoutOld s keyId } false :=
    fun hno => .cleared masterKey drawn keyId wrapped hunwraps hwraps hclears
      hno
  unfold SecureStorage.storeSecret
  split
  next hempty =>
      refine andThen_rule (fun _ => hends ?_) (fun h => by cases h)
      rintro ⟨-, hid, hkey, -⟩
      rcases hempty with hempty | hempty
      · exact hid hempty
      · exact hkey hempty
  next hnonempty =>
      rw [not_or] at hnonempty
      refine effect_rule (fun hfails => hends ?_) (fun hcall => ?_)
      · rintro ⟨-, -, -, hstores⟩
        exact ne_false_of_eq_true hfails hstores
      · have hstores : StoresSecret env s keyId :=
          ⟨hclears, hnonempty.1, hnonempty.2, hcall⟩
        refine attempt_rule (fun hfails => ?_) (fun hsaves => ?_)
        · exact .stored masterKey drawn keyId wrapped hunwraps hwraps hstores
            hfails
        · exact .saved masterKey drawn keyId wrapped hunwraps hwraps hstores
            hsaves

/-- How persisting ends, for a key that has just been unwrapped. -/
theorem persistSession_end {masterKey : Bytes}
    (hunwraps : Unwraps crypto env password s masterKey) :
    UnlockEnd crypto env password s
      (VaultService.persistSession crypto env
        { s with masterKey := masterKey }).state
      (VaultService.persistSession crypto env
        { s with masterKey := masterKey }).returned := by
  have hends : ∀ drawn, (∀ keyId wrapped,
      ¬ Wraps crypto env s masterKey keyId wrapped) →
      UnlockEnd crypto env password s
        { s with masterKey := masterKey, drawn := drawn } false :=
    fun drawn hno => .unwrapped masterKey drawn hunwraps
      (fun keyId wrapped hwraps => absurd hwraps (hno keyId wrapped))
  unfold VaultService.persistSession
  split
  next hempty =>
      exact hends s.drawn (fun _ _ hwraps => hwraps.1 hempty)
  next hkey =>
      refine attempt_rule (fun hfails => hends s.drawn
        (fun _ _ hwraps => ne_false_of_eq_true hfails hwraps.2.1))
        (fun hagain => ?_)
      split
      next hrow =>
          refine hends s.drawn ?_
          rintro keyId wrapped ⟨-, -, -, -, account, hsome, -⟩
          rw [hrow] at hsome
          cases hsome
      next account hrow =>
          split
          next hid =>
              refine hends s.drawn ?_
              intro keyId wrapped hwraps
              have hid' := (hwraps.of_row hrow).1
              rw [hid] at hid'
              cases hid'
          next keyId hid =>
              refine attempt_rule (fun hfails => hends s.drawn
                (fun _ _ hwraps => ne_false_of_eq_true hfails hwraps.2.2.1))
                (fun hgenerates => ?_)
              dsimp only
              refine attempt_rule (fun hfails => hends _
                (fun _ _ hwraps => ne_false_of_eq_true hfails hwraps.2.2.2.1))
                (fun hcalls => ?_)
              split
              next hwrap =>
                  refine hends _ ?_
                  intro keyId' wrapped hwraps
                  have hwrap' := (hwraps.of_row hrow).2
                  rw [hwrap] at hwrap'
                  cases hwrap'
              next wrapped hwrap =>
                  have hwraps : Wraps crypto env s masterKey keyId wrapped :=
                    ⟨hkey, hagain, hgenerates, hcalls, account, hrow, hid,
                      hwrap⟩
                  refine deleteOldSecret_rule
                    (P := UnlockEnd crypto env password s) (s := s) hrow rfl
                    ?_ ?_
                  · intro hno
                    refine .unwrapped masterKey _ hunwraps ?_
                    intro keyId' wrapped' hwraps'
                    rw [(wraps_unique hwraps hwraps').1]
                    exact hno
                  · intro hclears
                    exact storeSession_end hunwraps hwraps hclears _

/-- How unlocking ends, by what the calls and the inputs allow. -/
theorem unlock_end :
    UnlockEnd crypto env password s
      (VaultService.unlock crypto env password s).state
      (VaultService.unlock crypto env password s).returned := by
  unfold VaultService.unlock
  refine attempt_rule (fun hfails => .refused ?_) (fun hread => ?_)
  · intro masterKey hunwraps
    exact ne_false_of_eq_true hfails hunwraps.1
  split
  next hrow =>
      refine .refused ?_
      rintro masterKey ⟨-, -, -, account, -, -, -, hsome, -⟩
      rw [hrow] at hsome
      cases hsome
  next account hrow =>
      split
      next salt encrypted hsalt hencrypted =>
          refine attempt_rule (fun hfails => .refused ?_) (fun hderive => ?_)
          · intro masterKey hunwraps
            exact ne_false_of_eq_true hfails hunwraps.2.1
          split
          next hkek =>
              refine .refused ?_
              intro masterKey hunwraps
              obtain ⟨kek', hkek', -⟩ :=
                hunwraps.of_row hrow hsalt hencrypted
              rw [hkek] at hkek'
              cases hkek'
          next kek hkek =>
              refine attempt_rule (fun hfails => .refused ?_)
                (fun hopen => ?_)
              · intro masterKey hunwraps
                exact ne_false_of_eq_true hfails hunwraps.2.2.1
              split
              next hunwrap =>
                  refine .refused ?_
                  intro masterKey hunwraps
                  obtain ⟨kek', hkek', hunwrap'⟩ :=
                    hunwraps.of_row hrow hsalt hencrypted
                  rw [hkek] at hkek'
                  cases hkek'
                  rw [hunwrap] at hunwrap'
                  cases hunwrap'
              next masterKey hunwrap =>
                  exact persistSession_end ⟨hread, hderive, hopen, account,
                    salt, encrypted, kek, hrow, hsalt, hencrypted, hkek,
                    hunwrap⟩
      next hnone =>
          refine .refused ?_
          rintro masterKey ⟨-, -, -, account', salt, encrypted, kek, hsome,
            hsalt, hencrypted, -⟩
          rw [hrow] at hsome
          cases hsome
          exact hnone salt encrypted hsalt hencrypted

/-! ## What each end leaves -/

/-- The old session has lost its secret. -/
theorem withoutOld_of_replaces {keyId keyId' blob : String}
    (hreplaces : ReplacesOld s keyId) (hstored : Stored s keyId' blob) :
    keyId' ≠ keyId ∧ withoutOld s keyId keyId' = none := by
  obtain ⟨account, hrow, hid, -⟩ := hstored
  obtain ⟨old, hold, hne⟩ := hreplaces
  have hsame : oldKeyId s = some keyId' := by
    unfold oldKeyId
    rw [hrow]
    exact hid
  rw [hold] at hsame
  cases hsame
  refine ⟨hne, ?_⟩
  unfold withoutOld
  rw [if_pos ⟨hold, hne⟩]

theorem withoutOld_of_not_replaces {keyId : String}
    (hno : ¬ ReplacesOld s keyId) : withoutOld s keyId = s.secrets := by
  funext name
  unfold withoutOld
  rw [if_neg (fun h => hno ⟨name, h.1, h.2⟩)]

/-- Once the secret of the old session is out of the way, the session is
restorable if it was, or if it is under another id. -/
theorem coherent_cleared {masterKey : Bytes} {drawn : List Bytes}
    {keyId : String} : Coherent crypto
      { s with masterKey := masterKey, drawn := drawn
               secrets := withoutOld s keyId } ↔
      (¬ ReplacesOld s keyId → Coherent crypto s) := by
  by_cases hreplaces : ReplacesOld s keyId
  · refine iff_of_true ?_ (fun hno => absurd hreplaces hno)
    intro keyId' blob wrappingKey hstored _ _ hsecret
    have hnone := (withoutOld_of_replaces hreplaces hstored).2
    change withoutOld s keyId keyId' = some wrappingKey at hsecret
    rw [hnone] at hsecret
    cases hsecret
  · rw [withoutOld_of_not_replaces hreplaces]
    exact ⟨fun h _ => h, fun h => h hreplaces⟩

/-- With the new secret in place, what the row has under its id has to open
under it. -/
theorem coherent_stored {masterKey : Bytes} {drawn : List Bytes}
    {keyId : String} (hstores : StoresSecret env s keyId) : Coherent crypto
      { s with masterKey := masterKey, drawn := drawn
               secrets := withNew env s keyId } ↔
      ∀ blob, Stored s keyId blob → blob ≠ "" →
        ∃ opened, Opens crypto blob env.wrappingKey opened := by
  obtain ⟨-, hid, hkey, -⟩ := hstores
  constructor
  · intro h blob hstored hblob
    exact h keyId blob env.wrappingKey hstored hid hblob (if_pos rfl) hkey
  · intro h keyId' blob wrappingKey hstored _ hblob hsecret _
    change withNew env s keyId keyId' = some wrappingKey at hsecret
    unfold withNew at hsecret
    split at hsecret
    next hsame =>
        cases hsecret
        exact h blob (hsame ▸ hstored) hblob
    next hother =>
        have hreplaces : ReplacesOld s keyId := by
          obtain ⟨account, hrow, hold, -⟩ := hstored
          refine ⟨keyId', ?_, hother⟩
          unfold oldKeyId
          rw [hrow]
          exact hold
        rw [(withoutOld_of_replaces hreplaces hstored).2] at hsecret
        cases hsecret

/-- A session that has been saved can be restored. -/
theorem coherent_saved (hcrypto : crypto.Authentic) {masterKey : Bytes}
    {drawn : List Bytes} {keyId : String} {wrapped : Bytes}
    (hwraps : Wraps crypto env s masterKey keyId wrapped) : Coherent crypto
      { account := s.account.map (UserRepo.withSession (some keyId)
          (some (encodeBase64 wrapped)))
        masterKey := masterKey, drawn := drawn
        secrets := withNew env s keyId } := by
  obtain ⟨-, -, -, -, account, hrow, -, hwrap⟩ := hwraps
  rintro keyId' blob wrappingKey ⟨other, hother, hid, hblob⟩ _ _ hsecret _
  dsimp only at hother hsecret
  rw [hrow] at hother
  cases hother
  cases hid
  cases hblob
  unfold withNew at hsecret
  rw [if_pos rfl] at hsecret
  cases hsecret
  exact ⟨masterKey, wrapped, decodeBase64_encodeBase64 wrapped,
    hcrypto.unwrap_wrap _ _ _ _ _ hwrap⟩

/-- The condition, for the key that is unwrapped and the session that it is
wrapped in. -/
theorem secured_of_wraps {masterKey : Bytes} {keyId : String} {wrapped : Bytes}
    (hunwraps : Unwraps crypto env password s masterKey)
    (hwraps : Wraps crypto env s masterKey keyId wrapped) :
    Secured crypto env password s ↔
      (masterKey = s.masterKey ∨
        StoresSecret env s keyId ∧ env.fails .saveVaultSession = false) ∧
      ((ClearsOld env s keyId →
        ¬ ReplacesOld s keyId ∧ ¬ StoresSecret env s keyId) →
          Coherent crypto s) ∧
      (StoresSecret env s keyId → env.fails .saveVaultSession = true →
        ∀ blob, Stored s keyId blob → blob ≠ "" →
          ∃ opened, Opens crypto blob env.wrappingKey opened) := by
  have honly : ∀ {masterKey' keyId' wrapped'},
      Unwraps crypto env password s masterKey' →
      Wraps crypto env s masterKey' keyId' wrapped' →
      masterKey' = masterKey ∧ keyId' = keyId := by
    intro masterKey' keyId' wrapped' hunwraps' hwraps'
    have hsame := unwraps_unique hunwraps hunwraps'
    rw [hsame] at hwraps'
    exact ⟨hsame, (wraps_unique hwraps hwraps').1⟩
  constructor
  · intro h
    refine ⟨?_, ?_, ?_⟩
    · rcases h.memory masterKey hunwraps with hsame |
        ⟨keyId', wrapped', hwraps', hsaves⟩
      · exact Or.inl hsame
      · rw [(wraps_unique hwraps hwraps').1] at hsaves
        exact Or.inr hsaves
    · intro huntouched
      refine h.untouched ?_
      intro masterKey' keyId' wrapped' hunwraps' hwraps' hclears
      rw [(honly hunwraps' hwraps').2] at hclears ⊢
      exact huntouched hclears
    · intro hstores hno blob
      exact h.between masterKey keyId wrapped blob hunwraps hwraps hstores hno
  · rintro ⟨hmemory, huntouched, hbetween⟩
    refine ⟨?_, ?_, ?_⟩
    · intro masterKey' hunwraps'
      rw [unwraps_unique hunwraps hunwraps']
      exact hmemory.imp_right (fun hsaves => ⟨keyId, wrapped, hwraps, hsaves⟩)
    · intro hall
      exact huntouched (hall masterKey keyId wrapped hunwraps hwraps)
    · intro masterKey' keyId' wrapped' blob hunwraps' hwraps' hstores hno
        hstored
      rw [(honly hunwraps' hwraps').2] at hstores hstored
      exact hbetween hstores hno blob hstored

/-- The condition, where nothing on disk is changed. -/
theorem secured_of_untouched
    (hnever : ∀ masterKey keyId wrapped,
      Unwraps crypto env password s masterKey →
      Wraps crypto env s masterKey keyId wrapped → ¬ ClearsOld env s keyId) :
    Secured crypto env password s ↔
      (∀ masterKey, Unwraps crypto env password s masterKey →
        masterKey = s.masterKey) ∧ Coherent crypto s := by
  constructor
  · intro h
    refine ⟨?_, h.untouched ?_⟩
    · intro masterKey hunwraps
      rcases h.memory masterKey hunwraps with hsame |
        ⟨keyId, wrapped, hwraps, hstores, -⟩
      · exact hsame
      · exact absurd hstores.1 (hnever masterKey keyId wrapped hunwraps hwraps)
    · intro masterKey keyId wrapped hunwraps hwraps hclears
      exact absurd hclears (hnever masterKey keyId wrapped hunwraps hwraps)
  · rintro ⟨hmemory, hcoherent⟩
    refine ⟨?_, fun _ => hcoherent, ?_⟩
    · exact fun masterKey hunwraps => Or.inl (hmemory masterKey hunwraps)
    · intro masterKey keyId wrapped _ hunwraps hwraps hstores
      exact absurd hstores.1 (hnever masterKey keyId wrapped hunwraps hwraps)

/-- Unlocking fails safe if and only if it is secured. -/
theorem failsSafe_iff (hcrypto : crypto.Authentic) (env : VaultEnv ν)
    (password : String) (s : VaultRun) :
    FailsSafe crypto env password s ↔ Secured crypto env password s := by
  have hend : UnlockEnd crypto env password s
      (VaultService.unlock crypto env password s).state
      (VaultService.unlock crypto env password s).returned := unlock_end
  have hsafe : FailsSafe crypto env password s ↔
      Coherent crypto (VaultService.unlock crypto env password s).state ∧
        ((VaultService.unlock crypto env password s).returned = false →
          (VaultService.unlock crypto env password s).state.masterKey =
            s.masterKey) := by
    rw [← restoresSafely_iff hcrypto env.nonce]
    exact ⟨fun h => ⟨h.session, h.memory⟩, fun h => ⟨h.1, h.2⟩⟩
  rw [hsafe]
  generalize (VaultService.unlock crypto env password s).state = final at hend ⊢
  generalize (VaultService.unlock crypto env password s).returned =
    returned at hend ⊢
  cases hend with
  | refused hno =>
      rw [secured_of_untouched (fun masterKey _ _ hunwraps =>
        absurd hunwraps (hno masterKey))]
      constructor
      · rintro ⟨hcoherent, -⟩
        exact ⟨fun masterKey hunwraps => absurd hunwraps (hno masterKey),
          hcoherent⟩
      · rintro ⟨-, hcoherent⟩
        exact ⟨hcoherent, fun _ => rfl⟩
  | unwrapped masterKey drawn hunwraps hno =>
      rw [secured_of_untouched (by
        intro masterKey' keyId wrapped hunwraps' hwraps
        rw [unwraps_unique hunwraps hunwraps'] at hwraps
        exact hno keyId wrapped hwraps)]
      constructor
      · rintro ⟨hcoherent, hmemory⟩
        refine ⟨?_, hcoherent⟩
        intro masterKey' hunwraps'
        rw [unwraps_unique hunwraps hunwraps']
        exact hmemory rfl
      · rintro ⟨hmemory, hcoherent⟩
        exact ⟨hcoherent, fun _ => hmemory masterKey hunwraps⟩
  | cleared masterKey drawn keyId wrapped hunwraps hwraps hclears hno =>
      rw [secured_of_wraps hunwraps hwraps, coherent_cleared]
      constructor
      · rintro ⟨hcoherent, hmemory⟩
        refine ⟨Or.inl (hmemory rfl), ?_, fun hstores => absurd hstores hno⟩
        exact fun huntouched => hcoherent (huntouched hclears).1
      · rintro ⟨hmemory, huntouched, -⟩
        refine ⟨fun hkeeps => huntouched (fun _ => ⟨hkeeps, hno⟩), fun _ => ?_⟩
        exact hmemory.resolve_right (fun hsaves => hno hsaves.1)
  | stored masterKey drawn keyId wrapped hunwraps hwraps hstores hno =>
      rw [secured_of_wraps hunwraps hwraps, coherent_stored hstores]
      constructor
      · rintro ⟨hopens, hmemory⟩
        refine ⟨Or.inl (hmemory rfl), ?_, fun _ _ => hopens⟩
        exact fun huntouched => absurd hstores (huntouched hstores.1).2
      · rintro ⟨hmemory, -, hbetween⟩
        refine ⟨hbetween hstores hno, fun _ => ?_⟩
        refine hmemory.resolve_right ?_
        rintro ⟨-, hsaves⟩
        exact ne_false_of_eq_true hno hsaves
  | saved masterKey drawn keyId wrapped hunwraps hwraps hstores hsaves =>
      rw [secured_of_wraps hunwraps hwraps]
      refine iff_of_true ⟨coherent_saved hcrypto hwraps, ?_⟩
        ⟨Or.inr ⟨hstores, hsaves⟩, ?_, ?_⟩
      · intro hthrew
        cases hthrew
      · exact fun huntouched => absurd hstores (huntouched hstores.1).2
      · intro _ hno
        exact absurd hsaves (ne_false_of_eq_true hno)

end Unlocking

/-! ## The next process of a user -/

namespace TwoUsers

/-- The first user's session is stored, and the vault is locked. -/
def locked : VaultRun := VaultService.lock signedIn

/-- The row with the session. -/
def account : AccountRecord :=
  { baseUrl := "https://arkive.test", userId := some "a"
    email := some "a@arkive.test", vaultSalt := some "Bw=="
    encryptedMasterKey := some "BwE=", vaultSessionKeyId := some "session"
    vaultSessionBlob := some "CQE=" }

/-- A new key is drawn, and these calls fail. -/
def secondEnv (fails : VaultCall → Bool) : VaultEnv Unit :=
  { fails := fails, wrappingKey := [8], nonce := () }

end TwoUsers

open TwoUsers in
/-- Nothing fails, and the new session takes the place of the old one. -/
theorem failsSafe_locked :
    FailsSafe crypto (secondEnv fun _ => false) "p" locked := by
  have hold : oldKeyId locked = some "session" := by decide
  have hstores : StoresSecret (secondEnv fun _ => false) locked "session" := by
    refine ⟨?_, by decide, by decide, rfl⟩
    rintro ⟨old, hsome, hne⟩
    rw [hold] at hsome
    cases hsome
    exact absurd rfl hne
  have hwraps : Wraps crypto (secondEnv fun _ => false) locked [1] "session"
      [8, 1] :=
    ⟨by decide, rfl, rfl, rfl, account, by decide, rfl, rfl⟩
  have hunwraps : Unwraps crypto (secondEnv fun _ => false) "p" locked [1] :=
    ⟨rfl, rfl, rfl, account, [7], [7, 1], [7], by decide, by decide,
      by decide, rfl, rfl⟩
  refine (failsSafe_iff authentic _ _ _).mpr
    ((secured_of_wraps hunwraps hwraps).mpr ⟨Or.inr ⟨hstores, rfl⟩, ?_, ?_⟩)
  · exact fun huntouched => absurd hstores (huntouched hstores.1).2
  · intro _ hno
    cases hno

open TwoUsers in
/-- The new blob is not saved: the next process throws, and the vault, which
was locked, has a key. -/
theorem not_failsSafe_locked :
    let env := secondEnv fun c => c = .saveVaultSession
    ¬ RestoresSafely crypto (VaultService.unlock crypto env "p" locked).state ∧
      (VaultService.unlock crypto env "p" locked).returned = false ∧
      (VaultService.unlock crypto env "p" locked).state.masterKey ≠
        locked.masterKey := by
  refine ⟨?_, by decide, by decide⟩
  intro h
  have hreturned := (h (secondEnv fun _ => false) (fun _ => rfl)).1
  revert hreturned
  decide

end ArkiveSync.VaultKeys
