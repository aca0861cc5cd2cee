import ArkiveSync.Library.CallLog
import ArkiveSync.Library.Runs
import ArkiveSync.Model.Base64
import ArkiveSync.Model.FileEncryptor

/-!
# The account and the vault

The account is one row of the database.  The vault's master key is kept in
memory while the vault is unlocked; for the next process it is stored wrapped in
that row, under a key that is kept in the secure storage.  `AuthService` writes
the row, `VaultService` the rest, and the commands `login` and `logout` call
both.

Every call of the database, of the secure storage and of the crypto library may
throw; what was done before it stays done.

## Main results

* `andThen_keeps`: what the parts of a call keep, the call keeps.
* `AuthCommands.login_run`, `AuthCommands.logout_run`: the commands are runs of
  calls of the services.
-/

namespace ArkiveSync

open Library

/-- `AccountRecord`. -/
structure AccountRecord where
  baseUrl : String
  userId : Option String := none
  email : Option String := none
  vaultSalt : Option String := none
  encryptedMasterKey : Option String := none
  vaultSessionKeyId : Option String := none
  vaultSessionBlob : Option String := none
  deriving DecidableEq, Repr

/-- `hasPersistedVaultMaterial`. -/
def hasPersistedVaultMaterial (account : AccountRecord) : Bool :=
  account.email.isSome && account.vaultSalt.isSome &&
    account.encryptedMasterKey.isSome

/-- The functions of `RustCrypto` that the vault uses, `none` for an
exception. -/
structure VaultCrypto (ν : Type) where
  derivePasswordKek : (password : String) → (salt : Bytes) → Option Bytes
  wrapMasterKey : ν → (masterKey kek aad : Bytes) → Option Bytes
  unwrapMasterKey : (encrypted kek aad : Bytes) → Option Bytes
  sha256HashHex : Bytes → String

/-- Authenticated encryption: what is wrapped is unwrapped under the same key
only, and gives what was wrapped. -/
structure VaultCrypto.Authentic {ν : Type} (crypto : VaultCrypto ν) : Prop where
  unwrap_wrap : ∀ nonce masterKey kek aad output,
    crypto.wrapMasterKey nonce masterKey kek aad = some output →
      crypto.unwrapMasterKey output kek aad = some masterKey
  unwrap_only : ∀ nonce masterKey kek aad output kek' masterKey',
    crypto.wrapMasterKey nonce masterKey kek aad = some output →
      crypto.unwrapMasterKey output kek' aad = some masterKey' →
        kek' = kek ∧ masterKey' = masterKey
  wrapped_nonempty : ∀ nonce masterKey kek aad output,
    crypto.wrapMasterKey nonce masterKey kek aad = some output → output ≠ []

namespace ArkiveAad

/-- `kMasterKey`. -/
def kMasterKey : String := "arkive:master-key:v1"

/-- `kSessionMasterKey`. -/
def kSessionMasterKey : String := "arkive:session-master-key:v1"

end ArkiveAad

/-- The row, the secrets by their account name, and the key in memory, which is
empty while the vault is locked.  `drawn` are the wrapping keys that have been
generated so far. -/
structure VaultRun where
  account : Option AccountRecord
  secrets : String → Option Bytes
  masterKey : Bytes
  drawn : List Bytes

/-- A call that may throw. -/
inductive VaultCall where
  | getAccount
  | getAccountAgain
  | upsertAccount
  | clearAccount
  | saveVaultSession
  | clearVaultSession
  | derivePasswordKek
  | unwrapMasterKey
  | generateMasterKey
  | wrapMasterKey
  | loadSecret
  | storeSecret
  | deleteSecret
  deriving DecidableEq, Repr

/-- What a call of the services meets: the calls that throw, the key that
`generateMasterKey` draws and the nonce of the wrapping. -/
structure VaultEnv (ν : Type) where
  fails : VaultCall → Bool
  wrappingKey : Bytes
  nonce : ν

/-- What a call of a service has come to. -/
abbrev VaultCalls := Calls VaultRun VaultCall

/-- An exception of the service itself. -/
def throwing (s : VaultRun) : VaultCalls :=
  { state := s, log := [], returned := false }

/-- One call, which throws where the surroundings say so. -/
def attempt {ν : Type} (env : VaultEnv ν) (c : VaultCall) (s : VaultRun) :
    VaultCalls :=
  .call c (!env.fails c) s

/-- What both parts keep. -/
theorem andThen_keeps {P : VaultRun → Prop} {first : VaultCalls}
    {next : VaultRun → VaultCalls} (hfirst : P first.state)
    (hnext : first.returned = true → P (next first.state).state) :
    P (first.andThen next).state := by
  unfold Calls.andThen
  split
  · exact hnext ‹_›
  · exact hfirst

theorem attempt_andThen_state {ν : Type} (env : VaultEnv ν) (c : VaultCall)
    (s : VaultRun) (next : VaultRun → VaultCalls) :
    ((attempt env c s).andThen next).state =
      if env.fails c then s else (next s).state := by
  unfold Calls.andThen attempt Calls.call
  cases env.fails c <;> rfl

/-! ## The row -/

namespace UserRepo

variable {ν : Type} (env : VaultEnv ν)

/-- `upsertAccount`. -/
def upsertAccount (account : AccountRecord) (s : VaultRun) : VaultCalls :=
  (attempt env .upsertAccount s).andThen (fun s =>
    .pass { s with account := some account })

/-- An `UPDATE` of the row. -/
def updateAccount (c : VaultCall) (f : AccountRecord → AccountRecord)
    (s : VaultRun) : VaultCalls :=
  (attempt env c s).andThen (fun s => .pass { s with account := s.account.map f })

/-- The row with the columns of the session set. -/
def withSession (sessionKeyId sessionBlob : Option String)
    (account : AccountRecord) : AccountRecord :=
  { account with
    vaultSessionKeyId := sessionKeyId
    vaultSessionBlob := sessionBlob }

/-- `saveVaultSession`. -/
def saveVaultSession (sessionKeyId sessionBlob : String) :
    VaultRun → VaultCalls :=
  updateAccount env .saveVaultSession
    (withSession (some sessionKeyId) (some sessionBlob))

/-- `clearVaultSession`. -/
def clearVaultSession : VaultRun → VaultCalls :=
  updateAccount env .clearVaultSession (withSession none none)

/-- `clearAccount`. -/
def clearAccount : VaultRun → VaultCalls :=
  updateAccount env .clearAccount (fun account => { baseUrl := account.baseUrl })

end UserRepo

/-! ## The secure storage -/

namespace SecureStorage

variable {ν : Type} (env : VaultEnv ν)

/-- `storeSecret`. -/
def storeSecret (account : String) (secret : Bytes) (s : VaultRun) :
    VaultCalls :=
  if account = "" ∨ secret = [] then throwing s
  else
    (attempt env .storeSecret s).andThen (fun s =>
      .pass { s with
        secrets := fun name =>
          if name = account then some secret else s.secrets name })

/-- `deleteSecret`. -/
def deleteSecret (account : String) (s : VaultRun) : VaultCalls :=
  if account = "" then throwing s
  else
    (attempt env .deleteSecret s).andThen (fun s =>
      .pass { s with
        secrets := fun name =>
          if name = account then none else s.secrets name })

end SecureStorage

/-! ## The vault -/

namespace VaultService

variable {ν : Type} (crypto : VaultCrypto ν) (env : VaultEnv ν)

/-- `makeVaultSessionKeyId`. -/
def makeVaultSessionKeyId (account : AccountRecord) : Option String :=
  match account.email with
  | none => none
  | some email =>
      if email = "" then none
      else
        let scope := account.baseUrl ++ "\n" ++ email
        some (crypto.sha256HashHex (ArkiveAad.toBytes scope))

/-- `lock`. -/
def lock (s : VaultRun) : VaultRun := { s with masterKey := [] }

/-- `isUnlocked`. -/
def isUnlocked (s : VaultRun) : Bool := s.masterKey ≠ []

/-- The old session's secret, where the session gets another id. -/
def deleteOldSecret (account : AccountRecord) (sessionKeyId : String)
    (s : VaultRun) : VaultCalls :=
  match account.vaultSessionKeyId with
  | none => .pass s
  | some old =>
      if old ≠ sessionKeyId then SecureStorage.deleteSecret env old s
      else .pass s

/-- `persistSession`. -/
def persistSession (s : VaultRun) : VaultCalls :=
  if s.masterKey = [] then throwing s
  else
    (attempt env .getAccountAgain s).andThen (fun s =>
      match s.account with
      | none => throwing s
      | some account =>
          match makeVaultSessionKeyId crypto account with
          | none => throwing s
          | some sessionKeyId =>
              (attempt env .generateMasterKey s).andThen (fun s =>
                let s := { s with drawn := env.wrappingKey :: s.drawn }
                (attempt env .wrapMasterKey s).andThen (fun s =>
                  match crypto.wrapMasterKey env.nonce s.masterKey
                      env.wrappingKey
                      (ArkiveAad.toBytes ArkiveAad.kSessionMasterKey) with
                  | none => throwing s
                  | some wrappedSessionBlob =>
                      (deleteOldSecret env account sessionKeyId s).andThen
                        (fun s =>
                          (SecureStorage.storeSecret env sessionKeyId
                            env.wrappingKey s).andThen
                            (UserRepo.saveVaultSession env sessionKeyId
                              (encodeBase64 wrappedSessionBlob))))))

/-- `unlock`. -/
def unlock (password : String) (s : VaultRun) : VaultCalls :=
  (attempt env .getAccount s).andThen (fun s =>
    match s.account with
    | none => throwing s
    | some account =>
        match account.vaultSalt.bind decodeBase64,
            account.encryptedMasterKey.bind decodeBase64 with
        | some salt, some encryptedMasterKey =>
            (attempt env .derivePasswordKek s).andThen (fun s =>
              match crypto.derivePasswordKek password salt with
              | none => throwing s
              | some kek =>
                  (attempt env .unwrapMasterKey s).andThen (fun s =>
                    match crypto.unwrapMasterKey encryptedMasterKey kek
                        (ArkiveAad.toBytes ArkiveAad.kMasterKey) with
                    | none => throwing s
                    | some unwrappedMasterKey =>
                        persistSession crypto env
                          { lock s with masterKey := unwrappedMasterKey }))
        | _, _ => throwing s)

/-- `restoreSession`. -/
def restoreSession (s : VaultRun) : VaultCalls :=
  if isUnlocked s then .pass s
  else
    (attempt env .getAccount s).andThen (fun s =>
      match s.account with
      | none => .pass s
      | some account =>
          match account.vaultSessionKeyId, account.vaultSessionBlob with
          | some keyId, some blob =>
              if keyId = "" ∨ blob = "" then .pass s
              else
                (attempt env .loadSecret s).andThen (fun s =>
                  match s.secrets keyId with
                  | none => UserRepo.clearVaultSession env s
                  | some localWrappingKey =>
                      if localWrappingKey = [] then
                        UserRepo.clearVaultSession env s
                      else
                        match decodeBase64 blob with
                        | none => throwing s
                        | some sessionBlob =>
                            (attempt env .unwrapMasterKey s).andThen (fun s =>
                              match crypto.unwrapMasterKey sessionBlob
                                  localWrappingKey
                                  (ArkiveAad.toBytes
                                    ArkiveAad.kSessionMasterKey) with
                              | none => throwing s
                              | some restoredMasterKey =>
                                  .pass { lock s with
                                    masterKey := restoredMasterKey }))
          | _, _ => .pass s)

/-- `ensureUnlocked`. -/
def ensureUnlocked (s : VaultRun) : VaultCalls :=
  (restoreSession crypto env s).andThen (fun s =>
    if isUnlocked s then .pass s else throwing s)

/-- `clearPersistedSession`. -/
def clearPersistedSession (s : VaultRun) : VaultCalls :=
  (attempt env .getAccount s).andThen (fun s =>
    match s.account.bind AccountRecord.vaultSessionKeyId with
    | none => .pass s
    | some keyId =>
        if keyId = "" then .pass s
        else
          (SecureStorage.deleteSecret env keyId s).andThen
            (UserRepo.clearVaultSession env))

end VaultService

/-! ## Signing in and out -/

/-- `LoginResponse`. -/
structure LoginResponse where
  salt : String
  encryptedMasterKey : String
  deriving DecidableEq, Repr

/-- The answers of the server to one call, `none` for an exception: the vault
material, the id that `/api/me` returns, which may be missing, whether there is
a valid session, and whether the request to log out is answered. -/
structure AuthAnswers where
  material : Option LoginResponse
  me : Option (Option String)
  session : Option Bool
  logout : Bool
  deriving DecidableEq, Repr

namespace AuthService

variable {ν : Type} (env : VaultEnv ν) (answers : AuthAnswers)

/-- `applyIdentity`, over the row with the material of a response. -/
def applyIdentity (account : AccountRecord) (email : Option String)
    (response : LoginResponse) (me : Option String) : Option AccountRecord :=
  let userId := me.getD ""
  if userId = "" then none
  else
    some
      { baseUrl := account.baseUrl
        userId := some userId
        email := email
        vaultSalt := if response.salt = "" then none else some response.salt
        encryptedMasterKey :=
          if response.encryptedMasterKey = "" then none
          else some response.encryptedMasterKey
        vaultSessionKeyId := account.vaultSessionKeyId
        vaultSessionBlob := account.vaultSessionBlob }

/-- The row that `login` writes, if it comes to that. -/
def loginRecord (email password : String) (account : AccountRecord) :
    Option AccountRecord :=
  if email = "" ∨ password = "" then none
  else
    match answers.material, answers.me with
    | some response, some me => applyIdentity account (some email) response me
    | _, _ => none

/-- The row that `refreshVaultMaterial` writes, if it comes to that. -/
def refreshedRecord (password : String) (account : AccountRecord) :
    Option AccountRecord :=
  if password = "" then none
  else
    match answers.material, answers.me with
    | some response, some me => applyIdentity account account.email response me
    | _, _ => none

/-- What `login` and `refreshVaultMaterial` share: the row is read, and written
back with what the server has answered. -/
def replaceAccount (record : AccountRecord → Option AccountRecord)
    (s : VaultRun) : VaultCalls :=
  (attempt env .getAccount s).andThen (fun s =>
    match s.account.bind record with
    | none => throwing s
    | some updated => UserRepo.upsertAccount env updated s)

/-- `login`. -/
def login (email password : String) : VaultRun → VaultCalls :=
  replaceAccount env (loginRecord answers email password)

/-- `refreshVaultMaterial`. -/
def refreshVaultMaterial (password : String) : VaultRun → VaultCalls :=
  replaceAccount env (refreshedRecord answers password)

/-- `logout`. -/
def logout (s : VaultRun) : VaultCalls :=
  match answers.session with
  | none => throwing s
  | some false => UserRepo.clearAccount env s
  | some true =>
      if answers.logout then UserRepo.clearAccount env s else throwing s

/-- The row is written with the user of another account. -/
def ChangesUser {ν : Type} (env : VaultEnv ν)
    (record : AccountRecord → Option AccountRecord) (s : VaultRun) : Prop :=
  ∃ account updated, s.account = some account ∧ record account = some updated ∧
    env.fails .getAccount = false ∧ env.fails .upsertAccount = false ∧
    updated.userId ≠ account.userId

/-- The row is cleared. -/
def ClearsAccount {ν : Type} (env : VaultEnv ν) (answers : AuthAnswers) : Prop :=
  (answers.session = some false ∨
    (answers.session = some true ∧ answers.logout = true)) ∧
    env.fails .clearAccount = false

/-- Where the row goes after `login` or `refreshVaultMaterial`. -/
theorem replaceAccount_cases (s : VaultRun)
    (record : AccountRecord → Option AccountRecord) :
    (replaceAccount env record s).state = s ∨
    ∃ account updated, s.account = some account ∧
      record account = some updated ∧ env.fails .getAccount = false ∧
      env.fails .upsertAccount = false ∧
      (replaceAccount env record s).state =
        { s with account := some updated } := by
  unfold replaceAccount
  rw [attempt_andThen_state]
  split
  · exact Or.inl rfl
  rename_i hread
  cases hrecord : s.account.bind record with
  | none => exact Or.inl rfl
  | some updated =>
      show (UserRepo.upsertAccount env updated s).state = s ∨ _
      obtain ⟨account, hrow, hupdated⟩ := Option.bind_eq_some_iff.mp hrecord
      unfold UserRepo.upsertAccount
      rw [attempt_andThen_state]
      split
      · exact Or.inl rfl
      rename_i hwrite
      exact Or.inr ⟨account, updated, hrow, hupdated, by simpa using hread,
        by simpa using hwrite, rfl⟩

/-- Where the row goes after `logout`. -/
theorem logout_cases (s : VaultRun) :
    (logout env answers s).state = s ∨
    (ClearsAccount env answers ∧
      (logout env answers s).state =
        { s with account := s.account.map (fun account =>
          { baseUrl := account.baseUrl }) }) := by
  have hclear : (UserRepo.clearAccount env s).state = s ∨
      (env.fails .clearAccount = false ∧ (UserRepo.clearAccount env s).state =
        { s with account := s.account.map (fun account =>
          { baseUrl := account.baseUrl }) }) := by
    unfold UserRepo.clearAccount UserRepo.updateAccount
    rw [attempt_andThen_state]
    split
    · exact Or.inl rfl
    · rename_i hcall
      exact Or.inr ⟨by simpa using hcall, rfl⟩
  unfold logout
  split
  · exact Or.inl rfl
  next hsession =>
      rcases hclear with hsame | ⟨hcall, hstate⟩
      · exact Or.inl hsame
      · exact Or.inr ⟨⟨Or.inl hsession, hcall⟩, hstate⟩
  next hsession =>
      split
      · rename_i hlogout
        rcases hclear with hsame | ⟨hcall, hstate⟩
        · exact Or.inl hsame
        · exact Or.inr ⟨⟨Or.inr ⟨hsession, hlogout⟩, hcall⟩, hstate⟩
      · exact Or.inl rfl

end AuthService

namespace AuthCommands

variable {ν : Type} (crypto : VaultCrypto ν) (env vaultEnv : VaultEnv ν)
  (answers : AuthAnswers)

/-- `login`. -/
def login (email password : String) (s : VaultRun) : VaultCalls :=
  match s.account with
  | none => throwing s
  | some account =>
      match answers.session with
      | none => throwing s
      | some session =>
          if session && email = "" then
            (if !hasPersistedVaultMaterial account then
              AuthService.refreshVaultMaterial env answers password s
            else .pass s : VaultCalls).andThen
              (VaultService.unlock crypto vaultEnv password)
          else
            (AuthService.login env answers email password s).andThen
              (VaultService.unlock crypto vaultEnv password)

/-- `logout`. -/
def logout (s : VaultRun) : VaultCalls :=
  (VaultService.clearPersistedSession env (VaultService.lock s)).andThen
    (AuthService.logout env answers)

end AuthCommands

/-! ## Runs of the services -/

/-- What happens to the account or the vault. -/
inductive VaultAction (ν : Type) where
  | login (env : VaultEnv ν) (answers : AuthAnswers) (email password : String)
  | refreshVaultMaterial (env : VaultEnv ν) (answers : AuthAnswers)
      (password : String)
  | logout (env : VaultEnv ν) (answers : AuthAnswers)
  | unlock (env : VaultEnv ν) (password : String)
  | lock
  | restoreSession (env : VaultEnv ν)
  | ensureUnlocked (env : VaultEnv ν)
  | clearPersistedSession (env : VaultEnv ν)
  | restart

/-- The state behind it, whether it returned or threw. -/
def VaultAction.perform {ν : Type} (crypto : VaultCrypto ν) :
    VaultAction ν → VaultRun → VaultRun
  | .login env answers email password, s =>
      (AuthService.login env answers email password s).state
  | .refreshVaultMaterial env answers password, s =>
      (AuthService.refreshVaultMaterial env answers password s).state
  | .logout env answers, s => (AuthService.logout env answers s).state
  | .unlock env password, s =>
      (VaultService.unlock crypto env password s).state
  | .lock, s => VaultService.lock s
  | .restoreSession env, s => (VaultService.restoreSession crypto env s).state
  | .ensureUnlocked env, s => (VaultService.ensureUnlocked crypto env s).state
  | .clearPersistedSession env, s =>
      (VaultService.clearPersistedSession env s).state
  | .restart, s => { s with masterKey := [] }

/-- The master keys of the users. -/
abbrev MasterKeys := String → Bytes

/-- The server's material for a user holds that user's master key. -/
def Material {ν : Type} (crypto : VaultCrypto ν) (masterKeyOf : MasterKeys)
    (userId encryptedMasterKey : String) : Prop :=
  ∀ encrypted kek masterKey,
    decodeBase64 encryptedMasterKey = some encrypted →
    crypto.unwrapMasterKey encrypted kek
      (ArkiveAad.toBytes ArkiveAad.kMasterKey) = some masterKey →
    masterKey = masterKeyOf userId

/-- The server answers a session with the material and the id of one user. -/
def AuthAnswers.Honest {ν : Type} (answers : AuthAnswers)
    (crypto : VaultCrypto ν) (masterKeyOf : MasterKeys) : Prop :=
  ∀ response userId, answers.material = some response →
    answers.me = some (some userId) →
    Material crypto masterKeyOf userId response.encryptedMasterKey

/-- What the surroundings promise: the server's answers are of one user, and
a wrapping key is never drawn twice. -/
def VaultAction.Served {ν : Type} (crypto : VaultCrypto ν)
    (masterKeyOf : MasterKeys) (s : VaultRun) : VaultAction ν → Prop
  | .login _ answers _ _ => answers.Honest crypto masterKeyOf
  | .refreshVaultMaterial _ answers _ => answers.Honest crypto masterKeyOf
  | .unlock env _ => env.wrappingKey ∉ s.drawn
  | _ => True

/-- One step. -/
def VaultStep {ν : Type} (crypto : VaultCrypto ν) (masterKeyOf : MasterKeys)
    (s : VaultRun) (action : VaultAction ν) (s' : VaultRun) : Prop :=
  action.Served crypto masterKeyOf s ∧ s' = action.perform crypto s

/-- One step, whatever it is. -/
def VaultRun.Next {ν : Type} (crypto : VaultCrypto ν) (masterKeyOf : MasterKeys)
    (s s' : VaultRun) : Prop :=
  ∃ action : VaultAction ν, VaultStep crypto masterKeyOf s action s'

/-! ## The commands -/

namespace VaultRun

variable {ν : Type} {crypto : VaultCrypto ν} {masterKeyOf : MasterKeys}

/-- A call of a service, and the rest unless it threw. -/
theorem run_andThen {s : VaultRun} {first : VaultCalls}
    {next : VaultRun → VaultCalls}
    (hfirst : Run (Next crypto masterKeyOf) s first.state)
    (hnext : first.returned = true →
      Next crypto masterKeyOf first.state (next first.state).state) :
    Run (Next crypto masterKeyOf) s (first.andThen next).state := by
  unfold Calls.andThen
  split
  next hreturned => exact hfirst.tail (hnext hreturned)
  next => exact hfirst

end VaultRun

namespace AuthCommands

variable {ν : Type} {crypto : VaultCrypto ν} {masterKeyOf : MasterKeys}
  {env vaultEnv : VaultEnv ν} {answers : AuthAnswers}

/-- Signing in draws no key. -/
theorem drawn_replaceAccount {s : VaultRun}
    (record : AccountRecord → Option AccountRecord) :
    (AuthService.replaceAccount env record s).state.drawn = s.drawn := by
  rcases AuthService.replaceAccount_cases env s record with
    hsame | ⟨_, _, _, _, _, _, hnew⟩
  · rw [hsame]
  · rw [hnew]

/-- The command `login` is a run of calls of the services. -/
theorem login_run (s : VaultRun) (email password : String)
    (hhonest : answers.Honest crypto masterKeyOf)
    (hfresh : vaultEnv.wrappingKey ∉ s.drawn) :
    Run (VaultRun.Next crypto masterKeyOf) s
      (login crypto env vaultEnv answers email password s).state := by
  have hunlock : ∀ s', s'.drawn = s.drawn →
      VaultRun.Next crypto masterKeyOf s'
        (VaultService.unlock crypto vaultEnv password s').state := by
    intro s' hdrawn
    exact ⟨.unlock vaultEnv password, by rw [← hdrawn] at hfresh; exact hfresh,
      rfl⟩
  unfold login
  split
  · exact .refl
  split
  · exact .refl
  split
  · refine VaultRun.run_andThen ?_ (fun _ => hunlock _ ?_)
    · split
      · exact .single ⟨.refreshVaultMaterial env answers password, hhonest, rfl⟩
      · exact .refl
    · split
      · exact drawn_replaceAccount _
      · rfl
  · exact VaultRun.run_andThen
      (.single ⟨.login env answers email password, hhonest, rfl⟩)
      (fun _ => hunlock _ (drawn_replaceAccount _))

/-- So is the command `logout`. -/
theorem logout_run (s : VaultRun) :
    Run (VaultRun.Next crypto masterKeyOf) s (logout env answers s).state := by
  refine VaultRun.run_andThen ?_
    (fun _ => ⟨.logout env answers, trivial, rfl⟩)
  exact .tail (.single ⟨.lock, trivial, rfl⟩)
    ⟨.clearPersistedSession env, trivial, rfl⟩

end AuthCommands

end ArkiveSync
