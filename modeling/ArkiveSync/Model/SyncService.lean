import ArkiveSync.Model.QueueService

/-!
# The configuration of the sync roots

Every writer of a root but `disableSyncRoot` goes through one upsert that
assigns all columns.  `SyncService::addSyncRoot` fills what its caller leaves
out with default values, and `ensureRootFolder` writes back the row it read
before it asked the server for a folder.

The id of a root is a function of its path, so the unique index on
`local_path` has nothing to reject.

## Main results

* `ensureRootFolder_eq`: the call is its two halves with the server's answer
  between them.
-/

namespace ArkiveSync

open Library

/-- `disableSyncRoot`. -/
def SyncRepo.disableSyncRoot (roots : List SyncRoot) (syncRootId : String) :
    List SyncRoot :=
  roots.map (fun r =>
    if r.id == syncRootId then { r with enabled := false } else r)

/-- Every other root is left alone, and the named one but for the flag. -/
theorem SyncRepo.find_disable (roots : List SyncRoot) (syncRootId id : String) :
    SyncRepo.findSyncRootById (SyncRepo.disableSyncRoot roots syncRootId) id =
      (SyncRepo.findSyncRootById roots id).map (fun r =>
        if r.id == syncRootId then { r with enabled := false } else r) := by
  unfold SyncRepo.findSyncRootById SyncRepo.disableSyncRoot
  rw [List.find?_map]
  congr 2
  funext r
  simp only [Function.comp_apply]
  split <;> rfl

/-- What `SyncService` works with. -/
structure SyncServiceEnv where
  cwd : FsPath
  sha256HashHex : String → String

namespace SyncService

/-- `FileHasher::hashPath`. -/
def hashPath (env : SyncServiceEnv) (path : String) : Option String :=
  (normalizeFsPath env.cwd path).map env.sha256HashHex

/-- `makeRootId`. -/
def makeRootId (pathHash : String) : String := "sync-root-" ++ pathHash

/-- The root that `addSyncRoot` names; `none` for an exception. -/
def rootIdOf (env : SyncServiceEnv) (localPath : String) : Option String :=
  ((normalizeFsPath env.cwd localPath).bind (hashPath env)).map makeRootId

/-- `addSyncRoot`; `none` for an exception. -/
def addSyncRoot (env : SyncServiceEnv) (disk : Disk) (roots : List SyncRoot)
    (localPath : String) (folderId : Option String := none)
    (enabled : Bool := true) (mode : SyncMode := .twoWay) :
    Option (List SyncRoot × SyncRoot) :=
  match normalizeFsPath env.cwd localPath with
  | none => none
  | some normalizedPath =>
      if !disk.isDirectory (FsPath.parse normalizedPath).loc then none
      else
        match hashPath env normalizedPath with
        | none => none
        | some pathHash =>
            let root : SyncRoot :=
              { id := makeRootId pathHash
                localPath := normalizedPath
                folderId := folderId.getD ""
                enabled := enabled
                mode := mode }
            some (SyncRepo.upsertSyncRoot roots root, root)

/-- `removeSyncRoot`; `none` for an unknown root. -/
def removeSyncRoot (roots : List SyncRoot) (syncRootId : String) :
    Option (List SyncRoot) :=
  match SyncRepo.findSyncRootById roots syncRootId with
  | none => none
  | some _ => some (SyncRepo.disableSyncRoot roots syncRootId)

/-- The root a successful call writes. -/
theorem addSyncRoot_some {env : SyncServiceEnv} {disk : Disk}
    {roots roots' : List SyncRoot} {localPath : String}
    {folderId : Option String} {enabled : Bool} {mode : SyncMode}
    {root : SyncRoot}
    (h : addSyncRoot env disk roots localPath folderId enabled mode =
      some (roots', root)) :
    normalizeFsPath env.cwd localPath = some root.localPath ∧
      disk.isDirectory (FsPath.parse root.localPath).loc = true ∧
      rootIdOf env localPath = some root.id ∧
      root.folderId = folderId.getD "" ∧ root.mode = mode ∧
      roots' = SyncRepo.upsertSyncRoot roots root := by
  unfold addSyncRoot at h
  cases hnorm : normalizeFsPath env.cwd localPath with
  | none =>
      rw [hnorm] at h
      cases h
  | some normalizedPath =>
      rw [hnorm] at h
      dsimp only at h
      split at h
      · cases h
      · rename_i hdir
        split at h
        · cases h
        · rename_i pathHash hhash
          cases h
          refine ⟨rfl, by simpa using hdir, ?_, rfl, rfl, rfl⟩
          simp [rootIdOf, hnorm, hhash]

/-- A call for a directory with an id does not fail. -/
theorem addSyncRoot_ne_none {env : SyncServiceEnv} {disk : Disk}
    {roots : List SyncRoot} {localPath path id : String}
    {folderId : Option String} {enabled : Bool} {mode : SyncMode}
    (hnorm : normalizeFsPath env.cwd localPath = some path)
    (hdir : disk.isDirectory (FsPath.parse path).loc = true)
    (hid : rootIdOf env localPath = some id) :
    addSyncRoot env disk roots localPath folderId enabled mode ≠ none := by
  unfold rootIdOf at hid
  rw [hnorm] at hid
  unfold addSyncRoot
  rw [hnorm]
  dsimp only
  rw [hdir]
  cases hhash : hashPath env path with
  | none => simp [hhash] at hid
  | some pathHash => simp

end SyncService

namespace FolderCreateWorker

/-- `ensureRootFolder` up to the request: the row it has read and the name it
asks for.  `none` when no request is made. -/
def startRootFolder (cwd : FsPath) (syncRootId : String)
    (roots : List SyncRoot) : Option (SyncRoot × String) :=
  match SyncRepo.findSyncRootById roots syncRootId with
  | none => none
  | some root =>
      if root.folderId ≠ "" then none
      else
        match folderNameFromLocalPath cwd root.localPath with
        | none => none
        | some name => some (root, name)

/-- `ensureRootFolder` after the answer: the row is written as it was read, but
for the folder and the default mode. -/
def finishRootFolder (read : SyncRoot) (created : String)
    (roots : List SyncRoot) : List SyncRoot :=
  SyncRepo.upsertSyncRoot roots
    { id := read.id, localPath := read.localPath, folderId := created
      enabled := read.enabled, mode := .twoWay }

/-- With nothing in between, the two halves are the call. -/
theorem ensureRootFolder_eq {env : QueueEnv} {syncRootId name created : String}
    {s : SyncStore} {read : SyncRoot}
    (hstart : startRootFolder env.cwd syncRootId s.roots = some (read, name))
    (hcreate : env.createRootFolder name = some created) :
    ensureRootFolder env syncRootId s =
      some { s with roots := finishRootFolder read created s.roots } := by
  unfold startRootFolder at hstart
  unfold ensureRootFolder
  cases hfind : SyncRepo.findSyncRootById s.roots syncRootId with
  | none =>
      rw [hfind] at hstart
      cases hstart
  | some root =>
      rw [hfind] at hstart
      dsimp only at hstart ⊢
      by_cases hfolder : root.folderId ≠ ""
      · rw [if_pos hfolder] at hstart
        cases hstart
      · rw [if_neg hfolder] at hstart ⊢
        cases hname : folderNameFromLocalPath env.cwd root.localPath with
        | none =>
            rw [hname] at hstart
            cases hstart
        | some n =>
            rw [hname] at hstart
            cases hstart
            simp only [hcreate]
            rfl

end FolderCreateWorker

end ArkiveSync
