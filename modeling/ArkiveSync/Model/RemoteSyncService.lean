import ArkiveSync.Model.RemoteScanner
import ArkiveSync.Model.SyncReconciler
import ArkiveSync.Model.SyncService

/-!
# The remote tick

`RemoteSyncService::runTick` goes through the roots it is given.  For each
enabled one that is due it runs a remote scan, and when the account's listing
shows the root's folder as deleted it marks every row, disables the root and
removes its directory.  The flag it tests is that of the copy it was given; the
folder is the one in the database.

## Main results

* `scanned_upserts`: the table after a turn is the old one with accepted
  upserts of the root applied, and marked if the folder was found deleted.
-/

namespace ArkiveSync

open Library

/-- What a remote tick finds around it. -/
structure RemoteEnv where
  cwd : FsPath
  getJson : String → Option Json
  vault : NameVault
  fuel : Nat
  now : String

/-- The state a turn of the remote tick works on. -/
structure RemoteState where
  roots : List SyncRoot
  entries : EntryTable
  disk : Disk

/-- The outcome of a turn; `returned` is false when it leaves by an
exception. -/
structure RemoteTurn where
  state : RemoteState
  effects : List FsEffect
  returned : Bool

namespace RemoteSyncService

/-- The remote-deletion branch. -/
def deleteRoot (env : RemoteEnv) (root : SyncRoot) (s : RemoteState) :
    RemoteTurn :=
  let marked : RemoteState :=
    { s with
      entries := RemoteEntryRepo.markRootRemoteDeleted s.entries root.id env.now
      roots := SyncRepo.disableSyncRoot s.roots root.id }
  match normalizeFsPath env.cwd root.localPath with
  | none => { state := marked, effects := [], returned := false }
  | some base =>
      { state :=
          { marked with disk := marked.disk.removeAll (FsPath.parse base).loc }
        effects := [.removeAll (FsPath.parse base)]
        returned := true }

/-- The turn of `runTick` for a root that is enabled and due. -/
def scanTurn (env : RemoteEnv) (root : SyncRoot) (s : RemoteState) :
    RemoteTurn :=
  match SyncRepo.findSyncRootById s.roots root.id with
  | none => { state := s, effects := [], returned := false }
  | some bound =>
      let scanned := RemoteScanner.scanRoot env.getJson env.vault bound env.fuel
        s.entries
      let after := { s with entries := scanned.entries }
      if scanned.status ≠ .returned then
        { state := after, effects := [], returned := false }
      else
        match RemoteScanner.isRootDeleted env.getJson bound with
        | none => { state := after, effects := [], returned := false }
        | some false => { state := after, effects := [], returned := true }
        | some true => deleteRoot env root after

/-- `runTick` over the roots still to come; `due` is the answer of the clock. -/
def runTick (env : RemoteEnv) (due : String → Bool) :
    List SyncRoot → RemoteState → RemoteTurn
  | [], s => { state := s, effects := [], returned := true }
  | root :: rest, s =>
      if !root.enabled || !due root.id then runTick env due rest s
      else
        let now := scanTurn env root s
        if now.returned then
          let later := runTick env due rest now.state
          { later with effects := now.effects ++ later.effects }
        else now

/-! ## What a turn does -/

/-- The root's folder was found deleted in the account's listing. -/
def FoundDeleted (env : RemoteEnv) (roots : List SyncRoot)
    (syncRootId : String) : Prop :=
  ∃ bound, SyncRepo.findSyncRootById roots syncRootId = some bound ∧
    RemoteScanner.isRootDeleted env.getJson bound = some true

/-- The ways a turn can go, after the upserts of the scan. -/
inductive TurnOutcome (env : RemoteEnv) (root : SyncRoot) (s : RemoteState)
    (entries : EntryTable) : RemoteTurn → Prop where
  | scanned (returned : Bool) :
      TurnOutcome env root s entries
        { state := { s with entries := entries }
          effects := []
          returned := returned }
  | deleted (hfound : FoundDeleted env s.roots root.id) :
      TurnOutcome env root s entries
        (deleteRoot env root { s with entries := entries })

/-- A turn applies upserts of the root, which its scan issued, and may then
find the folder deleted. -/
theorem scanned_upserts (env : RemoteEnv) (root : SyncRoot) (s : RemoteState) :
    ∃ us entries, RemoteScanner.applyAll us s.entries = some entries ∧
      (∀ u ∈ us, RemoteScanner.Issued root.id u) ∧
      (us ≠ [] → ∃ bound,
        SyncRepo.findSyncRootById s.roots root.id = some bound ∧
        us = (RemoteScanner.scanRoot env.getJson env.vault bound env.fuel
          s.entries).upserts) ∧
      TurnOutcome env root s entries (scanTurn env root s) := by
  unfold scanTurn
  cases hfind : SyncRepo.findSyncRootById s.roots root.id with
  | none =>
      refine ⟨[], s.entries, rfl, by simp, by simp, ?_⟩
      exact .scanned false
  | some bound =>
      have hid : bound.id = root.id := SyncRepo.id_of_find hfind
      have hlog := RemoteScanner.scanRoot_log env.getJson env.vault bound
        env.fuel s.entries
      refine ⟨_, _, hlog.table, ?_, fun _ => ⟨bound, rfl, rfl⟩, ?_⟩
      · intro u hu
        rw [← hid]
        exact hlog.issued u hu
      · simp only
        split
        next => exact .scanned false
        next =>
            split
            next => exact .scanned false
            next => exact .scanned true
            next hdeleted => exact .deleted ⟨bound, hfind, hdeleted⟩

end RemoteSyncService

end ArkiveSync
