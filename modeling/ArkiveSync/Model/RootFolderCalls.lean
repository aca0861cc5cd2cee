import Mathlib.Logic.Function.Basic
import ArkiveSync.Library.Runs
import ArkiveSync.Model.QueueService

/-!
# Calls that create a root's folder

`ensureRootFolder` reads the root, asks the server for a folder if it has none,
and writes the root back.  `buildPage` calls it before it reads the root again
and queues a page.  The daemon's loop does so in each of its ticks and a
command (`sync run`) on the thread that answers commands, so that several calls
for one root may be under way at once.

A call is cut where another thread may come in between: behind the first
reading of the root, behind the answer of the server, behind the writing of the
root, and behind the second reading.  The server's ids are not empty.

## Main results

* `ensure_alone`: without another thread the steps come to `ensureRootFolder`.
-/

namespace ArkiveSync

open Library

/-- Where a thread stands in a call of `buildPage`. -/
inductive CallPhase where
  | idle
  | ensuring (root : SyncRoot)
  | answered (root : SyncRoot) (folderId : String)
  | ensured
  | producing (root : SyncRoot)

/-- What is logged: a folder that the server has created for the root, one that
is stored in it, and one that a job or an upload is given for its parent. -/
inductive FolderEvent where
  | created (folderId : String)
  | stored (folderId : String)
  | used (folderId : String)
  deriving DecidableEq, Repr

/-- The roots, the threads, and the log, newest event first. -/
structure RootFolderRun where
  roots : List SyncRoot
  threads : Nat → CallPhase
  log : List FolderEvent

/-- What a thread does next. -/
inductive FolderAction where
  | read (thread : Nat)
  | fail (thread : Nat)
  | answer (thread : Nat) (folderId : String)
  | store (thread : Nat)
  | readAgain (thread : Nat)
  | produce (thread : Nat)
  | finish (thread : Nat)
  | upload
  | others

namespace FolderCreateWorker

/-- `ensureRootFolder` goes on to the request: it has read the root, which has
no folder, and has a name for it. -/
def asks (cwd : FsPath) (root : SyncRoot) : Prop :=
  root.folderId = "" ∧ ∃ name, folderNameFromLocalPath cwd root.localPath =
    some name

/-- The row that `ensureRootFolder` writes. -/
def withFolder (root : SyncRoot) (folderId : String) : SyncRoot :=
  { id := root.id, localPath := root.localPath, folderId := folderId
    enabled := root.enabled, mode := .twoWay }

end FolderCreateWorker

namespace RootFolderRun

/-- The run with one thread in another phase. -/
def enter (s : RootFolderRun) (thread : Nat) (phase : CallPhase) :
    RootFolderRun :=
  { s with threads := Function.update s.threads thread phase }

/-- The root in the database. -/
def root? (s : RootFolderRun) (syncRootId : String) : Option SyncRoot :=
  SyncRepo.findSyncRootById s.roots syncRootId

end RootFolderRun

open RootFolderRun in
/-- One step of a thread, or of something else that leaves the root alone. -/
inductive FolderStep (cwd : FsPath) (syncRootId : String) :
    RootFolderRun → FolderAction → RootFolderRun → Prop where
  | skip (s : RootFolderRun) (i : Nat) (root : SyncRoot)
      (hphase : s.threads i = .idle) (hroot : s.root? syncRootId = some root)
      (hfolder : root.folderId ≠ "") :
      FolderStep cwd syncRootId s (.read i) (s.enter i .ensured)
  | read (s : RootFolderRun) (i : Nat) (root : SyncRoot)
      (hphase : s.threads i = .idle) (hroot : s.root? syncRootId = some root)
      (hasks : FolderCreateWorker.asks cwd root) :
      FolderStep cwd syncRootId s (.read i) (s.enter i (.ensuring root))
  | fail (s : RootFolderRun) (i : Nat) (root : SyncRoot)
      (hphase : s.threads i = .ensuring root) :
      FolderStep cwd syncRootId s (.fail i) (s.enter i .idle)
  | answer (s : RootFolderRun) (i : Nat) (root : SyncRoot) (folderId : String)
      (hphase : s.threads i = .ensuring root) (hid : folderId ≠ "") :
      FolderStep cwd syncRootId s (.answer i folderId)
        { s.enter i (.answered root folderId) with
          log := .created folderId :: s.log }
  | store (s : RootFolderRun) (i : Nat) (root : SyncRoot) (folderId : String)
      (hphase : s.threads i = .answered root folderId) :
      FolderStep cwd syncRootId s (.store i)
        { s.enter i .ensured with
          roots := SyncRepo.upsertSyncRoot s.roots
            (FolderCreateWorker.withFolder root folderId)
          log := .stored folderId :: s.log }
  | readAgain (s : RootFolderRun) (i : Nat) (root : SyncRoot)
      (hphase : s.threads i = .ensured)
      (hroot : s.root? syncRootId = some root) :
      FolderStep cwd syncRootId s (.readAgain i) (s.enter i (.producing root))
  | gone (s : RootFolderRun) (i : Nat) (hphase : s.threads i = .ensured)
      (hroot : s.root? syncRootId = none) :
      FolderStep cwd syncRootId s (.readAgain i) (s.enter i .idle)
  | produce (s : RootFolderRun) (i : Nat) (root : SyncRoot)
      (hphase : s.threads i = .producing root) :
      FolderStep cwd syncRootId s (.produce i)
        { s with log := .used root.folderId :: s.log }
  | finish (s : RootFolderRun) (i : Nat) (root : SyncRoot)
      (hphase : s.threads i = .producing root) :
      FolderStep cwd syncRootId s (.finish i) (s.enter i .idle)
  | upload (s : RootFolderRun) (root : SyncRoot)
      (hroot : s.root? syncRootId = some root) :
      FolderStep cwd syncRootId s .upload
        { s with log := .used root.folderId :: s.log }
  | others (s : RootFolderRun) (roots : List SyncRoot)
      (hroot : SyncRepo.findSyncRootById roots syncRootId =
        s.root? syncRootId) :
      FolderStep cwd syncRootId s .others { s with roots := roots }

namespace RootFolderRun

/-- One step, whatever it is. -/
def Next (cwd : FsPath) (syncRootId : String) (a b : RootFolderRun) : Prop :=
  ∃ action, FolderStep cwd syncRootId a action b

/-- A call of `ensureRootFolder` with no other thread in between. -/
theorem ensure_alone {env : QueueEnv} {syncRootId : String} {s : SyncStore}
    {s' : SyncStore} (run : RootFolderRun) (i : Nat)
    (hroots : run.roots = s.roots) (hidle : run.threads i = .idle)
    (hanswer : ∀ name folderId, env.createRootFolder name = some folderId →
      folderId ≠ "")
    (h : FolderCreateWorker.ensureRootFolder env syncRootId s = some s') :
    ∃ run', Run (Next env.cwd syncRootId) run run' ∧ run'.roots = s'.roots ∧
      run'.threads i = .ensured := by
  unfold FolderCreateWorker.ensureRootFolder at h
  split at h
  next => cases h
  next root hroot =>
      rw [← hroots] at hroot
      split at h
      next hfolder =>
          cases h
          exact ⟨_, .single ⟨_, .skip run i root hidle hroot hfolder⟩, hroots,
            Function.update_self _ _ _⟩
      next hfolder =>
          split at h
          next => cases h
          next name hname =>
              split at h
              next => cases h
              next folderId hcreated =>
                  cases h
                  have hempty : root.folderId = "" := by simpa using hfolder
                  refine ⟨_, .tail (.tail (.single
                    ⟨_, .read run i root hidle hroot ⟨hempty, name, hname⟩⟩)
                    ⟨_, .answer _ i root folderId
                      (Function.update_self _ _ _) (hanswer _ _ hcreated)⟩)
                    ⟨_, .store _ i root folderId (Function.update_self _ _ _)⟩,
                    ?_, Function.update_self _ _ _⟩
                  show SyncRepo.upsertSyncRoot run.roots _ = _
                  rw [hroots]
                  rfl

end RootFolderRun

end ArkiveSync
