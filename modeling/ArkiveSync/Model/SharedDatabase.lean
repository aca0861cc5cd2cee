import ArkiveSync.Library.SharedConnection
import ArkiveSync.Model.RootScanner
import ArkiveSync.Model.UploadResumeRepo
import ArkiveSync.Model.QueueService

/-!
# The statements of the daemon's threads

`createDaemonServices` gives every repository the same connection, and the IPC
server runs its handler in a thread of its own.  The scanner and
`claimNextQueuedByType` open a transaction around their statements; all other
repositories write with single statements.

A call is the program of its statements: what it finds on the disk and what
`sqlite3_changes` tells it (the count is the connection's, not the thread's)
are given with the call.  `scanMutex_` keeps two scans apart; the runs here
include those that it rules out.

## Main results

* `handleFileEntry_eq`: `handleFileEntry` is its `SELECT` and the upsert it
  prepares.
* `disciplined_program`: every call ends the transaction it began.
-/

namespace ArkiveSync

open Library

/-- A row of `scan_jobs`. -/
structure ScanJobRow where
  syncRootId : String
  job : ScanJob
  running : Bool
  deriving DecidableEq, Repr

/-- The tables behind the connection. -/
structure DaemonTables where
  roots : List SyncRoot
  entries : EntryTable
  queue : TransferQueue
  resume : UploadResumeRepo
  scanJobs : List ScanJobRow

/-- The writes of the repositories; each is one statement. -/
inductive TableWrite where
  | insertScanJob (syncRootId : String) (jobId : Nat)
  | updateScanCursor (jobId : Nat) (cursor : String)
  | markScanComplete (jobId : Nat)
  | upsertDirectoryEntry (u : DirectoryEntryUpsert)
  | upsertFileEntry (u : FileEntryUpsert)
  | markEntriesNotSeenInScanDeleted (syncRootId : String) (jobId : Nat)
  | markSubtreeEntriesNotSeenInScanDeleted (syncRootId relativePath : String)
      (jobId : Nat)
  | markPathDeleted (syncRootId relativePath : String)
  | markRunning (jobId : Nat)
  | markDone (jobId : Nat)
  | markFailed (jobId : Nat)
  | markEntryUploaded (entryId : Nat) (remoteId : String)
      (remoteParentFolderId : Option String)
  | markEntryDownloaded (entryId : Nat)
  | markEntryDownloadedAs (entryId : Nat) (size mtime : Int)
      (contentHash : String)
  | upsertPart (uploadSessionId : String) (part : UploadResumePartRecord)

namespace TableWrite

/-- The rows of a scan job, changed. -/
def modifyJob (db : DaemonTables) (jobId : Nat) (f : ScanJobRow → ScanJobRow) :
    DaemonTables :=
  { db with
    scanJobs := db.scanJobs.map (fun row =>
      if row.job.id = jobId then f row else row) }

/-- What a write makes of the tables. -/
def apply (db : DaemonTables) : TableWrite → DaemonTables
  | .insertScanJob syncRootId jobId =>
      if db.scanJobs.any (fun row => row.job.id == jobId) then db
      else
        { db with
          scanJobs :=
            { syncRootId := syncRootId
              job := { id := jobId, cursorPath := none }
              running := true } :: db.scanJobs }
  | .updateScanCursor jobId cursor =>
      modifyJob db jobId (fun row =>
        { row with job := { row.job with cursorPath := some cursor } })
  | .markScanComplete jobId =>
      modifyJob db jobId (fun row => { row with running := false })
  | .upsertDirectoryEntry u =>
      { db with entries := LocalEntryRepo.upsertDirectoryEntry db.entries u }
  | .upsertFileEntry u =>
      { db with entries := LocalEntryRepo.upsertFileEntry db.entries u }
  | .markEntriesNotSeenInScanDeleted syncRootId jobId =>
      { db with
        entries := LocalEntryRepo.markEntriesNotSeenInScanDeleted db.entries
          syncRootId jobId }
  | .markSubtreeEntriesNotSeenInScanDeleted syncRootId relativePath jobId =>
      { db with
        entries := LocalEntryRepo.markSubtreeEntriesNotSeenInScanDeleted
          db.entries syncRootId relativePath jobId }
  | .markPathDeleted syncRootId relativePath =>
      { db with
        entries := LocalEntryRepo.markPathDeleted db.entries syncRootId
          relativePath }
  | .markRunning jobId =>
      { db with
        queue := QueueRepo.setStatus db.queue
          (fun j => j.id == jobId && j.status == .queued) .running (by
            intro j hj _
            simp only [Bool.and_eq_true, beq_iff_eq] at hj
            rw [hj.2]
            rfl) }
  | .markDone jobId => { db with queue := QueueRepo.markDone db.queue jobId }
  | .markFailed jobId =>
      { db with queue := QueueRepo.markFailed db.queue jobId }
  | .markEntryUploaded entryId remoteId remoteParentFolderId =>
      { db with
        entries := RemoteEntryRepo.markEntryUploaded db.entries entryId
          remoteId remoteParentFolderId }
  | .markEntryDownloaded entryId =>
      { db with
        entries := RemoteEntryRepo.markEntryDownloaded db.entries entryId }
  | .markEntryDownloadedAs entryId size mtime contentHash =>
      { db with
        entries := RemoteEntryRepo.markEntryDownloadedAs db.entries entryId
          size mtime contentHash }
  | .upsertPart uploadSessionId part =>
      { db with resume := db.resume.upsertPart uploadSessionId part }

end TableWrite

/-- The programs of the threads. -/
abbrev DbProgram := Program DaemonTables TableWrite

/-- `catch (...)`, and every failure inside a transaction. -/
def rollbackAndReturn : DbProgram := .rollback .done

/-- `COMMIT` as the last statement; when it throws, the transaction is rolled
back. -/
def commitAndReturn : DbProgram := .commit .done rollbackAndReturn

/-! ## The scanner -/

namespace RootScanner

/-- What `handleFileEntry` prepares from the row it selects. -/
inductive FileUpsert where
  | write (u : FileEntryUpsert)
  | skip
  | throw

/-- `handleFileEntry` between its two statements. -/
def fileUpsert (existing : Option Entry) (syncRootId : String) (jobId : Nat)
    (relativePath : String) (probe : FileProbe) : FileUpsert :=
  match probe.size, probe.mtime with
  | some fileSize, some mtime =>
      if fileSize > int64Max then .skip
      else
        let shouldHash := !looksRecorded existing fileSize mtime
        let contentHash :=
          if shouldHash then probe.hash else existing.bind Entry.contentHash
        match contentHash with
        | none => .throw
        | some contentHash =>
            .write
              { syncRootId := syncRootId
                relativePath := relativePath
                size := fileSize
                mtime := toMtimeMs mtime
                contentHash := contentHash
                syncState := scannedState existing shouldHash contentHash
                lastSeenScanId := jobId }
  | _, _ => .skip

/-- `handleFileEntry` is its `SELECT` and the upsert it prepares. -/
theorem handleFileEntry_eq (t : EntryTable) (syncRootId : String) (jobId : Nat)
    (relativePath : String) (probe : FileProbe) :
    handleFileEntry t syncRootId jobId relativePath probe =
      match fileUpsert (EntryRepo.findEntryByPath t syncRootId relativePath)
        syncRootId jobId relativePath probe with
      | .write u => .stored (LocalEntryRepo.upsertFileEntry t u)
      | .skip => .skipped
      | .throw => .threw := by
  unfold handleFileEntry fileUpsert
  cases probe.size with
  | none => rfl
  | some fileSize =>
      cases probe.mtime with
      | none => rfl
      | some mtime =>
          dsimp only
          by_cases hsize : fileSize > int64Max
          · rw [if_pos hsize, if_pos hsize]
          · rw [if_neg hsize, if_neg hsize]
            generalize (if (!looksRecorded
              (EntryRepo.findEntryByPath t syncRootId relativePath) fileSize
                mtime) = true then probe.hash
              else (EntryRepo.findEntryByPath t syncRootId relativePath).bind
                Entry.contentHash) = hash
            cases hash with
            | none => rfl
            | some contentHash => rfl

/-- The statements of `handleFileEntry`; it goes on with `stored` or
`skipped`. -/
def handleFileEntryProgram (syncRootId : String) (jobId : Nat)
    (relativePath : String) (probe : FileProbe) (stored skipped : DbProgram) :
    DbProgram :=
  .query (fun db =>
    match fileUpsert
      (EntryRepo.findEntryByPath db.entries syncRootId relativePath)
      syncRootId jobId relativePath probe with
    | .write u => .write (.upsertFileEntry u) stored rollbackAndReturn
    | .skip => skipped
    | .throw => rollbackAndReturn)

/-- The statements of the loop of a batch, as `scanItems`; `next` gets the items
that are left and the last cursor. -/
def scanItemsProgram (syncRootId : String) (jobId : Nat)
    (next : List DirItem → Option String → DbProgram) :
    List DirItem → Nat → Option String → DbProgram
  | [], _, last => next [] last
  | item :: items, 0, last => next (item :: items) last
  | item :: items, budget + 1, last =>
      match item.relative, item.kind with
      | some rel, some .directory =>
          .write (.upsertDirectoryEntry
              { syncRootId := syncRootId
                relativePath := rel
                lastSeenScanId := jobId })
            (scanItemsProgram syncRootId jobId next items budget (some rel))
            rollbackAndReturn
      | some rel, some (.regularFile probe) =>
          handleFileEntryProgram syncRootId jobId rel probe
            (scanItemsProgram syncRootId jobId next items budget (some rel))
            (scanItemsProgram syncRootId jobId next items (budget + 1) last)
      | _, _ => scanItemsProgram syncRootId jobId next items (budget + 1) last

/-- The statements of a batch of `scanRoot`, once it has a job. -/
def scanBatchProgram (syncRootId : String) (job : ScanJob)
    (activeScan : Option (List DirItem)) (listing : Option DirStream) :
    DbProgram :=
  let iterator :=
    match activeScan with
    | some items => some items
    | none => listing.bind (positionAfterCursor job.cursorPath)
  match iterator with
  | none => rollbackAndReturn
  | some items =>
      scanItemsProgram syncRootId job.id (fun rest last =>
        if rest.isEmpty then
          .write (.markScanComplete job.id)
            (.write (.markEntriesNotSeenInScanDeleted syncRootId job.id)
              commitAndReturn rollbackAndReturn) rollbackAndReturn
        else
          match last with
          | some cursor =>
              .write (.updateScanCursor job.id cursor) commitAndReturn
                rollbackAndReturn
          | none => commitAndReturn) items kMaxScanBatchSize none

/-- `getScanJob`. -/
def getScanJob (db : DaemonTables) (syncRootId : String) : Option ScanJob :=
  (db.scanJobs.find? (fun row =>
    row.syncRootId == syncRootId && row.running)).map ScanJobRow.job

/-- The statements of `scanRoot`. -/
def scanRootProgram (rootId : String) (isDirectory : Bool)
    (activeScan : Option (List DirItem)) (listing : Option DirStream)
    (newJobId : Nat) (inserted : Bool) : DbProgram :=
  .query (fun db =>
    match SyncRepo.findSyncRootById db.roots rootId with
    | none => .done
    | some root =>
        if !root.enabled || !isDirectory then .done
        else
          .query (fun db =>
            .begin
              (match getScanJob db rootId with
              | some job => scanBatchProgram rootId job activeScan listing
              | none =>
                  .write (.insertScanJob rootId newJobId)
                    (if inserted then
                      scanBatchProgram rootId
                        { id := newJobId, cursorPath := none } activeScan
                        listing
                    else rollbackAndReturn) rollbackAndReturn)
              .done))

/-- The statements of the loop of `scanSubtree`; behind the last round given the
iterator fails. -/
def subtreeRoundsProgram (syncRootId relativePath : String) (jobId : Nat) :
    List (Option DirStream) → Option String → DbProgram
  | [], _ => rollbackAndReturn
  | none :: _, _ => rollbackAndReturn
  | some listing :: rounds, cursor =>
      match positionAfterCursor cursor listing with
      | none => rollbackAndReturn
      | some items =>
          scanItemsProgram syncRootId jobId (fun rest last =>
            if rest.isEmpty then
              if listing.failed then rollbackAndReturn
              else
                .write (.markSubtreeEntriesNotSeenInScanDeleted syncRootId
                  relativePath jobId) commitAndReturn rollbackAndReturn
            else
              match last with
              | none => rollbackAndReturn
              | some last =>
                  subtreeRoundsProgram syncRootId relativePath jobId rounds
                    (some last)) items kMaxScanBatchSize none

/-- The statements of `scanPath`. -/
def scanPathProgram (cwd : FsPath) (rootId relativePath : String)
    (found : PathState) (newJobId : Nat) : DbProgram :=
  .query (fun db =>
    match SyncRepo.findSyncRootById db.roots rootId with
    | none => .done
    | some root =>
        if root.localPath.isEmpty then .done
        else
          match pathBelowRoot cwd root.localPath relativePath with
          | none => .done
          | some rel =>
              match found with
              | .unreadable => .done
              | .missing =>
                  .write (.markPathDeleted rootId rel) .done .done
              | .regularFile probe =>
                  .begin
                    (handleFileEntryProgram rootId newJobId rel probe
                      commitAndReturn rollbackAndReturn) .done
              | .directory rounds =>
                  .begin
                    (.write (.upsertDirectoryEntry
                        { syncRootId := rootId
                          relativePath := rel
                          lastSeenScanId := newJobId })
                      (subtreeRoundsProgram rootId rel newJobId rounds none)
                      rollbackAndReturn) .done
              | .other => .done)

end RootScanner

/-- The statements of `claimNextQueuedByType`; the flag is `sqlite3_changes`
being one. -/
def QueueRepo.claimNextQueuedByTypeProgram (jobType : JobType)
    (changed : Bool) : DbProgram :=
  .begin
    (.query (fun db =>
      match db.queue.jobs.find? (fun j =>
        j.status == .queued && j.jobType == jobType) with
      | none => commitAndReturn
      | some job =>
          .write (.markRunning job.id)
            (if changed then commitAndReturn else rollbackAndReturn)
            rollbackAndReturn)) .done

/-- The calls that the threads make. -/
inductive DbCall where
  | scanRoot (rootId : String) (isDirectory : Bool)
      (activeScan : Option (List DirItem)) (listing : Option DirStream)
      (newJobId : Nat) (inserted : Bool)
  | scanPath (cwd : FsPath) (rootId relativePath : String) (found : PathState)
      (newJobId : Nat)
  | claimNextQueuedByType (jobType : JobType) (changed : Bool)
  | statement (w : TableWrite)

namespace DbCall

/-- The statements of a call. -/
def program : DbCall → DbProgram
  | .scanRoot rootId isDirectory activeScan listing newJobId inserted =>
      RootScanner.scanRootProgram rootId isDirectory activeScan listing
        newJobId inserted
  | .scanPath cwd rootId relativePath found newJobId =>
      RootScanner.scanPathProgram cwd rootId relativePath found newJobId
  | .claimNextQueuedByType jobType changed =>
      QueueRepo.claimNextQueuedByTypeProgram jobType changed
  | .statement w => .write w .done .done

end DbCall

/-! ## Transactions of the calls -/

@[simp] theorem disciplined_rollbackAndReturn (inside : Bool) :
    Program.Disciplined inside rollbackAndReturn ↔ inside = true := by
  simp [rollbackAndReturn]

@[simp] theorem disciplined_commitAndReturn (inside : Bool) :
    Program.Disciplined inside commitAndReturn ↔ inside = true := by
  simp [commitAndReturn]

namespace RootScanner

theorem disciplined_handleFileEntry {syncRootId : String} {jobId : Nat}
    {relativePath : String} {probe : FileProbe} {stored skipped : DbProgram}
    (hstored : stored.Disciplined true) (hskipped : skipped.Disciplined true) :
    (handleFileEntryProgram syncRootId jobId relativePath probe stored
      skipped).Disciplined true := by
  refine .query ?_
  intro db
  split
  next => simp [hstored]
  next => exact hskipped
  next => simp

/-- A batch stays in its transaction up to what follows it. -/
theorem disciplined_scanItems {syncRootId : String} {jobId : Nat}
    {next : List DirItem → Option String → DbProgram}
    (hnext : ∀ rest last, (next rest last).Disciplined true)
    (items : List DirItem) (budget : Nat) (last : Option String) :
    (scanItemsProgram syncRootId jobId next items budget last).Disciplined
      true := by
  induction items generalizing budget last with
  | nil => exact hnext [] last
  | cons item items ih =>
      cases budget with
      | zero => exact hnext (item :: items) last
      | succ budget =>
          rw [scanItemsProgram]
          split
          next => simp [ih]
          next => exact disciplined_handleFileEntry (ih _ _) (ih _ _)
          next => exact ih _ _

theorem disciplined_scanBatch (syncRootId : String) (job : ScanJob)
    (activeScan : Option (List DirItem)) (listing : Option DirStream) :
    (scanBatchProgram syncRootId job activeScan listing).Disciplined true := by
  unfold scanBatchProgram
  dsimp only
  split
  next => simp
  next =>
      refine disciplined_scanItems ?_ _ _ _
      intro rest last
      split
      next => simp
      next =>
          split
          next => simp
          next => simp

theorem disciplined_scanRoot (rootId : String) (isDirectory : Bool)
    (activeScan : Option (List DirItem)) (listing : Option DirStream)
    (newJobId : Nat) (inserted : Bool) :
    (scanRootProgram rootId isDirectory activeScan listing newJobId
      inserted).Disciplined false := by
  refine .query ?_
  intro db
  split
  next => simp
  next =>
      split
      next => simp
      next =>
          refine .query fun db => .begin ?_ .done
          split
          next => exact disciplined_scanBatch _ _ _ _
          next =>
              refine .write ?_ (by simp)
              split
              next => exact disciplined_scanBatch _ _ _ _
              next => simp

theorem disciplined_subtreeRounds (syncRootId relativePath : String)
    (jobId : Nat) (rounds : List (Option DirStream)) (cursor : Option String) :
    (subtreeRoundsProgram syncRootId relativePath jobId rounds
      cursor).Disciplined true := by
  induction rounds generalizing cursor with
  | nil => simp [subtreeRoundsProgram]
  | cons round rounds ih =>
      cases round with
      | none => simp [subtreeRoundsProgram]
      | some listing =>
          rw [subtreeRoundsProgram]
          split
          next => simp
          next =>
              refine disciplined_scanItems ?_ _ _ _
              intro rest last
              split
              next =>
                  split
                  next => simp
                  next => simp
              next =>
                  split
                  next => simp
                  next => exact ih _

theorem disciplined_scanPath (cwd : FsPath) (rootId relativePath : String)
    (found : PathState) (newJobId : Nat) :
    (scanPathProgram cwd rootId relativePath found newJobId).Disciplined
      false := by
  refine .query ?_
  intro db
  split
  next => simp
  next =>
      split
      next => simp
      next =>
          split
          next => simp
          next =>
              cases found with
              | unreadable => simp
              | missing => simp
              | regularFile probe =>
                  exact .begin
                    (disciplined_handleFileEntry (by simp) (by simp)) .done
              | directory rounds =>
                  exact .begin (.write (disciplined_subtreeRounds _ _ _ _ _)
                    (by simp)) .done
              | other => simp

end RootScanner

theorem QueueRepo.disciplined_claimNextQueuedByType (jobType : JobType)
    (changed : Bool) :
    (claimNextQueuedByTypeProgram jobType changed).Disciplined false := by
  refine .begin (.query ?_) .done
  intro db
  split
  next => simp
  next =>
      cases changed with
      | false => simp
      | true => simp

/-- Every call ends the transaction it began. -/
theorem DbCall.disciplined_program (call : DbCall) :
    call.program.Disciplined false := by
  cases call with
  | scanRoot => exact RootScanner.disciplined_scanRoot _ _ _ _ _ _
  | scanPath => exact RootScanner.disciplined_scanPath _ _ _ _ _
  | claimNextQueuedByType =>
      exact QueueRepo.disciplined_claimNextQueuedByType _ _
  | statement => exact .write .done .done

/-- The threads of the daemon process. -/
inductive DaemonThread where
  | daemon
  | ipc
  deriving DecidableEq, Repr

/-- The daemon's threads on its connection. -/
abbrev DaemonDb := Shared DaemonThread DaemonTables TableWrite

/-- The steps of the threads, with the calls that they make. -/
abbrev DbStep : DaemonDb → DaemonThread × ThreadStep → DaemonDb → Prop :=
  SharedStep (fun w db => some (TableWrite.apply db w))
    (fun p => ∃ call, p = DbCall.program call)

end ArkiveSync
