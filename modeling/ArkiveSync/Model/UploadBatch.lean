import ArkiveSync.Library.KeyedList
import ArkiveSync.Model.QueueService
import ArkiveSync.Model.UploadService

/-!
# Batches of uploads

`uploadFilesBatch` takes the items of a batch in several passes: an item whose
file has a session that fits is uploaded at once, the others are started in
pages, transferred in groups and completed in pages.  `runBatch` prepares the
items of its jobs, and puts the results of the batch together with its own.

An answer of the server is the JSON it sends, or the text of the exception.
Beside the answers it is given which uploads the server has completed.  The
resume tables are followed up to the transfers; what the transfers write there
is read by no later pass.

## Main results

* `uploadFilesBatch_passes`, `uploadFilesBatch_interrupted`: what a batch comes
  to when all its passes return, and when an exception leaves one of them.
* `sortItems_items`, `openSessions_contexts`: the passes keep to the items.
-/

namespace ArkiveSync

open Library

/-- The text of an exception, which is not empty. -/
abbrev What := { text : String // text ≠ "" }

/-! ## The requests of a batch and their answers -/

/-- `StartUploadRequest`. -/
structure StartUploadRequest where
  originalSize : Int
  fileChunkSize : Int
  totalChunks : Int
  uploadPartSize : Int
  uploadPartCount : Int
  encryptionVersion : Int
  folderId : Option String
  singlePart : Bool
  deriving DecidableEq, Repr

/-- `BatchStartUploadRequest`. -/
structure BatchStartUploadRequest where
  clientId : String
  request : StartUploadRequest
  deriving DecidableEq, Repr

/-- `BatchStartUploadResult`. -/
structure BatchStartUploadResult where
  clientId : String
  error : String
  validationErrors : List (String × String)
  upload : Option StartUploadResponse
  deriving DecidableEq, Repr

/-- `BatchCompleteUploadRequest`. -/
structure BatchCompleteUploadRequest where
  clientId : String
  uploadSessionId : String
  request : UploadCompleteRequest

/-- `BatchCompleteUploadResult`. -/
structure BatchCompleteUploadResult where
  clientId : String
  completed : Bool
  error : String
  deriving DecidableEq, Repr

namespace ArkiveApi

/-- `json.value(key, default)` for a signed number of 64 or 32 bits. -/
def valueSigned (bits : Nat) (json : Json) (key : String) (default : Int) :
    Option Int :=
  match json with
  | .object _ =>
      match json.field? key with
      | none => some default
      | some (.number n) => some (Int.bmod n (2 ^ bits))
      | some _ => none
  | _ => none

/-- `decodeStartUploadResponse`. -/
def decodeStartUploadResponse (json : Json) : Option StartUploadResponse := do
  let fileId ← json.valueString "fileId" ""
  let vaultId ← json.valueString "vaultId" ""
  let uploadSessionId ← json.valueString "uploadSessionId" ""
  let providerUploadId ← json.valueString "providerUploadId" ""
  let fileChunkSize ← valueSigned 64 json "fileChunkSize" 0
  let totalChunks ← valueSigned 32 json "totalChunks" 0
  let uploadPartSize ← valueSigned 64 json "uploadPartSize" 0
  let uploadPartCount ← valueSigned 32 json "uploadPartCount" 0
  let uploadUrl ← json.valueString "uploadUrl" ""
  return {
    fileId := fileId
    vaultId := vaultId
    uploadSessionId := uploadSessionId
    providerUploadId := providerUploadId
    fileChunkSize := fileChunkSize
    totalChunks := totalChunks
    uploadPartSize := uploadPartSize
    uploadPartCount := uploadPartCount
    uploadUrl := uploadUrl }

/-- `decodeValidationErrors`. -/
def decodeValidationErrors (json : Json) : List (String × String) :=
  match json with
  | .object fields =>
      fields.filterMap (fun field =>
        match field.2 with
        | .string text => some (field.1, text)
        | _ => none)
  | _ => []

/-- One item of the answer to `startUploadBatch`. -/
def decodeBatchStart (item : Json) : Option BatchStartUploadResult := do
  let clientId ← item.valueString "clientId" ""
  let error ← item.valueString "error" ""
  let validationErrors := decodeValidationErrors
    ((item.field? "validationErrors").getD (.object []))
  if error = "" ∧ validationErrors = [] ∧
      (item.field? "uploadSessionId").isSome then
    let upload ← decodeStartUploadResponse item
    return { clientId := clientId, error := error
             validationErrors := validationErrors, upload := some upload }
  else
    return { clientId := clientId, error := error
             validationErrors := validationErrors, upload := none }

/-- One item of the answer to `uploadCompleteBatch`. -/
def decodeBatchComplete (item : Json) : Option BatchCompleteUploadResult := do
  let clientId ← item.valueString "clientId" ""
  let completed ← item.valueBool "completed" false
  let error ← item.valueString "error" ""
  return { clientId := clientId, completed := completed, error := error }

/-- The exception of the JSON library for a field of another type. -/
def jsonTypeError : What := ⟨"[json.exception.type_error]", by decide⟩

/-- The items under `uploads`; without such an array there are none. -/
def decodeUploads {α : Type} (decode : Json → Option α) (response : Json) :
    Except What (List α) :=
  match response.field? "uploads" with
  | some (.array items) =>
      match items.mapM decode with
      | none => .error jsonTypeError
      | some results => .ok results
  | _ => .ok []

/-- `startUpload`, behind the request. -/
def startUpload (response : Json) : Except UploadError StartUploadResponse :=
  match decodeStartUploadResponse response with
  | none => .error (.runtime jsonTypeError.1)
  | some started => .ok started

/-- `startUploadBatch`, behind the request. -/
def startUploadBatch : Json → Except What (List BatchStartUploadResult) :=
  decodeUploads decodeBatchStart

/-- `uploadCompleteBatch`, behind the request. -/
def uploadCompleteBatch : Json → Except What (List BatchCompleteUploadResult) :=
  decodeUploads decodeBatchComplete

end ArkiveApi

/-- `ArkiveUploadPolicy::resolveFileConcurrency`. -/
def resolveFileConcurrency (fileSize : Nat) : Nat :=
  if fileSize ≤ 4 * 1048576 then 32
  else if fileSize ≤ 64 * 1048576 then 8
  else if fileSize ≤ 512 * 1048576 then 4
  else 2

/-! ## `uploadFilesBatch` -/

/-- `UploadFileResponse`. -/
structure UploadFileResponse where
  fileId : String
  vaultId : String
  uploadSessionId : String
  providerUploadId : String
  deriving DecidableEq, Repr

/-- `UploadBatchItem`. -/
structure UploadBatchItem where
  id : String
  path : FsPath
  entry : Entry

/-- `UploadBatchResult`. -/
structure UploadBatchResult where
  id : String
  response : Option UploadFileResponse
  error : String
  deriving DecidableEq, Repr

/-- A call of `uploadFile` for an item with a session that fits: its answer,
the resume tables behind it, and whether the server has completed the upload. -/
structure SingleUpload where
  answer : Except What UploadFileResponse
  repo : UploadResumeRepo
  completed : Bool

/-- `Context`, as it is made up. -/
structure UploadContext where
  item : UploadBatchItem
  localPath : String
  originalSize : Nat
  plan : UploadPlan
  localMtime : Option Int
  partConcurrency : Nat

/-- What a batch finds around it.  The path of the process and the files are
those of the runner; `fileKey` is the sealed key of a started upload, and
`transfer` all of `uploadParts` and `prepareCompletion`. -/
structure BatchEnv where
  cwd : FsPath
  disk : Disk
  uploadLimits : Except What Int
  uploadFile : UploadBatchItem → UploadResumeRepo → SingleUpload
  postStart : List BatchStartUploadRequest → Except What Json
  fileKey : StartUploadResponse → Except What Bytes
  transfer : UploadContext → StartUploadResponse →
    Except What UploadCompleteRequest
  postComplete : List BatchCompleteUploadRequest → Except What Json
  completes : BatchCompleteUploadRequest → Bool

/-- What the first pass makes of an item. -/
inductive Sorted where
  | invalid (error : What)
  | resumed (upload : SingleUpload)
  | fresh (context : UploadContext)

/-- A fresh item behind the start of its upload: the upload, or the error that
is reported for it. -/
structure StartedUpload where
  context : UploadContext
  started : Except String StartUploadResponse

/-- `Prepared`: a transferred upload. -/
structure PreparedUpload where
  context : UploadContext
  started : StartUploadResponse
  completion : Except What UploadCompleteRequest

/-- The results, or the exception, and the ids of the items whose uploads the
server has completed in the call. -/
structure BatchOutcome where
  returned : Except What (List UploadBatchResult)
  completed : List String

namespace UploadService

variable (env : BatchEnv)

/-- `currentMtimeString`. -/
def currentMtime (path : FsPath) : Option Int :=
  (env.disk.file? (env.cwd.append path).loc).map (fun file =>
    toMtimeMs file.mtime)

/-- The first pass over one item. -/
def sortItem (serverCap : Int) (item : UploadBatchItem)
    (repo : UploadResumeRepo) : Sorted × UploadResumeRepo :=
  let invalid : Sorted × UploadResumeRepo :=
    (.invalid ⟨"batch upload requires a regular file with a valid size",
      by decide⟩, repo)
  if item.entry.isDirectory then invalid
  else
    match item.entry.size with
    | none => invalid
    | some size =>
        if size < 0 then invalid
        else
          match normalizeFsPath env.cwd item.path.genericString with
          | none => (.invalid ⟨"Path cannot be empty", by decide⟩, repo)
          | some localPath =>
              let originalSize := toUInt64 size
              let plan := UploadPlanner.createPlan originalSize
              let localMtime := currentMtime env item.path
              let context : UploadContext :=
                { item := item
                  localPath := localPath
                  originalSize := originalSize
                  plan := plan
                  localMtime := localMtime
                  partConcurrency :=
                    resolvePartConcurrency plan.uploadPartCount serverCap }
              match repo.getSessionByLocalPath localPath with
              | none => (.fresh context, repo)
              | some resume =>
                  if sessionMatchesEntry resume item.entry localPath
                      originalSize localMtime plan then
                    let upload := env.uploadFile item repo
                    (.resumed upload, upload.repo)
                  else
                    (.fresh context, repo.deleteSessionByLocalPath localPath)

/-- The first pass. -/
def sortItems (serverCap : Int) :
    List UploadBatchItem → UploadResumeRepo →
      List (UploadBatchItem × Sorted) × UploadResumeRepo
  | [], repo => ([], repo)
  | item :: items, repo =>
      let (sorted, repo') := sortItem env serverCap item repo
      let (rest, repo'') := sortItems serverCap items repo'
      ((item, sorted) :: rest, repo'')

/-- The result of an item behind the first pass. -/
def firstResult (x : UploadBatchItem × Sorted) : UploadBatchResult :=
  match x.2 with
  | .invalid error => { id := x.1.id, response := none, error := error.1 }
  | .resumed upload =>
      match upload.answer with
      | .ok response => { id := x.1.id, response := some response, error := "" }
      | .error error => { id := x.1.id, response := none, error := error.1 }
  | .fresh _ => { id := x.1.id, response := none, error := "" }

/-- `fresh`. -/
def freshOf (sorted : List (UploadBatchItem × Sorted)) : List UploadContext :=
  sorted.filterMap (fun x =>
    match x.2 with
    | .fresh context => some context
    | _ => none)

/-- The items whose uploads were completed in the first pass. -/
def completedFirst (sorted : List (UploadBatchItem × Sorted)) : List String :=
  sorted.filterMap (fun x =>
    match x.2 with
    | .resumed upload => if upload.completed then some x.1.id else none
    | _ => none)

/-- Requests in pages, until one of them throws. -/
def postPages {ρ σ : Type} (post : List ρ → Except What (List σ)) :
    List (List ρ) → Except What (List σ)
  | [] => .ok []
  | page :: rest =>
      match post page with
      | .error error => .error error
      | .ok results =>
          match postPages post rest with
          | .error error => .error error
          | .ok more => .ok (results ++ more)

/-- What has been sent by then, with the page that threw. -/
def sentPages {ρ σ : Type} (post : List ρ → Except What (List σ)) :
    List (List ρ) → List ρ
  | [] => []
  | page :: rest =>
      match post page with
      | .error _ => page
      | .ok _ => page ++ sentPages post rest

/-- The start request of an item. -/
def startRequest (context : UploadContext) : BatchStartUploadRequest :=
  { clientId := context.item.id
    request :=
      { originalSize := toInt64 context.plan.originalSize
        fileChunkSize := toInt64 context.plan.fileChunkSize
        totalChunks := toInt context.plan.totalChunks
        uploadPartSize := toInt64 context.plan.uploadPartSize
        uploadPartCount := toInt context.plan.uploadPartCount
        encryptionVersion := 1
        folderId := context.item.entry.parentFolderId
        singlePart := context.plan.totalChunks = 1 } }

/-- `startedById`: the results of all pages, of which the first one for an id
counts. -/
def startAll (fresh : List UploadContext) :
    Except What (List BatchStartUploadResult) :=
  postPages (fun page => (env.postStart page).bind ArkiveApi.startUploadBatch)
    (pages 100 (fresh.map startRequest))

/-- What the answers say about the start of an item's upload. -/
def startOf (startedById : List BatchStartUploadResult)
    (context : UploadContext) : Except String StartUploadResponse :=
  match findKey BatchStartUploadResult.clientId context.item.id startedById with
  | none => .error "Batch start returned no result"
  | some started =>
      match started.upload with
      | some upload => .ok upload
      | none =>
          .error (if started.error = "" then "Batch start validation failed"
            else started.error)

/-- The keys and the rows of the sessions of the started uploads. -/
def openSessions (startedById : List BatchStartUploadResult) :
    List UploadContext → UploadResumeRepo → Except What (List StartedUpload)
  | [], _ => .ok []
  | context :: rest, repo =>
      match startOf startedById context with
      | .error error =>
          (openSessions startedById rest repo).map
            ({ context := context, started := .error error } :: ·)
      | .ok started =>
          match env.fileKey started with
          | .error error => .error error
          | .ok blob =>
              match repo.replaceSession (sessionRecord context.item.entry
                  context.localPath context.originalSize context.localMtime
                  started blob) with
              | (_, false) => .error ⟨"Step failed", by decide⟩
              | (repo', true) =>
                  (openSessions startedById rest repo').map
                    ({ context := context, started := .ok started } :: ·)

/-- The groups of equal concurrency, the highest first. -/
def inGroups (uploads : List StartedUpload) : List StartedUpload :=
  uploads.insertionSort (fun a b =>
    resolveFileConcurrency a.context.originalSize ≥
      resolveFileConcurrency b.context.originalSize)

/-- The transfer of an upload that has a session. -/
def prepare (upload : StartedUpload) : Option PreparedUpload :=
  match upload.started with
  | .error _ => none
  | .ok started =>
      if started.uploadSessionId = "" then none
      else
        some { context := upload.context
               started := started
               completion := env.transfer upload.context started }

/-- `prepared`. -/
def transferAll (uploads : List StartedUpload) : List PreparedUpload :=
  (inGroups uploads).filterMap (prepare env)

/-- The completion request of a transferred upload. -/
def completion? (upload : PreparedUpload) :
    Option BatchCompleteUploadRequest :=
  match upload.completion with
  | .error _ => none
  | .ok request =>
      some { clientId := upload.context.item.id
             uploadSessionId := upload.started.uploadSessionId
             request := request }

/-- The request for a page of completions. -/
def postCompletions (page : List BatchCompleteUploadRequest) :
    Except What (List BatchCompleteUploadResult) :=
  (env.postComplete page).bind ArkiveApi.uploadCompleteBatch

/-- The ids of the requests that the server has completed. -/
def completedBy (sent : List BatchCompleteUploadRequest) : List String :=
  (sent.filter env.completes).map BatchCompleteUploadRequest.clientId

/-- The errors of uploads that were not started. -/
def reportStarts (uploads : List StartedUpload)
    (results : List UploadBatchResult) : List UploadBatchResult :=
  uploads.foldl (fun results upload =>
    modifyFirst UploadBatchResult.id upload.context.item.id (fun result =>
      match upload.started with
      | .error error => { result with error := error }
      | .ok _ => result) results) results

/-- The errors of transfers. -/
def reportTransfers (prepared : List PreparedUpload)
    (results : List UploadBatchResult) : List UploadBatchResult :=
  prepared.foldl (fun results upload =>
    modifyFirst UploadBatchResult.id upload.context.item.id (fun result =>
      match upload.completion with
      | .error error => { result with error := error.1 }
      | .ok _ => result) results) results

/-- The result of an upload that was to be completed. -/
def completedResult (completedById : List BatchCompleteUploadResult)
    (upload : PreparedUpload) (result : UploadBatchResult) :
    UploadBatchResult :=
  match upload.completion with
  | .error _ => result
  | .ok _ =>
      match findKey BatchCompleteUploadResult.clientId upload.context.item.id
          completedById with
      | none => { result with error := "Batch complete returned no result" }
      | some completed =>
          if completed.completed then
            { result with
              response := some
                { fileId := upload.started.fileId
                  vaultId := upload.started.vaultId
                  uploadSessionId := upload.started.uploadSessionId
                  providerUploadId := upload.started.providerUploadId } }
          else { result with error := completed.error }

/-- The last pass. -/
def reportCompletions (completedById : List BatchCompleteUploadResult)
    (prepared : List PreparedUpload) (results : List UploadBatchResult) :
    List UploadBatchResult :=
  prepared.foldl (fun results upload =>
    modifyFirst UploadBatchResult.id upload.context.item.id
      (completedResult completedById upload) results) results

/-- `uploadFilesBatch`. -/
def uploadFilesBatch (items : List UploadBatchItem) (repo : UploadResumeRepo) :
    BatchOutcome :=
  match env.uploadLimits with
  | .error error => { returned := .error error, completed := [] }
  | .ok serverCap =>
      let (sorted, repo') := sortItems env serverCap items repo
      let results := sorted.map firstResult
      let fresh := freshOf sorted
      if fresh.isEmpty then
        { returned := .ok results, completed := completedFirst sorted }
      else
        match startAll env fresh with
        | .error error =>
            { returned := .error error, completed := completedFirst sorted }
        | .ok startedById =>
            match openSessions env startedById fresh repo' with
            | .error error =>
                { returned := .error error, completed := completedFirst sorted }
            | .ok uploads =>
                let prepared := transferAll env uploads
                let completions := pages 100 (prepared.filterMap completion?)
                let completed := completedFirst sorted ++
                  completedBy env (sentPages (postCompletions env) completions)
                match postPages (postCompletions env) completions with
                | .error error =>
                    { returned := .error error, completed := completed }
                | .ok completedById =>
                    { returned := .ok (reportCompletions completedById prepared
                        (reportTransfers prepared
                          (reportStarts uploads results)))
                      completed := completed }

/-! ## The passes -/

/-- All passes return, with these values. -/
structure Passes (items : List UploadBatchItem) (repo : UploadResumeRepo)
    (serverCap : Int) (startedById : List BatchStartUploadResult)
    (uploads : List StartedUpload)
    (completedById : List BatchCompleteUploadResult) : Prop where
  limits : env.uploadLimits = .ok serverCap
  starts : startAll env (freshOf (sortItems env serverCap items repo).1) =
    .ok startedById
  sessions : openSessions env startedById
    (freshOf (sortItems env serverCap items repo).1)
    (sortItems env serverCap items repo).2 = .ok uploads
  completions : postPages (postCompletions env)
    (pages 100 ((transferAll env uploads).filterMap completion?)) =
    .ok completedById

variable {env}

/-- A batch all of whose passes return. -/
theorem uploadFilesBatch_passes {items : List UploadBatchItem}
    {repo : UploadResumeRepo} {serverCap : Int}
    {startedById : List BatchStartUploadResult} {uploads : List StartedUpload}
    {completedById : List BatchCompleteUploadResult}
    (h : Passes env items repo serverCap startedById uploads completedById) :
    uploadFilesBatch env items repo =
      { returned := .ok (reportCompletions completedById
          (transferAll env uploads) (reportTransfers (transferAll env uploads)
            (reportStarts uploads
              ((sortItems env serverCap items repo).1.map firstResult))))
        completed := completedFirst (sortItems env serverCap items repo).1 ++
          completedBy env (sentPages (postCompletions env)
            (pages 100
              ((transferAll env uploads).filterMap completion?))) } := by
  unfold uploadFilesBatch
  rw [h.limits]
  dsimp only
  split
  next hempty =>
      -- Without fresh items the other passes have nothing to do.
      have hfresh := List.isEmpty_iff.mp hempty
      have hsessions := h.sessions
      rw [hfresh] at hsessions
      cases hsessions
      simp [transferAll, inGroups, reportCompletions, reportTransfers,
        reportStarts, pages, pagesUpTo, sentPages, completedBy]
  next hfresh =>
      rw [h.starts]
      dsimp only
      rw [h.sessions]
      dsimp only
      rw [h.completions]

/-- A batch that an exception leaves. -/
theorem uploadFilesBatch_interrupted {items : List UploadBatchItem}
    {repo : UploadResumeRepo}
    (h : ¬ ∃ serverCap startedById uploads completedById,
      Passes env items repo serverCap startedById uploads completedById) :
    ∃ error, (uploadFilesBatch env items repo).returned = .error error := by
  unfold uploadFilesBatch
  split
  next error hlimits => exact ⟨error, rfl⟩
  next serverCap hlimits =>
      dsimp only
      split
      next hempty =>
          have hfresh := List.isEmpty_iff.mp hempty
          refine absurd ⟨serverCap, [], [], [], hlimits, ?_, ?_, rfl⟩ h
          · rw [hfresh]
            rfl
          · rw [hfresh]
            rfl
      next hfresh =>
          split
          next error hstarts => exact ⟨error, rfl⟩
          next startedById hstarts =>
              split
              next error hsessions => exact ⟨error, rfl⟩
              next uploads hsessions =>
                  split
                  next error hcompletions => exact ⟨error, rfl⟩
                  next completedById hcompletions =>
                      exact absurd ⟨serverCap, startedById, uploads,
                        completedById, hlimits, hstarts, hsessions,
                        hcompletions⟩ h

/-- The first pass goes through the items in their order. -/
theorem sortItems_items (serverCap : Int) (items : List UploadBatchItem)
    (repo : UploadResumeRepo) :
    (sortItems env serverCap items repo).1.map Prod.fst = items := by
  induction items generalizing repo with
  | nil => rfl
  | cons item items ih =>
      show item :: (sortItems env serverCap items _).1.map Prod.fst = _
      rw [ih]

/-- What the first pass makes of an item: an error, the item as a fresh one,
or a call of `uploadFile`. -/
theorem sortItem_cases (serverCap : Int) (item : UploadBatchItem)
    (repo : UploadResumeRepo) :
    (∃ error, (sortItem env serverCap item repo).1 = .invalid error) ∨
      (∃ context, context.item = item ∧
        (sortItem env serverCap item repo).1 = .fresh context) ∨
      (sortItem env serverCap item repo).1 =
        .resumed (env.uploadFile item repo) := by
  unfold sortItem
  dsimp only
  split
  · exact Or.inl ⟨_, rfl⟩
  split
  · exact Or.inl ⟨_, rfl⟩
  split
  · exact Or.inl ⟨_, rfl⟩
  split
  · exact Or.inl ⟨_, rfl⟩
  split
  · exact Or.inr (Or.inl ⟨_, rfl, rfl⟩)
  · split
    · exact Or.inr (Or.inr rfl)
    · exact Or.inr (Or.inl ⟨_, rfl, rfl⟩)

/-- A fresh item keeps its item. -/
theorem sortItem_fresh {serverCap : Int} {item : UploadBatchItem}
    {repo : UploadResumeRepo} {context : UploadContext}
    (h : (sortItem env serverCap item repo).1 = .fresh context) :
    context.item = item := by
  rcases sortItem_cases serverCap item repo with
    ⟨error, herror⟩ | ⟨context', hitem, hfresh⟩ | hresumed
  · rw [herror] at h
    cases h
  · rw [hfresh] at h
    cases h
    exact hitem
  · rw [hresumed] at h
    cases h

theorem sortItems_fresh {serverCap : Int} {items : List UploadBatchItem}
    {repo : UploadResumeRepo} {item : UploadBatchItem} {context : UploadContext}
    (h : (item, .fresh context) ∈ (sortItems env serverCap items repo).1) :
    context.item = item := by
  induction items generalizing repo with
  | nil => cases h
  | cons other items ih =>
      rcases List.mem_cons.mp h with hsame | hin
      · have hitem : item = other := congrArg Prod.fst hsame
        have hsorted : Sorted.fresh context =
            (sortItem env serverCap other repo).1 := congrArg Prod.snd hsame
        rw [hitem]
        exact sortItem_fresh hsorted.symm
      · exact ih hin

/-- A resumed upload is a call of `uploadFile`. -/
theorem sortItem_resumed {serverCap : Int} {item : UploadBatchItem}
    {repo : UploadResumeRepo} {upload : SingleUpload}
    (h : (sortItem env serverCap item repo).1 = .resumed upload) :
    upload = env.uploadFile item repo := by
  rcases sortItem_cases serverCap item repo with
    ⟨error, herror⟩ | ⟨context, -, hfresh⟩ | hresumed
  · rw [herror] at h
    cases h
  · rw [hfresh] at h
    cases h
  · rw [hresumed] at h
    cases h
    rfl

theorem sortItems_resumed {serverCap : Int} {items : List UploadBatchItem}
    {repo : UploadResumeRepo} {item : UploadBatchItem} {upload : SingleUpload}
    (h : (item, .resumed upload) ∈ (sortItems env serverCap items repo).1) :
    ∃ repo', upload = env.uploadFile item repo' := by
  induction items generalizing repo with
  | nil => cases h
  | cons other items ih =>
      rcases List.mem_cons.mp h with hsame | hin
      · have hitem : item = other := congrArg Prod.fst hsame
        have hsorted : Sorted.resumed upload =
            (sortItem env serverCap other repo).1 := congrArg Prod.snd hsame
        rw [hitem]
        exact ⟨repo, sortItem_resumed hsorted.symm⟩
      · exact ih hin

/-- The sessions are opened for the fresh items in their order. -/
theorem openSessions_contexts {startedById : List BatchStartUploadResult}
    {fresh : List UploadContext} {repo : UploadResumeRepo}
    {uploads : List StartedUpload}
    (h : openSessions env startedById fresh repo = .ok uploads) :
    uploads.map StartedUpload.context = fresh := by
  induction fresh generalizing repo uploads with
  | nil =>
      cases h
      rfl
  | cons context fresh ih =>
      have hrest : ∀ {repo' : UploadResumeRepo} {started},
          (openSessions env startedById fresh repo').map
            ({ context := context, started := started } :: ·) = .ok uploads →
          uploads.map StartedUpload.context = context :: fresh := by
        intro repo' started hmap
        cases hopen : openSessions env startedById fresh repo' with
        | error error =>
            rw [hopen] at hmap
            cases hmap
        | ok rest =>
            rw [hopen] at hmap
            cases hmap
            rw [List.map_cons, ih hopen]
      unfold openSessions at h
      split at h
      · exact hrest h
      split at h
      · cases h
      split at h
      · cases h
      · exact hrest h

/-- When no page throws, all of them are sent. -/
theorem sentPages_ok {ρ σ : Type} {post : List ρ → Except What (List σ)}
    {pages : List (List ρ)} {results : List σ}
    (h : postPages post pages = .ok results) :
    sentPages post pages = pages.flatten := by
  induction pages generalizing results with
  | nil => rfl
  | cons page rest ih =>
      unfold postPages at h
      unfold sentPages
      split at h
      · cases h
      split at h
      · cases h
      rename_i hrest
      rw [ih hrest, List.flatten_cons]

theorem mem_sentPages {ρ σ : Type} {post : List ρ → Except What (List σ)}
    {pages : List (List ρ)} {x : ρ} (h : x ∈ sentPages post pages) :
    x ∈ pages.flatten := by
  induction pages with
  | nil => cases h
  | cons page rest ih =>
      rw [List.flatten_cons, List.mem_append]
      unfold sentPages at h
      split at h
      · exact Or.inl h
      · rcases List.mem_append.mp h with hpage | hrest
        · exact Or.inl hpage
        · exact Or.inr (ih hrest)

end UploadService

/-! ## `runBatch` -/

/-- `UploadJobBatchResult`. -/
structure UploadJobBatchResult where
  job : TransferJob
  error : String
  deriving DecidableEq

/-- A call of `markEntryUploaded`. -/
structure UploadMark where
  entryId : Nat
  fileId : String
  parentFolderId : Option String
  deriving DecidableEq, Repr

/-- The results of a batch of jobs, and the rows it has marked. -/
structure JobBatch where
  results : List UploadJobBatchResult
  marks : List UploadMark

namespace UploadJobRunner

/-- The text of the check that fails in `prepareUploadItem`. -/
def prepareMessage (cwd : FsPath) (disk : Disk) (s : SyncStore)
    (job : TransferJob) : What :=
  match EntryRepo.getEntryById s.entries job.entryId with
  | none => ⟨"Queued upload entry is missing", by decide⟩
  | some e =>
      match SyncRepo.findSyncRootById s.roots e.syncRootId with
      | none => ⟨"Queued upload sync root is missing", by decide⟩
      | some root =>
          let absolutePath := (cwd.append (FsPath.parse root.localPath)).append
            (FsPath.parse e.relativePath)
          match disk.file? absolutePath.loc with
          | none =>
              if disk.exists? absolutePath.loc then
                ⟨"Queued upload path is not a regular file", by decide⟩
              else ⟨"Queued upload file is missing", by decide⟩
          | some file =>
              if !isCurrent { e with mtime := none } file then
                ⟨"Queued upload file size changed since the last sync scan",
                  by decide⟩
              else if !isCurrent e file then
                ⟨"Queued upload file mtime changed since the last sync scan",
                  by decide⟩
              else
                ⟨"Queued upload parent folder has no remote_id", by decide⟩

/-- The file of a row. -/
def absolutePath (s : SyncStore) (e : Entry) : FsPath :=
  match SyncRepo.findSyncRootById s.roots e.syncRootId with
  | none => FsPath.parse e.relativePath
  | some root =>
      (FsPath.parse root.localPath).append (FsPath.parse e.relativePath)

/-- `prepareUploadItem`, with its texts, for jobs of given ids. -/
def prepareItem (jobId : TransferJob → String) (cwd : FsPath) (disk : Disk)
    (s : SyncStore) (job : TransferJob) :
    Except What (Option UploadBatchItem) :=
  match prepareUploadItem cwd disk s job with
  | .threw => .error (prepareMessage cwd disk s job)
  | .nothing => .ok none
  | .item e =>
      .ok (some { id := jobId job, path := absolutePath s e, entry := e })

/-- The result of a job before the batch is uploaded. -/
def preparedResult (job : TransferJob)
    (prepared : Except What (Option UploadBatchItem)) : UploadJobBatchResult :=
  match prepared with
  | .error error => { job := job, error := error.1 }
  | .ok _ => { job := job, error := "" }

/-- The items of the jobs that have one. -/
def batchItems (prepared : TransferJob → Except What (Option UploadBatchItem))
    (jobs : List TransferJob) : List UploadBatchItem :=
  jobs.filterMap (fun job =>
    match prepared job with
    | .ok (some item) => some item
    | _ => none)

/-- What one result of the batch makes of the result of its job. -/
def uploadedResult (upload : UploadBatchResult)
    (result : UploadJobBatchResult) : UploadJobBatchResult :=
  match upload.response with
  | some _ => result
  | none =>
      { result with
        error := if upload.error = "" then "Upload failed" else upload.error }

/-- The id of the job of a result. -/
def jobKey (jobId : TransferJob → String) (result : UploadJobBatchResult) :
    String :=
  jobId result.job

/-- The row that one result of the batch marks. -/
def markOf (jobId : TransferJob → String) (items : List UploadBatchItem)
    (results : List UploadJobBatchResult) (upload : UploadBatchResult) :
    Option UploadMark :=
  match upload.response,
      findKey (jobKey jobId) upload.id results,
      findKey UploadBatchItem.id upload.id items with
  | some response, some result, some item =>
      some { entryId := result.job.entryId
             fileId := response.fileId
             parentFolderId := item.entry.parentFolderId }
  | _, _, _ => none

/-- The loop over the results of the batch. -/
def takeResults (jobId : TransferJob → String) (items : List UploadBatchItem)
    (uploads : List UploadBatchResult) (results : List UploadJobBatchResult) :
    JobBatch :=
  { results := uploads.foldl (fun results upload =>
      modifyFirst (jobKey jobId) upload.id (uploadedResult upload) results)
      results
    marks := uploads.filterMap (markOf jobId items results) }

/-- `runBatch` over the prepared jobs. -/
def runPrepared (jobId : TransferJob → String)
    (prepared : TransferJob → Except What (Option UploadBatchItem))
    (batch : List UploadBatchItem → BatchOutcome) (jobs : List TransferJob) :
    JobBatch :=
  let results := jobs.map (fun job => preparedResult job (prepared job))
  let items := batchItems prepared jobs
  if items.isEmpty then { results := results, marks := [] }
  else
    match (batch items).returned with
    | .error error =>
        { results := results.map (fun result =>
            if result.error = "" then { result with error := error.1 }
            else result)
          marks := [] }
    | .ok uploads => takeResults jobId items uploads results

/-- `runBatch` over `uploadFilesBatch`. -/
def runUploadBatch (jobId : TransferJob → String) (env : BatchEnv)
    (jobs : List TransferJob) (s : SyncStore) (repo : UploadResumeRepo) :
    JobBatch :=
  runPrepared jobId (prepareItem jobId env.cwd env.disk s)
    (fun items => UploadService.uploadFilesBatch env items repo) jobs

/-- The rows behind a batch. -/
def markAll (marks : List UploadMark) (t : EntryTable) : EntryTable :=
  marks.foldl (fun t mark =>
    RemoteEntryRepo.markEntryUploaded t mark.entryId mark.fileId
      mark.parentFolderId) t

end UploadJobRunner

end ArkiveSync
