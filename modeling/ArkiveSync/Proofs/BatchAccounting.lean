import ArkiveSync.Model.UploadBatch

/-!
# What a batch reports

`runBatch` has one result for each of its jobs.  An exception that leaves
`uploadFilesBatch` becomes the error of every job that has none yet, also of
those that needed no upload and of those whose upload the server has completed
by then.

## Main results

* `items_agree_iff`: when the results with a response are those of the items
  that the server has completed.
* `batch_accounted_iff`: exactly when the results of the jobs are right.
* `not_batch_accounted`: an upload is resumed and completed, and the start of
  another one fails.
-/

namespace ArkiveSync.BatchAccounting

open Library UploadService UploadJobRunner

/-! ## The property -/

/-- The results of the jobs are right, given the uploads that the server has
completed in the call. -/
structure Accounted (jobId : TransferJob → String)
    (prepared : TransferJob → Except What (Option UploadBatchItem))
    (completed : List String) (jobs : List TransferJob) (batch : JobBatch) :
    Prop where
  each : batch.results.map UploadJobBatchResult.job = jobs
  uploaded : ∀ result ∈ batch.results, jobId result.job ∈ completed →
    result.error = "" ∧ ∃ mark ∈ batch.marks, mark.entryId = result.job.entryId
  unneeded : ∀ result ∈ batch.results, prepared result.job = .ok none →
    result.error = ""
  failed : ∀ result ∈ batch.results, jobId result.job ∉ completed →
    prepared result.job ≠ .ok none → result.error ≠ ""

/-! ## The condition -/

/-- The first answer for an id says that its upload is completed. -/
def SaysCompleted (completedById : List BatchCompleteUploadResult)
    (id : String) : Prop :=
  ∃ completed, findKey BatchCompleteUploadResult.clientId id completedById =
    some completed ∧ completed.completed = true

/-- The answers to the single uploads and to the completion requests say what
the server has completed. -/
structure Answered (env : BatchEnv) (sorted : List (UploadBatchItem × Sorted))
    (uploads : List StartedUpload)
    (completedById : List BatchCompleteUploadResult) : Prop where
  resumed : ∀ item upload, (item, Sorted.resumed upload) ∈ sorted →
    ((∃ response, upload.answer = .ok response) ↔ upload.completed = true)
  requested : ∀ request ∈ (transferAll env uploads).filterMap completion?,
    (SaysCompleted completedById request.clientId ↔
      env.completes request = true)

/-- If an exception leaves the batch, then none of the jobs needed no upload and
nothing was completed by then; otherwise the answers say what the server has
completed. -/
structure Reported (env : BatchEnv) (repo : UploadResumeRepo)
    (prepared : TransferJob → Except What (Option UploadBatchItem))
    (jobs : List TransferJob) : Prop where
  interrupted : batchItems prepared jobs ≠ [] →
    (¬ ∃ serverCap startedById uploads completedById,
      Passes env (batchItems prepared jobs) repo serverCap startedById uploads
        completedById) →
    (∀ job ∈ jobs, prepared job ≠ .ok none) ∧
      (uploadFilesBatch env (batchItems prepared jobs) repo).completed = []
  answered : ∀ serverCap startedById uploads completedById,
    Passes env (batchItems prepared jobs) repo serverCap startedById uploads
      completedById →
    Answered env (sortItems env serverCap (batchItems prepared jobs) repo).1
      uploads completedById

/-! ## The results of the passes -/

/-- The response in the result of an item. -/
def responseOf (results : List UploadBatchResult) (id : String) :
    Option UploadFileResponse :=
  (findKey UploadBatchResult.id id results).bind UploadBatchResult.response

theorem responseOf_found {results : List UploadBatchResult} {id : String}
    {response : Option UploadFileResponse}
    (h : (findKey UploadBatchResult.id id results).map
      UploadBatchResult.response = some response) :
    responseOf results id = response := by
  obtain ⟨result, hfound, hresponse⟩ := Option.map_eq_some_iff.mp h
  unfold responseOf
  rw [hfound]
  exact hresponse

theorem responseOf_of_mem {results : List UploadBatchResult}
    (hnodup : (results.map UploadBatchResult.id).Nodup)
    {result : UploadBatchResult} (hresult : result ∈ results) :
    responseOf results result.id = result.response := by
  unfold responseOf
  rw [findKey_of_mem hnodup hresult]
  rfl

theorem firstResult_id (x : UploadBatchItem × Sorted) :
    (firstResult x).id = x.1.id := by
  unfold firstResult
  split
  · rfl
  · split
    · rfl
    · rfl
  · rfl

theorem firstResult_resumed (item : UploadBatchItem) (upload : SingleUpload) :
    (firstResult (item, .resumed upload)).response.isSome = true ↔
      ∃ response, upload.answer = .ok response := by
  cases hanswer : upload.answer with
  | error error => simp [firstResult, hanswer]
  | ok response => simp [firstResult, hanswer]

theorem completedResult_id (completedById : List BatchCompleteUploadResult)
    (upload : PreparedUpload) (result : UploadBatchResult) :
    (completedResult completedById upload result).id = result.id := by
  unfold completedResult
  split
  · rfl
  · split
    · rfl
    · split
      · rfl
      · rfl

/-- The passes in between write errors only. -/
theorem found_reports (uploads : List StartedUpload)
    (prepared : List PreparedUpload) (results : List UploadBatchResult)
    (id : String) :
    (findKey UploadBatchResult.id id
      (reportTransfers prepared (reportStarts uploads results))).map
        UploadBatchResult.response =
      (findKey UploadBatchResult.id id results).map
        UploadBatchResult.response := by
  refine (find_foldl_modify_map ?_ ?_ id prepared _).trans
    (find_foldl_modify_map ?_ ?_ id uploads results)
  all_goals
    intro upload result
    split
    · rfl
    · rfl

section Items

variable {env : BatchEnv} {items : List UploadBatchItem}
  {repo : UploadResumeRepo} {serverCap : Int}
  {startedById : List BatchStartUploadResult} {uploads : List StartedUpload}
  {completedById : List BatchCompleteUploadResult}

variable (env items repo serverCap) in
theorem ids_sorted :
    (sortItems env serverCap items repo).1.map (fun x => x.1.id) =
      items.map UploadBatchItem.id := by
  have hitems : (sortItems env serverCap items repo).1.map Prod.fst = items :=
    sortItems_items serverCap items repo
  have hids := congrArg (List.map UploadBatchItem.id) hitems
  rw [List.map_map] at hids
  exact hids

theorem nodup_sorted (hnodup : (items.map UploadBatchItem.id).Nodup) :
    ((sortItems env serverCap items repo).1.map (fun x => x.1.id)).Nodup := by
  rw [ids_sorted]
  exact hnodup

/-- Two items of the batch with one id are the same. -/
theorem same_sorted (hnodup : (items.map UploadBatchItem.id).Nodup)
    {x y : UploadBatchItem × Sorted}
    (hx : x ∈ (sortItems env serverCap items repo).1)
    (hy : y ∈ (sortItems env serverCap items repo).1)
    (hid : x.1.id = y.1.id) : x = y :=
  List.inj_on_of_nodup_map (nodup_sorted hnodup) hx hy hid

/-- A prepared upload is about the item that it was prepared for. -/
theorem context_of_prepare {upload : StartedUpload} {p : PreparedUpload}
    (h : prepare env upload = some p) : p.context = upload.context := by
  unfold prepare at h
  split at h
  · cases h
  · split at h
    · cases h
    · cases h
      rfl

/-- A transferred upload is one of the fresh items. -/
theorem prepared_of_sessions
    (hsessions : openSessions env startedById
      (freshOf (sortItems env serverCap items repo).1)
      (sortItems env serverCap items repo).2 = .ok uploads)
    {p : PreparedUpload} (hp : p ∈ transferAll env uploads) :
    (p.context.item, .fresh p.context) ∈
      (sortItems env serverCap items repo).1 := by
  obtain ⟨upload, hupload, hprepare⟩ := List.mem_filterMap.mp hp
  have hcontext := context_of_prepare hprepare
  have hin : upload ∈ uploads := (List.mem_insertionSort _).mp hupload
  have hfresh : p.context ∈ freshOf (sortItems env serverCap items repo).1 := by
    rw [hcontext, ← openSessions_contexts hsessions]
    exact List.mem_map_of_mem hin
  obtain ⟨x, hx, hsorted⟩ := List.mem_filterMap.mp hfresh
  obtain ⟨item, sorted⟩ := x
  cases sorted with
  | invalid error => cases hsorted
  | resumed upload => cases hsorted
  | fresh context =>
      cases hsorted
      rw [sortItems_fresh hx]
      exact hx

theorem prepared_fresh
    (h : Passes env items repo serverCap startedById uploads completedById)
    {p : PreparedUpload} (hp : p ∈ transferAll env uploads) :
    (p.context.item, .fresh p.context) ∈
      (sortItems env serverCap items repo).1 :=
  prepared_of_sessions h.sessions hp

/-- The transferred uploads have different ids. -/
theorem nodup_prepared (hnodup : (items.map UploadBatchItem.id).Nodup)
    (h : Passes env items repo serverCap startedById uploads completedById) :
    ((transferAll env uploads).map (fun p => p.context.item.id)).Nodup := by
  have hprepared : List.Sublist
      ((transferAll env uploads).map (fun p => p.context.item.id))
      ((inGroups uploads).map (fun u => u.context.item.id)) := by
    refine map_filterMap_sublist _ ?_
    intro upload _ p hprepare
    exact congrArg (fun context => context.item.id)
      (context_of_prepare hprepare)
  have hperm : ((inGroups uploads).map (fun u => u.context.item.id)).Perm
      (uploads.map (fun u => u.context.item.id)) :=
    (List.perm_insertionSort _ _).map _
  have hcontexts : uploads.map (fun u => u.context.item.id) =
      (freshOf (sortItems env serverCap items repo).1).map
        (fun context => context.item.id) := by
    rw [← openSessions_contexts h.sessions, List.map_map]
    rfl
  have hfresh : List.Sublist
      ((freshOf (sortItems env serverCap items repo).1).map
        (fun context => context.item.id))
      ((sortItems env serverCap items repo).1.map (fun x => x.1.id)) := by
    refine map_filterMap_sublist _ ?_
    intro x hx context hsorted
    obtain ⟨item, sorted⟩ := x
    cases sorted with
    | invalid error => cases hsorted
    | resumed upload => cases hsorted
    | fresh other =>
        cases hsorted
        rw [sortItems_fresh hx]
  refine hprepared.nodup (hperm.nodup_iff.mpr ?_)
  rw [hcontexts]
  exact hfresh.nodup (nodup_sorted hnodup)

/-! ## Responses -/

variable (env items repo serverCap uploads completedById) in
/-- The results of a batch that returns. -/
def finalResults : List UploadBatchResult :=
  reportCompletions completedById (transferAll env uploads)
    (reportTransfers (transferAll env uploads) (reportStarts uploads
      ((sortItems env serverCap items repo).1.map firstResult)))

variable (uploads) in
/-- What is found for an item behind the passes that write errors. -/
theorem found_sorted (hnodup : (items.map UploadBatchItem.id).Nodup)
    {x : UploadBatchItem × Sorted}
    (hx : x ∈ (sortItems env serverCap items repo).1) :
    (findKey UploadBatchResult.id x.1.id
      (reportTransfers (transferAll env uploads) (reportStarts uploads
        ((sortItems env serverCap items repo).1.map firstResult)))).map
          UploadBatchResult.response = some (firstResult x).response := by
  have hids : ((sortItems env serverCap items repo).1.map firstResult).map
      UploadBatchResult.id =
      (sortItems env serverCap items repo).1.map (fun x => x.1.id) := by
    rw [List.map_map]
    exact List.map_congr_left (fun y _ => firstResult_id y)
  have hfind : findKey UploadBatchResult.id (firstResult x).id
      ((sortItems env serverCap items repo).1.map firstResult) =
        some (firstResult x) :=
    findKey_of_mem (hids ▸ nodup_sorted hnodup) (List.mem_map_of_mem hx)
  rw [firstResult_id] at hfind
  rw [found_reports, hfind]
  rfl

/-- An item that is not transferred keeps the response of the first pass. -/
theorem responseOf_apart (hnodup : (items.map UploadBatchItem.id).Nodup)
    {x : UploadBatchItem × Sorted}
    (hx : x ∈ (sortItems env serverCap items repo).1)
    (hapart : ∀ p ∈ transferAll env uploads, p.context.item.id ≠ x.1.id) :
    responseOf (finalResults env items repo serverCap uploads completedById)
      x.1.id = (firstResult x).response := by
  refine responseOf_found ?_
  unfold finalResults reportCompletions
  rw [find_foldl_modify_of_not_mem (completedResult_id completedById)]
  · exact found_sorted uploads hnodup hx
  · intro hmem
    obtain ⟨p, hp, hid⟩ := List.mem_map.mp hmem
    exact hapart p hp hid

/-- What the last pass makes of the result of a transferred upload. -/
theorem completedResult_response {p : PreparedUpload}
    {result : UploadBatchResult} (hresult : result.response = none) :
    (completedResult completedById p result).response.isSome = true ↔
      (∃ request, completion? p = some request) ∧
        SaysCompleted completedById p.context.item.id := by
  unfold completedResult completion? SaysCompleted
  cases p.completion with
  | error error => simp [hresult]
  | ok request =>
      dsimp only
      cases findKey BatchCompleteUploadResult.clientId p.context.item.id
          completedById with
      | none => simp [hresult]
      | some completed =>
          cases hcompleted : completed.completed with
          | false => simp [hresult, hcompleted]
          | true => simp [hcompleted]

/-- A transferred upload has a response when the answers say that it is
completed. -/
theorem responseOf_prepared (hnodup : (items.map UploadBatchItem.id).Nodup)
    (h : Passes env items repo serverCap startedById uploads completedById)
    {p : PreparedUpload} (hp : p ∈ transferAll env uploads) :
    (responseOf (finalResults env items repo serverCap uploads completedById)
      p.context.item.id).isSome = true ↔
      (∃ request, completion? p = some request) ∧
        SaysCompleted completedById p.context.item.id := by
  obtain ⟨result, hfound, hresponse⟩ := Option.map_eq_some_iff.mp
    (found_sorted uploads hnodup (prepared_fresh h hp))
  have hfinal : responseOf
      (finalResults env items repo serverCap uploads completedById)
      p.context.item.id =
        (completedResult completedById p result).response := by
    unfold responseOf finalResults reportCompletions
    rw [find_foldl_modify_of_mem (completedResult_id completedById)
      (nodup_prepared hnodup h) hp]
    rw [hfound]
    rfl
  rw [hfinal]
  exact completedResult_response hresponse

/-! ## What the server has completed -/

theorem mem_completedFirst {sorted : List (UploadBatchItem × Sorted)}
    {id : String} :
    id ∈ completedFirst sorted ↔ ∃ item upload,
      (item, Sorted.resumed upload) ∈ sorted ∧ upload.completed = true ∧
        item.id = id := by
  unfold completedFirst
  rw [List.mem_filterMap]
  constructor
  · intro h
    obtain ⟨⟨item, sorted⟩, hx, hid⟩ := h
    cases sorted with
    | invalid error => cases hid
    | fresh context => cases hid
    | resumed upload =>
        change (if upload.completed then some item.id else none) = _ at hid
        split at hid
        · rename_i hcompleted
          exact ⟨item, upload, hx, hcompleted, Option.some.inj hid⟩
        · cases hid
  · intro h
    obtain ⟨item, upload, hx, hcompleted, hid⟩ := h
    refine ⟨_, hx, ?_⟩
    show (if upload.completed then some item.id else none) = _
    rw [if_pos hcompleted, hid]

theorem completion?_clientId {p : PreparedUpload}
    {request : BatchCompleteUploadRequest} (h : completion? p = some request) :
    request.clientId = p.context.item.id := by
  unfold completion? at h
  split at h
  · cases h
  · cases h
    rfl

theorem mem_completedBy {prepared : List PreparedUpload} {id : String} :
    id ∈ completedBy env (prepared.filterMap completion?) ↔
      ∃ p ∈ prepared, ∃ request, completion? p = some request ∧
        env.completes request = true ∧ p.context.item.id = id := by
  unfold completedBy
  rw [List.mem_map]
  constructor
  · intro h
    obtain ⟨request, hrequest, hid⟩ := h
    obtain ⟨hin, hcompletes⟩ := List.mem_filter.mp hrequest
    obtain ⟨p, hp, hcompletion⟩ := List.mem_filterMap.mp hin
    exact ⟨p, hp, request, hcompletion, hcompletes,
      (completion?_clientId hcompletion).symm.trans hid⟩
  · intro h
    obtain ⟨p, hp, request, hcompletion, hcompletes, hid⟩ := h
    exact ⟨request, List.mem_filter.mpr
      ⟨List.mem_filterMap.mpr ⟨p, hp, hcompletion⟩, hcompletes⟩,
      (completion?_clientId hcompletion).trans hid⟩

variable (env items repo serverCap uploads) in
/-- What the server has completed in a batch that returns. -/
def completedIds : List String :=
  completedFirst (sortItems env serverCap items repo).1 ++
    completedBy env ((transferAll env uploads).filterMap completion?)

theorem returned_passes
    (h : Passes env items repo serverCap startedById uploads completedById) :
    uploadFilesBatch env items repo =
      { returned := .ok
          (finalResults env items repo serverCap uploads completedById)
        completed := completedIds env items repo serverCap uploads } := by
  rw [uploadFilesBatch_passes h, sentPages_ok h.completions,
    flatten_pages (by decide)]
  rfl

/-- An item of the first pass that is not fresh is not transferred. -/
theorem not_prepared (hnodup : (items.map UploadBatchItem.id).Nodup)
    (h : Passes env items repo serverCap startedById uploads completedById)
    {x : UploadBatchItem × Sorted}
    (hx : x ∈ (sortItems env serverCap items repo).1)
    (hfresh : ∀ context, x.2 ≠ .fresh context) :
    ∀ p ∈ transferAll env uploads, p.context.item.id ≠ x.1.id := by
  intro p hp hid
  have hsame := same_sorted hnodup (prepared_fresh h hp) hx hid
  exact hfresh p.context (by rw [← hsame])

/-- A resumed upload is completed as its call says. -/
theorem mem_completedIds_resumed (hnodup : (items.map UploadBatchItem.id).Nodup)
    (h : Passes env items repo serverCap startedById uploads completedById)
    {item : UploadBatchItem} {upload : SingleUpload}
    (hx : (item, .resumed upload) ∈ (sortItems env serverCap items repo).1) :
    item.id ∈ completedIds env items repo serverCap uploads ↔
      upload.completed = true := by
  unfold completedIds
  rw [List.mem_append, mem_completedFirst, mem_completedBy]
  constructor
  · intro hmem
    rcases hmem with hfirst | hby
    · obtain ⟨other, upload', hother, hcompleted, hid⟩ := hfirst
      have hsame := same_sorted hnodup hother hx hid
      cases hsame
      exact hcompleted
    · obtain ⟨p, hp, -, -, -, hid⟩ := hby
      exact absurd hid (not_prepared hnodup h hx (fun _ h => by cases h) p hp)
  · intro hcompleted
    exact Or.inl ⟨item, upload, hx, hcompleted, rfl⟩

/-- A transferred upload is completed as the server does. -/
theorem mem_completedIds_prepared
    (hnodup : (items.map UploadBatchItem.id).Nodup)
    (h : Passes env items repo serverCap startedById uploads completedById)
    {p : PreparedUpload} (hp : p ∈ transferAll env uploads) :
    p.context.item.id ∈ completedIds env items repo serverCap uploads ↔
      ∃ request, completion? p = some request ∧
        env.completes request = true := by
  unfold completedIds
  rw [List.mem_append, mem_completedFirst, mem_completedBy]
  constructor
  · intro hmem
    rcases hmem with hfirst | hby
    · obtain ⟨other, upload, hother, hcompleted, hid⟩ := hfirst
      have hsame := same_sorted hnodup hother (prepared_fresh h hp) hid
      cases hsame
    · obtain ⟨q, hq, request, hcompletion, hcompletes, hid⟩ := hby
      have hsame : q = p :=
        List.inj_on_of_nodup_map (nodup_prepared hnodup h) hq hp hid
      rw [hsame] at hcompletion
      exact ⟨request, hcompletion, hcompletes⟩
  · intro hrequest
    obtain ⟨request, hcompletion, hcompletes⟩ := hrequest
    exact Or.inr ⟨p, hp, request, hcompletion, hcompletes, rfl⟩

/-- Any other item is not completed. -/
theorem not_mem_completedIds (hnodup : (items.map UploadBatchItem.id).Nodup)
    {x : UploadBatchItem × Sorted}
    (hx : x ∈ (sortItems env serverCap items repo).1)
    (hresumed : ∀ upload, x.2 ≠ .resumed upload)
    (hapart : ∀ p ∈ transferAll env uploads, p.context.item.id ≠ x.1.id) :
    x.1.id ∉ completedIds env items repo serverCap uploads := by
  unfold completedIds
  rw [List.mem_append, mem_completedFirst, mem_completedBy]
  intro hmem
  rcases hmem with hfirst | hby
  · obtain ⟨other, upload, hother, -, hid⟩ := hfirst
    have hsame := same_sorted hnodup hother hx hid
    exact hresumed upload (by rw [← hsame])
  · obtain ⟨p, hp, -, -, -, hid⟩ := hby
    exact hapart p hp hid

/-- The responses are those of the completed uploads exactly when the answers
say what the server has completed. -/
theorem items_agree_iff (hnodup : (items.map UploadBatchItem.id).Nodup)
    (h : Passes env items repo serverCap startedById uploads completedById) :
    (∀ item ∈ items,
      ((responseOf (finalResults env items repo serverCap uploads completedById)
        item.id).isSome = true ↔
      item.id ∈ completedIds env items repo serverCap uploads)) ↔
    Answered env (sortItems env serverCap items repo).1 uploads
      completedById := by
  have hitems : (sortItems env serverCap items repo).1.map Prod.fst = items :=
    sortItems_items serverCap items repo
  have hitem : ∀ x ∈ (sortItems env serverCap items repo).1, x.1 ∈ items := by
    intro x hx
    rw [← hitems]
    exact List.mem_map_of_mem hx
  have hresumed : ∀ item upload, (item, Sorted.resumed upload) ∈
      (sortItems env serverCap items repo).1 →
      ((responseOf (finalResults env items repo serverCap uploads completedById)
        item.id).isSome = true ↔ ∃ response, upload.answer = .ok response) := by
    intro item upload hx
    rw [responseOf_apart (x := (item, .resumed upload)) hnodup hx
      (not_prepared hnodup h hx (fun _ h => by cases h))]
    exact firstResult_resumed item upload
  constructor
  · intro hagree
    constructor
    · intro item upload hx
      rw [← hresumed item upload hx, hagree item (hitem _ hx),
        mem_completedIds_resumed hnodup h hx]
    · intro request hrequest
      obtain ⟨p, hp, hcompletion⟩ := List.mem_filterMap.mp hrequest
      have hp' := hagree p.context.item (hitem _ (prepared_fresh h hp))
      rw [responseOf_prepared hnodup h hp,
        mem_completedIds_prepared hnodup h hp] at hp'
      rw [completion?_clientId hcompletion]
      constructor
      · intro hsays
        obtain ⟨other, hother, hcompletes⟩ := hp'.mp ⟨⟨_, hcompletion⟩, hsays⟩
        rw [hcompletion] at hother
        cases hother
        exact hcompletes
      · intro hcompletes
        exact (hp'.mpr ⟨request, hcompletion, hcompletes⟩).2
  · intro hanswered item hin
    rw [← hitems] at hin
    obtain ⟨x, hx, hsame⟩ := List.mem_map.mp hin
    subst hsame
    by_cases hprepared : ∃ p ∈ transferAll env uploads,
        p.context.item.id = x.1.id
    · obtain ⟨p, hp, hid⟩ := hprepared
      rw [← hid, responseOf_prepared hnodup h hp,
        mem_completedIds_prepared hnodup h hp]
      constructor
      · intro hresponds
        obtain ⟨⟨request, hcompletion⟩, hsays⟩ := hresponds
        refine ⟨request, hcompletion, ?_⟩
        rw [← hanswered.requested request
          (List.mem_filterMap.mpr ⟨p, hp, hcompletion⟩),
          completion?_clientId hcompletion]
        exact hsays
      · intro hrequest
        obtain ⟨request, hcompletion, hcompletes⟩ := hrequest
        refine ⟨⟨request, hcompletion⟩, ?_⟩
        rw [← completion?_clientId hcompletion]
        exact (hanswered.requested request
          (List.mem_filterMap.mpr ⟨p, hp, hcompletion⟩)).mpr hcompletes
    · have hapart : ∀ p ∈ transferAll env uploads,
          p.context.item.id ≠ x.1.id :=
        fun p hp hid => hprepared ⟨p, hp, hid⟩
      obtain ⟨item, sorted⟩ := x
      cases sorted with
      | resumed upload =>
          rw [hresumed item upload hx, hanswered.resumed item upload hx,
            mem_completedIds_resumed hnodup h hx]
      | invalid error =>
          rw [responseOf_apart hnodup hx hapart]
          exact iff_of_false (by simp [firstResult])
            (not_mem_completedIds hnodup hx (fun _ h => by cases h) hapart)
      | fresh context =>
          rw [responseOf_apart hnodup hx hapart]
          exact iff_of_false (by simp [firstResult])
            (not_mem_completedIds hnodup hx (fun _ h => by cases h) hapart)

variable (env items repo serverCap uploads completedById) in
/-- The results of a batch are those of its items. -/
theorem ids_finalResults :
    (finalResults env items repo serverCap uploads completedById).map
      UploadBatchResult.id = items.map UploadBatchItem.id := by
  unfold finalResults reportCompletions reportTransfers reportStarts
  rw [map_foldl_modify (completedResult_id completedById), map_foldl_modify,
    map_foldl_modify, List.map_map]
  · exact (List.map_congr_left (fun x _ => firstResult_id x)).trans
      (ids_sorted env items repo serverCap)
  all_goals
    intro upload result
    split
    · rfl
    · rfl

/-- Only items of the batch are completed in it, however it ends. -/
theorem completed_items {id : String}
    (h : id ∈ (uploadFilesBatch env items repo).completed) :
    id ∈ items.map UploadBatchItem.id := by
  have hitem : ∀ serverCap, ∀ x ∈ (sortItems env serverCap items repo).1,
      x.1.id ∈ items.map UploadBatchItem.id := by
    intro serverCap x hx
    rw [← ids_sorted env items repo serverCap]
    exact List.mem_map_of_mem hx
  have hfirst : ∀ serverCap,
      id ∈ completedFirst (sortItems env serverCap items repo).1 →
      id ∈ items.map UploadBatchItem.id := by
    intro serverCap hmem
    obtain ⟨item, upload, hx, -, hid⟩ := mem_completedFirst.mp hmem
    rw [← hid]
    exact hitem serverCap _ hx
  unfold uploadFilesBatch at h
  split at h
  · cases h
  rename_i serverCap hlimits
  dsimp only at h
  split at h
  · exact hfirst serverCap h
  split at h
  · exact hfirst serverCap h
  split at h
  · exact hfirst serverCap h
  rename_i uploads hsessions
  have hboth : id ∈ completedFirst (sortItems env serverCap items repo).1 ++
      completedBy env (sentPages (postCompletions env)
        (pages 100 ((transferAll env uploads).filterMap completion?))) := by
    split at h
    · exact h
    · exact h
  rcases List.mem_append.mp hboth with hmem | hmem
  · exact hfirst serverCap hmem
  · have hall : id ∈ completedBy env
        ((transferAll env uploads).filterMap completion?) := by
      obtain ⟨request, hrequest, hid⟩ := List.mem_map.mp hmem
      obtain ⟨hsent, hcompletes⟩ := List.mem_filter.mp hrequest
      have hin := mem_sentPages hsent
      rw [flatten_pages (by decide)] at hin
      exact List.mem_map.mpr
        ⟨request, List.mem_filter.mpr ⟨hin, hcompletes⟩, hid⟩
    obtain ⟨p, hp, -, -, -, hid⟩ := mem_completedBy.mp hall
    rw [← hid]
    exact hitem serverCap _ (prepared_of_sessions hsessions hp)

end Items

/-! ## The results of the jobs -/

section Jobs

variable {jobId : TransferJob → String}
  {prepared : TransferJob → Except What (Option UploadBatchItem)}
  {jobs : List TransferJob}

/-- The items have the ids of their jobs. -/
def ItemIds (jobId : TransferJob → String)
    (prepared : TransferJob → Except What (Option UploadBatchItem)) : Prop :=
  ∀ job item, prepared job = .ok (some item) → item.id = jobId job

theorem mem_batchItems {item : UploadBatchItem} :
    item ∈ batchItems prepared jobs ↔
      ∃ job ∈ jobs, prepared job = .ok (some item) := by
  unfold batchItems
  rw [List.mem_filterMap]
  constructor
  · intro h
    obtain ⟨job, hjob, hitem⟩ := h
    refine ⟨job, hjob, ?_⟩
    split at hitem
    · cases hitem
      assumption
    · cases hitem
  · intro h
    obtain ⟨job, hjob, hitem⟩ := h
    exact ⟨job, hjob, by rw [hitem]⟩

theorem ids_batchItems (hids : ItemIds jobId prepared) :
    List.Sublist ((batchItems prepared jobs).map UploadBatchItem.id)
      (jobs.map jobId) := by
  refine map_filterMap_sublist _ ?_
  intro job _ item hitem
  split at hitem
  · cases hitem
    exact hids job item (by assumption)
  · cases hitem

/-- A job without an item. -/
theorem not_mem_itemIds (hids : ItemIds jobId prepared)
    (hnodup : (jobs.map jobId).Nodup) {job : TransferJob} (hjob : job ∈ jobs)
    (hnone : ∀ item, prepared job ≠ .ok (some item)) :
    jobId job ∉ (batchItems prepared jobs).map UploadBatchItem.id := by
  intro hin
  obtain ⟨item, hitem, hid⟩ := List.mem_map.mp hin
  obtain ⟨other, hother, hprepared⟩ := mem_batchItems.mp hitem
  have hsame : other = job := List.inj_on_of_nodup_map hnodup hother hjob
    ((hids other item hprepared).symm.trans hid)
  rw [hsame] at hprepared
  exact hnone item hprepared

/-- The results before the batch is uploaded. -/
abbrev firstResults (prepared : TransferJob →
    Except What (Option UploadBatchItem)) (jobs : List TransferJob) :
    List UploadJobBatchResult :=
  jobs.map (fun job => preparedResult job (prepared job))

theorem preparedResult_job (job : TransferJob)
    (item : Except What (Option UploadBatchItem)) :
    (preparedResult job item).job = job := by
  unfold preparedResult
  split
  · rfl
  · rfl

theorem uploadedResult_job (upload : UploadBatchResult)
    (result : UploadJobBatchResult) :
    (uploadedResult upload result).job = result.job := by
  unfold uploadedResult
  split
  · rfl
  · rfl

theorem jobs_firstResults :
    (firstResults prepared jobs).map UploadJobBatchResult.job = jobs := by
  rw [List.map_map]
  exact (List.map_congr_left (fun job _ =>
    preparedResult_job job (prepared job))).trans (List.map_id jobs)

/-- A job without a result in the batch keeps the one of its preparation. -/
theorem error_prepared (job : TransferJob) :
    (preparedResult job (prepared job)).error = "" ↔
      ∃ item, prepared job = .ok item := by
  unfold preparedResult
  cases prepared job with
  | error error =>
      constructor
      · intro h
        exact absurd h error.2
      · intro h
        obtain ⟨item, hitem⟩ := h
        cases hitem
  | ok item => exact iff_of_true rfl ⟨item, rfl⟩

theorem error_uploaded (upload : UploadBatchResult)
    {result : UploadJobBatchResult} (hresult : result.error = "") :
    (uploadedResult upload result).error = "" ↔
      upload.response.isSome = true := by
  unfold uploadedResult
  cases upload.response with
  | some response => simpa using hresult
  | none =>
      constructor
      · intro h
        dsimp only at h
        split at h
        · exact absurd h (by decide)
        · rename_i hne
          exact absurd h hne
      · intro h
        cases h

/-- A result of the batch of jobs is found under the id of its job. -/
theorem found_job (hnodup : (jobs.map jobId).Nodup)
    {results : List UploadJobBatchResult}
    (hjobs : results.map UploadJobBatchResult.job = jobs)
    {result : UploadJobBatchResult} (hresult : result ∈ results) :
    findKey (jobKey jobId) (jobId result.job)
      results = some result := by
  have hkeys : (results.map (jobKey jobId)).Nodup := by
    rw [← hjobs, List.map_map] at hnodup
    exact hnodup
  exact findKey_of_mem hkeys hresult

theorem found_first (hnodup : (jobs.map jobId).Nodup) {job : TransferJob}
    (hjob : job ∈ jobs) :
    findKey (jobKey jobId) (jobId job)
      (firstResults prepared jobs) =
        some (preparedResult job (prepared job)) := by
  have hfound := found_job hnodup jobs_firstResults (List.mem_map_of_mem
    (f := fun job => preparedResult job (prepared job)) hjob)
  rw [preparedResult_job] at hfound
  exact hfound

section Taken

variable {items : List UploadBatchItem} {uploads : List UploadBatchResult}

theorem jobs_takeResults :
    (takeResults jobId items uploads (firstResults prepared jobs)).results.map
      UploadJobBatchResult.job = jobs :=
  (map_foldl_modify (fun upload result => uploadedResult_job upload result)
    uploads _).trans jobs_firstResults

theorem taken_job {result : UploadJobBatchResult}
    (hresult : result ∈
      (takeResults jobId items uploads (firstResults prepared jobs)).results) :
    result.job ∈ jobs := by
  have hin := List.mem_map_of_mem (f := UploadJobBatchResult.job) hresult
  rw [jobs_takeResults] at hin
  exact hin

/-- The result of a job without an item. -/
theorem taken_apart (hnodup : (jobs.map jobId).Nodup)
    {result : UploadJobBatchResult}
    (hresult : result ∈
      (takeResults jobId items uploads (firstResults prepared jobs)).results)
    (hapart : jobId result.job ∉ uploads.map UploadBatchResult.id) :
    result = preparedResult result.job (prepared result.job) := by
  have hjob : result.job ∈ jobs := taken_job hresult
  have hfound := found_job hnodup jobs_takeResults hresult
  have hkey : ∀ (upload : UploadBatchResult) (r : UploadJobBatchResult),
      jobKey jobId (uploadedResult upload r) = jobKey jobId r :=
    fun upload r => congrArg jobId (uploadedResult_job upload r)
  have hkept := find_foldl_modify_of_not_mem hkey hapart
    (firstResults prepared jobs)
  rw [found_first hnodup hjob] at hkept
  exact Option.some.inj (hfound.symm.trans hkept)

/-- The result of a job with an item, which a result of the batch is for. -/
theorem taken_uploaded (hnodup : (jobs.map jobId).Nodup)
    (huploads : (uploads.map UploadBatchResult.id).Nodup)
    {result : UploadJobBatchResult}
    (hresult : result ∈
      (takeResults jobId items uploads (firstResults prepared jobs)).results)
    {upload : UploadBatchResult} (hupload : upload ∈ uploads)
    (hid : upload.id = jobId result.job) :
    result = uploadedResult upload
      (preparedResult result.job (prepared result.job)) := by
  have hjob : result.job ∈ jobs := taken_job hresult
  have hfound := found_job hnodup jobs_takeResults hresult
  have hkey : ∀ (upload : UploadBatchResult) (r : UploadJobBatchResult),
      jobKey jobId (uploadedResult upload r) = jobKey jobId r :=
    fun upload r => congrArg jobId (uploadedResult_job upload r)
  have hwritten := find_foldl_modify_of_mem hkey huploads hupload
    (firstResults prepared jobs)
  rw [hid, found_first hnodup hjob] at hwritten
  exact Option.some.inj (hfound.symm.trans hwritten)

variable (prepared) in
/-- The mark of a job whose upload has a response. -/
theorem mark_of_upload (hnodup : (jobs.map jobId).Nodup)
    (hitems : (items.map UploadBatchItem.id).Nodup) {job : TransferJob}
    (hjob : job ∈ jobs) {item : UploadBatchItem} (hitem : item ∈ items)
    (hid : item.id = jobId job) {upload : UploadBatchResult}
    (hupload : upload ∈ uploads) (hsame : upload.id = jobId job)
    {response : UploadFileResponse} (hsome : upload.response = some response) :
    { entryId := job.entryId, fileId := response.fileId
      parentFolderId := item.entry.parentFolderId } ∈
      (takeResults jobId items uploads (firstResults prepared jobs)).marks := by
  have hfound : findKey UploadBatchItem.id upload.id items = some item := by
    rw [hsame, ← hid]
    exact findKey_of_mem hitems hitem
  refine List.mem_filterMap.mpr ⟨upload, hupload, ?_⟩
  unfold markOf
  rw [hsome, hfound, hsame, found_first hnodup hjob]
  simp [preparedResult_job]

theorem mark_of_response (hnodup : (jobs.map jobId).Nodup)
    (hitems : (items.map UploadBatchItem.id).Nodup) {job : TransferJob}
    (hjob : job ∈ jobs) {item : UploadBatchItem} (hitem : item ∈ items)
    (hid : item.id = jobId job) {upload : UploadBatchResult}
    (hupload : upload ∈ uploads) (hsame : upload.id = jobId job)
    (hresponse : upload.response.isSome = true) :
    ∃ mark ∈ (takeResults jobId items uploads
      (firstResults prepared jobs)).marks, mark.entryId = job.entryId := by
  obtain ⟨response, hsome⟩ := Option.isSome_iff_exists.mp hresponse
  exact ⟨_, mark_of_upload prepared hnodup hitems hjob hitem hid hupload hsame hsome, rfl⟩

end Taken

section OnePerItem

variable {uploads : List UploadBatchResult} (hids : ItemIds jobId prepared)
  (hnodup : (jobs.map jobId).Nodup)
  (hone : List.Perm (uploads.map UploadBatchResult.id)
    ((batchItems prepared jobs).map UploadBatchItem.id))

include hids hnodup hone

/-- The items have one result each. -/
theorem nodup_uploads : (uploads.map UploadBatchResult.id).Nodup :=
  hone.nodup_iff.mpr ((ids_batchItems hids).nodup hnodup)

/-- A job with an item has an error exactly when its upload has no response. -/
theorem upload_of_taken {result : UploadJobBatchResult}
    (hresult : result ∈ (takeResults jobId (batchItems prepared jobs) uploads
      (firstResults prepared jobs)).results) {item : UploadBatchItem}
    (hprepared : prepared result.job = .ok (some item)) :
    ∃ upload ∈ uploads, upload.id = jobId result.job ∧
      (result.error = "" ↔ upload.response.isSome = true) := by
  have hitem : item ∈ batchItems prepared jobs :=
    mem_batchItems.mpr ⟨_, taken_job hresult, hprepared⟩
  have hid : item.id = jobId result.job := hids _ item hprepared
  have hin : item.id ∈ uploads.map UploadBatchResult.id :=
    hone.mem_iff.mpr (List.mem_map_of_mem hitem)
  obtain ⟨upload, hupload, hsame⟩ := List.mem_map.mp hin
  refine ⟨upload, hupload, hsame.trans hid, ?_⟩
  rw [taken_uploaded hnodup (nodup_uploads hids hnodup hone) hresult hupload
    (hsame.trans hid)]
  exact error_uploaded upload ((error_prepared result.job).mpr
    ⟨some item, hprepared⟩)

/-- Any other job has the error of its preparation. -/
theorem error_of_taken {result : UploadJobBatchResult}
    (hresult : result ∈ (takeResults jobId (batchItems prepared jobs) uploads
      (firstResults prepared jobs)).results)
    (hnone : ∀ item, prepared result.job ≠ .ok (some item)) :
    result.error = "" ↔ ∃ item, prepared result.job = .ok item := by
  have hapart : jobId result.job ∉ uploads.map UploadBatchResult.id := by
    rw [hone.mem_iff]
    exact not_mem_itemIds hids hnodup (taken_job hresult) hnone
  rw [taken_apart hnodup hresult hapart, preparedResult_job]
  exact error_prepared result.job

/-- The response that is found for the item of a job decides about its
error. -/
theorem error_iff_response {result : UploadJobBatchResult}
    (hresult : result ∈ (takeResults jobId (batchItems prepared jobs) uploads
      (firstResults prepared jobs)).results) {item : UploadBatchItem}
    (hprepared : prepared result.job = .ok (some item)) :
    result.error = "" ↔ (responseOf uploads item.id).isSome = true := by
  obtain ⟨upload, hupload, hsame, herror⟩ :=
    upload_of_taken hids hnodup hone hresult hprepared
  rw [herror, hids _ item hprepared, ← hsame,
    responseOf_of_mem (nodup_uploads hids hnodup hone) hupload]

/-- If the results of the jobs are right, then the responses are. -/
theorem response_iff_of_accounted {completed : List String}
    (h : Accounted jobId prepared completed jobs (takeResults jobId
      (batchItems prepared jobs) uploads (firstResults prepared jobs)))
    {item : UploadBatchItem} (hitem : item ∈ batchItems prepared jobs) :
    (responseOf uploads item.id).isSome = true ↔ item.id ∈ completed := by
  obtain ⟨job, hjob, hprepared⟩ := mem_batchItems.mp hitem
  rw [← h.each] at hjob
  obtain ⟨result, hresult, hresultJob⟩ := List.mem_map.mp hjob
  subst hresultJob
  rw [← error_iff_response hids hnodup hone hresult hprepared,
    hids _ item hprepared]
  constructor
  · intro hempty
    by_contra hmem
    refine h.failed result hresult hmem ?_ hempty
    rw [hprepared]
    intro hnone
    cases hnone
  · intro hmem
    exact (h.uploaded result hresult hmem).1

/-- If the responses are right, then so are the results of the jobs. -/
theorem accounted_of_responses {completed : List String}
    (hcompleted : ∀ id ∈ completed,
      id ∈ (batchItems prepared jobs).map UploadBatchItem.id)
    (hagree : ∀ item ∈ batchItems prepared jobs,
      ((responseOf uploads item.id).isSome = true ↔ item.id ∈ completed)) :
    Accounted jobId prepared completed jobs (takeResults jobId
      (batchItems prepared jobs) uploads (firstResults prepared jobs)) := by
  have hunique : ((batchItems prepared jobs).map UploadBatchItem.id).Nodup :=
    (ids_batchItems hids).nodup hnodup
  have hwith : ∀ result ∈ (takeResults jobId (batchItems prepared jobs) uploads
      (firstResults prepared jobs)).results,
      ∀ item, prepared result.job = .ok (some item) →
        (result.error = "" ↔ jobId result.job ∈ completed) := by
    intro result hresult item hprepared
    rw [error_iff_response hids hnodup hone hresult hprepared,
      ← hids _ item hprepared]
    exact hagree item (mem_batchItems.mpr ⟨_, taken_job hresult, hprepared⟩)
  refine ⟨jobs_takeResults, ?_, ?_, ?_⟩
  · intro result hresult hmem
    -- what is completed is the upload of an item
    obtain ⟨item, hitem, hid⟩ := List.mem_map.mp (hcompleted _ hmem)
    obtain ⟨job, hjob, hprepared⟩ := mem_batchItems.mp hitem
    have hsame : job = result.job := List.inj_on_of_nodup_map hnodup hjob
      (taken_job hresult) ((hids job item hprepared).symm.trans hid)
    rw [hsame] at hprepared
    have hempty := (hwith result hresult item hprepared).mpr hmem
    obtain ⟨upload, hupload, hsame, herror⟩ :=
      upload_of_taken hids hnodup hone hresult hprepared
    exact ⟨hempty, mark_of_response hnodup hunique (taken_job hresult) hitem
      hid hupload hsame (herror.mp hempty)⟩
  · intro result hresult hunneeded
    have hnone : ∀ item, prepared result.job ≠ .ok (some item) := by
      intro item hsome
      rw [hunneeded] at hsome
      cases hsome
    exact (error_of_taken hids hnodup hone hresult hnone).mpr ⟨none, hunneeded⟩
  · intro result hresult hmem hneeded herror
    by_cases hitem : ∃ item, prepared result.job = .ok (some item)
    · obtain ⟨item, hprepared⟩ := hitem
      exact hmem ((hwith result hresult item hprepared).mp herror)
    · rw [not_exists] at hitem
      obtain ⟨item, hprepared⟩ :=
        (error_of_taken hids hnodup hone hresult hitem).mp herror
      cases item with
      | none => exact hneeded hprepared
      | some item => exact hitem item hprepared

end OnePerItem

/-! ## Each way a batch may end -/

variable {env : BatchEnv} {repo : UploadResumeRepo}

/-- No item: the results are those of the preparation. -/
theorem accounted_empty (hempty : batchItems prepared jobs = []) :
    Accounted jobId prepared
      (uploadFilesBatch env (batchItems prepared jobs) repo).completed jobs
      (runPrepared jobId prepared
        (fun items => uploadFilesBatch env items repo) jobs) := by
  have hresults : runPrepared jobId prepared
      (fun items => uploadFilesBatch env items repo) jobs =
      { results := firstResults prepared jobs, marks := [] } := by
    unfold runPrepared
    rw [hempty]
    rfl
  have hnone : ∀ id,
      id ∉ (uploadFilesBatch env (batchItems prepared jobs) repo).completed := by
    intro id hid
    have hin := completed_items hid
    rw [hempty] at hin
    cases hin
  rw [hresults]
  refine ⟨jobs_firstResults, ?_, ?_, ?_⟩
  · intro result _ hcompleted
    exact absurd hcompleted (hnone _)
  · intro result hresult hunneeded
    obtain ⟨job, _, hsame⟩ := List.mem_map.mp hresult
    rw [← hsame] at hunneeded ⊢
    rw [preparedResult_job] at hunneeded
    exact (error_prepared job).mpr ⟨none, hunneeded⟩
  · intro result hresult _ hneeded herror
    obtain ⟨job, hjob, hsame⟩ := List.mem_map.mp hresult
    rw [← hsame] at hneeded herror
    rw [preparedResult_job] at hneeded
    obtain ⟨item, hitem⟩ := (error_prepared job).mp herror
    cases item with
    | none => exact hneeded hitem
    | some item =>
        have hin : item ∈ batchItems prepared jobs :=
          mem_batchItems.mpr ⟨job, hjob, hitem⟩
        rw [hempty] at hin
        cases hin

/-- An exception: all results have an error. -/
theorem accounted_interrupted_iff (hids : ItemIds jobId prepared)
    (hitems : batchItems prepared jobs ≠ [])
    {error : What} (hreturned : (uploadFilesBatch env (batchItems prepared jobs)
      repo).returned = .error error) :
    Accounted jobId prepared
      (uploadFilesBatch env (batchItems prepared jobs) repo).completed jobs
      (runPrepared jobId prepared
        (fun items => uploadFilesBatch env items repo) jobs) ↔
    (∀ job ∈ jobs, prepared job ≠ .ok none) ∧
      (uploadFilesBatch env (batchItems prepared jobs) repo).completed = [] := by
  let report (result : UploadJobBatchResult) : UploadJobBatchResult :=
    if result.error = "" then { result with error := error.1 } else result
  have hresults : runPrepared jobId prepared
      (fun items => uploadFilesBatch env items repo) jobs =
      { results := (firstResults prepared jobs).map report, marks := [] } := by
    unfold runPrepared
    dsimp only
    rw [if_neg (by simpa using hitems), hreturned]
  have hjob : ∀ result, (report result).job = result.job := by
    intro result
    show (if result.error = "" then _ else result :
      UploadJobBatchResult).job = _
    split
    · rfl
    · rfl
  have herror : ∀ result, (report result).error ≠ "" := by
    intro result
    show (if result.error = "" then _ else result :
      UploadJobBatchResult).error ≠ ""
    split
    · exact error.2
    · assumption
  have hjobs : ((firstResults prepared jobs).map report).map
      UploadJobBatchResult.job = jobs := by
    rw [List.map_map]
    exact (List.map_congr_left (fun result _ => hjob result)).trans
      jobs_firstResults
  rw [hresults]
  constructor
  · intro h
    have hall : ∀ job ∈ jobs, ∃ result ∈ (firstResults prepared jobs).map
        report, result.job = job ∧ result.error ≠ "" := by
      intro job hin
      rw [← hjobs] at hin
      obtain ⟨result, hresult, hsame⟩ := List.mem_map.mp hin
      obtain ⟨first, _, hfirst⟩ := List.mem_map.mp hresult
      exact ⟨result, hresult, hsame, hfirst ▸ herror first⟩
    constructor
    · intro job hin hunneeded
      obtain ⟨result, hresult, hsame, hne⟩ := hall job hin
      exact hne (h.unneeded result hresult (hsame ▸ hunneeded))
    · rw [List.eq_nil_iff_forall_not_mem]
      intro id hid
      obtain ⟨job, hin, hsame⟩ := List.mem_map.mp
        ((ids_batchItems hids).subset (completed_items hid))
      obtain ⟨result, hresult, hresultJob, hne⟩ := hall job hin
      refine hne (h.uploaded result hresult ?_).1
      rw [hresultJob, hsame]
      exact hid
  · intro h
    obtain ⟨hneeded, hcompleted⟩ := h
    refine ⟨hjobs, ?_, ?_, ?_⟩
    · intro result _ hin
      rw [hcompleted] at hin
      cases hin
    · intro result hresult hunneeded
      have hin := List.mem_map_of_mem (f := UploadJobBatchResult.job) hresult
      rw [hjobs] at hin
      exact absurd hunneeded (hneeded result.job hin)
    · intro result hresult _ _
      obtain ⟨first, _, hfirst⟩ := List.mem_map.mp hresult
      rw [← hfirst]
      exact herror first

section Returned

variable {serverCap : Int} {startedById : List BatchStartUploadResult}
  {uploads : List StartedUpload}
  {completedById : List BatchCompleteUploadResult}

/-- The results of the jobs of a batch that returns. -/
theorem runPrepared_passes (hitems : batchItems prepared jobs ≠ [])
    (h : Passes env (batchItems prepared jobs) repo serverCap startedById
      uploads completedById) :
    runPrepared jobId prepared (fun items => uploadFilesBatch env items repo)
      jobs =
    takeResults jobId (batchItems prepared jobs)
      (finalResults env (batchItems prepared jobs) repo serverCap uploads
        completedById) (firstResults prepared jobs) := by
  unfold runPrepared
  dsimp only
  rw [if_neg (by simpa using hitems), returned_passes h]

/-- A batch that returns: its responses are for what the server has
completed. -/
theorem accounted_passes_iff (hids : ItemIds jobId prepared)
    (hnodup : (jobs.map jobId).Nodup) (hitems : batchItems prepared jobs ≠ [])
    (h : Passes env (batchItems prepared jobs) repo serverCap startedById
      uploads completedById) :
    Accounted jobId prepared
      (uploadFilesBatch env (batchItems prepared jobs) repo).completed jobs
      (runPrepared jobId prepared
        (fun items => uploadFilesBatch env items repo) jobs) ↔
    ∀ item ∈ batchItems prepared jobs,
      ((responseOf (finalResults env (batchItems prepared jobs) repo serverCap
        uploads completedById) item.id).isSome = true ↔
      item.id ∈ completedIds env (batchItems prepared jobs) repo serverCap
        uploads) := by
  have hone := List.Perm.of_eq (ids_finalResults env
    (batchItems prepared jobs) repo serverCap uploads completedById)
  have hcompleted : (uploadFilesBatch env (batchItems prepared jobs)
      repo).completed =
      completedIds env (batchItems prepared jobs) repo serverCap uploads := by
    rw [returned_passes h]
  rw [runPrepared_passes hitems h]
  constructor
  · intro haccounted item hitem
    rw [← hcompleted]
    exact response_iff_of_accounted hids hnodup hone haccounted hitem
  · intro hagree
    rw [← hcompleted] at hagree
    exact accounted_of_responses hids hnodup hone
      (fun _ hid => completed_items hid) hagree

end Returned

end Jobs

/-! ## The batches of the queue -/

theorem itemIds_prepareItem (jobId : TransferJob → String) (cwd : FsPath)
    (disk : Disk) (s : SyncStore) :
    ItemIds jobId (prepareItem jobId cwd disk s) := by
  intro job item hprepared
  unfold prepareItem at hprepared
  split at hprepared
  · cases hprepared
  · cases hprepared
  · cases hprepared
    rfl

/-- The answers to no item at all. -/
theorem answered_nil {env : BatchEnv} {repo : UploadResumeRepo}
    {serverCap : Int} {startedById : List BatchStartUploadResult}
    {uploads : List StartedUpload}
    {completedById : List BatchCompleteUploadResult}
    (h : Passes env [] repo serverCap startedById uploads completedById) :
    Answered env (sortItems env serverCap [] repo).1 uploads completedById := by
  have huploads : uploads = [] := List.map_eq_nil_iff.mp
    (openSessions_contexts h.sessions)
  rw [huploads]
  constructor
  · intro item upload hin
    cases hin
  · intro request hin
    cases hin

/-- The results of a batch are right exactly when no exception leaves
`uploadFilesBatch` that is written over something, and the answers of the server
say what it has completed. -/
theorem batch_accounted_iff (jobId : TransferJob → String) (env : BatchEnv)
    (jobs : List TransferJob) (s : SyncStore) (repo : UploadResumeRepo)
    (hjobs : (jobs.map jobId).Nodup) :
    Accounted jobId (prepareItem jobId env.cwd env.disk s)
      (uploadFilesBatch env
        (batchItems (prepareItem jobId env.cwd env.disk s) jobs)
        repo).completed jobs (runUploadBatch jobId env jobs s repo) ↔
    Reported env repo (prepareItem jobId env.cwd env.disk s) jobs := by
  have hids := itemIds_prepareItem jobId env.cwd env.disk s
  unfold runUploadBatch
  generalize prepareItem jobId env.cwd env.disk s = prepared at hids ⊢
  by_cases hitems : batchItems prepared jobs = []
  · refine iff_of_true (accounted_empty hitems) ⟨?_, ?_⟩
    · intro hne
      exact absurd hitems hne
    · intro serverCap startedById uploads completedById hpasses
      rw [hitems] at hpasses ⊢
      exact answered_nil hpasses
  by_cases hpasses : ∃ serverCap startedById uploads completedById,
      Passes env (batchItems prepared jobs) repo serverCap startedById uploads
        completedById
  · obtain ⟨serverCap, startedById, uploads, completedById, h⟩ := hpasses
    have hunique : ((batchItems prepared jobs).map UploadBatchItem.id).Nodup :=
      (ids_batchItems hids).nodup hjobs
    rw [accounted_passes_iff hids hjobs hitems h, items_agree_iff hunique h]
    constructor
    · intro hanswered
      refine ⟨fun _ hno => absurd ⟨_, _, _, _, h⟩ hno, ?_⟩
      intro serverCap' startedById' uploads' completedById' h'
      have hcap : serverCap = serverCap' :=
        Except.ok.inj (h.limits.symm.trans h'.limits)
      subst hcap
      have hstarted : startedById = startedById' :=
        Except.ok.inj (h.starts.symm.trans h'.starts)
      subst hstarted
      have huploads : uploads = uploads' :=
        Except.ok.inj (h.sessions.symm.trans h'.sessions)
      subst huploads
      have hcompleted : completedById = completedById' :=
        Except.ok.inj (h.completions.symm.trans h'.completions)
      subst hcompleted
      exact hanswered
    · intro hreported
      exact hreported.answered _ _ _ _ h
  · obtain ⟨error, herror⟩ := uploadFilesBatch_interrupted hpasses
    rw [accounted_interrupted_iff hids hitems herror]
    constructor
    · intro h
      refine ⟨fun _ _ => h, ?_⟩
      intro serverCap startedById uploads completedById hp
      exact absurd ⟨_, _, _, _, hp⟩ hpasses
    · intro hreported
      exact hreported.interrupted hitems hpasses

/-! ## A batch of two files -/

namespace TwoFiles

def root : SyncRoot :=
  { id := "root", localPath := "/r", folderId := "R", mode := .twoWay }

/-- The row of a new file of one byte. -/
def row (id : Nat) (name : String) : Entry :=
  { id := id, syncRootId := "root", relativePath := name, isDirectory := false
    size := some 1, mtime := some 1, contentHash := some "1"
    syncState := .pendingUpload }

/-- The disk with the files `/r/a` and `/r/b`. -/
def disk : Disk where
  nodes :=
    [(["r"], .directory),
      (["r", "a"], .file { content := [1], mtime := 1000000 }),
      (["r", "b"], .file { content := [1], mtime := 1000000 })]
  unique := by decide
  closed := by decide

def store : SyncStore :=
  { roots := [root]
    entries :=
      { rows := [row 0 "a", row 1 "b"]
        nextPk := 2
        pkUnique := by decide
        pkFresh := by decide
        keyUnique := by decide }
    queue := QueueRepo.empty }

def job (id : Nat) (name : String) : TransferJob :=
  { id := id, entryId := id, jobType := .uploadFile, status := .running
    localPath := name, remoteFolderId := some "R", bytesTotal := 1 }

def jobId (job : TransferJob) : String :=
  if job.id = 0 then "0" else "1"

def started : StartUploadResponse :=
  { fileId := "A", vaultId := "V", uploadSessionId := "S"
    providerUploadId := "P", fileChunkSize := 4194304, totalChunks := 1
    uploadPartSize := 4194304, uploadPartCount := 1, uploadUrl := "" }

/-- The first file has a session. -/
def repo : UploadResumeRepo :=
  { sessions :=
      [sessionRecord { row 0 "a" with parentFolderId := some "R" } "/r/a" 1
        (some 1) started []]
    parts := []
    unique := by decide }

theorem serverError_ne : "Server error" ≠ "" := by
  decide

/-- The upload of the session succeeds, and no other one can be started. -/
def env : BatchEnv :=
  { cwd := FsPath.parse "/"
    disk := disk
    uploadLimits := .ok 8
    uploadFile := fun _ _ =>
      { answer := .ok { fileId := "A", vaultId := "V", uploadSessionId := "S"
                        providerUploadId := "P" }
        repo := .empty
        completed := true }
    postStart := fun _ => .error ⟨"Server error", serverError_ne⟩
    fileKey := fun _ => .ok []
    transfer := fun _ _ => .error ⟨"Server error", serverError_ne⟩
    postComplete := fun _ => .error ⟨"Server error", serverError_ne⟩
    completes := fun _ => false }

/-- The results of the jobs are right, given what the server has completed. -/
abbrev Right (jobs : List TransferJob) : Prop :=
  Accounted jobId (prepareItem jobId env.cwd env.disk store)
    (uploadFilesBatch env (batchItems
      (prepareItem jobId env.cwd env.disk store) jobs) repo).completed jobs
    (runUploadBatch jobId env jobs store repo)

/-- Nothing is started for the first file. -/
theorem passes_first :
    Passes env (batchItems (prepareItem jobId env.cwd env.disk store)
      [job 0 "a"]) repo 8 [] [] [] := by
  have hfresh : (freshOf (sortItems env 8 (batchItems
      (prepareItem jobId env.cwd env.disk store) [job 0 "a"]) repo).1).length =
        0 := by
    decide
  have hnil := List.length_eq_zero_iff.mp hfresh
  refine ⟨rfl, ?_, ?_, rfl⟩
  · rw [hnil]
    rfl
  · rw [hnil]
    rfl

end TwoFiles

open TwoFiles in
/-- The upload of the first file alone is resumed and reported. -/
theorem batch_accounted_resumed : Right [job 0 "a"] := by
  refine (batch_accounted_iff jobId env [job 0 "a"] store repo
    (by decide)).mpr ⟨?_, ?_⟩
  · intro _ hno
    exact absurd ⟨_, _, _, _, passes_first⟩ hno
  · intro serverCap startedById uploads completedById h
    have hcap : serverCap = 8 :=
      Except.ok.inj (h.limits.symm.trans passes_first.limits)
    subst hcap
    have hstarted : startedById = [] :=
      Except.ok.inj (h.starts.symm.trans passes_first.starts)
    subst hstarted
    have huploads : uploads = [] :=
      Except.ok.inj (h.sessions.symm.trans passes_first.sessions)
    subst huploads
    constructor
    · intro item upload hx
      obtain ⟨repo', hupload⟩ := sortItems_resumed hx
      rw [hupload]
      exact iff_of_true ⟨_, rfl⟩ rfl
    · intro request hrequest
      cases hrequest

open TwoFiles in
/-- The upload of the first file is completed; that of the second one cannot be
started, and both are reported as failed. -/
theorem not_batch_accounted :
    ¬∀ (jobId : TransferJob → String) (env : BatchEnv)
        (jobs : List TransferJob) (s : SyncStore) (repo : UploadResumeRepo),
        (jobs.map jobId).Nodup →
        Accounted jobId (prepareItem jobId env.cwd env.disk s)
          (uploadFilesBatch env (batchItems
            (prepareItem jobId env.cwd env.disk s) jobs) repo).completed jobs
          (runUploadBatch jobId env jobs s repo) := by
  intro hall
  have hright : Right [job 0 "a", job 1 "b"] :=
    hall jobId env [job 0 "a", job 1 "b"] store repo (by decide)
  have hfirst := hright.uploaded
    { job := job 0 "a", error := "Server error" } (by decide) (by decide)
  exact absurd hfirst.1 (by decide)

end ArkiveSync.BatchAccounting
