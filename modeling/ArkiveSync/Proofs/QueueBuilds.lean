import ArkiveSync.Model.SyncRun

/-!
# Building the queue of a root

`build` goes through the rows of a root page by page.  Nothing else writes the
rows while it does, so the pages are the rows in the order of their paths, each
of them passed to the queue once.  The polling loop produces its queue from the
same pages and comes to the same tables when nothing happens between them.

## Main results

* `build_passes_all`: what a build leaves, and that another one adds nothing.
* `production_builds`: the pages of the polling loop come to the same.
-/

namespace ArkiveSync.QueueBuilds

open Library QueueService

variable {root : SyncRoot} {syncRootId : String} {s s₁ s' : SyncStore}

/-! ## Passing rows to the queue once more -/

/-- A row that was passed to the queue is not queued again as long as the jobs
are there. -/
theorem enqueueEntry_eq_self {e : Entry} (hentries : s'.entries = s.entries)
    (hjobs : ∀ j ∈ (enqueueEntry root e s).queue.jobs, j ∈ s'.queue.jobs) :
    enqueueEntry root e s' = s' := by
  have hactive : ∀ jobType,
      (∃ j ∈ (enqueueEntry root e s).queue.jobs,
        j.isActiveFor e.id jobType = true) →
      QueueRepo.hasActiveJobForEntry s'.queue e.id jobType = true := by
    intro jobType hj
    obtain ⟨j, hmem, hfor⟩ := hj
    exact List.any_eq_true.mpr ⟨j, hjobs j hmem, hfor⟩
  unfold enqueueEntry at hactive ⊢
  rw [hentries]
  dsimp only at hactive ⊢
  by_cases hdec : decideEntry root.mode e ≠ .upload
  · rw [if_pos hdec]
  rw [if_neg hdec] at hactive ⊢
  by_cases hparent : ((resolveRemoteFolderId s.entries root e).isNone &&
      !(FsPath.parse e.relativePath).parentPath.isEmpty) = true
  · rw [if_pos hparent]
  rw [if_neg hparent] at hactive ⊢
  by_cases hdirectory : e.isDirectory = true
  · rw [if_pos hdirectory] at hactive ⊢
    by_cases hremote : e.remoteId.isSome = true
    · simp [hremote]
    by_cases hhas :
        QueueRepo.hasActiveJobForEntry s.queue e.id .createFolder = true
    · simp only [hremote, hhas, Bool.or_true, if_true] at hactive ⊢
      have hagain := hactive .createFolder (List.any_eq_true.mp hhas)
      simp [hagain]
    · simp only [hremote, hhas, Bool.or_false, Bool.false_eq_true,
        if_false] at hactive ⊢
      have hagain := hactive .createFolder
        (QueueRepo.exists_job_of_enqueue _ _ _ _ _ _)
      simp [hagain]
  · rw [if_neg hdirectory] at hactive ⊢
    cases hsize : e.size with
    | none => rfl
    | some size =>
        rw [hsize] at hactive
        dsimp only at hactive ⊢
        by_cases hneg : size < 0
        · simp [hneg]
        by_cases hhas :
            QueueRepo.hasActiveJobForEntry s.queue e.id .uploadFile = true
        · simp only [hhas, Bool.true_or, if_true] at hactive
          have hagain := hactive .uploadFile (List.any_eq_true.mp hhas)
          simp [hagain]
        · simp only [hhas, hneg, decide_false, Bool.or_false,
            Bool.false_eq_true, if_false] at hactive
          have hagain := hactive .uploadFile
            (QueueRepo.exists_job_of_enqueue _ _ _ _ _ _)
          simp [hagain]

theorem enqueuePage_append (front back : List Entry) :
    enqueuePage root (front ++ back) s =
      enqueuePage root back (enqueuePage root front s) :=
  List.foldl_append

/-- Neither are the rows of a page. -/
theorem enqueuePage_eq_self {page : List Entry}
    (hentries : s'.entries = s.entries)
    (hjobs : ∀ j ∈ (enqueuePage root page s).queue.jobs, j ∈ s'.queue.jobs) :
    enqueuePage root page s' = s' := by
  induction page generalizing s with
  | nil => rfl
  | cons e es ih =>
      have hcons : ∀ t, enqueuePage root (e :: es) t =
          enqueuePage root es (enqueueEntry root e t) := fun _ => rfl
      rw [hcons] at hjobs ⊢
      have hfirst : enqueueEntry root e s' = s' :=
        enqueueEntry_eq_self hentries
          (fun j hj => hjobs j (mem_enqueuePage hj))
      rw [hfirst]
      apply ih _ hjobs
      rw [entries_enqueueEntry]
      exact hentries

/-! ## A build -/

/-- The root has its folder already: nothing is created. -/
theorem ensureRootFolder_bound {env : QueueEnv}
    (hroot : SyncRepo.findSyncRootById s.roots syncRootId = some root)
    (hfolder : root.folderId ≠ "") :
    FolderCreateWorker.ensureRootFolder env syncRootId s = some s := by
  unfold FolderCreateWorker.ensureRootFolder
  rw [hroot]
  simp [hfolder]

/-- So a page does not throw. -/
theorem buildPage_isSome (env : QueueEnv) (afterPath : Option String)
    (hroot : SyncRepo.findSyncRootById s.roots syncRootId = some root)
    (hfolder : root.folderId ≠ "") :
    (buildPage env syncRootId afterPath true s).isSome = true := by
  unfold buildPage
  rw [ensureRootFolder_bound hroot hfolder]
  simp [hroot]

/-- Once a page has seen to the folder, it goes on as if it had been there. -/
theorem buildPage_ensured {env : QueueEnv} (afterPath : Option String)
    (hensure : FolderCreateWorker.ensureRootFolder env syncRootId s = some s₁)
    (hroot : SyncRepo.findSyncRootById s₁.roots syncRootId = some root)
    (hfolder : root.folderId ≠ "") :
    buildPage env syncRootId afterPath true s =
      buildPage env syncRootId afterPath true s₁ := by
  unfold buildPage
  rw [hensure, ensureRootFolder_bound hroot hfolder]

/-- The tables between two pages of a build: what is behind the last path is
what the queue still has to get. -/
structure Building (syncRootId : String) (root : SyncRoot) (t : EntryTable)
    (target s : SyncStore) (afterPath : Option String) : Prop where
  entries : s.entries = t
  bound : SyncRepo.findSyncRootById s.roots syncRootId = some root
  remaining : enqueuePage root (KeysetPage.behind Entry.relativePath
    (EntryRepo.listEntriesBySyncRootId t syncRootId) afterPath) s = target

/-- A build that has a folder to begin with. -/
theorem building_start
    (hroot : SyncRepo.findSyncRootById s.roots syncRootId = some root) :
    Building syncRootId root s.entries
      (enqueuePage root
        (EntryRepo.listEntriesBySyncRootId s.entries syncRootId) s) s none := by
  refine ⟨rfl, hroot, ?_⟩
  rw [KeysetPage.behind_none]

/-- A page ends the build with everything passed to the queue, or leaves less
to do. -/
theorem Building.page {t : EntryTable} {target : SyncStore}
    {afterPath : Option String} {env : QueueEnv} {page : QueueBuildPage}
    (h : Building syncRootId root t target s afterPath)
    (hfolder : root.folderId ≠ "")
    (hpage : buildPage env syncRootId afterPath true s = some (s', page)) :
    if page.complete then s' = target
    else
      Building syncRootId root t target s' page.nextPath ∧
        (KeysetPage.behind Entry.relativePath
          (EntryRepo.listEntriesBySyncRootId t syncRootId)
          page.nextPath).length <
        (KeysetPage.behind Entry.relativePath
          (EntryRepo.listEntriesBySyncRootId t syncRootId) afterPath).length
    := by
  obtain ⟨hentries, hbound, hremaining⟩ := h
  obtain ⟨store, found, hensure, hfound, hstore, hcomplete⟩ :=
    buildPage_cases hpage
  rw [ensureRootFolder_bound hbound hfolder, Option.some.injEq] at hensure
  subst hensure
  rw [hbound, Option.some.injEq] at hfound
  subst hfound
  rw [EntryRepo.listAfterPath_eq_page, hentries] at hstore hcomplete
  split
  · rename_i hend
    have hshort : (KeysetPage.page Entry.relativePath
        (EntryRepo.listEntriesBySyncRootId t syncRootId) afterPath
        kQueueBuildPageSize).length < kQueueBuildPageSize := by
      cases hlast : (KeysetPage.page Entry.relativePath
          (EntryRepo.listEntriesBySyncRootId t syncRootId) afterPath
          kQueueBuildPageSize).getLast? with
      | none =>
          rw [List.getLast?_eq_none_iff.mp hlast]
          decide
      | some last =>
          rw [hlast] at hcomplete
          rw [hcomplete] at hend
          simpa using hend
    rw [hstore, KeysetPage.page_of_short hshort]
    exact hremaining
  · rename_i hmore
    obtain ⟨last, hnext, hlast, hkept⟩ :=
      buildPage_next hpage (by simpa using hmore)
    rw [hentries] at hlast
    have happend := KeysetPage.behind_eq_append
      (EntryRepo.strictlySorted_listEntries t syncRootId) hlast
    have hpos := List.length_pos_of_mem (List.mem_of_getLast? hlast)
    rw [hnext]
    refine ⟨⟨hkept.trans hentries, ?_, ?_⟩, ?_⟩
    · rw [hstore, roots_enqueuePage]
      exact hbound
    · rw [hstore, ← enqueuePage_append, ← happend]
      exact hremaining
    · rw [happend, List.length_append]
      omega

/-- A build under way comes to its target. -/
theorem Building.ends {t : EntryTable} {target : SyncStore}
    {server : Nat → QueueEnv} {afterPath : Option String} {pages : Nat}
    (h : Building syncRootId root t target s afterPath)
    (hfolder : root.folderId ≠ "") :
    Ends (fun n => loop (buildTurn server syncRootId) n
      { store := s, afterPath := afterPath, pages := pages })
      (.ok target) := by
  have hnext : ∀ b b' : BuildState,
      Building syncRootId root t target b.store b.afterPath →
      buildTurn server syncRootId b = .next b' →
        Building syncRootId root t target b'.store b'.afterPath ∧
          (KeysetPage.behind Entry.relativePath
            (EntryRepo.listEntriesBySyncRootId t syncRootId)
            b'.afterPath).length <
          (KeysetPage.behind Entry.relativePath
            (EntryRepo.listEntriesBySyncRootId t syncRootId)
            b.afterPath).length := by
    intro b b' hb hturn
    unfold buildTurn at hturn
    split at hturn
    · cases hturn
    rename_i store page hpage
    have hdone := hb.page hfolder hpage
    split at hturn
    · cases hturn
    rename_i hmore
    rw [if_neg hmore] at hdone
    cases hturn
    exact hdone
  have hleave : ∀ (b : BuildState) result,
      Building syncRootId root t target b.store b.afterPath →
      buildTurn server syncRootId b = .leave result →
        result = .ok target := by
    intro b result hb hturn
    have hsome := buildPage_isSome (server b.pages) b.afterPath hb.bound hfolder
    unfold buildTurn at hturn
    split at hturn
    · rename_i hnone
      rw [hnone] at hsome
      cases hsome
    rename_i store page hpage
    have hdone := hb.page hfolder hpage
    split at hturn
    · rename_i hend
      rw [if_pos hend] at hdone
      cases hturn
      rw [hdone]
    · cases hturn
  obtain ⟨result, rfl, hloop⟩ := loop_ends _ hnext hleave
    (show Building syncRootId root t target (BuildState.mk s afterPath
      pages).store (BuildState.mk s afterPath pages).afterPath from h)
  exact ⟨_, fun n hn => hloop n (Nat.lt_of_succ_le hn)⟩

/-- Building from tables in which the folder is still to be created is building
from those in which it is. -/
theorem build_ensured {server : Nat → QueueEnv}
    (hensure : FolderCreateWorker.ensureRootFolder (server 0) syncRootId s =
      some s₁)
    (hroot : SyncRepo.findSyncRootById s₁.roots syncRootId = some root)
    (hfolder : root.folderId ≠ "") (n : Nat) :
    build server syncRootId n s = build server syncRootId n s₁ := by
  unfold build
  cases n with
  | zero => rfl
  | succ n =>
      have hsome := buildPage_isSome (server 0) none hroot hfolder
      unfold loop buildTurn
      rw [buildPage_ensured none hensure hroot hfolder]
      cases hpage : buildPage (server 0) syncRootId none true s₁ with
      | none =>
          rw [hpage] at hsome
          cases hsome
      | some result => rfl

/-- A build passes every row of the root to the queue, in the order of their
paths, and once it is done another one changes nothing. -/
theorem build_passes_all (server again : Nat → QueueEnv) {syncRootId : String}
    {s s₁ : SyncStore} {root : SyncRoot}
    (hensure : FolderCreateWorker.ensureRootFolder (server 0) syncRootId s =
      some s₁)
    (hroot : SyncRepo.findSyncRootById s₁.roots syncRootId = some root)
    (hfolder : root.folderId ≠ "") :
    ∃ built, built = enqueuePage root
        (EntryRepo.listEntriesBySyncRootId s.entries syncRootId) s₁ ∧
      Ends (fun n => build server syncRootId n s) (.ok built) ∧
      Ends (fun n => build again syncRootId n built) (.ok built) := by
  refine ⟨_, rfl, ?_, ?_⟩
  · simp only [build_ensured hensure hroot hfolder]
    rw [← (ensureRootFolder_frame hensure).1]
    exact (building_start hroot).ends hfolder
  · have hbound : SyncRepo.findSyncRootById (enqueuePage root
        (EntryRepo.listEntriesBySyncRootId s.entries syncRootId) s₁).roots
        syncRootId = some root := by
      rw [roots_enqueuePage]
      exact hroot
    have hagain : Ends (fun n => build again syncRootId n _) _ :=
      (building_start hbound).ends hfolder
    rw [entries_enqueuePage, (ensureRootFolder_frame hensure).1] at hagain
    rw [enqueuePage_eq_self entries_enqueuePage (fun j hj => hj)] at hagain
    exact hagain

/-! ## A root with one file, and no folder yet -/

namespace NewRoot

def newRoot : SyncRoot :=
  { id := "root", localPath := "/r", folderId := "", mode := .twoWay }

def tables : SyncStore :=
  { roots := [newRoot]
    entries := LocalEntryRepo.upsertFileEntry .empty
      { syncRootId := "root", relativePath := "f", size := 1, mtime := 1
        contentHash := "1", syncState := .pendingUpload, lastSeenScanId := 0 }
    queue := QueueRepo.empty }

/-- The server creates the folder of the root. -/
def server (_ : Nat) : QueueEnv :=
  { cwd := FsPath.parse "/"
    createRootFolder := fun _ => some "R"
    createFolder := fun _ _ => none
    uploadFilesBatch := fun _ => none }

/-- The tables with the folder. -/
def bound : SyncStore :=
  { tables with roots := [{ newRoot with folderId := "R" }] }

/-- The polling loop before the first page. -/
def daemon : DaemonState :=
  { store := tables
    disk := FileTree.empty
    scanJobs := fun _ => none
    nextScanJobId := 1
    activeScans := fun _ => none
    dirtyPaths := []
    queueCursors := fun _ => none
    queueComplete := fun _ => false }

theorem ensured : FolderCreateWorker.ensureRootFolder (server 0) "root" tables =
    some bound := rfl

end NewRoot

open NewRoot in
/-- The file gets its job, in the first build. -/
theorem build_passes_all_file :
    ∃ built, built.queue.jobs.length = 1 ∧
      Ends (fun n => build server "root" n tables) (.ok built) ∧
      Ends (fun n => build server "root" n built) (.ok built) := by
  obtain ⟨built, hbuilt, hfirst, hagain⟩ := build_passes_all server server
    ensured rfl (by decide)
  refine ⟨built, ?_, hfirst, hagain⟩
  rw [hbuilt]
  decide

/-! ## The pages of the polling loop -/

/-- The pages of a root that the polling loop produces, with nothing between
them. -/
structure Producing where
  daemon : DaemonState
  pages : Nat

/-- `produceQueuePage`, as long as the production is not complete. -/
def produceTurn (server : Nat → QueueEnv) (syncRootId : String)
    (s : Producing) : LoopTurn Producing (Except DaemonState DaemonState) :=
  if s.daemon.queueComplete syncRootId then .leave (.ok s.daemon)
  else
    match PollingDaemon.produceQueuePage (server s.pages) syncRootId true
      s.daemon with
    | none => .leave (.error s.daemon)
    | some daemon => .next { daemon := daemon, pages := s.pages + 1 }

/-- The production stands where a build does. -/
structure Follows (syncRootId : String) (start : DaemonState)
    (b : BuildState) (p : Producing) : Prop where
  pages : p.pages = b.pages
  daemon : p.daemon =
    { start with
      store := b.store
      queueCursors :=
        PollingDaemon.assign start.queueCursors syncRootId b.afterPath }
  incomplete : start.queueComplete syncRootId = false

/-- What a production has come to when the build has come to a result. -/
def SameEnd (syncRootId : String) (start : DaemonState) :
    Except SyncStore SyncStore → Except DaemonState DaemonState → Prop
  | .ok store, produced => produced = .ok
      { start with
        store := store
        queueComplete :=
          PollingDaemon.assign start.queueComplete syncRootId true
        queueCursors :=
          PollingDaemon.assign start.queueCursors syncRootId none }
  | .error store, produced => ∃ cursor, produced = .error
      { start with
        store := store
        queueCursors :=
          PollingDaemon.assign start.queueCursors syncRootId cursor }

theorem assign_assign {β : Type} (m : String → β) (k : String) (x y : β) :
    PollingDaemon.assign (PollingDaemon.assign m k x) k y =
      PollingDaemon.assign m k y := by
  funext j
  by_cases h : j = k
  · simp [PollingDaemon.assign, h]
  · simp [PollingDaemon.assign, h]

theorem assign_eq_self {β : Type} (m : String → β) (k : String) :
    PollingDaemon.assign m k (m k) = m := by
  funext j
  by_cases h : j = k
  · simp [PollingDaemon.assign, h]
  · simp [PollingDaemon.assign, h]

section Follows

variable {server : Nat → QueueEnv} {start : DaemonState} {b b' : BuildState}
  {p : Producing}

/-- A page of the production is the page of the build. -/
theorem Follows.page (h : Follows syncRootId start b p) :
    PollingDaemon.produceQueuePage (server p.pages) syncRootId true p.daemon =
      (buildPage (server b.pages) syncRootId b.afterPath true b.store).map
        (fun done =>
          if done.2.complete then
            { start with
              store := done.1
              queueComplete :=
                PollingDaemon.assign start.queueComplete syncRootId true
              queueCursors :=
                PollingDaemon.assign start.queueCursors syncRootId none }
          else
            { start with
              store := done.1
              queueCursors := PollingDaemon.assign start.queueCursors syncRootId
                (done.2.nextPath.or b.afterPath) }) := by
  unfold PollingDaemon.produceQueuePage
  rw [h.pages, h.daemon]
  simp only [h.incomplete, Bool.false_eq_true, if_false,
    PollingDaemon.assign_self]
  cases buildPage (server b.pages) syncRootId b.afterPath true b.store with
  | none => rfl
  | some done =>
      obtain ⟨store, page⟩ := done
      simp only [Option.map_some]
      cases hnext : page.nextPath <;> cases page.complete <;>
        simp [assign_assign]

theorem Follows.next (h : Follows syncRootId start b p)
    (hturn : buildTurn server syncRootId b = .next b') :
    ∃ p', produceTurn server syncRootId p = .next p' ∧
      Follows syncRootId start b' p' := by
  unfold buildTurn at hturn
  split at hturn
  · cases hturn
  rename_i store page hpage
  split at hturn
  · cases hturn
  rename_i hmore
  cases hturn
  obtain ⟨last, hnext, -⟩ := buildPage_next hpage (by simpa using hmore)
  have hopen : p.daemon.queueComplete syncRootId = false := by
    rw [h.daemon]
    exact h.incomplete
  unfold produceTurn
  rw [if_neg (by simp [hopen]), h.page, hpage]
  simp only [Option.map_some, if_neg hmore]
  refine ⟨_, rfl, by rw [h.pages], ?_, h.incomplete⟩
  rw [hnext]
  rfl

theorem Follows.leave {result : Except SyncStore SyncStore}
    (h : Follows syncRootId start b p)
    (hturn : buildTurn server syncRootId b = .leave result) :
    ∃ m produced, loop (produceTurn server syncRootId) m p = some produced ∧
      SameEnd syncRootId start result produced := by
  have hopen : p.daemon.queueComplete syncRootId = false := by
    rw [h.daemon]
    exact h.incomplete
  have hpage : PollingDaemon.produceQueuePage (server p.pages) syncRootId true
      p.daemon = _ := h.page
  unfold buildTurn at hturn
  split at hturn
  · rename_i hnone
    cases hturn
    rw [hnone, Option.map_none] at hpage
    refine ⟨1, .error p.daemon, ?_, b.afterPath, ?_⟩
    · simp [loop, produceTurn, hopen, hpage]
    · rw [h.daemon]
  · rename_i store page hsome
    split at hturn
    · rename_i hend
      cases hturn
      rw [hsome, Option.map_some, if_pos hend] at hpage
      refine ⟨2, _, ?_, rfl⟩
      simp [loop, produceTurn, hopen, hpage]
    · cases hturn

end Follows

/-- The pages that the polling loop produces of tables that stay as they are
come to what a build comes to: the same queue and a production that is complete,
or the exception. -/
theorem production_builds (server : Nat → QueueEnv) (syncRootId : String)
    (start : DaemonState)
    (hopen : start.queueComplete syncRootId = false)
    (hcursor : start.queueCursors syncRootId = none) :
    ∃ built produced,
      Ends (fun n => build server syncRootId n start.store) built ∧
      Ends (fun n => loop (produceTurn server syncRootId) n
        { daemon := start, pages := 0 }) produced ∧
      SameEnd syncRootId start built produced := by
  obtain ⟨built, hbuilt⟩ := build_ends server syncRootId start.store
  obtain ⟨m, hm⟩ := hbuilt
  have hstart : Follows syncRootId start
      { store := start.store, afterPath := none, pages := 0 }
      { daemon := start, pages := 0 } := by
    refine ⟨rfl, ?_, hopen⟩
    rw [← hcursor, assign_eq_self]
  obtain ⟨produced, hproduced, hsame⟩ := loop_follows
    (fun _ _ _ hR hturn => hR.next hturn)
    (fun _ _ _ hR hturn => hR.leave hturn) hstart (hm m (Nat.le_refl m))
  exact ⟨built, produced, ⟨m, hm⟩, hproduced, hsame⟩

open NewRoot in
theorem production_builds_file :
    ∃ built produced,
      Ends (fun n => build server "root" n tables) built ∧
      Ends (fun n => loop (produceTurn server "root") n
        { daemon := daemon, pages := 0 }) produced ∧
      SameEnd "root" daemon built produced :=
  production_builds server "root" daemon rfl rfl

end ArkiveSync.QueueBuilds
