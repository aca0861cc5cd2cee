import ArkiveSync.Library.KeysetPage
import ArkiveSync.Library.Runs
import ArkiveSync.Model.PollingDaemon

/-!
# Producing the queue while a scan is running

The production walks the rows of a root in the order of their paths, the scan
writes them in the order of the directory iterator.  A row that the scan writes
at a path the production has passed is not passed to the queue any more.

## Main results

* `Walked.step`: with scans that write beyond the cursor only, every row up to
  the cursor has been passed to the queue since the scan last wrote it.
* `production_misses_nothing`: and when the production is complete, every row.
* `not_production_misses_nothing`: a row written behind the cursor is missed.
-/

namespace ArkiveSync.QueueProduction

open Library KeysetPage

/-- The state of the loop, with the ids of the rows that were passed to
`enqueueEntry` since the scan last inserted or changed them. -/
structure State where
  daemon : DaemonState
  offered : List Nat

/-- The row is new in the table or was changed, the mark of the scan that saw
it last apart. -/
def Written (old : EntryTable) (e : Entry) : Prop :=
  ∀ f ∈ old.rows, f.id = e.id →
    f ≠ { e with lastSeenScanJobId := f.lastSeenScanJobId }

instance (old : EntryTable) (e : Entry) : Decidable (Written old e) :=
  inferInstanceAs (Decidable (∀ f ∈ old.rows, f.id = e.id →
    f ≠ { e with lastSeenScanJobId := f.lastSeenScanJobId }))

/-- What the loop does, for any root and in any order. -/
inductive Event where
  | scanBatch (syncRootId : String) (isDirectory : Bool)
      (listing : Option DirStream)
  | producePage (syncRootId : String) (env : QueueEnv)
  | fullRescan (syncRootId : String)
  | runTick (env : QueueEnv)

/-- The state after a batch of a scan. -/
def scanned (syncRootId : String) (isDirectory : Bool)
    (listing : Option DirStream) (s : State) : State :=
  let daemon :=
    PollingDaemon.scanRoot syncRootId isDirectory listing s.daemon
  { daemon := daemon
    offered := s.offered.filter (fun n =>
      decide (∀ e ∈ daemon.store.entries.rows, e.id = n →
        ¬Written s.daemon.store.entries e)) }

/-- The ids of the rows that a call of `produceQueuePage` passes on. -/
def passedOn (syncRootId : String) (s : DaemonState) : List Nat :=
  if s.queueComplete syncRootId then []
  else (PollingDaemon.pageOf s syncRootId).map Entry.id

/-- One step of the loop.  A page that throws ends the daemon. -/
inductive Step : State → Event → State → Prop where
  | scanBatch (s : State) (syncRootId : String) (isDirectory : Bool)
      (listing : Option DirStream) :
      Step s (.scanBatch syncRootId isDirectory listing)
        (scanned syncRootId isDirectory listing s)
  | producePage (s : State) (syncRootId : String) (env : QueueEnv)
      (daemon : DaemonState)
      (h : PollingDaemon.produceQueuePage env syncRootId
        (s.daemon.scanJobs syncRootId).isNone s.daemon = some daemon) :
      Step s (.producePage syncRootId env)
        { daemon := daemon
          offered := s.offered ++ passedOn syncRootId s.daemon }
  | fullRescan (s : State) (syncRootId : String) :
      Step s (.fullRescan syncRootId)
        { s with daemon := PollingDaemon.fullRescan syncRootId s.daemon }
  | runTick (s : State) (env : QueueEnv) :
      Step s (.runTick env)
        { s with daemon := PollingDaemon.runTick env s.daemon }

/-- The loop starts the production of every root anew. -/
structure Started (syncRootId : String) (s : State) : Prop where
  incomplete : s.daemon.queueComplete syncRootId = false
  cursor : s.daemon.queueCursors syncRootId = none

/-- When the production is recorded as complete, every row of the root has been
passed to the queue since the scan last wrote it. -/
def Complete (syncRootId : String) (s : State) (s' : State) : Prop :=
  s.daemon.queueComplete syncRootId = false →
    s'.daemon.queueComplete syncRootId = true →
      ∀ e ∈ s'.daemon.store.entries.rows, e.syncRootId = syncRootId →
        e.id ∈ s'.offered

/-- While the production of the root is not complete, a batch of a scan writes
its rows beyond the cursor only. -/
def WritesAhead (syncRootId : String) (s : State) (event : Event) : Prop :=
  match event with
  | .scanBatch j isDirectory listing =>
      s.daemon.queueComplete syncRootId = false →
        ∀ e ∈ (PollingDaemon.scanRoot j isDirectory listing
            s.daemon).store.entries.rows,
          e.syncRootId = syncRootId → Written s.daemon.store.entries e →
            Behind (s.daemon.queueCursors syncRootId) e.relativePath
  | _ => True

/-! ## The invariant -/

section Walk

variable {syncRootId : String} {s s' : State} {event : Event}

/-- While the production is not complete, it has visited the rows of the root
up to its cursor. -/
def Walked (syncRootId : String) (s : State) : Prop :=
  s.daemon.queueComplete syncRootId = false →
    Visited Entry.relativePath
      (EntryRepo.listEntriesBySyncRootId s.daemon.store.entries syncRootId)
      (s.daemon.queueCursors syncRootId) (fun e => e.id ∈ s.offered)

theorem Started.walked (h : Started syncRootId s) : Walked syncRootId s := by
  intro _
  rw [h.cursor]
  exact .start

/-- A row that a batch has not written was offered if it was before. -/
theorem offered_of_not_written {j : String} {isDirectory : Bool}
    {listing : Option DirStream} {e : Entry}
    (he : e ∈ (scanned j isDirectory listing s).daemon.store.entries.rows)
    (hkept : ¬Written s.daemon.store.entries e) (hoffered : e.id ∈ s.offered) :
    e.id ∈ (scanned j isDirectory listing s).offered := by
  refine List.mem_filter.mpr ⟨hoffered, decide_eq_true ?_⟩
  intro g hg hid
  have hsame : g = e := KeyedTable.eq_of_pk_eq _ hg he hid
  rw [hsame]
  exact hkept

/-- A row that a batch has not written stands at its place in the old table. -/
theorem exists_of_not_written {old : EntryTable} {e : Entry}
    (h : ¬Written old e) :
    ∃ f ∈ old.rows, f.id = e.id ∧ f.syncRootId = e.syncRootId ∧
      f.relativePath = e.relativePath := by
  by_contra hnone
  apply h
  intro f hf hid heq
  exact hnone ⟨f, hf, hid, by rw [heq], by rw [heq]⟩

theorem scanRoot_maps (j : String) (isDirectory : Bool)
    (listing : Option DirStream) (d : DaemonState) :
    (PollingDaemon.scanRoot j isDirectory listing d).queueComplete =
      d.queueComplete ∧
    (PollingDaemon.scanRoot j isDirectory listing d).queueCursors =
      d.queueCursors := by
  unfold PollingDaemon.scanRoot
  split
  · exact ⟨rfl, rfl⟩
  · exact ⟨rfl, rfl⟩

theorem walked_scanBatch {j : String} {isDirectory : Bool}
    {listing : Option DirStream}
    (hahead : WritesAhead syncRootId s (.scanBatch j isDirectory listing))
    (h : Walked syncRootId s) :
    Walked syncRootId (scanned j isDirectory listing s) := by
  intro hopen
  obtain ⟨hcomplete, hcursors⟩ := scanRoot_maps j isDirectory listing s.daemon
  have hwas : s.daemon.queueComplete syncRootId = false := by
    rw [← hcomplete]
    exact hopen
  show Visited _ _ ((PollingDaemon.scanRoot j isDirectory listing
    s.daemon).queueCursors syncRootId) _
  rw [hcursors]
  refine Visited.changed (h hwas) ?_
  intro e he
  obtain ⟨hmem, hroot⟩ := (EntryRepo.mem_listEntries _ _ e).mp he
  by_cases hwritten : Written s.daemon.store.entries e
  · exact Or.inl (hahead hwas e hmem hroot hwritten)
  · right
    obtain ⟨f, hf, hid, hfroot, hpath⟩ := exists_of_not_written hwritten
    refine ⟨f, (EntryRepo.mem_listEntries _ _ f).mpr
      ⟨hf, hfroot.trans hroot⟩, hpath, ?_⟩
    intro hoffered
    rw [hid] at hoffered
    exact offered_of_not_written hmem hwritten hoffered

theorem pageOf_eq_page (d : DaemonState) (syncRootId : String) :
    PollingDaemon.pageOf d syncRootId =
      page Entry.relativePath
        (EntryRepo.listEntriesBySyncRootId d.store.entries syncRootId)
        (d.queueCursors syncRootId) kQueueBuildPageSize :=
  EntryRepo.listAfterPath_eq_page _ _ _ _

/-- The rows of a page are passed on. -/
theorem offered_of_page {e : Entry}
    (hopen : s.daemon.queueComplete syncRootId = false)
    (he : e ∈ PollingDaemon.pageOf s.daemon syncRootId) :
    e.id ∈ s.offered ++ passedOn syncRootId s.daemon := by
  unfold passedOn
  rw [hopen, List.mem_append]
  exact Or.inr (List.mem_map.mpr ⟨e, he, rfl⟩)

/-- The walk is not disturbed where no row comes or moves. -/
theorem Walked.frame (h : Walked syncRootId s)
    (hcomplete : s'.daemon.queueComplete syncRootId =
      s.daemon.queueComplete syncRootId)
    (hcursor : s'.daemon.queueCursors syncRootId =
      s.daemon.queueCursors syncRootId)
    (hrows : ∀ e ∈ s'.daemon.store.entries.rows,
      ∃ f ∈ s.daemon.store.entries.rows, f.id = e.id ∧ f.key = e.key)
    (hoffered : ∀ n ∈ s.offered, n ∈ s'.offered) : Walked syncRootId s' := by
  intro hopen
  rw [hcomplete] at hopen
  rw [hcursor]
  refine Visited.changed (h hopen) ?_
  intro e he
  obtain ⟨hmem, hroot⟩ := (EntryRepo.mem_listEntries _ _ e).mp he
  obtain ⟨f, hf, hid, hkey⟩ := hrows e hmem
  simp only [Entry.key, Prod.mk.injEq] at hkey
  refine Or.inr ⟨f, (EntryRepo.mem_listEntries _ _ f).mpr
    ⟨hf, hkey.1.trans hroot⟩, hkey.2, ?_⟩
  intro hold
  rw [← hid]
  exact hoffered _ hold

/-- A page takes the walk to its last row. -/
theorem walked_producePage {env : QueueEnv} {daemon : DaemonState}
    (hpage : PollingDaemon.produceQueuePage env syncRootId
      (s.daemon.scanJobs syncRootId).isNone s.daemon = some daemon)
    (h : Walked syncRootId s) :
    Walked syncRootId
      { daemon := daemon
        offered := s.offered ++ passedOn syncRootId s.daemon } := by
  have hmore : ∀ n ∈ s.offered,
      n ∈ s.offered ++ passedOn syncRootId s.daemon :=
    fun n hn => List.mem_append.mpr (Or.inl hn)
  have hentries := PollingDaemon.entries_produceQueuePage hpage
  have hrows : ∀ e ∈ daemon.store.entries.rows,
      ∃ f ∈ s.daemon.store.entries.rows, f.id = e.id ∧ f.key = e.key := by
    rw [hentries]
    exact fun e he => ⟨e, he, rfl, rfl⟩
  cases hopen : s.daemon.queueComplete syncRootId with
  | true =>
      unfold PollingDaemon.produceQueuePage at hpage
      rw [if_pos hopen] at hpage
      cases hpage
      exact h.frame rfl rfl hrows hmore
  | false =>
      obtain ⟨store, root, complete, cursors, _, _, hturn, rfl⟩ :=
        PollingDaemon.produceQueuePage_cases hpage hopen
      cases hturn with
      | advanced last hlast =>
          intro _
          rw [hentries]
          show Visited _ _ (PollingDaemon.assign s.daemon.queueCursors
            syncRootId (some last.relativePath) syncRootId) _
          rw [PollingDaemon.assign_self]
          rw [pageOf_eq_page] at hlast
          refine Visited.page (h hopen)
            (EntryRepo.strictlySorted_listEntries _ _) hlast
            (fun e _ he => hmore e.id he) ?_
          intro e he
          rw [← pageOf_eq_page] at he
          exact offered_of_page hopen he
      | waiting => exact h.frame rfl rfl hrows hmore
      | finished =>
          intro hstill
          have hdone : PollingDaemon.assign s.daemon.queueComplete syncRootId
            true syncRootId = false := hstill
          rw [PollingDaemon.assign_self] at hdone
          cases hdone

/-- A rescan starts the walk of its root anew, before any row. -/
theorem walked_fullRescan {j : String} (h : Walked syncRootId s) :
    Walked syncRootId
      { s with daemon := PollingDaemon.fullRescan j s.daemon } := by
  have hentries : (PollingDaemon.fullRescan j s.daemon).store.entries =
      s.daemon.store.entries := by
    unfold PollingDaemon.fullRescan
    cases s.daemon.scanJobs j with
    | none => rfl
    | some job => rfl
  by_cases hj : syncRootId = j
  · intro _
    show Visited _ _ (PollingDaemon.assign s.daemon.queueCursors j none
      syncRootId) _
    rw [hj, PollingDaemon.assign_self]
    exact .start
  · refine h.frame (PollingDaemon.assign_other _ _ hj)
      (PollingDaemon.assign_other _ _ hj) ?_ (fun n hn => hn)
    intro e he
    rw [hentries] at he
    exact ⟨e, he, rfl, rfl⟩

/-- The walk goes on over every step whose batch writes ahead of it. -/
theorem Walked.step (hstep : Step s event s')
    (hahead : WritesAhead syncRootId s event) (h : Walked syncRootId s) :
    Walked syncRootId s' := by
  cases hstep with
  | scanBatch j isDirectory listing => exact walked_scanBatch hahead h
  | producePage j env daemon hpage =>
      by_cases hj : syncRootId = j
      · subst hj
        exact walked_producePage hpage h
      · obtain ⟨hcomplete, hcursor⟩ :=
          PollingDaemon.produceQueuePage_other hj hpage
        refine h.frame hcomplete hcursor ?_
          (fun n hn => List.mem_append.mpr (Or.inl hn))
        rw [PollingDaemon.entries_produceQueuePage hpage]
        exact fun e he => ⟨e, he, rfl, rfl⟩
  | fullRescan j => exact walked_fullRescan h
  | runTick env =>
      exact h.frame rfl rfl (fun e he => QueueService.runTick_rows he)
        (fun n hn => hn)

/-- When a page completes the production, nothing is left behind it. -/
theorem complete_of_page {env : QueueEnv} {daemon : DaemonState}
    (hpage : PollingDaemon.produceQueuePage env syncRootId
      (s.daemon.scanJobs syncRootId).isNone s.daemon = some daemon)
    (h : Walked syncRootId s)
    (hopen : s.daemon.queueComplete syncRootId = false)
    (hdone : daemon.queueComplete syncRootId = true) :
    ∀ e ∈ daemon.store.entries.rows, e.syncRootId = syncRootId →
      e.id ∈ s.offered ++ passedOn syncRootId s.daemon := by
  have hentries := PollingDaemon.entries_produceQueuePage hpage
  obtain ⟨_, _, _, _, _, _, hturn, rfl⟩ :=
    PollingDaemon.produceQueuePage_cases hpage hopen
  cases hturn with
  | advanced last =>
      have hstill : s.daemon.queueComplete syncRootId = true := hdone
      rw [hopen] at hstill
      cases hstill
  | waiting =>
      have hstill : s.daemon.queueComplete syncRootId = true := hdone
      rw [hopen] at hstill
      cases hstill
  | finished _ _ hshort =>
      intro e he hroot
      rw [hentries] at he
      rw [pageOf_eq_page] at hshort
      refine Visited.all_of_short (h hopen) hshort
        (fun e _ he => List.mem_append.mpr (Or.inl he)) ?_ e
        ((EntryRepo.mem_listEntries _ _ e).mpr ⟨he, hroot⟩)
      intro f hf
      rw [← pageOf_eq_page] at hf
      exact offered_of_page hopen hf

/-- The page that completes the production is the last one. -/
theorem Walked.complete (hstep : Step s event s')
    (h : Walked syncRootId s) : Complete syncRootId s s' := by
  intro hopen hdone
  cases hstep with
  | scanBatch j isDirectory listing =>
      have hsame : (scanned j isDirectory listing s).daemon.queueComplete =
          s.daemon.queueComplete :=
        (scanRoot_maps j isDirectory listing s.daemon).1
      rw [hsame, hopen] at hdone
      cases hdone
  | producePage j env daemon hpage =>
      by_cases hj : syncRootId = j
      · subst hj
        exact complete_of_page hpage h hopen hdone
      · have hsame := (PollingDaemon.produceQueuePage_other hj hpage).1
        rw [hsame, hopen] at hdone
        cases hdone
  | fullRescan j =>
      have hdone' : PollingDaemon.assign s.daemon.queueComplete j false
          syncRootId = true := hdone
      by_cases hj : syncRootId = j
      · rw [hj, PollingDaemon.assign_self] at hdone'
        cases hdone'
      · rw [PollingDaemon.assign_other _ _ hj, hopen] at hdone'
        cases hdone'
  | runTick env =>
      have hdone' : s.daemon.queueComplete syncRootId = true := hdone
      rw [hopen] at hdone'
      cases hdone'

end Walk

/-! ## Whole runs -/

/-- In a run whose scans write beyond the cursor while the production is not
complete, the production misses no row. -/
theorem production_misses_nothing {syncRootId : String} {s₀ s s' : State}
    {event : Event} (hstart : Started syncRootId s₀)
    (hrun : Run (Guarded Step (WritesAhead syncRootId)) s₀ s)
    (hstep : Step s event s') : Complete syncRootId s s' := by
  have hkeep : Preserves (Guarded Step (WritesAhead syncRootId))
      (Walked syncRootId) := by
    intro a b hguarded ha
    obtain ⟨event, hstep, hahead⟩ := hguarded
    exact ha.step hstep hahead
  exact (hkeep.run hrun hstart.walked).complete hstep

/-! ## A scan that comes back to an earlier path -/

namespace EarlierPath

/-- What the scan records of a file of one byte. -/
def item (path : String) : DirItem :=
  { relative := some path
    kind := some (.regularFile
      { size := some 1, mtime := some 1000000, hash := some "1" }) }

def listing (paths : List String) : DirStream :=
  { items := paths.map item, failed := false }

def root : SyncRoot :=
  { id := "root", localPath := "/r", folderId := "R", mode := .twoWay }

/-- The row of the file `b`, from an earlier scan. -/
def row : Entry :=
  { id := 0, syncRootId := "root", relativePath := "b", isDirectory := false
    size := some 1, mtime := some 1, contentHash := some "1"
    syncState := .pendingUpload, lastSeenScanJobId := some 0 }

/-- The production starts while a rescan waits for the root to be opened. -/
def start : State :=
  { daemon :=
      { store :=
          { roots := [root]
            entries :=
              { rows := [row]
                nextPk := 1
                pkUnique := by decide
                pkFresh := by decide
                keyUnique := by decide }
            queue := QueueRepo.empty }
        disk := FileTree.empty
        scanJobs := fun _ => some { id := 1, cursorPath := none }
        nextScanJobId := 2
        activeScans := fun _ => none
        dirtyPaths := []
        queueCursors := fun _ => none
        queueComplete := fun _ => false }
    offered := [] }

def env : QueueEnv :=
  { cwd := FsPath.parse "/"
    createRootFolder := fun _ => none
    createFolder := fun _ _ => none
    uploadFilesBatch := fun _ => none }

/-- The state after a page. -/
def produced (s : State) : State :=
  { daemon := (PollingDaemon.produceQueuePage env "root"
      (s.daemon.scanJobs "root").isNone s.daemon).getD s.daemon
    offered := s.offered ++ passedOn "root" s.daemon }

/-- A page was produced before the rescan. -/
def paged : State := produced start

/-- The scan then finds these files. -/
def found (paths : List String) : State :=
  scanned "root" true (some (listing paths)) paged

theorem started : Started "root" start := ⟨rfl, rfl⟩

theorem step_paged : Step start (.producePage "root" env) paged :=
  .producePage start "root" env _ rfl

theorem step_found (paths : List String) :
    Step paged (.scanBatch "root" true (some (listing paths)))
      (found paths) :=
  .scanBatch paged "root" true (some (listing paths))

theorem step_last (paths : List String)
    (h : (PollingDaemon.produceQueuePage env "root"
      ((found paths).daemon.scanJobs "root").isNone
        (found paths).daemon).isSome) :
    Step (found paths) (.producePage "root" env) (produced (found paths)) := by
  obtain ⟨daemon, hdaemon⟩ := Option.isSome_iff_exists.mp h
  have hlast := Step.producePage (found paths) "root" env daemon hdaemon
  unfold produced
  rw [hdaemon]
  exact hlast

/-- The run up to the last page, when its steps meet the condition. -/
theorem run_found {meets : State → Event → Prop} (paths : List String)
    (hpage : meets start (.producePage "root" env))
    (hscan : meets paged (.scanBatch "root" true (some (listing paths)))) :
    Run (Guarded Step meets) start (found paths) :=
  .tail (.tail .refl ⟨_, step_paged, hpage⟩) ⟨_, step_found paths, hscan⟩

end EarlierPath

/-- A scan that finds a new file at a later path. -/
theorem production_misses_nothing_laterPath :
    Complete "root" (EarlierPath.found ["b", "c"])
      (EarlierPath.produced (EarlierPath.found ["b", "c"])) :=
  production_misses_nothing EarlierPath.started
    (EarlierPath.run_found ["b", "c"] trivial (by
      intro _
      decide))
    (EarlierPath.step_last ["b", "c"] (by decide))

/-- A new file at an earlier path is missed. -/
theorem not_production_misses_nothing :
    ¬∀ (syncRootId : String) (s₀ s s' : State) (event : Event),
        Started syncRootId s₀ → Run (Guarded Step (fun _ _ => True)) s₀ s →
        Step s event s' → Complete syncRootId s s' := by
  intro h
  have hcomplete := h "root" EarlierPath.start
    (EarlierPath.found ["b", "a"])
    (EarlierPath.produced (EarlierPath.found ["b", "a"]))
    (.producePage "root" EarlierPath.env) EarlierPath.started
    (EarlierPath.run_found ["b", "a"] trivial trivial)
    (EarlierPath.step_last ["b", "a"] (by decide)) (by decide) (by decide)
  revert hcomplete
  decide

end ArkiveSync.QueueProduction
