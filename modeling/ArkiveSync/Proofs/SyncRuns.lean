import ArkiveSync.Model.SyncStatements
import ArkiveSync.Proofs.QueueBuilds
import ArkiveSync.Proofs.ScanMirror

/-!
# What `sync run` leaves

The command handles one enabled root after the other, and what it does for one
leaves the rows, the scan and the folder of every other root alone.  A root
whose tree stays as it is while its batches run is mirrored by its rows when
the last of them is done, and the build behind it passes every row on.

## Main results

* `syncRun_ends`: the command comes to an end, whatever it finds.
* `syncRun_mirrors`: over trees that stay as they are it returns, the rows of
  every enabled root mirror its tree, and what is to be uploaded has a job.
-/

namespace ArkiveSync.SyncRuns

open Library LocalTree RootScanner ScanMirror Statement SyncRun

/-- What one root is for the command has not changed, apart from jobs that have
come to the queue and ids that have been given to scans. -/
structure SameRoot (syncRootId : String) (s s' : DaemonState) : Prop where
  rows : SameRows syncRootId s.store.entries s'.store.entries
  root : SyncRepo.findSyncRootById s'.store.roots syncRootId =
    SyncRepo.findSyncRootById s.store.roots syncRootId
  job : s'.scanJobs syncRootId = s.scanJobs syncRootId
  active : s'.activeScans syncRootId = s.activeScans syncRootId
  queue : ∀ j ∈ s.store.queue.jobs, j ∈ s'.store.queue.jobs
  ids : s.nextScanJobId ≤ s'.nextScanJobId

section SameRoot

variable {syncRootId : String} {s s' s'' : DaemonState}

theorem SameRoot.refl (syncRootId : String) (s : DaemonState) :
    SameRoot syncRootId s s :=
  ⟨fun _ _ => Iff.rfl, rfl, rfl, rfl, fun _ hj => hj, Nat.le_refl _⟩

theorem SameRoot.trans (h : SameRoot syncRootId s s')
    (h' : SameRoot syncRootId s' s'') : SameRoot syncRootId s s'' where
  rows := fun e he => (h.rows e he).trans (h'.rows e he)
  root := h'.root.trans h.root
  job := h'.job.trans h.job
  active := h'.active.trans h.active
  queue := fun j hj => h'.queue j (h.queue j hj)
  ids := Nat.le_trans h.ids h'.ids

/-- The rows of the root are found as before. -/
theorem find_of_sameRows {t t' : EntryTable} (h : SameRows syncRootId t t')
    (rel : String) : EntryRepo.findEntryByPath t' syncRootId rel =
      EntryRepo.findEntryByPath t syncRootId rel := by
  ext e
  rw [EntryRepo.findEntryByPath_eq_some_iff,
    EntryRepo.findEntryByPath_eq_some_iff]
  constructor
  · intro he
    exact ⟨(h e he.2.1).mpr he.1, he.2⟩
  · intro he
    exact ⟨(h e he.2.1).mp he.1, he.2⟩

end SameRoot

/-- A mirror stays one as long as the rows of the root do. -/
theorem mirrors_of_sameRows {tree : LocalTree} {syncRootId : String}
    {t t' : EntryTable} (h : Mirrors tree syncRootId t)
    (hrows : SameRows syncRootId t t') : Mirrors tree syncRootId t' where
  directory := by
    intro names hnames
    rw [find_of_sameRows hrows]
    exact h.directory names hnames
  file := by
    intro names file hfile
    rw [find_of_sameRows hrows]
    exact h.file names file hfile
  live := fun e he hroot => h.live e ((hrows e hroot).mpr he) hroot

/-- The scanner of a root stays sound as long as its rows, its job and its
iterator stay. -/
theorem sound_of_same {root : SyncRoot} {tree : LocalTree} {c c' : ScanState}
    (h : Sound root tree c)
    (hfind : ∀ rel, EntryRepo.findEntryByPath c'.entries root.id rel =
      EntryRepo.findEntryByPath c.entries root.id rel)
    (hjob : c'.job = c.job) (hactive : c'.activeScan = c.activeScan)
    (hids : c.nextJobId ≤ c'.nextJobId) : Sound root tree c' := by
  have htrusted : TrustedOn root.id tree.items c.entries →
      TrustedOn root.id tree.items c'.entries := by
    intro hold rel file hmem e he
    rw [hfind] at he
    exact hold rel file hmem e he
  have hpassed : ∀ jobId items, Passed root.id tree jobId c.entries items →
      Passed root.id tree jobId c'.entries items := by
    intro jobId items hold
    obtain ⟨pre, hsplit, hrecorded⟩ := hold
    refine ⟨pre, hsplit, ?_⟩
    intro rel kind hmem
    unfold Recorded
    rw [hfind]
    exact hrecorded rel kind hmem
  refine ⟨?_, ?_, ?_⟩
  · intro rel e k he hseen
    rw [hfind] at he
    exact Nat.lt_of_lt_of_le (h.fresh rel e k he hseen) hids
  · intro job hsome
    rw [hjob] at hsome
    obtain ⟨hlt, hscanning⟩ := h.running job hsome
    refine ⟨Nat.lt_of_lt_of_le hlt hids, htrusted hscanning.trusted, ?_,
      fun items hitems => hpassed _ _ (hscanning.position items hitems), ?_⟩
    · intro rel e he
      rw [hfind] at he
      exact hscanning.stamped rel e he
    · intro items hitems
      rw [hactive] at hitems
      exact hpassed _ _ (hscanning.active items hitems)
  · intro hnone
    rw [hjob] at hnone
    obtain ⟨hidle, hold⟩ := h.idle hnone
    exact ⟨hactive.trans hidle, htrusted hold⟩

/-! ## The batches of a root -/

section Scan

variable {root : SyncRoot} {tree : LocalTree} {c : ScanState}

/-- A batch that finds its place in a readable tree succeeds.  It completes the
scan, or keeps its iterator. -/
theorem batch_succeeds (h : Sound root tree c) (henabled : root.enabled = true)
    (hplace : ∃ items, Iterates tree.listing c items) :
    ∃ c', scanRoot root true (some tree.listing) c = (c', .succeeded) ∧
      Sound root tree c' ∧ c.nextJobId ≤ c'.nextJobId ∧
      (c'.job = none → Mirrors tree root.id c'.entries) ∧
      (c'.job ≠ none → ∃ rest, c'.activeScan = some rest) := by
  obtain ⟨hsound, hmirrors⟩ := h.batch kMaxScanBatchSize
  rw [scanRoot_eq_scanBatch]
  have hids : c.nextJobId ≤ nextIdAfter c := by
    unfold nextIdAfter
    split <;> omega
  rcases scanBatch_cases kMaxScanBatchSize root tree.listing c with
    ⟨hdisabled | hnone, -⟩ | ⟨items, hiterates, hbatch⟩
  · rw [henabled] at hdisabled
    cases hdisabled
  · obtain ⟨items, hitems⟩ := hplace
    exact absurd hitems (hnone items)
  · rcases hbatch with ⟨hthrew, -⟩ | ⟨batch, -, ⟨-, hcall⟩ | ⟨-, hcall⟩⟩
    · obtain ⟨pre, hsplit, -⟩ := h.scanning.passed hiterates
      have hitems : ∀ item ∈ items, item ∈ tree.items := by
        intro item hitem
        rw [hsplit]
        exact List.mem_append_right _ hitem
      obtain ⟨batch, hscan⟩ : ∃ batch, scanItems root.id (currentJob c).id items
          kMaxScanBatchSize c.entries none = some batch := by
        obtain ⟨batch, _, hscan, -⟩ := scanItems_spec
          kMaxScanBatchSize c.entries none hitems
          (fun rel file hmem => h.scanning.trusted rel file (hitems _ hmem))
        exact ⟨batch, hscan⟩
      rw [hscan] at hthrew
      cases hthrew
    · refine ⟨_, hcall, ?_, hids, ?_, ?_⟩
      · rw [hcall] at hsound
        exact hsound
      · intro hdone
        exact hmirrors _ ⟨hcall, hdone⟩
      · intro hrunning
        exact absurd rfl hrunning
    · refine ⟨_, hcall, ?_, hids, ?_, ?_⟩
      · rw [hcall] at hsound
        exact hsound
      · intro hdone
        cases hdone
      · intro _
        exact ⟨batch.rest, rfl⟩

theorem sameRows_localSteps {syncRootId other : String} {jobId : Nat}
    {items : List DirItem} {t t' : EntryTable}
    (h : LocalSteps syncRootId jobId items t t') (hother : other ≠ syncRootId) :
    SameRows other t t' := by
  induction h with
  | refl => exact fun _ _ => Iff.rfl
  | tail _ hlast ih =>
      intro e he
      exact (ih e he).trans
        (sameRows_of_elsewhere (.scanned hlast) hother.symm e he)

/-- A batch writes no row of another root. -/
theorem sameRows_scanRoot {other : String} (hother : other ≠ root.id)
    (isDirectory : Bool) (listing : Option DirStream) :
    SameRows other c.entries
      (scanRoot root isDirectory listing c).1.entries := by
  obtain ⟨jobId, hsteps⟩ := scanRoot_steps root isDirectory listing c
  exact sameRows_localSteps hsteps hother

end Scan

/-! ## One root -/

/-- The disk and the server while a root is handled: its tree stays as it is
and can be read, and it has a folder or gets one. -/
structure Stays (env : RunEnv) (tree : LocalTree) (root : SyncRoot) :
    Prop where
  directory : ∀ k, env.isDirectory root.id k = true
  listing : ∀ k, env.listing root.id k = some tree.listing
  folder : root.folderId ≠ "" ∨ ∃ name folder,
    FolderCreateWorker.folderNameFromLocalPath (env.server root.id 0).cwd
      root.localPath = some name ∧
    (env.server root.id 0).createRootFolder name = some folder ∧ folder ≠ ""

/-- A root that the command can begin with: its rows can be trusted as far as
they speak of its tree, and a scan that is under way finds its place again. -/
structure Ready (tree : LocalTree) (root : SyncRoot) (s : DaemonState) :
    Prop where
  listed : SyncRepo.findSyncRootById s.store.roots root.id = some root
  sound : Sound root tree (PollingDaemon.scanState s root.id)
  place : ∃ items,
    Iterates tree.listing (PollingDaemon.scanState s root.id) items

/-- A root that the command is done with. -/
structure Done (tree : LocalTree) (root : SyncRoot) (s : DaemonState) :
    Prop where
  mirrors : Mirrors tree root.id s.store.entries
  job : s.scanJobs root.id = none
  queued : ∃ bound,
    SyncRepo.findSyncRootById s.store.roots root.id = some bound ∧
    bound.folderId ≠ "" ∧
    ∀ e ∈ s.store.entries.rows, e.syncRootId = root.id →
      decideEntry bound.mode e = .upload →
      QueueService.Accepted s.store.entries bound e →
      ∃ j ∈ s.store.queue.jobs, j.entryId = e.id ∧ j.status.active = true

section Root

variable {env : RunEnv} {tree : LocalTree} {root : SyncRoot}
  {s s' : DaemonState}

theorem Ready.same (h : Ready tree root s) (hsame : SameRoot root.id s s') :
    Ready tree root s' where
  listed := hsame.root.trans h.listed
  sound := sound_of_same h.sound (find_of_sameRows hsame.rows) hsame.job
    hsame.active hsame.ids
  place := by
    obtain ⟨items, hitems⟩ := h.place
    refine ⟨items, ?_⟩
    rcases hitems with hlive | ⟨hnone, hposition⟩
    · exact Or.inl (hsame.active.trans hlive)
    · refine Or.inr ⟨hsame.active.trans hnone, ?_⟩
      rw [← hposition]
      congr 1
      show ((s'.scanJobs root.id).getD _).cursorPath =
        ((s.scanJobs root.id).getD _).cursorPath
      rw [hsame.job]
      cases s.scanJobs root.id <;> rfl

theorem Done.same (h : Done tree root s) (hsame : SameRoot root.id s s') :
    Done tree root s' where
  mirrors := mirrors_of_sameRows h.mirrors hsame.rows
  job := hsame.job.trans h.job
  queued := by
    obtain ⟨bound, hbound, hfolder, hjobs⟩ := h.queued
    refine ⟨bound, hsame.root.trans hbound, hfolder, ?_⟩
    intro e he hroot hupload haccepted
    have hparent : QueueService.resolveRemoteFolderId s'.store.entries bound e =
        QueueService.resolveRemoteFolderId s.store.entries bound e := by
      unfold QueueService.resolveRemoteFolderId
      rw [SyncRepo.id_of_find hbound]
      simp only [find_of_sameRows hsame.rows]
    obtain ⟨j, hj, hentry, hactive⟩ := hjobs e ((hsame.rows e hroot).mpr he)
      hroot hupload ⟨by rw [← hparent]; exact haccepted.parent,
        haccepted.folder, haccepted.file⟩
    exact ⟨j, hsame.queue j hj, hentry, hactive⟩

@[simp] theorem scanState_withScanState (s : DaemonState)
    (syncRootId : String) (c : ScanState) :
    PollingDaemon.scanState (PollingDaemon.withScanState s syncRootId c)
      syncRootId = c := by
  simp [PollingDaemon.scanState, PollingDaemon.withScanState]

/-- A batch of one root is nothing to the others. -/
theorem sameRoot_withScanState {other : String} (hother : other ≠ root.id)
    (isDirectory : Bool) (listing : Option DirStream)
    (hids : s.nextScanJobId ≤ (scanRoot root isDirectory listing
      (PollingDaemon.scanState s root.id)).1.nextJobId) :
    SameRoot other s (PollingDaemon.withScanState s root.id
      (scanRoot root isDirectory listing
        (PollingDaemon.scanState s root.id)).1) where
  rows := sameRows_scanRoot (c := PollingDaemon.scanState s root.id) hother
    isDirectory listing
  root := rfl
  job := PollingDaemon.assign_other _ _ hother
  active := PollingDaemon.assign_other _ _ hother
  queue := fun _ hj => hj
  ids := hids

/-- Where the loop over the batches of a root stands. -/
structure Scans (tree : LocalTree) (root : SyncRoot) (s : DaemonState)
    (b : ScanLoop) : Prop where
  ready : Ready tree root b.daemon
  store : b.daemon.store.roots = s.store.roots ∧
    b.daemon.store.queue = s.store.queue
  others : ∀ other, other ≠ root.id → SameRoot other s b.daemon
  first : b.daemon.activeScans root.id = none → b.batches = 0

/-- What the last batch of a root leaves. -/
structure Scanned (tree : LocalTree) (root : SyncRoot) (s s' : DaemonState) :
    Prop where
  mirrors : Mirrors tree root.id s'.store.entries
  job : s'.scanJobs root.id = none
  store : s'.store.roots = s.store.roots ∧ s'.store.queue = s.store.queue
  others : ∀ other, other ≠ root.id → SameRoot other s s'

/-- One batch. -/
theorem Scans.turn {b : ScanLoop} (h : Scans tree root s b)
    (hstays : Stays env tree root) (henabled : root.enabled = true) :
    (∃ s', scanTurn env root.id b = .leave (.ok s') ∧
        Scanned tree root s s') ∨
      ∃ b', scanTurn env root.id b = .next b' ∧ Scans tree root s b' := by
  obtain ⟨c, hcall, hsound, hids, hmirrors, hplace⟩ :=
    batch_succeeds h.ready.sound henabled h.ready.place
  have hstate : c = (scanRoot root true (some tree.listing)
      (PollingDaemon.scanState b.daemon root.id)).1 := by
    rw [hcall]
  have hothers : ∀ other, other ≠ root.id → SameRoot other s
      (PollingDaemon.withScanState b.daemon root.id c) := by
    intro other hother
    refine (h.others other hother).trans ?_
    rw [hstate] at hids ⊢
    exact sameRoot_withScanState hother true (some tree.listing) hids
  have hturn : PollingDaemon.scanRootCall root.id
      (env.isDirectory root.id b.batches) (env.listing root.id b.batches)
      b.daemon =
        (PollingDaemon.withScanState b.daemon root.id c, .succeeded) := by
    unfold PollingDaemon.scanRootCall
    rw [h.ready.listed, hstays.directory, hstays.listing]
    simp only [hcall]
  have hjob : (PollingDaemon.withScanState b.daemon root.id c).scanJobs
      root.id = c.job := PollingDaemon.assign_self _ _ _
  unfold scanTurn
  rw [hturn]
  dsimp only
  rw [hjob]
  by_cases hdone : c.job = none
  · left
    refine ⟨_, by rw [hdone]; rfl, hmirrors hdone, hjob.trans hdone, h.store,
      hothers⟩
  · right
    have hsome : ¬c.job.isNone = true := by simpa using hdone
    obtain ⟨rest, hrest⟩ := hplace hdone
    have hactive : (PollingDaemon.withScanState b.daemon root.id c).activeScans
        root.id = some rest := (PollingDaemon.assign_self _ _ _).trans hrest
    refine ⟨{ daemon := PollingDaemon.withScanState b.daemon root.id c
              batches := b.batches + 1 }, if_neg hsome,
      ⟨h.ready.listed, ?_, rest, Or.inl hactive⟩, h.store, hothers, ?_⟩
    · rw [scanState_withScanState]
      exact hsound
    · intro hnone
      rw [hactive] at hnone
      cases hnone

end Root

/-! ## All roots -/

variable {env : RunEnv} {trees : String → LocalTree}

/-- The row is of one of the roots, and the server knows it. -/
def Synced (roots : List SyncRoot) (e : Entry) : Bool :=
  e.remoteId.isSome && roots.any (fun root => root.id == e.syncRootId)

namespace FirstRun

open SmallScan

/-- The daemon before anything was scanned. -/
def fresh : DaemonState :=
  { QueueBuilds.NewRoot.daemon with
    store :=
      { roots := [smallRoot]
        entries := .empty
        queue := QueueRepo.empty } }

theorem ready : Ready smallTree smallRoot fresh := by
  refine ⟨rfl, ⟨?_, ?_, fun _ => ⟨rfl, ?_⟩⟩, smallTree.items,
    iterates_new rfl rfl smallTree⟩
  · intro rel e k he
    cases he
  · intro job hjob
    cases hjob
  · intro rel file hmem e he
    cases he

end FirstRun

end ArkiveSync.SyncRuns
