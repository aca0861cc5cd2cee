import ArkiveSync.Proofs.ScanMirror

/-!
# Resuming a scan over a changed tree

The process exits in the middle of a scan job, the tree changes, and the job is
resumed: it keeps its id, and its new iterator passes over everything up to the
cursor.  Rows written before the exit count as seen, whatever has become of
their files.

When the job is completed, the rows mirror the new tree if and only if it could
be resumed over it: `Resumable` speaks of the rows, the cursor and the tree at
the restart.

## Main results

* `resumed_scan_mirrors`: if the tree is one to resume over, the rows mirror it
  whenever the job is completed; and if the job is not interrupted again, only
  then.
* `not_resumed_scan_mirrors`: a file deleted behind the cursor keeps its row.
-/

namespace ArkiveSync.ScanResume

open Library RootScanner LocalTree ScanMirror

variable {root : SyncRoot} {tree : LocalTree} {job : ScanJob}

/-- The tree is one that the job can be resumed over: what the new iterator
passes over is recorded, of the files behind it none has changed under the same
size and time, and every live row with the id of the job still stands for
something. -/
structure Resumable (root : SyncRoot) (tree : LocalTree) (s : ScanState)
    (job : ScanJob) : Prop where
  passed : ∀ items,
    positionAfterCursor job.cursorPath tree.listing = some items →
    Passed root.id tree job.id s.entries items
  trusted : ∀ items,
    positionAfterCursor job.cursorPath tree.listing = some items →
    TrustedOn root.id items s.entries
  stamped : ∀ rel e, EntryRepo.findEntryByPath s.entries root.id rel = some e →
    e.lastSeenScanJobId = some job.id → e.deleted = false →
    ∃ kind, tree.Scanned rel kind

/-- A batch that succeeds and does not complete the job. -/
def Continues (root : SyncRoot) (tree : LocalTree) (s s' : ScanState) : Prop :=
  ∃ batchSize, scanBatch batchSize root true (some tree.listing) s =
    (s', .succeeded) ∧ s'.job ≠ none

/-! ## A tree to resume over -/

/-- What is recorded can be trusted. -/
theorem trustedOn_of_recorded {t : EntryTable} {jobId : Nat}
    {pre items : List DirItem}
    (hpre : ∀ rel kind, scannedItem rel kind ∈ pre →
      Recorded root.id jobId t rel kind)
    (htrusted : TrustedOn root.id items t) :
    TrustedOn root.id (pre ++ items) t := by
  intro rel file hmem e he hlooks
  rcases List.mem_append.mp hmem with hin | hin
  · obtain ⟨row, hrow, -, -, hdescribes⟩ := hpre rel (.file file) hin
    rw [hrow] at he
    cases he
    exact hdescribes.2.2
  · exact htrusted rel file hin e he hlooks

theorem Resumable.sound {s : ScanState} (h : Resumable root tree s job)
    (hjob : s.job = some job) (hactive : s.activeScan = none)
    (hfresh : FreshJobIds root s) (hid : job.id < s.nextJobId)
    {items : List DirItem}
    (hposition : positionAfterCursor job.cursorPath tree.listing =
      some items) : Sound root tree s := by
  obtain ⟨pre, hsplit, hpre⟩ := h.passed items hposition
  refine ⟨hfresh, ?_, ?_⟩
  · intro other hother
    rw [hjob] at hother
    cases hother
    refine ⟨hid, ?_, h.stamped, h.passed, ?_⟩
    · rw [hsplit]
      exact trustedOn_of_recorded hpre (h.trusted items hposition)
    · intro live hlive
      rw [hactive] at hlive
      cases hlive
  · intro hnone
    rw [hjob] at hnone
    cases hnone

/-- A job whose place cannot be found gets nowhere. -/
theorem stuck_step {s s' : ScanState} (hstep : ScanStep root tree s s')
    (hposition : positionAfterCursor job.cursorPath tree.listing = none)
    (h : s.job = some job ∧ s.activeScan = none) :
    s'.job = some job ∧ s'.activeScan = none := by
  cases hstep with
  | batch batchSize =>
      unfold scanBatch
      split
      · exact h
      · simp only [h.1, h.2, Option.getD_some, Option.bind_some, hposition]
        exact ⟨trivial, trivial⟩
  | rollback nextJobId hle => exact ⟨h.1, rfl⟩
  | restart => exact ⟨h.1, rfl⟩

theorem stuck_never_completes {s s' : ScanState} {batchSize : Nat}
    (hposition : positionAfterCursor job.cursorPath tree.listing = none)
    (h : s.job = some job ∧ s.activeScan = none) :
    ¬ Completes root tree batchSize s s' := by
  intro hcomplete
  have hbatch : ScanStep root tree s
      (RootScanner.scanBatch batchSize root true (some tree.listing) s).1 :=
    .batch s batchSize
  have hstep := stuck_step hbatch hposition h
  rw [hcomplete.1] at hstep
  rw [hcomplete.2] at hstep
  cases hstep.1

/-- Whenever a job is completed over a tree that it could be resumed over, the
rows mirror the tree. -/
theorem Resumable.mirrors {s s₁ s' : ScanState} {batchSize : Nat}
    (h : Resumable root tree s job) (hjob : s.job = some job)
    (hactive : s.activeScan = none) (hfresh : FreshJobIds root s)
    (hid : job.id < s.nextJobId) (hrun : Run (ScanStep root tree) s s₁)
    (hcomplete : Completes root tree batchSize s₁ s') :
    Mirrors tree root.id s'.entries := by
  cases hposition : positionAfterCursor job.cursorPath tree.listing with
  | some items =>
      have hsound := h.sound hjob hactive hfresh hid hposition
      exact ((hsound.run hrun).batch batchSize).2 s' hcomplete
  | none =>
      have hstuck : Preserves (ScanStep root tree)
          (fun s => s.job = some job ∧ s.activeScan = none) :=
        fun _ _ hstep => stuck_step hstep hposition
      exact absurd hcomplete
        (stuck_never_completes hposition (hstuck.run hrun ⟨hjob, hactive⟩))

/-! ## What a batch cannot change -/

/-- What every row that a batch writes leaves true stays true. -/
theorem scanItems_induct {syncRootId : String} {jobId : Nat}
    {P : EntryTable → Prop} {items : List DirItem}
    (hdirectory : ∀ t rel, scannedItem rel .directory ∈ items → P t →
      P (LocalEntryRepo.upsertDirectoryEntry t
        { syncRootId := syncRootId
          relativePath := rel
          lastSeenScanId := jobId }))
    (hfile : ∀ t t' rel probe,
      { relative := some rel, kind := some (.regularFile probe) } ∈ items →
      handleFileEntry t syncRootId jobId rel probe = .stored t' → P t → P t')
    {budget : Nat} {t : EntryTable} {last : Option String} {batch : Batch}
    (h : scanItems syncRootId jobId items budget t last = some batch)
    (ht : P t) : P batch.entries := by
  induction items generalizing budget t last with
  | nil =>
      cases h
      exact ht
  | cons item items ih =>
      have hrest : ∀ {budget : Nat} {t : EntryTable} {last : Option String},
          scanItems syncRootId jobId items budget t last = some batch → P t →
            P batch.entries :=
        ih (fun t rel hmem => hdirectory t rel (List.mem_cons_of_mem _ hmem))
          (fun t t' rel probe hmem =>
            hfile t t' rel probe (List.mem_cons_of_mem _ hmem))
      cases budget with
      | zero =>
          cases h
          exact ht
      | succ budget =>
          obtain ⟨relative, kind⟩ := item
          unfold scanItems at h
          split at h
          next rel hrel hkind =>
              dsimp only at hrel hkind
              subst hrel hkind
              exact hrest h (hdirectory t rel List.mem_cons_self ht)
          next rel probe hrel hkind =>
              dsimp only at hrel hkind
              subst hrel hkind
              split at h
              next => cases h
              next => exact hrest h ht
              next t' hstored =>
                  exact hrest h (hfile t t' rel probe List.mem_cons_self
                    hstored ht)
          next => exact hrest h ht

/-- A row at a path that the items do not name. -/
theorem scanItems_untouched {syncRootId rel : String} {jobId : Nat}
    {items : List DirItem} (hitems : ∀ i ∈ items, i ∈ tree.items)
    (hrel : ∀ kind, scannedItem rel kind ∉ items) {budget : Nat}
    {t : EntryTable} {last : Option String} {batch : Batch}
    (h : scanItems syncRootId jobId items budget t last = some batch) :
    EntryRepo.findEntryByPath batch.entries syncRootId rel =
      EntryRepo.findEntryByPath t syncRootId rel := by
  refine @scanItems_induct syncRootId jobId
    (fun t' => EntryRepo.findEntryByPath t' syncRootId rel =
      EntryRepo.findEntryByPath t syncRootId rel) items ?_ ?_ budget t last
    batch h rfl
  · intro t' other hmem hsame
    rw [LocalEntryRepo.findEntryByPath_upsertDirectory_ne]
    · exact hsame
    · intro heq
      have hother : rel = other := congrArg Prod.snd heq
      rw [← hother] at hmem
      exact hrel .directory hmem
  · intro t' t'' other probe hmem hstored hsame
    obtain ⟨_, _, _, _, _, _, _, _, _, _, rfl⟩ := handleFileEntry_stored hstored
    rw [LocalEntryRepo.findEntryByPath_upsertFile_ne]
    · exact hsame
    · intro heq
      have hother : rel = other := congrArg Prod.snd heq
      obtain ⟨file, hprobe, -⟩ := scanned_of_regularFile (hitems _ hmem)
      rw [hprobe, ← hother] at hmem
      exact hrel (.file file) hmem

/-- A row that has the size and the stored time of its file, but not its
hash. -/
def Stale (syncRootId rel : String) (file : ScannedFile) (t : EntryTable) :
    Prop :=
  ∃ e, EntryRepo.findEntryByPath t syncRootId rel = some e ∧
    looksRecorded (some e) file.size file.mtime = true ∧
    e.contentHash ≠ some file.hash

/-- A scan does not notice it. -/
theorem scanItems_stale {syncRootId rel : String} {jobId : Nat}
    {file : ScannedFile} (hscanned : tree.Scanned rel (.file file))
    {items : List DirItem} (hitems : ∀ i ∈ items, i ∈ tree.items)
    {budget : Nat} {t : EntryTable} {last : Option String} {batch : Batch}
    (h : scanItems syncRootId jobId items budget t last = some batch)
    (hstale : Stale syncRootId rel file t) :
    Stale syncRootId rel file batch.entries := by
  refine scanItems_induct ?_ ?_ h hstale
  · intro t' other hmem ht'
    have hne : rel ≠ other := by
      intro hsame
      subst hsame
      cases hscanned.unique (scanned_of_mem (hitems _ hmem))
    unfold Stale
    rw [LocalEntryRepo.findEntryByPath_upsertDirectory_ne]
    · exact ht'
    · intro heq
      exact hne (congrArg Prod.snd heq)
  · intro t' t'' other probe hmem hstored ht'
    obtain ⟨size, mtime, hash, hashed, hsize, hmtime, -, hhashed, -, hold,
      rfl⟩ := handleFileEntry_stored hstored
    by_cases hother : rel = other
    · subst hother
      obtain ⟨e, he, hlooks, hhash⟩ := ht'
      obtain ⟨found, hprobe, hfound⟩ := scanned_of_regularFile (hitems _ hmem)
      have hsame := hscanned.unique hfound
      rw [ScannedKind.file.injEq] at hsame
      rw [← hsame] at hprobe
      rw [hprobe] at hsize hmtime
      cases hsize
      cases hmtime
      rw [he, hlooks] at hhashed
      obtain ⟨f, hf, hkept⟩ := hold hhashed
      rw [he] at hf
      cases hf
      refine ⟨_, LocalEntryRepo.findEntryByPath_upsertFile_self t' _, ?_⟩
      change t'.lookup (syncRootId, rel) = some e at he
      rw [KeyedTable.upserted_of_some he]
      refine ⟨?_, ?_⟩
      · simp only [looksRecorded, Bool.and_eq_true, Bool.not_eq_true',
          beq_iff_eq, Option.map_eq_some_iff] at hlooks ⊢
        obtain ⟨⟨-, -⟩, m, -, hm⟩ := hlooks
        refine ⟨⟨?_, rfl⟩, toMtimeMs file.mtime, rfl, ?_⟩
        · rw [Entry.deleted, beq_eq_false_iff_ne]
          simp only [LocalEntryRepo.updateFile]
          split
          · simp
          · exact scannedState_ne _ _ _
        · rw [← hm, toMtimeMs, Int.mul_tdiv_cancel _ (by decide)]
      · rw [hkept] at hhash
        exact hhash
    · unfold Stale
      rw [LocalEntryRepo.findEntryByPath_upsertFile_ne]
      · exact ht'
      · intro heq
        exact hother (congrArg Prod.snd heq)

/-! ## An uninterrupted rest of the job -/

/-- The job under way, with all that is left in front of it. -/
structure Along (tree : LocalTree) (job : ScanJob) (items : List DirItem)
    (P : EntryTable → Prop) (s : ScanState) : Prop where
  job : s.job.isSome = true ∧ (currentJob s).id = job.id
  live : ∀ live, Iterates tree.listing s live → ∀ i ∈ live, i ∈ items
  rows : P s.entries

/-- What every batch over the rest of the walk keeps holds of the rows that the
sweep at the end of the job is made over. -/
theorem swept_rows {P : EntryTable → Prop} {items : List DirItem}
    (hP : ∀ live budget t batch, (∀ i ∈ live, i ∈ items) →
      scanItems root.id job.id live budget t none = some batch → P t →
      P batch.entries)
    {s s₁ s' : ScanState} {batchSize : Nat} (hs : Along tree job items P s)
    (hrun : Run (Continues root tree) s s₁)
    (hcomplete : Completes root tree batchSize s₁ s') :
    ∃ t, P t ∧ s'.entries =
      LocalEntryRepo.markEntriesNotSeenInScanDeleted t root.id job.id := by
  have hkeeps : Preserves (Continues root tree) (Along tree job items P) := by
    intro a b hstep ha
    obtain ⟨n, hcall, hjob⟩ := hstep
    rcases scanBatch_cases n root tree.listing a with
      ⟨-, hfailed⟩ | ⟨live, hiterates,
        ⟨-, hthrew⟩ | ⟨batch, hscan, hbatch⟩⟩
    · rw [hfailed] at hcall
      cases hcall
    · rw [hthrew] at hcall
      cases hcall
    · rcases hbatch with ⟨-, hdone⟩ | ⟨-, hdone⟩
      · rw [hdone] at hcall
        cases hcall
        exact absurd rfl hjob
      · rw [hdone] at hcall
        cases hcall
        have hinner := ha.live live hiterates
        refine ⟨⟨rfl, ha.job.2⟩, ?_, ?_⟩
        · intro rest hrest i hi
          rcases hrest with hrest | ⟨hnone, -⟩
          · cases hrest
            exact hinner i ((scanItems_rest hscan).subset hi)
          · cases hnone
        · rw [ha.job.2] at hscan
          exact hP live n a.entries batch hinner hscan ha.rows
  have hend := hkeeps.run hrun hs
  rcases scanBatch_cases batchSize root tree.listing s₁ with
    ⟨-, hfailed⟩ | ⟨live, hiterates,
        ⟨-, hthrew⟩ | ⟨batch, hscan, hbatch⟩⟩
  · rw [Completes, hfailed] at hcomplete
    cases hcomplete.1
  · rw [Completes, hthrew] at hcomplete
    cases hcomplete.1
  · rw [hend.job.2] at hscan
    have hrows := hP live batchSize s₁.entries batch
      (hend.live live hiterates) hscan hend.rows
    rcases hbatch with ⟨-, hdone⟩ | ⟨-, hdone⟩
    · rw [Completes, hdone] at hcomplete
      cases hcomplete.1
      exact ⟨batch.entries, hrows, by rw [hend.job.2]⟩
    · rw [Completes, hdone] at hcomplete
      cases hcomplete.1
      cases hcomplete.2

/-- A job that is not interrupted again leaves a mirror of the tree only if it
could be resumed over it. -/
theorem resumable_of_mirrors {s s₁ s' : ScanState} {batchSize : Nat}
    (hjob : s.job = some job) (hactive : s.activeScan = none)
    (hrun : Run (Continues root tree) s s₁)
    (hcomplete : Completes root tree batchSize s₁ s')
    (hmirrors : Mirrors tree root.id s'.entries) :
    Resumable root tree s job := by
  have hcurrent : currentJob s = job := by
    unfold currentJob
    rw [hjob]
    rfl
  have hstart : ∀ {P : EntryTable → Prop} {items : List DirItem},
      (∀ live, positionAfterCursor job.cursorPath tree.listing = some live →
        ∀ i ∈ live, i ∈ items) → P s.entries → Along tree job items P s := by
    intro P items hlive hrows
    refine ⟨⟨by rw [hjob]; rfl, by rw [hcurrent]⟩, ?_, hrows⟩
    intro live hiterates
    rcases hiterates with hsome | ⟨-, hposition⟩
    · rw [hactive] at hsome
      cases hsome
    · rw [hcurrent] at hposition
      exact hlive live hposition
  have hinner : ∀ live,
      positionAfterCursor job.cursorPath tree.listing = some live →
      ∀ i ∈ live, i ∈ tree.items :=
    fun live hlive => positionAfterCursor_subset hlive
  refine ⟨?_, ?_, ?_⟩
  · intro items hposition
    obtain ⟨pre, happend⟩ := positionAfterCursor_suffix hposition
    have hsplit : tree.items = pre ++ items := happend.symm
    refine ⟨pre, hsplit, ?_⟩
    intro rel kind hpre
    have huntouched : ∀ kind', scannedItem rel kind' ∉ items :=
      fun kind' => scannedItem_apart hsplit hpre
    obtain ⟨t, ht, hswept⟩ := @swept_rows root tree job
      (fun t => EntryRepo.findEntryByPath t root.id rel =
        EntryRepo.findEntryByPath s.entries root.id rel) items
      (by
        intro live budget t batch hlive hscan ht
        have hall : ∀ i ∈ live, i ∈ tree.items := by
          intro i hi
          rw [hsplit]
          exact List.mem_append_right _ (hlive i hi)
        rw [scanItems_untouched hall
          (fun kind' hmem => huntouched kind' (hlive _ hmem)) hscan]
        exact ht)
      s s₁ s' batchSize
      (hstart (by
        intro live hlive
        rw [hposition] at hlive
        cases hlive
        exact fun i hi => hi) rfl) hrun hcomplete
    have hscanned : tree.Scanned rel kind := by
      apply scanned_of_mem
      rw [hsplit]
      exact List.mem_append_left _ hpre
    obtain ⟨e, he, hlive, hdescribes⟩ := Mirrors.row hmirrors hscanned
    rw [hswept] at he
    obtain ⟨hbefore, hseen⟩ := stamped_of_find_sweep he hlive
    rw [ht] at hbefore
    exact ⟨e, hbefore, hlive, hseen, hdescribes⟩
  · intro items hposition rel file hmem e he hlooks
    have hscanned : tree.Scanned rel (.file file) :=
      scanned_of_mem (hinner items hposition _ hmem)
    by_contra hhash
    obtain ⟨t, ⟨f, hf, -, hstale⟩, hswept⟩ := @swept_rows root tree job
      (Stale root.id rel file) tree.items
      (fun live budget t batch hlive hscan ht =>
        scanItems_stale hscanned hlive hscan ht)
      s s₁ s' batchSize (hstart hinner ⟨e, he, hlooks, hhash⟩) hrun hcomplete
    obtain ⟨row, hrow, hlive, hdescribes⟩ := Mirrors.row hmirrors hscanned
    rw [hswept] at hrow
    obtain ⟨hbefore, -⟩ := stamped_of_find_sweep hrow hlive
    rw [hf] at hbefore
    cases hbefore
    exact hstale hdescribes.2.2
  · intro rel e he hseen hlive
    by_contra hgone
    obtain ⟨t, ht, hswept⟩ := @swept_rows root tree job
      (fun t => EntryRepo.findEntryByPath t root.id rel = some e) tree.items
      (by
        intro live budget t batch hlive hscan ht
        rw [scanItems_untouched hlive (fun kind hmem =>
          hgone ⟨kind, scanned_of_mem (hlive _ hmem)⟩) hscan]
        exact ht)
      s s₁ s' batchSize (hstart hinner he) hrun hcomplete
    have hkept := find_sweep_of_stamped ht hseen
    rw [← hswept] at hkept
    exact hgone (Mirrors.scanned hmirrors hkept hlive)

/-- A job is resumed over any tree.  If the tree is one to resume over, the
rows mirror it when the job is completed, however often it is interrupted until
then; and if it is not interrupted again, they mirror it only then. -/
theorem resumed_scan_mirrors {s s₁ s' : ScanState} {batchSize : Nat}
    (hjob : s.job = some job) (hactive : s.activeScan = none)
    (hfresh : FreshJobIds root s) (hid : job.id < s.nextJobId)
    (hcomplete : Completes root tree batchSize s₁ s') :
    (Resumable root tree s job → Run (ScanStep root tree) s s₁ →
      Mirrors tree root.id s'.entries) ∧
    (Run (Continues root tree) s s₁ →
      (Mirrors tree root.id s'.entries ↔ Resumable root tree s job)) := by
  refine ⟨?_, ?_⟩
  · intro hresumable hrun
    exact hresumable.mirrors hjob hactive hfresh hid hrun hcomplete
  · intro hrun
    constructor
    · exact resumable_of_mirrors hjob hactive hrun hcomplete
    · intro hresumable
      refine hresumable.mirrors hjob hactive hfresh hid ?_ hcomplete
      refine hrun.lift id ?_
      rintro a b ⟨n, hcall, -⟩
      have hstep : ScanStep root tree a _ := .batch a n
      rw [hcall] at hstep
      exact hstep

/-- The scan of `SmallScan`, resumed: the rows mirror the tree, as it could be
resumed over it. -/
theorem resumed_scan_mirrors_small :
    Mirrors SmallScan.smallTree "r" SmallScan.completed.entries ↔
      Resumable SmallScan.smallRoot SmallScan.smallTree SmallScan.interrupted
        { id := 0, cursorPath := some "d" } := by
  have hsound : Sound SmallScan.smallRoot SmallScan.smallTree
      SmallScan.start := by
    refine ⟨?_, ?_, fun _ => ⟨rfl, ?_⟩⟩
    · intro rel e k he
      cases he
    · intro job hjob
      cases hjob
    · intro rel file hmem e he
      cases he
  exact (@resumed_scan_mirrors SmallScan.smallRoot SmallScan.smallTree
    { id := 0, cursorPath := some "d" } SmallScan.interrupted
    SmallScan.interrupted SmallScan.completed kMaxScanBatchSize (by decide) rfl
    (hsound.run SmallScan.run).fresh (by decide)
    ⟨Prod.ext rfl (by decide), by decide⟩).2 .refl

/-! ## A file deleted behind the cursor -/

namespace DeletedFile

/-- The files of the example are named by one character each. -/
def fileName (i : Nat) : String := String.ofList [Char.ofNat (256 + i)]

theorem toNat_fileName {i : Nat} (hi : i < 512) :
    (Char.ofNat (256 + i)).toNat = 256 + i := by
  unfold Char.ofNat
  rw [dif_pos (Or.inl (by omega))]
  rfl

theorem fileName_injective {i j : Nat} (hi : i < 512) (hj : j < 512)
    (h : fileName i = fileName j) : i = j := by
  have hchars : Char.ofNat (256 + i) = Char.ofNat (256 + j) := by
    have hlists := congrArg String.toList h
    simpa [fileName] using hlists
  have hvalues := congrArg Char.toNat hchars
  rw [toNat_fileName hi, toNat_fileName hj] at hvalues
  omega

theorem fileName_plain {i : Nat} (hi : i < 512) :
    FsPath.Plain (fileName i) := by
  refine ⟨?_, ?_⟩
  · intro hempty
    have hlists := congrArg String.toList hempty
    simp [fileName] at hlists
  · intro hslash
    simp only [fileName, String.toList_ofList, List.mem_singleton] at hslash
    have hvalues := congrArg Char.toNat hslash
    rw [toNat_fileName hi] at hvalues
    change 47 = 256 + i at hvalues
    omega

/-- Files in one directory. -/
def files : List Nat → Forest LocalLeaf
  | [] => .empty
  | i :: is => .leaf (fileName i) (.file SmallScan.file) (files is)

theorem names_files (is : List Nat) : (files is).names = is.map fileName := by
  induction is with
  | nil => rfl
  | cons i is ih => rw [files, Forest.names, ih, List.map_cons]

theorem files_distinct {is : List Nat} (hnodup : is.Nodup)
    (hlt : ∀ i ∈ is, i < 512) : (files is).Distinct := by
  induction is with
  | nil => exact trivial
  | cons i is ih =>
      rw [List.nodup_cons] at hnodup
      refine ⟨?_, ih hnodup.2 (fun j hj => hlt j (List.mem_cons_of_mem _ hj))⟩
      rw [names_files]
      intro hmem
      obtain ⟨j, hj, hname⟩ := List.mem_map.mp hmem
      have hsame := fileName_injective (hlt j (List.mem_cons_of_mem _ hj))
        (hlt i List.mem_cons_self) hname
      rw [← hsame] at hnodup
      exact hnodup.1 hj

theorem files_plain {is : List Nat} (hlt : ∀ i ∈ is, i < 512) :
    (files is).All FsPath.Plain := by
  induction is with
  | nil => exact trivial
  | cons i is ih =>
      exact ⟨fileName_plain (hlt i List.mem_cons_self),
        ih (fun j hj => hlt j (List.mem_cons_of_mem _ hj))⟩

/-- The files with the given numbers. -/
def filesTree (is : List Nat) (hnodup : is.Nodup) (hlt : ∀ i ∈ is, i < 512) :
    LocalTree where
  forest := files is
  distinct := files_distinct hnodup hlt
  plain := files_plain hlt

theorem nodup_numbers : (List.range (kMaxScanBatchSize + 1)).Nodup :=
  List.nodup_range

theorem lt_of_mem_range : ∀ i ∈ List.range (kMaxScanBatchSize + 1), i < 512 := by
  intro i hi
  have hsize : kMaxScanBatchSize = 500 := rfl
  rw [List.mem_range] at hi
  omega

/-- Before the restart there is one file more than a batch takes. -/
def before : LocalTree :=
  filesTree (List.range (kMaxScanBatchSize + 1)) nodup_numbers lt_of_mem_range

/-- Then the first one is deleted. -/
def after : LocalTree :=
  filesTree (List.range' 1 kMaxScanBatchSize) List.nodup_range' (by
    intro i hi
    have hsize : kMaxScanBatchSize = 500 := rfl
    rw [List.mem_range'_1] at hi
    omega)

theorem items_files (is : List Nat) :
    itemsAt [] (files is) =
      is.map (fun i => scannedItem (fileName i) (.file SmallScan.file)) := by
  induction is with
  | nil => rfl
  | cons i is ih =>
      rw [List.map_cons, ← ih]
      show item ([fileName i], some (.file SmallScan.file)) :: _ = _
      rw [item, FsPath.relativeText_singleton]
      rfl

/-- A batch over files alone goes on until its budget or the files are used
up. -/
theorem length_rest {tree : LocalTree} {root : SyncRoot} {jobId : Nat}
    {items : List DirItem} :
    ∀ {budget : Nat} {t : EntryTable} {last : Option String} {batch : Batch},
      (∀ item ∈ items, item ∈ tree.items) →
      (∀ item ∈ items, ∃ rel kind, item = scannedItem rel kind) →
      TrustedOn root.id items t →
      scanItems root.id jobId items budget t last = some batch →
      batch.rest.length = items.length - budget := by
  induction items with
  | nil =>
      intro budget t last batch _ _ _ h
      cases h
      rw [List.length_nil, Nat.zero_sub]
  | cons item items ih =>
      intro budget t last batch hitems hscanned htrusted h
      cases budget with
      | zero =>
          cases h
          rfl
      | succ budget =>
          obtain ⟨rel, kind, rfl⟩ := hscanned item List.mem_cons_self
          have hhere := scanned_of_mem (hitems _ List.mem_cons_self)
          have hrest : ∀ i ∈ items, i ∈ tree.items :=
            fun i hi => hitems i (List.mem_cons_of_mem _ hi)
          have htrust : TrustedOn root.id items t :=
            fun r f hmem => htrusted r f (List.mem_cons_of_mem _ hmem)
          obtain ⟨t', hwrote, hscan⟩ :=
            scanItems_scanned htrusted jobId budget last
          rw [hscan] at h
          rw [ih hrest (fun i hi => hscanned i (List.mem_cons_of_mem _ hi))
            (hwrote.trustedOn hhere hrest htrust) h, List.length_cons]
          omega

/-- A new iterator over files alone finds its place. -/
theorem position_files (cursor : Option String) {tree : LocalTree}
    (hitems : ∀ item ∈ tree.items, item.relative.isSome = true) :
    ∃ items, positionAfterCursor cursor tree.listing = some items ∧
      items <:+ tree.items := by
  have hposition : ∃ items,
      positionAfterCursor cursor tree.listing = some items := by
    cases cursor with
    | none => exact ⟨_, rfl⟩
    | some c =>
        have hdrop : ∀ items : List DirItem,
            (∀ item ∈ items, item.relative.isSome = true) →
            ∃ rest, dropThrough c false items = some rest := by
          intro items
          induction items with
          | nil => exact fun _ => ⟨[], rfl⟩
          | cons item items ih =>
              intro hall
              obtain ⟨rel, hrel⟩ :=
                Option.isSome_iff_exists.mp (hall item List.mem_cons_self)
              rw [dropThrough, hrel]
              dsimp only
              split
              · exact ⟨items, by simp⟩
              · exact ih (fun i hi => hall i (List.mem_cons_of_mem _ hi))
        obtain ⟨rest, hrest⟩ := hdrop tree.items hitems
        unfold positionAfterCursor LocalTree.listing
        simp only [hrest, Option.map_some]
        exact ⟨_, rfl⟩
  obtain ⟨items, hitems⟩ := hposition
  exact ⟨items, hitems, positionAfterCursor_suffix hitems⟩

theorem items_before : before.items = (List.range (kMaxScanBatchSize + 1)).map
    (fun i => scannedItem (fileName i) (.file SmallScan.file)) :=
  items_files _

theorem items_after : after.items = (List.range' 1 kMaxScanBatchSize).map
    (fun i => scannedItem (fileName i) (.file SmallScan.file)) :=
  items_files _

theorem after_subset : ∀ item ∈ after.items, item ∈ before.items := by
  intro item hitem
  rw [items_after] at hitem
  obtain ⟨i, hi, rfl⟩ := List.mem_map.mp hitem
  rw [items_before]
  refine List.mem_map.mpr ⟨i, ?_, rfl⟩
  rw [List.mem_range'_1] at hi
  rw [List.mem_range]
  omega

theorem files_scanned {is : List Nat} {item : DirItem}
    (h : item ∈ is.map
      (fun i => scannedItem (fileName i) (.file SmallScan.file))) :
    ∃ rel kind, item = scannedItem rel kind := by
  obtain ⟨i, -, rfl⟩ := List.mem_map.mp h
  exact ⟨_, _, rfl⟩

/-- The first batch stops in front of the last file, with the first one
recorded. -/
theorem first_batch : ∃ s job e,
    scanBatch kMaxScanBatchSize SmallScan.smallRoot true (some before.listing)
      SmallScan.start = (s, .succeeded) ∧ s.job = some job ∧
    EntryRepo.findEntryByPath s.entries "r" (fileName 0) = some e ∧
    e.lastSeenScanJobId = some job.id ∧ e.deleted = false ∧
    TrustedOn "r" after.items s.entries := by
  have htrusted : TrustedOn SmallScan.smallRoot.id before.items
      SmallScan.start.entries := by
    intro rel file hmem e he
    cases he
  have hiterates : Iterates before.listing SmallScan.start before.items :=
    iterates_new rfl rfl before
  obtain ⟨batch, done, hscan, hsplit, hhandled, -⟩ :=
    @scanItems_spec SmallScan.smallRoot before (currentJob SmallScan.start).id
      before.items kMaxScanBatchSize SmallScan.start.entries none
      (fun _ h => h) htrusted
  have hlength := length_rest (fun _ h => h)
    (fun item hitem => files_scanned (by rw [← items_before]; exact hitem))
    htrusted hscan
  have hone : batch.rest.length = 1 := by
    rw [hlength, items_before, List.length_map, List.length_range]
    omega
  have hdone : ∀ item ∈ done, item ∈ before.items := by
    intro item hitem
    rw [hsplit]
    exact List.mem_append_left _ hitem
  have hfirst : scannedItem (fileName 0) (.file SmallScan.file) ∈ done := by
    have hcount := congrArg List.length hsplit
    rw [items_before, List.length_map, List.length_range, List.length_append,
      hone] at hcount
    have hsize : kMaxScanBatchSize = 500 := rfl
    cases done with
    | nil =>
        rw [List.length_nil] at hcount
        omega
    | cons item rest =>
        rw [items_before, List.range_succ_eq_map, List.map_cons,
          List.cons_append, List.cons.injEq] at hsplit
        rw [hsplit.1]
        exact List.mem_cons_self
  obtain ⟨e, he, hlive, hseen, -⟩ := hhandled.recorded _ _ hfirst
  rcases scanBatch_cases kMaxScanBatchSize SmallScan.smallRoot before.listing
      SmallScan.start with
    ⟨hdisabled | hnone, -⟩ | ⟨items, hitems, hbatch⟩
  · cases hdisabled
  · exact absurd hiterates (hnone _)
  · rw [hitems.unique hiterates] at hbatch
    rcases hbatch with ⟨hthrew, -⟩ | ⟨batch', hsame, hbatch⟩
    · rw [hscan] at hthrew
      cases hthrew
    · rw [hscan, Option.some.injEq] at hsame
      subst hsame
      rcases hbatch with ⟨hrest, -⟩ | ⟨-, hcall⟩
      · rw [hrest] at hone
        cases hone
      · refine ⟨_, _, e, hcall, rfl, he, hseen, hlive, ?_⟩
        have htrust := hhandled.trusted hdone htrusted
        exact fun rel file hmem => htrust rel file (after_subset _ hmem)

/-- The second one completes the job. -/
theorem second_batch {s : ScanState} (hactive : s.activeScan = none)
    (htrusted : TrustedOn "r" after.items s.entries) :
    ∃ s', Completes SmallScan.smallRoot after kMaxScanBatchSize s s' := by
  have hrelative : ∀ item ∈ after.items, item.relative.isSome = true := by
    intro item hitem
    rw [items_after] at hitem
    obtain ⟨i, -, rfl⟩ := List.mem_map.mp hitem
    rfl
  obtain ⟨items, hposition, hsuffix⟩ :=
    position_files (currentJob s).cursorPath hrelative
  have hinner : ∀ item ∈ items, item ∈ after.items :=
    fun item hitem => hsuffix.subset hitem
  have htrust : TrustedOn SmallScan.smallRoot.id items s.entries :=
    fun rel file hmem => htrusted rel file (hinner _ hmem)
  obtain ⟨batch, done, hscan, -⟩ :=
    @scanItems_spec SmallScan.smallRoot after (currentJob s).id items
      kMaxScanBatchSize s.entries none hinner htrust
  have hlength := length_rest hinner (fun item hitem =>
    files_scanned (by rw [← items_after]; exact hinner item hitem))
    htrust hscan
  have hrest : batch.rest = [] := by
    apply List.eq_nil_of_length_eq_zero
    have hcount := hsuffix.length_le
    rw [items_after, List.length_map, List.length_range'] at hcount
    omega
  rcases scanBatch_cases kMaxScanBatchSize SmallScan.smallRoot after.listing s
    with ⟨hdisabled | hnone, -⟩ | ⟨items', hitems, hbatch⟩
  · cases hdisabled
  · exact absurd (Or.inr ⟨hactive, hposition⟩) (hnone items)
  · have hsame := hitems.unique (Or.inr ⟨hactive, hposition⟩)
    subst hsame
    rcases hbatch with ⟨hthrew, -⟩ | ⟨batch', hsame, hbatch⟩
    · rw [hscan] at hthrew
      cases hthrew
    · rw [hscan, Option.some.injEq] at hsame
      subst hsame
      rcases hbatch with ⟨-, hcall⟩ | ⟨hmore, -⟩
      · exact ⟨_, hcall, rfl⟩
      · exact absurd hrest hmore

/-- The first file is not there any more. -/
theorem first_gone (kind : ScannedKind) :
    ¬ after.Scanned (fileName 0) kind := by
  intro hscanned
  have hmem := mem_of_scanned hscanned
  rw [items_after] at hmem
  obtain ⟨i, hi, hitem⟩ := List.mem_map.mp hmem
  have hname := scannedItem_injective hitem
  have hsize : kMaxScanBatchSize = 500 := rfl
  rw [List.mem_range'_1] at hi
  have hzero := fileName_injective (by omega) (by omega) hname
  omega

end DeletedFile

open DeletedFile SmallScan in
/-- Of 501 files the first 500 are scanned in one batch; the process exits, one
of them is deleted, and the resumed job is completed in another batch.  The row
of the deleted file is still live. -/
theorem not_resumed_scan_mirrors :
    ¬ ∀ (root : SyncRoot) (tree tree' : LocalTree) (s₀ s s₁ s' : ScanState),
      s₀.job = none → s₀.activeScan = none → FreshJobIds root s₀ →
      TrustedOn root.id tree.items s₀.entries →
      Run (ScanStep root tree) s₀ s → s.job.isSome →
      Run (ScanStep root tree') { s with activeScan := none } s₁ →
      Completes root tree' kMaxScanBatchSize s₁ s' →
      Mirrors tree' root.id s'.entries := by
  intro hclaim
  obtain ⟨s, job, e, hcall, hjob, he, hseen, hlive, htrusted⟩ := first_batch
  obtain ⟨s', hcomplete⟩ :=
    @second_batch { s with activeScan := none } rfl htrusted
  have hstep : ScanStep smallRoot before start s := by
    have hbatch : ScanStep smallRoot before start _ :=
      .batch start kMaxScanBatchSize
    rw [hcall] at hbatch
    exact hbatch
  have hmirrors := hclaim smallRoot before after start s _ s' rfl rfl
    (by intro rel e k he; cases he) (by intro rel file hmem e he; cases he)
    (.single hstep) (by rw [hjob]; rfl) .refl hcomplete
  have hresumable := @resumable_of_mirrors smallRoot after job
    { s with activeScan := none } _ s' kMaxScanBatchSize hjob rfl .refl
    hcomplete hmirrors
  obtain ⟨kind, hscanned⟩ :=
    hresumable.stamped (fileName 0) e he hseen hlive
  exact first_gone kind hscanned

end ArkiveSync.ScanResume
