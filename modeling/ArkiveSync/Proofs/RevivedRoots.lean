import ArkiveSync.Model.RemoteSyncService
import ArkiveSync.Proofs.ScanMirror

/-!
# A root that was deleted remotely and is added again

`markRootRemoteDeleted` leaves every row of the root as a tombstone: deleted on
both sides, with no conflict and with its state `deleted`.  A local scan that
meets a tombstone clears its remote identity together with the marks, whatever
kind the row was of before; what it does not meet, it leaves a tombstone.

## Main results

* `LocalStep.settles`: a statement of a scan leaves tombstones and rows that
  are like new.
* `revives_cleanly`: after a completed scan the rows on the disk are to be
  uploaded, and nothing is to be done about any other.
-/

namespace ArkiveSync.RevivedRoots

open Library RootScanner LocalTree ScanMirror

/-! ## Tombstones and rows that are like new -/

/-- The row of something deleted on both sides. -/
structure Tombstone (e : Entry) : Prop where
  state : e.deleted = true
  local_ : e.localDeletedAt.isSome = true
  remote : e.remoteDeletedAt.isSome = true
  conflict : e.conflictState = some "none"

/-- A row that knows of no remote object. -/
structure LikeNew (e : Entry) : Prop where
  remoteId : e.remoteId = none
  remoteDeleted : e.remoteDeletedAt = none
  localDeleted : e.localDeletedAt = none
  updated : e.remoteUpdatedAt = none
  synced : e.syncedRemoteUpdatedAt = none
  conflict : e.conflictState = some "none"

/-- Nothing is to be done about a tombstone. -/
theorem Tombstone.noop {e : Entry} (h : Tombstone e) (mode : SyncMode) :
    decideEntry mode e = .noop := by
  have hstate : classify e =
      { localExists := false, remoteExists := false, localDeleted := true
        remoteDeleted := true, localDirty := false, remoteDirty := false
        isDirectory := e.isDirectory, hasConflict := false } := by
    simp [classify, h.local_, h.remote, h.conflict]
  unfold decideEntry
  rw [hstate]
  cases mode <;> rfl

/-- A row that is like new is uploaded by the modes that upload. -/
theorem LikeNew.upload {e : Entry} (h : LikeNew e) {mode : SyncMode}
    (hmode : mode = .twoWay ∨ mode = .uploadOnly) :
    decideEntry mode e = .upload := by
  have hstate : classify e =
      { localExists := true, remoteExists := false, localDeleted := false
        remoteDeleted := false
        localDirty := e.contentHash != e.syncedContentHash
        remoteDirty := false
        isDirectory := e.isDirectory, hasConflict := false } := by
    simp [classify, h.remoteId, h.remoteDeleted, h.localDeleted, h.updated,
      h.synced, h.conflict]
  unfold decideEntry
  rw [hstate]
  rcases hmode with rfl | rfl
  · simp [SyncPolicy.decide, SyncPolicy.decideTwoWay]
  · simp [SyncPolicy.decide, SyncPolicy.decideUploadOnly]

/-- Every row is left a tombstone, whatever it was. -/
theorem tombstone_of_marked {t : EntryTable} {syncRootId now : String}
    {e : Entry} (he : e ∈ (RemoteEntryRepo.markRootRemoteDeleted t syncRootId
      now).rows) (hroot : e.syncRootId = syncRootId) : Tombstone e := by
  obtain ⟨f, hf, rfl⟩ := (t.mem_modify _ _ _ _ e).mp he
  split at hroot
  next hmatch =>
      rw [if_pos hmatch]
      exact ⟨rfl, rfl, rfl, rfl⟩
  next hmatch => exact absurd (beq_iff_eq.mpr hroot) hmatch

/-! ## What a scan does to them -/

/-- Each row of the root is a tombstone, or it is like new and stands for
something of the tree. -/
def Settled (syncRootId : String) (tree : LocalTree) (t : EntryTable) : Prop :=
  ∀ e ∈ t.rows, e.syncRootId = syncRootId →
    Tombstone e ∨ LikeNew e ∧ ∃ kind, tree.Scanned e.relativePath kind

theorem likeNew_updateDirectory {u : DirectoryEntryUpsert} {e : Entry}
    (h : Tombstone e ∨ LikeNew e) :
    LikeNew (LocalEntryRepo.updateDirectory u e) := by
  rcases h with h | h
  · constructor <;>
      simp [LocalEntryRepo.updateDirectory, LocalEntryRepo.unlessDeleted,
        h.local_]
  · constructor <;>
      simp [LocalEntryRepo.updateDirectory, LocalEntryRepo.unlessDeleted,
        h.localDeleted, h.remoteId, h.remoteDeleted, h.updated, h.synced,
        h.conflict]

theorem likeNew_updateFile {u : FileEntryUpsert} {e : Entry}
    (h : Tombstone e ∨ LikeNew e) : LikeNew (LocalEntryRepo.updateFile u e) := by
  rcases h with h | h
  · constructor <;>
      simp [LocalEntryRepo.updateFile, LocalEntryRepo.unlessDeleted, h.local_]
  · constructor <;>
      simp [LocalEntryRepo.updateFile, LocalEntryRepo.unlessDeleted,
        h.localDeleted, h.remoteId, h.remoteDeleted, h.updated, h.synced,
        h.conflict]

variable {root : SyncRoot} {tree : LocalTree} {jobId : Nat}

/-- An upsert at a path of the tree leaves a row there that is like new, if it
turns tombstones and such rows into such rows. -/
theorem settled_upsert {syncRootId rel : String} {kind : ScannedKind}
    (hscanned : tree.Scanned rel kind) {t : EntryTable}
    (h : Settled syncRootId tree t) {new : Nat → Entry} {f : Entry → Entry}
    {hnewPk : ∀ n, (new n).id = n}
    {hnewKey : ∀ n, (new n).key = (syncRootId, rel)}
    {hpk : ∀ e, (f e).id = e.id} {hkey : ∀ e, (f e).key = e.key}
    (hnew : ∀ n, LikeNew (new n))
    (hupdate : ∀ e, Tombstone e ∨ LikeNew e → LikeNew (f e)) :
    Settled syncRootId tree
      (t.upsert (syncRootId, rel) new f hnewPk hnewKey hpk hkey) := by
  intro e he hroot
  rcases (t.mem_upsert _ _ _ _ _ _ _ e).mp he with rfl | ⟨hold, -⟩
  · right
    have hpath : (t.upserted (syncRootId, rel) new f).relativePath = rel :=
      congrArg Prod.snd (t.key_upserted (syncRootId, rel) new f hnewKey hkey)
    refine ⟨?_, kind, by rw [hpath]; exact hscanned⟩
    cases hlookup : t.lookup (syncRootId, rel) with
    | none =>
        rw [KeyedTable.upserted_of_none hlookup]
        exact hnew _
    | some g =>
        rw [KeyedTable.upserted_of_some hlookup]
        have hg : g.syncRootId = syncRootId :=
          congrArg Prod.fst (KeyedTable.key_of_lookup hlookup)
        exact hupdate g
          ((h g (KeyedTable.mem_of_lookup hlookup) hg).imp_right And.left)
  · exact h e hold hroot

/-- A statement of a scan of the tree keeps the rows settled. -/
theorem LocalStep.settles {syncRootId : String} {t t' : EntryTable}
    (hstep : LocalStep syncRootId jobId tree.items t t')
    (h : Settled syncRootId tree t) : Settled syncRootId tree t' := by
  cases hstep with
  | directory rel hitem =>
      have hscanned : tree.Scanned rel .directory := scanned_of_mem hitem
      refine settled_upsert hscanned h ?_ (fun e => likeNew_updateDirectory)
      intro n
      exact ⟨rfl, rfl, rfl, rfl, rfl, rfl⟩
  | file _ rel probe hitem hstored =>
      obtain ⟨file, -, hscanned⟩ := scanned_of_regularFile hitem
      obtain ⟨_, _, _, _, -, -, -, -, -, -, rfl⟩ :=
        handleFileEntry_stored hstored
      refine settled_upsert hscanned h ?_ (fun e => likeNew_updateFile)
      intro n
      exact ⟨rfl, rfl, rfl, rfl, rfl, rfl⟩
  | mark p hroot =>
      intro e he heroot
      obtain ⟨f, hf, rfl⟩ := (LocalEntryRepo.mem_markDeleted t p e).mp he
      by_cases hp : p f = true
      · rw [if_pos hp] at heroot ⊢
        rcases h f hf heroot with htomb | ⟨hnew, hscanned⟩
        · exact Or.inl ⟨rfl, htomb.local_, htomb.remote, htomb.conflict⟩
        · exact Or.inr ⟨⟨hnew.remoteId, hnew.remoteDeleted, hnew.localDeleted,
            hnew.updated, hnew.synced, hnew.conflict⟩, hscanned⟩
      · rw [if_neg hp] at heroot ⊢
        exact h f hf heroot

/-- A batch of a scan under way is a run of statements over the tree. -/
theorem scanBatch_statements {s : ScanState} (h : Sound root tree s)
    (batchSize : Nat) :
    ∃ jobId, LocalSteps root.id jobId tree.items s.entries
      (scanBatch batchSize root true (some tree.listing) s).1.entries := by
  rcases scanBatch_cases batchSize root tree.listing s with
    ⟨-, hfailed⟩ | ⟨items, hiterates, hbatch⟩
  · rw [hfailed]
    exact ⟨0, .refl⟩
  · obtain ⟨pre, hsplit, -⟩ := h.scanning.passed hiterates
    have hsub : ∀ item ∈ items, item ∈ tree.items := by
      intro item hitem
      rw [hsplit]
      exact List.mem_append_right _ hitem
    rcases hbatch with ⟨-, hthrew⟩ | ⟨batch, hscan, hdone⟩
    · rw [hthrew]
      exact ⟨0, .refl⟩
    · have hsteps := (scanItems_steps hscan).mono hsub
      rcases hdone with ⟨-, hcall⟩ | ⟨-, hcall⟩
      · rw [hcall]
        refine ⟨_, hsteps.tail (.mark _ _ ?_)⟩
        intro e he
        simp only [Bool.and_eq_true, beq_iff_eq] at he
        exact he.1.1
      · rw [hcall]
        exact ⟨_, hsteps⟩

theorem settled_batch {s : ScanState} (hsound : Sound root tree s)
    (h : Settled root.id tree s.entries) (batchSize : Nat) :
    Settled root.id tree
      (scanBatch batchSize root true (some tree.listing) s).1.entries := by
  obtain ⟨jobId, hsteps⟩ := scanBatch_statements hsound batchSize
  generalize (scanBatch batchSize root true (some tree.listing) s).1.entries =
    t' at hsteps
  induction hsteps with
  | refl => exact h
  | tail _ hstep ih => exact LocalStep.settles hstep ih

/-- So does every run of the scan. -/
theorem settled_run {s s' : ScanState} (hsound : Sound root tree s)
    (h : Settled root.id tree s.entries)
    (hrun : Run (ScanStep root tree) s s') :
    Settled root.id tree s'.entries := by
  induction hrun with
  | refl => exact h
  | tail hbefore hstep ih =>
      cases hstep with
      | batch batchSize => exact settled_batch (hsound.run hbefore) ih batchSize
      | rollback nextJobId hle => exact ih
      | restart => exact ih

/-! ## After the root is added again -/

/-- What is on the disk is to be uploaded as something new, and about any other
row nothing is to be done. -/
structure Revives (tree : LocalTree) (syncRootId : String) (t : EntryTable) :
    Prop where
  present : ∀ e ∈ t.rows, e.syncRootId = syncRootId →
    ∀ kind, tree.Scanned e.relativePath kind →
      e.remoteId = none ∧ e.remoteDeletedAt = none ∧
        decideEntry .twoWay e = .upload ∧ decideEntry .uploadOnly e = .upload
  absent : ∀ e ∈ t.rows, e.syncRootId = syncRootId →
    (∀ kind, ¬tree.Scanned e.relativePath kind) →
      ∀ mode, decideEntry mode e = .noop

/-- A root is found deleted on the remote and added again, with any tree; then
a scan is completed, after any batches, rollbacks and restarts.  The rows on
the disk have no remote identity left and are uploaded, all others rest. -/
theorem revives_cleanly {env : RemoteEnv} {deleted : SyncRoot}
    {state : RemoteState} {roots : List SyncRoot}
    (hadded : SyncRepo.findSyncRootById roots deleted.id = some root)
    {s₀ s s' : ScanState} {batchSize : Nat}
    (hentries : s₀.entries =
      (RemoteSyncService.deleteRoot env deleted state).state.entries)
    (hjob : s₀.job = none) (hactive : s₀.activeScan = none)
    (hfresh : FreshJobIds root s₀)
    (hrun : Run (ScanStep root tree) s₀ s)
    (hcomplete : Completes root tree batchSize s s') :
    Revives tree root.id s'.entries := by
  have hid : root.id = deleted.id := SyncRepo.id_of_find hadded
  have hmarked : s₀.entries = RemoteEntryRepo.markRootRemoteDeleted
      state.entries root.id env.now := by
    rw [hentries, hid]
    unfold RemoteSyncService.deleteRoot
    split <;> rfl
  have htombs : ∀ e ∈ s₀.entries.rows, e.syncRootId = root.id →
      Tombstone e := by
    rw [hmarked]
    exact fun e he => tombstone_of_marked he
  have hsound : Sound root tree s₀ := by
    refine ⟨hfresh, ?_, fun _ => ⟨hactive, ?_⟩⟩
    · intro job hsome
      rw [hjob] at hsome
      cases hsome
    · -- the size and time of a tombstone are not trusted
      intro rel file _ e he hlooks
      obtain ⟨hmem, heroot, -⟩ :=
        (EntryRepo.findEntryByPath_eq_some_iff _ _ _ e).mp he
      simp [looksRecorded, (htombs e hmem heroot).state] at hlooks
  have hsettled := settled_run hsound
    (fun e he heroot => Or.inl (htombs e he heroot)) hrun
  have hlast := settled_batch (hsound.run hrun) hsettled batchSize
  obtain ⟨-, hmirrors⟩ := (hsound.run hrun).batch batchSize
  have hmirror := hmirrors s' hcomplete
  rw [hcomplete.1] at hlast
  constructor
  · intro e he heroot kind hscanned
    obtain ⟨f, hf, hlive, -⟩ := Mirrors.row hmirror hscanned
    have hfound := (EntryRepo.findEntryByPath_eq_some_iff s'.entries _ _ e).mpr
      ⟨he, heroot, rfl⟩
    rw [hfound, Option.some.injEq] at hf
    rw [← hf] at hlive
    rcases hlast e he heroot with htomb | ⟨hnew, -⟩
    · rw [htomb.state] at hlive
      cases hlive
    · exact ⟨hnew.remoteId, hnew.remoteDeleted, hnew.upload (Or.inl rfl),
        hnew.upload (Or.inr rfl)⟩
  · intro e he heroot habsent mode
    rcases hlast e he heroot with htomb | ⟨-, kind, hscanned⟩
    · exact htomb.noop mode
    · exact absurd hscanned (habsent kind)

/-! ## A file that comes back as a directory -/

namespace DirectoryAgain

def file : ScannedFile :=
  { size := 3, mtime := 1000000, hash := "h", fits := SmallScan.file.fits }

/-- The directory `d` with the file `d/f`. -/
def smallTree : LocalTree where
  forest := .directory "d" (.leaf "f" (.file file) .empty) .empty
  distinct := by decide
  plain := by decide

def smallRoot : SyncRoot :=
  { id := "r", localPath := "/r", folderId := "", mode := .twoWay }

/-- `d` was a file with unsent changes, `g` a file in conflict. -/
def entries : EntryTable :=
  { rows :=
      [{ id := 0, syncRootId := "r", relativePath := "d"
         isDirectory := false, remoteId := some "D", remoteFileId := some "D"
         contentHash := some "1", syncedContentHash := some "0"
         syncState := .pendingUpload },
       { id := 1, syncRootId := "r", relativePath := "g"
         isDirectory := false, remoteId := some "G", remoteFileId := some "G"
         remoteUpdatedAt := some "t1"
         conflictState := some "local_remote_modified"
         syncState := .unchanged }]
    nextPk := 2
    pkUnique := by decide
    pkFresh := by decide
    keyUnique := by decide }

def env : RemoteEnv :=
  { cwd := FsPath.parse "/"
    getJson := fun _ => none
    vault :=
      { unlocked := true, userId := none, folderPlaintext := fun _ => none
        filePlaintext := fun _ _ _ _ => none, parseJson := fun _ => none }
    fuel := 0
    now := "t2" }

def state : RemoteState :=
  { roots := [smallRoot], entries := entries, disk := .empty }

/-- The roots after the deletion disabled the root and it was added again. -/
def roots : List SyncRoot :=
  SyncRepo.upsertSyncRoot
    (RemoteSyncService.deleteRoot env smallRoot state).state.roots smallRoot

def start : ScanState :=
  { entries := (RemoteSyncService.deleteRoot env smallRoot state).state.entries
    job := none, nextJobId := 0, activeScan := none }

/-- The scan is completed by one batch. -/
def completed : ScanState :=
  (scanRoot smallRoot true (some smallTree.listing) start).1

end DirectoryAgain

open DirectoryAgain in
/-- The directory and its file are uploaded as new, and `g` rests. -/
theorem revives_cleanly_directoryAgain :
    Revives smallTree "r" completed.entries := by
  refine @revives_cleanly smallRoot smallTree env smallRoot state roots
    (by decide) start start completed kMaxScanBatchSize rfl rfl rfl ?_ .refl ?_
  · intro rel e k he hseen
    have hnone : ∀ e ∈ start.entries.rows, e.lastSeenScanJobId = none := by
      decide
    have hmem := ((EntryRepo.findEntryByPath_eq_some_iff _ _ _ e).mp he).1
    rw [hnone e hmem] at hseen
    cases hseen
  · exact ⟨Prod.ext rfl (by decide), by decide⟩

end ArkiveSync.RevivedRoots
