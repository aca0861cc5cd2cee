import ArkiveSync.Proofs.PathScan
import ArkiveSync.Proofs.SubtreePasses

/-!
# Errors during a scan

Reading an entry may fail: its relative path, its status, its size or its
time.  The scanner then goes on with the next entry, and the row of the entry
keeps its old stamp.  An increment that fails leaves the iterator at the end;
`scanSubtree` looks at the error code behind the loop, `scanRoot` does not.
The sweep deletes whatever was not stamped.

So what a scan does to the rows of entries that are still there is decided by
what its iterators reported.

## Main results

* `scanItems_noted`: a batch stamps the rows of the reported entries, and
  leaves the others alone.
* `reported_walkWith_iff`: an entry is reported unless an error strikes it or
  an increment in front of it.
* `keepsPresent_iff`: the entries that are there keep their rows if and only
  if each of them that has one is reported.
-/

namespace ArkiveSync.ScanErrors

open Library RootScanner LocalTree ScanMirror IncrementalScan SubtreePasses

/-! ## Error patterns -/

/-- An error code that handling an entry may meet. -/
inductive EntryError where
  | relative
  | symlinkStatus
  | fileSize
  | lastWriteTime
  deriving DecidableEq, Repr

/-- The errors one iterator and the handling of its entries report.
`increment` is the number of the entry behind which the increment fails. -/
structure ErrorPattern where
  entry : List String → Option EntryError
  increment : Option Nat

/-- What an item says when reading it fails. -/
def withError (item : DirItem) : Option EntryError → DirItem
  | none => item
  | some .relative => { item with relative := none }
  | some .symlinkStatus => { item with kind := none }
  | some .fileSize =>
      match item.kind with
      | some (.regularFile probe) =>
          { item with kind := some (.regularFile { probe with size := none }) }
      | _ => item
  | some .lastWriteTime =>
      match item.kind with
      | some (.regularFile probe) =>
          { item with kind := some (.regularFile { probe with mtime := none }) }
      | _ => item

/-- The entries the iterator comes to. -/
def reached (walk : List (List String × Option LocalLeaf)) (p : ErrorPattern) :
    List (List String × Option LocalLeaf) :=
  match p.increment with
  | none => walk
  | some n => walk.take (n + 1)

/-- An iterator over a walk with these errors. -/
def walkWith (walk : List (List String × Option LocalLeaf))
    (p : ErrorPattern) : DirStream :=
  { items := (reached walk p).map (fun x => withError (item x) (p.entry x.1))
    failed :=
      match p.increment with
      | none => false
      | some n => decide (n < walk.length) }

/-! ## Reported entries -/

/-- A batch over these items comes to a directory or an accepted file at the
path. -/
def Reported (path : String) (items : List DirItem) : Prop :=
  ∃ item ∈ items, item.relative = some path ∧ isScanned item = true

theorem reported_append {path : String} {xs ys : List DirItem} :
    Reported path (xs ++ ys) ↔ Reported path xs ∨ Reported path ys := by
  unfold Reported
  constructor
  · rintro ⟨item, hitem, h⟩
    rcases List.mem_append.mp hitem with hitem | hitem
    · exact Or.inl ⟨item, hitem, h⟩
    · exact Or.inr ⟨item, hitem, h⟩
  · rintro (⟨item, hitem, h⟩ | ⟨item, hitem, h⟩)
    · exact ⟨item, List.mem_append_left _ hitem, h⟩
    · exact ⟨item, List.mem_append_right _ hitem, h⟩

/-- The error does not keep the entry from getting its row: there is none, or
it is of a call that is made for files only. -/
def Spares : Option EntryError → Option LocalLeaf → Prop
  | none, none => True
  | none, some (.file _) => True
  | some .fileSize, none => True
  | some .lastWriteTime, none => True
  | _, _ => False

theorem isScanned_withError_iff (x : List String × Option LocalLeaf)
    (error : Option EntryError) :
    isScanned (withError (item x) error) = true ↔ Spares error x.2 := by
  obtain ⟨names, leaf⟩ := x
  cases leaf with
  | none =>
      cases error with
      | none => simp [withError, item, isScanned, Spares]
      | some error =>
          cases error <;> simp [withError, item, isScanned, Spares]
  | some leaf =>
      cases leaf with
      | file file =>
          have hfits := file.fits
          cases error with
          | none =>
              simp [withError, item, isScanned, isAccepted, Spares,
                ScannedFile.probe, hfits]
          | some error =>
              cases error <;>
                simp [withError, item, isScanned, isAccepted, Spares,
                  ScannedFile.probe]
      | symlink resolved =>
          cases resolved <;> cases error with
          | none => simp [withError, item, isScanned, Spares]
          | some error =>
              cases error <;> simp [withError, item, isScanned, Spares]
      | other =>
          cases error with
          | none => simp [withError, item, isScanned, Spares]
          | some error =>
              cases error <;> simp [withError, item, isScanned, Spares]

theorem relative_withError {x : List String × Option LocalLeaf}
    {error : Option EntryError} (h : Spares error x.2) :
    (withError (item x) error).relative =
      some (FsPath.relativeText x.1) := by
  obtain ⟨names, leaf⟩ := x
  cases leaf with
  | none =>
      cases error with
      | none => rfl
      | some error => cases error <;> first | rfl | cases h
  | some leaf =>
      cases leaf with
      | file file =>
          cases error with
          | none => rfl
          | some error => cases error <;> cases h
      | symlink resolved =>
          cases error with
          | none => cases h
          | some error => cases error <;> cases h
      | other =>
          cases error with
          | none => cases h
          | some error => cases error <;> cases h

/-- An entry is reported when the iterator comes to it and no error strikes
it. -/
theorem reported_walkWith_iff (path : String)
    (walk : List (List String × Option LocalLeaf)) (p : ErrorPattern) :
    Reported path (walkWith walk p).items ↔
      ∃ x ∈ reached walk p, FsPath.relativeText x.1 = path ∧
        Spares (p.entry x.1) x.2 := by
  unfold Reported walkWith
  constructor
  · rintro ⟨i, hi, hpath, hscanned⟩
    obtain ⟨x, hx, rfl⟩ := List.mem_map.mp hi
    have hspares := (isScanned_withError_iff x _).mp hscanned
    rw [relative_withError hspares, Option.some.injEq] at hpath
    exact ⟨x, hx, hpath, hspares⟩
  · rintro ⟨x, hx, hpath, hspares⟩
    refine ⟨_, List.mem_map.mpr ⟨x, hx, rfl⟩, ?_, ?_⟩
    · rw [relative_withError hspares, hpath]
    · exact (isScanned_withError_iff x _).mpr hspares

/-! ## What a batch does to the rows -/

/-- The rows of the reported paths are stamped and live, the other rows of the
root are as they were. -/
def Noted (syncRootId : String) (jobId : Nat) (items : List DirItem)
    (t t' : EntryTable) : Prop :=
  ∀ path, (Reported path items ∧ Stamped syncRootId jobId path t') ∨
    (¬ Reported path items ∧
      EntryRepo.findEntryByPath t' syncRootId path =
        EntryRepo.findEntryByPath t syncRootId path)

section Noted

variable {syncRootId : String} {jobId : Nat}

theorem Noted.refl (t : EntryTable) : Noted syncRootId jobId [] t t := by
  intro path
  right
  refine ⟨?_, rfl⟩
  rintro ⟨item, hitem, _⟩
  cases hitem

theorem Noted.append {xs ys : List DirItem} {t t₁ t' : EntryTable}
    (h : Noted syncRootId jobId xs t t₁)
    (h' : Noted syncRootId jobId ys t₁ t') :
    Noted syncRootId jobId (xs ++ ys) t t' := by
  intro path
  rw [reported_append]
  rcases h' path with ⟨hlater, hstamped⟩ | ⟨hlater, hsame⟩
  · exact Or.inl ⟨Or.inr hlater, hstamped⟩
  · rcases h path with ⟨hfirst, hstamped⟩ | ⟨hfirst, hbefore⟩
    · left
      refine ⟨Or.inl hfirst, ?_⟩
      unfold Stamped
      rw [hsame]
      exact hstamped
    · right
      exact ⟨by simp [hfirst, hlater], hsame.trans hbefore⟩

/-- One item that gets its row. -/
theorem noted_of_row {item : DirItem} {rel : String} {t t' : EntryTable}
    (hrel : item.relative = some rel) (hscanned : isScanned item = true)
    (hrow : Stamped syncRootId jobId rel t')
    (hothers : ∀ other, other ≠ rel →
      EntryRepo.findEntryByPath t' syncRootId other =
        EntryRepo.findEntryByPath t syncRootId other) :
    Noted syncRootId jobId [item] t t' := by
  intro path
  by_cases hsame : path = rel
  · subst hsame
    exact Or.inl ⟨⟨item, List.mem_singleton_self _, hrel, hscanned⟩, hrow⟩
  · right
    refine ⟨?_, hothers path hsame⟩
    rintro ⟨other, hother, hpath, _⟩
    rw [List.mem_singleton.mp hother, hrel, Option.some.injEq] at hpath
    exact hsame hpath.symm

/-- One item that gets none. -/
theorem noted_of_skipped {item : DirItem} (h : isScanned item = false)
    (t : EntryTable) : Noted syncRootId jobId [item] t t := by
  intro path
  right
  refine ⟨?_, rfl⟩
  rintro ⟨other, hother, _, hscanned⟩
  rw [List.mem_singleton.mp hother, h] at hscanned
  cases hscanned

variable (syncRootId jobId) in
theorem noted_directory (t : EntryTable) {item : DirItem} {rel : String}
    (hrel : item.relative = some rel) (hkind : item.kind = some .directory) :
    Noted syncRootId jobId [item] t
      (LocalEntryRepo.upsertDirectoryEntry t
        { syncRootId := syncRootId
          relativePath := rel
          lastSeenScanId := jobId }) := by
  have hwrote := upsertDirectory_wrote syncRootId jobId t rel
  obtain ⟨e, he, hlive, hseen, _⟩ := hwrote.row
  exact noted_of_row hrel (by simp [isScanned, hrel, hkind])
    ⟨e, he, hlive, hseen⟩ hwrote.others

theorem noted_file {t t' : EntryTable} {item : DirItem} {rel : String}
    {probe : FileProbe} (hrel : item.relative = some rel)
    (hkind : item.kind = some (.regularFile probe))
    (hstored : handleFileEntry t syncRootId jobId rel probe = .stored t') :
    Noted syncRootId jobId [item] t t' := by
  have haccepted := isAccepted_of_stored hstored
  refine noted_of_row hrel (by simp [isScanned, hrel, hkind, haccepted])
    (handleFileEntry_live hstored) ?_
  intro other hother
  obtain ⟨_, _, _, _, _, _, _, _, _, _, rfl⟩ := handleFileEntry_stored hstored
  apply LocalEntryRepo.findEntryByPath_upsertFile_ne
  intro hsame
  exact hother (congrArg Prod.snd hsame)

/-- A batch notes the items it takes. -/
theorem scanItems_noted {items : List DirItem} {budget : Nat} {t : EntryTable}
    {last : Option String} {batch : Batch}
    (h : scanItems syncRootId jobId items budget t last = some batch) :
    ∃ front, items = front ++ batch.rest ∧
      Noted syncRootId jobId front t batch.entries := by
  induction items generalizing budget t last with
  | nil =>
      cases h
      exact ⟨[], rfl, .refl t⟩
  | cons item items ih =>
      cases budget with
      | zero =>
          cases h
          exact ⟨[], rfl, .refl t⟩
      | succ budget =>
          have hgo : ∀ {budget t₁ last}, Noted syncRootId jobId [item] t t₁ →
              scanItems syncRootId jobId items budget t₁ last = some batch →
              ∃ front, item :: items = front ++ batch.rest ∧
                Noted syncRootId jobId front t batch.entries := by
            intro budget t₁ last hfirst hscan
            obtain ⟨front, hfront, hnoted⟩ := ih hscan
            exact ⟨item :: front, by rw [hfront, List.cons_append],
              hfirst.append hnoted⟩
          unfold scanItems at h
          split at h
          next rel hrel hkind => exact hgo (noted_directory _ _ t hrel hkind) h
          next rel probe hrel hkind =>
              split at h
              next => cases h
              next hskipped =>
                  have hnot : isScanned item = false := by
                    simp [isScanned, hrel, hkind, isAccepted_of_skipped hskipped]
                  exact hgo (noted_of_skipped hnot t) h
              next t₁ hstored => exact hgo (noted_file hrel hkind hstored) h
          next hdirectory hfile =>
              have hnot := isScanned_of_other hdirectory hfile
              exact hgo (noted_of_skipped hnot t) h

end Noted

/-! ## Rows of what is there -/

section Present

variable (tree : LocalTree) (syncRootId : String)

/-- No row of a directory or regular file of the tree becomes deleted. -/
def KeepsPresent (t t' : EntryTable) : Prop :=
  ∀ path kind, tree.Scanned path kind →
    Live syncRootId t path → Live syncRootId t' path

/-- Each directory and regular file of the tree that has a live row which the
sweep looks at is reported. -/
def PresentReported (looksAt : Entry → Bool) (t : EntryTable)
    (log : List DirItem) : Prop :=
  ∀ path kind, tree.Scanned path kind → ∀ e,
    EntryRepo.findEntryByPath t syncRootId path = some e →
    e.deleted = false → looksAt e = true → Reported path log

end Present

variable {root : SyncRoot} {tree : LocalTree}

/-- No row of the root carries the id of the job. -/
def Unused (root : SyncRoot) (jobId : Nat) (t : EntryTable) : Prop :=
  ∀ path e, EntryRepo.findEntryByPath t root.id path = some e →
    e.lastSeenScanJobId ≠ some jobId

/-- The statement both sweeps are cases of. -/
def sweep (t : EntryTable) (syncRootId : String) (jobId : Nat)
    (looksAt : Entry → Bool) : EntryTable :=
  LocalEntryRepo.markDeleted t (fun e =>
    e.syncRootId == syncRootId && !e.deleted &&
      LocalEntryRepo.notSeenIn e jobId && looksAt e)

/-- A sweep leaves the rows of what is there when, and only when, each of them
was reported. -/
theorem sweep_keeps_iff {jobId : Nat} {looksAt : Entry → Bool}
    {t t₁ : EntryTable} (hunused : Unused root jobId t) {log : List DirItem}
    (hnoted : Noted root.id jobId log t t₁) :
    KeepsPresent tree root.id t (sweep t₁ root.id jobId looksAt) ↔
      PresentReported tree root.id looksAt t log := by
  have hfind : ∀ path, EntryRepo.findEntryByPath
      (sweep t₁ root.id jobId looksAt) root.id path =
        (EntryRepo.findEntryByPath t₁ root.id path).map (fun e =>
          if (e.syncRootId == root.id && !e.deleted &&
            LocalEntryRepo.notSeenIn e jobId && looksAt e) = true
          then { e with syncState := .deleted } else e) := fun path =>
    LocalEntryRepo.findEntryByPath_markDeleted t₁ _ root.id path
  constructor
  · intro hkeeps path kind hpresent e he hlive hlooks
    rcases hnoted path with ⟨hreported, _⟩ | ⟨_, hsame⟩
    · exact hreported
    · exfalso
      obtain ⟨e', he', hlive'⟩ := hkeeps path kind hpresent ⟨e, he, hlive⟩
      rw [hfind, hsame, he, Option.map_some, Option.some.injEq] at he'
      have hroot := ((EntryRepo.findEntryByPath_eq_some_iff _ _ _ e).mp he).2.1
      have hseen : LocalEntryRepo.notSeenIn e jobId = true := by
        simpa [LocalEntryRepo.notSeenIn] using hunused path e he
      rw [if_pos (by simp [hroot, hlive, hseen, hlooks])] at he'
      rw [← he'] at hlive'
      cases hlive'
  · intro hreported path kind hpresent hbefore
    obtain ⟨e, he, hlive⟩ := hbefore
    rcases hnoted path with ⟨_, f, hf, hfLive, hseen⟩ | ⟨hnot, hsame⟩
    · refine ⟨f, ?_, hfLive⟩
      rw [hfind, hf]
      simp [LocalEntryRepo.notSeenIn, hseen]
    · by_cases hlooks : looksAt e = true
      · exact absurd (hreported path kind hpresent e he hlive hlooks) hnot
      · refine ⟨e, ?_, hlive⟩
        rw [hfind, hsame, he]
        simp [hlooks]

theorem markEntriesNotSeen_eq_sweep (t : EntryTable) (syncRootId : String)
    (jobId : Nat) :
    LocalEntryRepo.markEntriesNotSeenInScanDeleted t syncRootId jobId =
      sweep t syncRootId jobId (fun _ => true) := by
  unfold LocalEntryRepo.markEntriesNotSeenInScanDeleted sweep
  congr 1
  funext e
  rw [Bool.and_true, Bool.and_assoc, Bool.and_assoc, Bool.and_comm (!e.deleted)]

/-! ## Scans of a root -/

/-- The root is not being scanned, and the id of its next job is new. -/
structure Idle (root : SyncRoot) (s : ScanState) : Prop where
  job : s.job = none
  active : s.activeScan = none
  unused : Unused root s.nextJobId s.entries

/-- The iterator over the tree with these errors. -/
def rootWalk (tree : LocalTree) (p : ErrorPattern) : DirStream :=
  walkWith (tree.forest.walk []) p

/-- A scan that has not come to its end: calls that do not succeed, batches
that leave items, and restarts.  Every iterator has errors of its own, or
cannot be made; the items that the batches have taken are listed. -/
inductive Underway (root : SyncRoot) (tree : LocalTree) (s₀ : ScanState) :
    List DirItem → ScanState → Prop where
  | start : Underway root tree s₀ [] s₀
  | fails (log : List DirItem) (s s' : ScanState) (outcome : ScanCall)
      (isDirectory : Bool) (p : Option ErrorPattern)
      (h : Underway root tree s₀ log s)
      (hcall : RootScanner.scanRoot root isDirectory
        (p.map (rootWalk tree)) s = (s', outcome))
      (houtcome : outcome ≠ .succeeded) :
      Underway root tree s₀ log s'
  | batch (log front rest : List DirItem) (s s' : ScanState)
      (p : ErrorPattern) (h : Underway root tree s₀ log s)
      (hitems : Iterates (rootWalk tree p) s (front ++ rest))
      (hcall : RootScanner.scanRoot root true (some (rootWalk tree p)) s =
        (s', .succeeded))
      (hrest : s'.activeScan = some rest) :
      Underway root tree s₀ (log ++ front) s'
  | restart (log : List DirItem) (s : ScanState)
      (h : Underway root tree s₀ log s) :
      Underway root tree s₀ log { s with activeScan := none }

/-- A call that completes the scan. -/
inductive ScanEnds (root : SyncRoot) (tree : LocalTree) (s : ScanState) :
    List DirItem → ScanState → Prop where
  | batch (items : List DirItem) (s' : ScanState) (p : ErrorPattern)
      (hitems : Iterates (rootWalk tree p) s items)
      (hcall : RootScanner.scanRoot root true (some (rootWalk tree p)) s =
        (s', .succeeded))
      (hjob : s'.job = none) :
      ScanEnds root tree s items s'

/-- A call that does not succeed changes no row and no job. -/
theorem scanRoot_fails {isDirectory : Bool} {listing : Option DirStream}
    {s s' : ScanState} {outcome : ScanCall}
    (h : RootScanner.scanRoot root isDirectory listing s = (s', outcome))
    (houtcome : outcome ≠ .succeeded) :
    s'.entries = s.entries ∧ s'.job = s.job ∧ s'.nextJobId = s.nextJobId := by
  unfold RootScanner.scanRoot at h
  split at h
  · cases h
    exact ⟨rfl, rfl, rfl⟩
  · simp only at h
    split at h
    · cases h
      exact ⟨rfl, rfl, rfl⟩
    · split at h
      · cases h
        exact ⟨rfl, rfl, rfl⟩
      · split at h
        · cases h
          exact absurd rfl houtcome
        · cases h
          exact absurd rfl houtcome

/-- A call that succeeds scans a batch of its iterator. -/
theorem scanRoot_succeeds {listing : DirStream} {s s' : ScanState}
    (h : RootScanner.scanRoot root true (some listing) s = (s', .succeeded))
    {items : List DirItem} (hitems : Iterates listing s items) :
    ∃ batch, scanItems root.id (currentJob s).id items kMaxScanBatchSize
        s.entries none = some batch ∧
      (batch.rest = [] ∧ s'.job = none ∧ s'.activeScan = none ∧
        s'.entries = LocalEntryRepo.markEntriesNotSeenInScanDeleted
          batch.entries root.id (currentJob s).id ∨
      s'.activeScan = some batch.rest ∧ s'.entries = batch.entries ∧
        ∃ job, s'.job = some job ∧ job.id = (currentJob s).id) := by
  rw [scanRoot_eq_scanBatch] at h
  rcases scanBatch_cases kMaxScanBatchSize root listing s with
    ⟨_, hfailed⟩ | ⟨items', hitems', hrun⟩
  · rw [hfailed] at h
    cases h
  · have hsame := hitems.unique hitems'
    subst hsame
    rcases hrun with ⟨_, hthrew⟩ | ⟨batch, hbatch, hdone⟩
    · rw [hthrew] at h
      cases h
    · refine ⟨batch, hbatch, ?_⟩
      rcases hdone with ⟨hrest, hcall⟩ | ⟨_, hcall⟩
      · rw [hcall] at h
        cases h
        exact Or.inl ⟨hrest, rfl, rfl, rfl⟩
      · rw [hcall] at h
        cases h
        exact Or.inr ⟨rfl, rfl, _, rfl, rfl⟩

/-- What holds while a scan is under way: it works for the one job, and the
rows are those from before with the taken items noted. -/
theorem Underway.noted {s₀ s : ScanState} {log : List DirItem}
    (hidle : Idle root s₀) (h : Underway root tree s₀ log s) :
    (currentJob s).id = s₀.nextJobId ∧
      Noted root.id s₀.nextJobId log s₀.entries s.entries := by
  induction h with
  | start =>
      refine ⟨?_, .refl _⟩
      rw [currentJob, hidle.job]
      rfl
  | fails log s s' outcome isDirectory p _ hcall houtcome ih =>
      obtain ⟨hentries, hjob, hnext⟩ := scanRoot_fails hcall houtcome
      have hsame : currentJob s' = currentJob s := by
        unfold currentJob
        rw [hjob, hnext]
      rw [hsame, hentries]
      exact ih
  | batch log front rest s s' p _ hitems hcall hrest ih =>
      obtain ⟨hid, hnoted⟩ := ih
      obtain ⟨batch, hbatch, hends | ⟨hactive, hentries, job, hjob, hjobId⟩⟩ :=
        scanRoot_succeeds hcall hitems
      · rw [hends.2.2.1] at hrest
        cases hrest
      · rw [hactive, Option.some.injEq] at hrest
        obtain ⟨front', hfront, hbatchNoted⟩ := scanItems_noted hbatch
        have hsame : front = front' := by
          rw [hrest] at hfront
          exact List.append_cancel_right hfront
        refine ⟨?_, ?_⟩
        · rw [currentJob, hjob]
          exact hjobId.trans hid
        · rw [hentries, hsame]
          rw [hid] at hbatchNoted
          exact hnoted.append hbatchNoted
  | restart log s _ ih => exact ih

/-- Rows that were noted are live when they were before. -/
theorem Noted.keepsPresent {jobId : Nat} {log : List DirItem}
    {t t' : EntryTable} (h : Noted root.id jobId log t t') :
    KeepsPresent tree root.id t t' := by
  intro path kind _ hlive
  rcases h path with ⟨_, e, he, heLive, _⟩ | ⟨_, hsame⟩
  · exact ⟨e, he, heLive⟩
  · unfold Live
    rw [hsame]
    exact hlive

/-- A completed scan of the root has swept what was not reported. -/
theorem ScanEnds.noted {s₀ s s' : ScanState} {log items : List DirItem}
    (hidle : Idle root s₀) (h : Underway root tree s₀ log s)
    (hends : ScanEnds root tree s items s') :
    ∃ t₁, Noted root.id s₀.nextJobId (log ++ items) s₀.entries t₁ ∧
      s'.entries = sweep t₁ root.id s₀.nextJobId (fun _ => true) := by
  obtain ⟨hid, hnoted⟩ := h.noted hidle
  obtain ⟨p, hitems, hcall, hjob⟩ := hends
  obtain ⟨batch, hbatch, ⟨hrest, _, _, hentries⟩ | ⟨_, _, job, hsome, _⟩⟩ :=
    scanRoot_succeeds hcall hitems
  · obtain ⟨front, hfront, hbatchNoted⟩ := scanItems_noted hbatch
    rw [hrest, List.append_nil] at hfront
    rw [hid] at hbatchNoted
    refine ⟨batch.entries, hnoted.append (by rw [hfront]; exact hbatchNoted),
      ?_⟩
    rw [hentries, markEntriesNotSeen_eq_sweep, hid]
  · rw [hsome] at hjob
    cases hjob

/-! ## Scans of a subtree -/

/-- The items that the passes of `scanSubtree` take. -/
def takenItems : List (Option DirStream) → Option String → List DirItem
  | some listing :: rounds, cursor =>
      match positionAfterCursor cursor listing with
      | none => []
      | some items =>
          let last := batchEnd items kMaxScanBatchSize none
          if last.2.isEmpty then items
          else
            items.take (items.length - last.2.length) ++
              takenItems rounds last.1
  | _, _ => []

/-- The item of the scanned directory itself. -/
def directoryItem (rel : String) : DirItem :=
  { relative := some rel, kind := some .directory }

/-- A subtree scan that leaves rows has swept what was not reported. -/
theorem subtreeRounds_noted {rel : String} {jobId : Nat}
    {rounds : List (Option DirStream)} {cursor : Option String}
    {t t' : EntryTable}
    (h : (subtreeRounds root.id rel jobId rounds cursor t).1 = some t') :
    ∃ t₁, Noted root.id jobId (takenItems rounds cursor) t t₁ ∧
      t' = sweep t₁ root.id jobId
        (fun e => LocalEntryRepo.atOrUnder e rel) := by
  induction rounds generalizing cursor t with
  | nil => cases h
  | cons round rounds ih =>
      cases round with
      | none => cases h
      | some listing =>
          rw [subtreeRounds] at h
          rw [takenItems]
          split at h
          next => cases h
          next items hitems =>
              split at h
              next => cases h
              next batch hbatch =>
                  obtain ⟨front, hfront, hnoted⟩ := scanItems_noted hbatch
                  have hend := scanItems_batchEnd hbatch
                  simp only [hitems, hend]
                  split at h
                  next hrest =>
                      rw [if_pos hrest]
                      split at h
                      · cases h
                      · cases h
                        rw [List.isEmpty_iff.mp hrest, List.append_nil]
                          at hfront
                        exact ⟨batch.entries, by rw [hfront]; exact hnoted, rfl⟩
                  next hrest =>
                      rw [if_neg hrest]
                      split at h
                      next => cases h
                      next last hlast =>
                          obtain ⟨t₁, hlater, heq⟩ := ih h
                          refine ⟨t₁, ?_, heq⟩
                          have htake : items.take
                              (items.length - batch.rest.length) = front := by
                            rw [hfront, List.length_append,
                              Nat.add_sub_cancel, List.take_left]
                          rw [htake, hlast]
                          exact hnoted.append hlater

theorem scanSubtree_noted {rel : String} {jobId : Nat}
    {rounds : List (Option DirStream)} {t t' : EntryTable}
    (h : (scanSubtree root.id rel jobId rounds t).1 = some t') :
    ∃ t₁, Noted root.id jobId
        (directoryItem rel :: takenItems rounds none) t t₁ ∧
      t' = sweep t₁ root.id jobId
        (fun e => LocalEntryRepo.atOrUnder e rel) := by
  obtain ⟨t₁, hnoted, heq⟩ := subtreeRounds_noted h
  have hrel : (directoryItem rel).relative = some rel := rfl
  have hfirst := noted_directory root.id jobId t hrel rfl
  exact ⟨t₁, hfirst.append hnoted, heq⟩

/-! ## When what is there keeps its rows -/

/-- The iterators of a subtree scan, each with its errors, or not made at
all. -/
def subtreeWalks (names : List String) (children : Forest LocalLeaf)
    (ps : List (Option ErrorPattern)) : List (Option DirStream) :=
  ps.map (Option.map (walkWith (children.walk names)))

/-- While a scan of the root is under way, the rows of what is there stay
live.  When it is completed, they have stayed so exactly if each of them was
reported; and the same for a scan of a subtree and the rows its sweep looks
at. -/
theorem keepsPresent_iff (root : SyncRoot) (tree : LocalTree) :
    (∀ s₀ log s, Idle root s₀ → Underway root tree s₀ log s →
      KeepsPresent tree root.id s₀.entries s.entries ∧
      ∀ items s', ScanEnds root tree s items s' →
        (KeepsPresent tree root.id s₀.entries s'.entries ↔
          PresentReported tree root.id (fun _ => true) s₀.entries
            (log ++ items))) ∧
    (∀ names children, tree.forest.descend names = some children →
      ∀ jobId ps t t', Unused root jobId t →
        (scanSubtree root.id (FsPath.relativeText names) jobId
          (subtreeWalks names children ps) t).1 = some t' →
        (KeepsPresent tree root.id t t' ↔
          PresentReported tree root.id
            (fun e => LocalEntryRepo.atOrUnder e (FsPath.relativeText names)) t
            (directoryItem (FsPath.relativeText names) ::
              takenItems (subtreeWalks names children ps) none))) := by
  constructor
  · intro s₀ log s hidle hunderway
    refine ⟨(hunderway.noted hidle).2.keepsPresent, ?_⟩
    intro items s' hends
    obtain ⟨t₁, hnoted, heq⟩ := hends.noted hidle hunderway
    rw [heq]
    exact sweep_keeps_iff hidle.unused hnoted
  · intro names children _ jobId ps t t' hunused hcall
    obtain ⟨t₁, hnoted, heq⟩ := scanSubtree_noted hcall
    rw [heq]
    exact sweep_keeps_iff hunused hnoted

/-! ## An increment that fails -/

namespace FailedIncrement

/-- Two files, `a` and `b`. -/
def twoFiles : LocalTree where
  forest := .leaf "a" (.file SmallScan.file)
    (.leaf "b" (.file SmallScan.file) .empty)
  distinct := by decide
  plain := by decide

/-- The increment behind `a` fails. -/
def errors : ErrorPattern := { entry := fun _ => none, increment := some 0 }

/-- The file `b` is known and clean. -/
def entries : EntryTable :=
  { rows :=
      [{ id := 0, syncRootId := "r", relativePath := "b", isDirectory := false
         syncState := .unchanged }]
    nextPk := 1
    pkUnique := by decide
    pkFresh := by decide
    keyUnique := by decide }

def start : ScanState :=
  { entries := entries, job := none, nextJobId := 0, activeScan := none }

def finished : ScanState :=
  (RootScanner.scanRoot SmallScan.smallRoot true (some (rootWalk twoFiles errors))
    start).1

theorem idle : Idle SmallScan.smallRoot start := by
  refine { job := rfl, active := rfl, unused := ?_ }
  intro path e he
  have hrow := KeyedTable.mem_of_lookup he
  have hsame : e = { id := 0, syncRootId := "r", relativePath := "b"
                     isDirectory := false, syncState := .unchanged } := by
    simpa [start, entries] using hrow
  rw [hsame]
  simp

theorem ends : ScanEnds SmallScan.smallRoot twoFiles start
    (rootWalk twoFiles errors).items finished :=
  .batch _ _ errors (Or.inr ⟨rfl, rfl⟩) (Prod.ext rfl (by decide)) (by decide)

theorem live_before : Live "r" start.entries "b" :=
  ⟨_, rfl, rfl⟩

theorem not_live_after : ¬ Live "r" finished.entries "b" := by
  rintro ⟨e, he, hlive⟩
  have hfound : (EntryRepo.findEntryByPath finished.entries "r" "b").map
      Entry.deleted = some true := by decide
  rw [he, Option.map_some, hlive] at hfound
  cases hfound

end FailedIncrement

/-- A failed increment ends a scan of the root, and the row of a file behind it
is deleted. -/
theorem not_keepsPresent :
    ¬ ∀ (root : SyncRoot) (tree : LocalTree) (s₀ s : ScanState)
        (log items : List DirItem) (s' : ScanState),
      Idle root s₀ → Underway root tree s₀ log s →
      ScanEnds root tree s items s' →
      KeepsPresent tree root.id s₀.entries s'.entries := by
  intro h
  have hkeeps := h SmallScan.smallRoot FailedIncrement.twoFiles
    FailedIncrement.start FailedIncrement.start [] _ FailedIncrement.finished
    FailedIncrement.idle .start FailedIncrement.ends
  have hpresent : FailedIncrement.twoFiles.Scanned "b" (.file SmallScan.file) :=
    scanned_of_mem (by decide)
  exact FailedIncrement.not_live_after
    (hkeeps "b" _ hpresent FailedIncrement.live_before)

end ArkiveSync.ScanErrors
