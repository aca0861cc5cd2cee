import ArkiveSync.Library.DirectoryWalk
import ArkiveSync.Library.Runs
import ArkiveSync.Model.RootScanner

/-!
# Scanning a tree batch by batch

A scan job of a root over a tree that stays as it is: batches of `scanRoot`,
batches that an exception rolls back, and restarts of the process, in any
order.  A restart loses the live iterator; job and rows are in the database.

The iterator lists a directory in one order every time.  What it yields for a
link is not followed; its relative path is that of what the link resolves to,
if it resolves.

## Main results

* `scanRoot_eq_scanBatch`: `scanRoot` is a batch of `kMaxScanBatchSize`.
* `RootScanner.scanBatch_cases`: what a batch can do.
* `LocalTree.scanned_of_mem`, `LocalTree.mem_of_scanned`: what the iterator
  yields, read off the tree.
* `LocalTree.Scanned.unique`: at most one directory or file is yielded at a
  path.
-/

namespace ArkiveSync

open Library

/-! ## Trees -/

/-- A regular file that can be read, as a scan finds it. -/
structure ScannedFile where
  size : Nat
  mtime : Int
  hash : String
  fits : size ≤ int64Max

/-- What a directory lists besides directories. -/
inductive LocalLeaf where
  | file (file : ScannedFile)
  | symlink (resolved : Option String)
  | other

/-- The tree under a root: no name twice in one directory, and names as a file
system has them. -/
structure LocalTree where
  forest : Forest LocalLeaf
  distinct : forest.Distinct
  plain : forest.All FsPath.Plain

namespace ScannedFile

/-- What `handleFileEntry` reads. -/
def probe (file : ScannedFile) : FileProbe :=
  { size := some file.size, mtime := some file.mtime, hash := some file.hash }

end ScannedFile

namespace LocalTree

/-- What the iterator yields for an entry of the walk. -/
def item (x : List String × Option LocalLeaf) : DirItem :=
  match x.2 with
  | none =>
      { relative := some (FsPath.relativeText x.1), kind := some .directory }
  | some (.file file) =>
      { relative := some (FsPath.relativeText x.1)
        kind := some (.regularFile file.probe) }
  | some (.symlink resolved) => { relative := resolved, kind := some .symlink }
  | some .other =>
      { relative := some (FsPath.relativeText x.1), kind := some .other }

/-- The items of the recursive iterator over a forest at a path. -/
def itemsAt (above : List String) (forest : Forest LocalLeaf) : List DirItem :=
  (forest.walk above).map item

/-- What the iterator over the root yields. -/
def items (tree : LocalTree) : List DirItem := itemsAt [] tree.forest

/-- A new iterator over the root. -/
def listing (tree : LocalTree) : DirStream :=
  { items := tree.items, failed := false }

end LocalTree

/-! ## Batches -/

namespace RootScanner

/-- `scanRoot` with batches of any size. -/
def scanBatch (batchSize : Nat) (root : SyncRoot) (isDirectory : Bool)
    (listing : Option DirStream) (s : ScanState) : ScanState × ScanCall :=
  if !root.enabled || !isDirectory then (s, .failed)
  else
    let job := s.job.getD { id := s.nextJobId, cursorPath := none }
    let nextJobId := if s.job.isSome then s.nextJobId else s.nextJobId + 1
    let iterator :=
      match s.activeScan with
      | some items => some items
      | none => listing.bind (positionAfterCursor job.cursorPath)
    match iterator with
    | none => (s, .failed)
    | some items =>
        match scanItems root.id job.id items batchSize s.entries none with
        | none => ({ s with activeScan := none }, .threw)
        | some batch =>
            if batch.rest.isEmpty then
              ({ entries :=
                  LocalEntryRepo.markEntriesNotSeenInScanDeleted batch.entries
                    root.id job.id
                 job := none
                 nextJobId := nextJobId
                 activeScan := none }, .succeeded)
            else
              ({ entries := batch.entries
                 job := some
                  { job with
                    cursorPath :=
                      if batch.lastCursor.isSome then batch.lastCursor
                      else job.cursorPath }
                 nextJobId := nextJobId
                 activeScan := some batch.rest }, .succeeded)

theorem scanRoot_eq_scanBatch (root : SyncRoot) (isDirectory : Bool)
    (listing : Option DirStream) (s : ScanState) :
    scanRoot root isDirectory listing s =
      scanBatch kMaxScanBatchSize root isDirectory listing s := rfl

/-- The job that a batch works for: the one under way, or a new one. -/
def currentJob (s : ScanState) : ScanJob :=
  s.job.getD { id := s.nextJobId, cursorPath := none }

/-- The ids that are free after a batch. -/
def nextIdAfter (s : ScanState) : Nat :=
  if s.job.isSome then s.nextJobId else s.nextJobId + 1

/-- The items in front of a batch: those of the live iterator, or of a new one
behind the cursor. -/
def Iterates (listing : DirStream) (s : ScanState) (items : List DirItem) :
    Prop :=
  s.activeScan = some items ∨ s.activeScan = none ∧
    positionAfterCursor (currentJob s).cursorPath listing = some items

theorem dropThrough_suffix {cursor : String} {failed : Bool}
    {items rest : List DirItem}
    (h : dropThrough cursor failed items = some rest) : rest <:+ items := by
  induction items with
  | nil =>
      unfold dropThrough at h
      split at h
      · cases h
      · cases h
        exact List.suffix_refl _
  | cons item items ih =>
      unfold dropThrough at h
      split at h
      · cases h
      · split at h
        · split at h
          · cases h
          · cases h
            exact List.suffix_cons _ _
        · exact (ih h).trans (List.suffix_cons _ _)

/-- A new iterator goes on with a last part of the walk. -/
theorem positionAfterCursor_suffix {cursor : Option String}
    {listing : DirStream} {items : List DirItem}
    (h : positionAfterCursor cursor listing = some items) :
    items <:+ listing.items := by
  unfold positionAfterCursor at h
  split at h
  · cases h
    exact List.suffix_refl _
  · obtain ⟨rest, hrest, heq⟩ := Option.map_eq_some_iff.mp h
    subst heq
    split
    · exact List.suffix_refl _
    · exact dropThrough_suffix hrest

/-- A new job begins with the whole walk. -/
theorem iterates_new {s : ScanState} (hjob : s.job = none)
    (hactive : s.activeScan = none) (tree : LocalTree) :
    Iterates tree.listing s tree.items := by
  refine Or.inr ⟨hactive, ?_⟩
  unfold currentJob
  rw [hjob]
  rfl

/-- The items in front of a batch are fixed. -/
theorem Iterates.unique {listing : DirStream} {s : ScanState}
    {items items' : List DirItem} (h : Iterates listing s items)
    (h' : Iterates listing s items') : items = items' := by
  rcases h with hactive | ⟨hactive, hposition⟩ <;>
    rcases h' with hactive' | ⟨hactive', hposition'⟩ <;>
    simp_all

/-- What a batch can do. -/
theorem scanBatch_cases (batchSize : Nat) (root : SyncRoot)
    (listing : DirStream) (s : ScanState) :
    (root.enabled = false ∨ ∀ items, ¬ Iterates listing s items) ∧
      scanBatch batchSize root true (some listing) s = (s, .failed) ∨
    ∃ items, Iterates listing s items ∧
      (scanItems root.id (currentJob s).id items batchSize s.entries none =
          none ∧
        scanBatch batchSize root true (some listing) s =
          ({ s with activeScan := none }, .threw) ∨
      ∃ batch, scanItems root.id (currentJob s).id items batchSize s.entries
          none = some batch ∧
        (batch.rest = [] ∧
          scanBatch batchSize root true (some listing) s =
            ({ entries := LocalEntryRepo.markEntriesNotSeenInScanDeleted
                batch.entries root.id (currentJob s).id
               job := none
               nextJobId := nextIdAfter s
               activeScan := none }, .succeeded) ∨
        batch.rest ≠ [] ∧
          scanBatch batchSize root true (some listing) s =
            ({ entries := batch.entries
               job := some
                { currentJob s with
                  cursorPath :=
                    if batch.lastCursor.isSome then batch.lastCursor
                    else (currentJob s).cursorPath }
               nextJobId := nextIdAfter s
               activeScan := some batch.rest }, .succeeded))) := by
  unfold scanBatch
  split
  next hdisabled =>
      rw [Bool.or_eq_true, Bool.not_eq_true'] at hdisabled
      refine Or.inl ⟨Or.inl ?_, rfl⟩
      rcases hdisabled with hdisabled | hfalse
      · exact hdisabled
      · cases hfalse
  next =>
    dsimp only
    split
    next hiterator =>
        refine Or.inl ⟨Or.inr ?_, rfl⟩
        intro items hiterates
        rcases hiterates with hactive | ⟨hactive, hposition⟩
        · rw [hactive] at hiterator
          cases hiterator
        · rw [hactive] at hiterator
          change positionAfterCursor (currentJob s).cursorPath listing = none
            at hiterator
          rw [hiterator] at hposition
          cases hposition
    next items hiterator =>
        refine Or.inr ⟨items, ?_, ?_⟩
        · cases hactive : s.activeScan with
          | some live =>
              rw [hactive] at hiterator
              cases hiterator
              exact Or.inl hactive
          | none =>
              rw [hactive] at hiterator
              exact Or.inr ⟨hactive, hiterator⟩
        · cases hitems : scanItems root.id (currentJob s).id items batchSize
              s.entries none with
          | none =>
              rw [currentJob] at hitems
              rw [hitems]
              exact Or.inl ⟨rfl, rfl⟩
          | some batch =>
              rw [currentJob] at hitems
              rw [hitems]
              refine Or.inr ⟨batch, rfl, ?_⟩
              by_cases hrest : batch.rest = []
              · refine Or.inl ⟨hrest, ?_⟩
                dsimp only
                rw [if_pos (by rw [hrest]; rfl)]
                rfl
              · refine Or.inr ⟨hrest, ?_⟩
                dsimp only
                rw [if_neg (by rw [List.isEmpty_iff]; exact hrest)]
                rfl

end RootScanner

/-- One step of the scan of a root over a tree. -/
inductive ScanStep (root : SyncRoot) (tree : LocalTree) :
    ScanState → ScanState → Prop where
  | batch (s : ScanState) (batchSize : Nat) :
      ScanStep root tree s
        (RootScanner.scanBatch batchSize root true (some tree.listing) s).1
  | rollback (s : ScanState) (nextJobId : Nat) (h : s.nextJobId ≤ nextJobId) :
      ScanStep root tree s
        { s with nextJobId := nextJobId, activeScan := none }
  | restart (s : ScanState) :
      ScanStep root tree s { s with activeScan := none }

/-- A batch that completes the job. -/
def Completes (root : SyncRoot) (tree : LocalTree) (batchSize : Nat)
    (s s' : ScanState) : Prop :=
  RootScanner.scanBatch batchSize root true (some tree.listing) s =
    (s', .succeeded) ∧ s'.job = none

/-! ## What the rows say of the disk -/

/-- Every directory and regular file of the tree has a live row that describes
it, and no other row of the root is live. -/
structure Mirrors (tree : LocalTree) (syncRootId : String) (t : EntryTable) :
    Prop where
  directory : ∀ names, tree.forest.Holds names none →
    ∃ e, EntryRepo.findEntryByPath t syncRootId (FsPath.relativeText names) =
      some e ∧ e.isDirectory = true ∧ e.deleted = false
  file : ∀ names file, tree.forest.Holds names (some (.file file)) →
    ∃ e, EntryRepo.findEntryByPath t syncRootId (FsPath.relativeText names) =
      some e ∧ e.isDirectory = false ∧ e.size = some (file.size : Int) ∧
      e.contentHash = some file.hash ∧ e.deleted = false
  live : ∀ e ∈ t.rows, e.syncRootId = syncRootId → e.deleted = false →
    ∃ names, e.relativePath = FsPath.relativeText names ∧
      (tree.forest.Holds names none ∨
        ∃ file, tree.forest.Holds names (some (.file file)))

/-- A directory or a regular file: what a scan writes a row for. -/
inductive ScannedKind where
  | directory
  | file (file : ScannedFile)

/-- The row describes what lies at its path. -/
def ScannedKind.Describes : ScannedKind → Entry → Prop
  | .directory, e => e.isDirectory = true
  | .file found, e => e.isDirectory = false ∧
      e.size = some (found.size : Int) ∧ e.contentHash = some found.hash

namespace LocalTree

variable (tree : LocalTree)

/-- What lies at the path of a row. -/
inductive Scanned : String → ScannedKind → Prop where
  | directory (names : List String) (h : tree.forest.Holds names none) :
      Scanned (FsPath.relativeText names) .directory
  | file (names : List String) (file : ScannedFile)
      (h : tree.forest.Holds names (some (.file file))) :
      Scanned (FsPath.relativeText names) (.file file)

/-- The item of something that a scan writes a row for. -/
def scannedItem (rel : String) : ScannedKind → DirItem
  | .directory => { relative := some rel, kind := some .directory }
  | .file file =>
      { relative := some rel, kind := some (.regularFile file.probe) }

/-- A row that has the size and the stored time of the file at its path also
has its hash; of the files among the given items. -/
def TrustedOn (syncRootId : String) (items : List DirItem) (t : EntryTable) :
    Prop :=
  ∀ rel file, scannedItem rel (.file file) ∈ items → ∀ e,
    EntryRepo.findEntryByPath t syncRootId rel = some e →
    RootScanner.looksRecorded (some e) file.size file.mtime = true →
    e.contentHash = some file.hash

variable {tree}

theorem scannedItem_injective {rel rel' : String} {kind kind' : ScannedKind}
    (h : scannedItem rel kind = scannedItem rel' kind') : rel = rel' := by
  have hrelative := congrArg DirItem.relative h
  cases kind <;> cases kind' <;> exact Option.some.inj hrelative

/-- The probe of a file tells what the file is. -/
theorem probe_injective {file other : ScannedFile}
    (h : file.probe = other.probe) : file = other := by
  obtain ⟨size, mtime, hash, fits⟩ := file
  obtain ⟨size', mtime', hash', fits'⟩ := other
  simp only [ScannedFile.probe, FileProbe.mk.injEq, Option.some.injEq] at h
  obtain ⟨rfl, rfl, rfl⟩ := h
  rfl

/-- An item that the scan acts on stands for something at its path. -/
theorem scanned_of_mem {rel : String} {kind : ScannedKind}
    (h : scannedItem rel kind ∈ tree.items) : tree.Scanned rel kind := by
  obtain ⟨⟨path, x⟩, hmem, heq⟩ := List.mem_map.mp h
  obtain ⟨names, hpath, hholds⟩ := Forest.mem_walk.mp hmem
  rw [List.nil_append] at hpath
  dsimp only at hpath hholds
  subst hpath
  cases kind with
  | directory =>
      cases x with
      | none =>
          cases heq
          exact .directory path hholds
      | some leaf => cases leaf <;> cases heq
  | file file =>
      cases x with
      | none => cases heq
      | some leaf =>
          cases leaf with
          | file other =>
              simp only [item, scannedItem, DirItem.mk.injEq,
                Option.some.injEq, ItemKind.regularFile.injEq] at heq
              obtain ⟨hrel, hprobe⟩ := heq
              rw [← hrel, ← probe_injective hprobe]
              exact .file path other hholds
          | symlink resolved => cases heq
          | other => cases heq

/-- Everything at a path has its item. -/
theorem mem_of_scanned {rel : String} {kind : ScannedKind}
    (h : tree.Scanned rel kind) : scannedItem rel kind ∈ tree.items := by
  cases h with
  | directory names h =>
      exact List.mem_map.mpr ⟨(names, none),
        Forest.mem_walk.mpr ⟨names, rfl, h⟩, rfl⟩
  | file names file h =>
      exact List.mem_map.mpr ⟨(names, some (.file file)),
        Forest.mem_walk.mpr ⟨names, rfl, h⟩, rfl⟩

/-- A regular file among the items is one of the tree. -/
theorem scanned_of_regularFile {rel : String} {probe : FileProbe}
    (h : { relative := some rel, kind := some (.regularFile probe) } ∈
      tree.items) :
    ∃ file, probe = file.probe ∧ tree.Scanned rel (.file file) := by
  obtain ⟨⟨path, x⟩, hmem, heq⟩ := List.mem_map.mp h
  cases x with
  | none => cases heq
  | some leaf =>
      cases leaf with
      | file file =>
          simp only [item, DirItem.mk.injEq, Option.some.injEq,
            ItemKind.regularFile.injEq] at heq
          refine ⟨file, heq.2.symm, scanned_of_mem ?_⟩
          rw [scannedItem, heq.2]
          exact h
      | symlink resolved => cases heq
      | other => cases heq

/-- At most one thing lies at a path. -/
theorem Scanned.unique {rel : String} {kind other : ScannedKind}
    (h : tree.Scanned rel kind) (hother : tree.Scanned rel other) :
    kind = other := by
  have htext : ∀ {names names' : List String} {x y : Option LocalLeaf},
      tree.forest.Holds names x → tree.forest.Holds names' y →
      FsPath.relativeText names = FsPath.relativeText names' → x = y := by
    intro names names' x y hx hy hsame
    have hnames := FsPath.relativeText_injective hx.ne_nil hy.ne_nil
      (hx.all tree.plain) (hy.all tree.plain) hsame
    subst hnames
    exact hx.unique tree.distinct hy
  generalize hrel : rel = rel' at hother
  cases h with
  | directory names h =>
      cases hother with
      | directory names' h' => rfl
      | file names' file h' => cases htext h h' hrel
  | file names file h =>
      cases hother with
      | directory names' h' => cases htext h h' hrel
      | file names' file' h' =>
          have hsame := htext h h' hrel
          rw [Option.some.injEq, LocalLeaf.file.injEq] at hsame
          rw [hsame]

/-- An item that the scan acts on carries the path of what it stands for. -/
theorem relativeText_of_item {z : List String × Option LocalLeaf} {rel : String}
    {kind : ScannedKind} (h : item z = scannedItem rel kind) :
    FsPath.relativeText z.1 = rel := by
  obtain ⟨path, leaf⟩ := z
  cases leaf with
  | none =>
      have hrel := congrArg DirItem.relative h
      cases kind <;> exact Option.some.inj hrel
  | some leaf =>
      cases leaf with
      | file found =>
          have hrel := congrArg DirItem.relative h
          cases kind <;> exact Option.some.inj hrel
      | symlink resolved => cases kind <;> cases h
      | other => cases kind <;> cases h

/-- What the walk meets in one part of it, it does not meet in another. -/
theorem scannedItem_apart {pre items : List DirItem}
    (hsplit : tree.items = pre ++ items) {rel : String}
    {kind kind' : ScannedKind} (hpre : scannedItem rel kind ∈ pre) :
    scannedItem rel kind' ∉ items := by
  intro hitems
  obtain ⟨front, back, hwalk, rfl, rfl⟩ := List.map_eq_append_iff.mp hsplit
  obtain ⟨x, hx, hxitem⟩ := List.mem_map.mp hpre
  obtain ⟨y, hy, hyitem⟩ := List.mem_map.mp hitems
  have hholds : ∀ z ∈ tree.forest.walk [], tree.forest.Holds z.1 z.2 := by
    intro z hz
    obtain ⟨path, hpath, h⟩ := Forest.mem_walk.mp hz
    rw [hpath]
    exact h
  have hxh := hholds x (by rw [hwalk]; exact List.mem_append_left _ hx)
  have hyh := hholds y (by rw [hwalk]; exact List.mem_append_right _ hy)
  have hpath : x.1 = y.1 :=
    FsPath.relativeText_injective hxh.ne_nil hyh.ne_nil (hxh.all tree.plain)
      (hyh.all tree.plain)
      ((relativeText_of_item hxitem).trans (relativeText_of_item hyitem).symm)
  have hnodup := Forest.walk_nodup tree.distinct []
  rw [hwalk, List.map_append, List.nodup_append] at hnodup
  exact hnodup.2.2 x.1 (List.mem_map_of_mem hx) y.1 (List.mem_map_of_mem hy)
    hpath

/-- The row of something on the disk, in rows that mirror it. -/
theorem Mirrors.row {syncRootId : String} {t : EntryTable}
    (h : Mirrors tree syncRootId t) {rel : String} {kind : ScannedKind}
    (hscanned : tree.Scanned rel kind) :
    ∃ e, EntryRepo.findEntryByPath t syncRootId rel = some e ∧
      e.deleted = false ∧ kind.Describes e := by
  cases hscanned with
  | directory names hholds =>
      obtain ⟨e, he, hdirectory, hlive⟩ := h.directory names hholds
      exact ⟨e, he, hlive, hdirectory⟩
  | file names file hholds =>
      obtain ⟨e, he, hkind, hsize, hhash, hlive⟩ := h.file names file hholds
      exact ⟨e, he, hlive, hkind, hsize, hhash⟩

/-- A live row stands for something, in rows that mirror the disk. -/
theorem Mirrors.scanned {syncRootId : String} {t : EntryTable}
    (h : Mirrors tree syncRootId t) {rel : String} {e : Entry}
    (he : EntryRepo.findEntryByPath t syncRootId rel = some e)
    (hlive : e.deleted = false) : ∃ kind, tree.Scanned rel kind := by
  obtain ⟨hmem, hroot, hrel⟩ :=
    (EntryRepo.findEntryByPath_eq_some_iff t _ _ e).mp he
  obtain ⟨names, hpath, hholds⟩ := h.live e hmem hroot hlive
  rw [← hrel, hpath]
  rcases hholds with hdirectory | ⟨file, hfile⟩
  · exact ⟨_, .directory names hdirectory⟩
  · exact ⟨_, .file names file hfile⟩

/-- The rows mirror the tree if what is scanned has its row and no other row is
live. -/
theorem mirrors_of_scanned {syncRootId : String} {t : EntryTable}
    (hrow : ∀ rel kind, tree.Scanned rel kind → ∃ e,
      EntryRepo.findEntryByPath t syncRootId rel = some e ∧
      e.deleted = false ∧ kind.Describes e)
    (hlive : ∀ e ∈ t.rows, e.syncRootId = syncRootId → e.deleted = false →
      ∃ kind, tree.Scanned e.relativePath kind) :
    Mirrors tree syncRootId t := by
  refine ⟨?_, ?_, ?_⟩
  · intro names h
    obtain ⟨e, he, hdeleted, hdirectory⟩ := hrow _ _ (.directory names h)
    exact ⟨e, he, hdirectory, hdeleted⟩
  · intro names file h
    obtain ⟨e, he, hdeleted, hkind, hsize, hhash⟩ :=
      hrow _ _ (.file names file h)
    exact ⟨e, he, hkind, hsize, hhash, hdeleted⟩
  · intro e he hroot hdeleted
    obtain ⟨kind, hscanned⟩ := hlive e he hroot hdeleted
    generalize hrel : e.relativePath = rel at hscanned
    cases hscanned with
    | directory names h => exact ⟨names, rfl, Or.inl h⟩
    | file names file h => exact ⟨names, rfl, Or.inr ⟨file, h⟩⟩

end LocalTree

/-! ## What a scan of one path finds -/

/-- The path itself, or something below it. -/
def AtOrBelow (rel path : String) : Prop :=
  path = rel ∨ ∃ rest, path = rel ++ "/" ++ rest

/-- What `scanPath` finds at a path of the tree.  A directory yields the same
items in every round.  Links are followed, so that behind one, or behind the
slash at the end of a directory's path, something may be found that no walk
meets at that path. -/
inductive Finds (tree : LocalTree) (rel : String) : PathState → Prop where
  | directory (names : List String) (children : Forest LocalLeaf)
      (rounds : Nat) (h : tree.forest.Holds names none)
      (hrel : rel = FsPath.relativeText names)
      (hinside : tree.forest.descend names = some children) :
      Finds tree rel (.directory (List.replicate rounds
        (some { items := LocalTree.itemsAt names children, failed := false })))
  | file (names : List String) (file : ScannedFile)
      (h : tree.forest.Holds names (some (.file file)))
      (hrel : rel = FsPath.relativeText names) :
      Finds tree rel (.regularFile file.probe)
  | link (names : List String) (resolved : Option String)
      (h : tree.forest.Holds names (some (.symlink resolved)))
      (hrel : rel = FsPath.relativeText names) : Finds tree rel .other
  | dangling (names : List String) (resolved : Option String)
      (h : tree.forest.Holds names (some (.symlink resolved)))
      (hrel : rel = FsPath.relativeText names) : Finds tree rel .missing
  | other (names : List String) (h : tree.forest.Holds names (some .other))
      (hrel : rel = FsPath.relativeText names) : Finds tree rel .other
  | absent (h : ∀ names x, tree.forest.Holds names x →
      rel ≠ FsPath.relativeText names) : Finds tree rel .missing
  | slash (names : List String) (found : PathState)
      (h : tree.forest.Holds names none)
      (hrel : rel = FsPath.relativeText names ++ "/")
      (hreadable : found ≠ .unreadable) : Finds tree rel found
  | behindLink (names : List String) (resolved : Option String)
      (found : PathState)
      (h : tree.forest.Holds names (some (.symlink resolved)))
      (hrel : ∃ rest, rel = FsPath.relativeText names ++ "/" ++ rest)
      (hreadable : found ≠ .unreadable) : Finds tree rel found

namespace LocalTree

variable {tree : LocalTree}

/-- Something lies below a path only if the path is a directory's. -/
theorem Scanned.directory_above {rel path : String} {kind : ScannedKind}
    (h : tree.Scanned path kind) (hbelow : ∃ rest, path = rel ++ "/" ++ rest) :
    ∃ names, tree.forest.Holds names none ∧ rel = FsPath.relativeText names := by
  obtain ⟨rest, hpath⟩ := hbelow
  have habove : ∀ {names : List String} {x : Option LocalLeaf},
      tree.forest.Holds names x →
      FsPath.relativeText names = rel ++ "/" ++ rest →
      ∃ names, tree.forest.Holds names none ∧
        rel = FsPath.relativeText names := by
    intro names x hholds htext
    obtain ⟨front, back, hsplit, hfront, hback, hrel, -⟩ :=
      FsPath.split_relativeText (hholds.all tree.plain) htext
    subst hsplit
    exact ⟨front, hholds.directory_above hfront hback, hrel⟩
  generalize hsame : path = path' at h
  cases h with
  | directory names hholds => exact habove hholds (hsame.symm.trans hpath)
  | file names file hholds => exact habove hholds (hsame.symm.trans hpath)

/-- Two paths of the tree with one text are the same. -/
theorem holds_unique {names names' : List String} {x y : Option LocalLeaf}
    (h : tree.forest.Holds names x) (h' : tree.forest.Holds names' y)
    (htext : FsPath.relativeText names = FsPath.relativeText names') :
    names = names' ∧ x = y := by
  have hnames := FsPath.relativeText_injective h.ne_nil h'.ne_nil
    (h.all tree.plain) (h'.all tree.plain) htext
  subst hnames
  exact ⟨rfl, h.unique tree.distinct h'⟩

/-- At a path where no directory lies, nothing is scanned but a regular file,
and nothing below. -/
theorem not_scanned_of_leaf {names : List String} {leaf : LocalLeaf}
    (h : tree.forest.Holds names (some leaf)) {path : String}
    (hpath : ∃ rest, path = FsPath.relativeText names ++ "/" ++ rest)
    (kind : ScannedKind) : ¬ tree.Scanned path kind := by
  intro hscanned
  obtain ⟨names', hdirectory, htext⟩ := hscanned.directory_above hpath
  cases (holds_unique h hdirectory htext).2

/-- A leaf that is no regular file is not scanned. -/
theorem not_scanned_of_other {names : List String} {leaf : LocalLeaf}
    (h : tree.forest.Holds names (some leaf))
    (hleaf : ∀ file, leaf ≠ .file file) {path : String}
    (hpath : AtOrBelow (FsPath.relativeText names) path) (kind : ScannedKind) :
    ¬ tree.Scanned path kind := by
  rcases hpath with hsame | hbelow
  · intro hscanned
    cases hscanned with
    | directory names' h' => cases (holds_unique h h' hsame.symm).2
    | file names' file h' =>
        have hdata := (holds_unique h h' hsame.symm).2
        rw [Option.some.injEq] at hdata
        exact hleaf file hdata
  · exact not_scanned_of_leaf h hbelow kind

/-- Nothing is scanned at a path that ends in a separator, or below it. -/
theorem not_scanned_of_slash {rel path : String}
    (hpath : AtOrBelow (rel ++ "/") path) (kind : ScannedKind) :
    ¬ tree.Scanned path kind := by
  have hno : ∀ {names : List String} {x : Option LocalLeaf},
      tree.forest.Holds names x → FsPath.relativeText names ≠ path := by
    intro names x hholds htext
    obtain ⟨rest, hrest, hseparator⟩ : ∃ rest,
        FsPath.relativeText names = rel ++ "/" ++ rest ∧
          (rest = "" ∨ ∃ more, rest = "/" ++ more) := by
      rcases hpath with hsame | ⟨more, hbelow⟩
      · exact ⟨"", by rw [htext, hsame, String.append_empty], Or.inl rfl⟩
      · exact ⟨"/" ++ more, by rw [htext, hbelow, String.append_assoc],
          Or.inr ⟨more, rfl⟩⟩
    obtain ⟨front, back, hsplit, -, hback, -, htail⟩ :=
      FsPath.split_relativeText (hholds.all tree.plain) hrest
    have hplain : ∀ n ∈ back, FsPath.Plain n := by
      intro n hn
      apply hholds.all tree.plain
      rw [hsplit]
      exact List.mem_append_right _ hn
    rcases hseparator with hempty | ⟨more, hmore⟩
    · rw [hempty] at htail
      exact (FsPath.relativeText_ne_separator hback hplain "").1 htail.symm
    · rw [hmore] at htail
      exact (FsPath.relativeText_ne_separator hback hplain more).2 htail.symm
  intro hscanned
  cases hscanned with
  | directory names h => exact hno h rfl
  | file names file h => exact hno h rfl

end LocalTree

/-- What is found at a path of the tree: a directory that the walk meets there,
a file that it meets there, or nothing that it meets there or below. -/
theorem Finds.scanned_or {tree : LocalTree} {rel : String} {found : PathState}
    (h : Finds tree rel found) :
    (∃ names children rounds, tree.forest.Holds names none ∧
      rel = FsPath.relativeText names ∧
      tree.forest.descend names = some children ∧
      found = .directory (List.replicate rounds (some
        { items := LocalTree.itemsAt names children, failed := false }))) ∨
    (∃ names file, tree.forest.Holds names (some (.file file)) ∧
      rel = FsPath.relativeText names ∧ found = .regularFile file.probe) ∨
    ∀ path, AtOrBelow rel path → ∀ kind, ¬ tree.Scanned path kind := by
  cases h with
  | directory names children rounds h hrel hinside =>
      exact Or.inl ⟨names, children, rounds, h, hrel, hinside, rfl⟩
  | file names file h hrel =>
      exact Or.inr (Or.inl ⟨names, file, h, hrel, rfl⟩)
  | link names resolved h hrel =>
      refine Or.inr (Or.inr ?_)
      intro path hpath kind
      rw [hrel] at hpath
      exact LocalTree.not_scanned_of_other h (by simp) hpath kind
  | dangling names resolved h hrel =>
      refine Or.inr (Or.inr ?_)
      intro path hpath kind
      rw [hrel] at hpath
      exact LocalTree.not_scanned_of_other h (by simp) hpath kind
  | other names h hrel =>
      refine Or.inr (Or.inr ?_)
      intro path hpath kind
      rw [hrel] at hpath
      exact LocalTree.not_scanned_of_other h (by simp) hpath kind
  | absent h =>
      refine Or.inr (Or.inr ?_)
      intro path hpath kind hscanned
      rcases hpath with hsame | hbelow
      · cases hscanned with
        | directory names h' => exact h names _ h' hsame.symm
        | file names file h' => exact h names _ h' hsame.symm
      · obtain ⟨names, hdirectory, htext⟩ := hscanned.directory_above hbelow
        exact h names _ hdirectory htext
  | slash names found h hrel hreadable =>
      refine Or.inr (Or.inr ?_)
      intro path hpath kind
      rw [hrel] at hpath
      exact LocalTree.not_scanned_of_slash hpath kind
  | behindLink names resolved found h hrel hreadable =>
      refine Or.inr (Or.inr ?_)
      intro path hpath kind
      obtain ⟨rest, hrest⟩ := hrel
      apply LocalTree.not_scanned_of_leaf h
      rcases hpath with hsame | ⟨more, hbelow⟩
      · exact ⟨rest, hsame.trans hrest⟩
      · exact ⟨rest ++ "/" ++ more, by
          rw [hbelow, hrest, String.append_assoc, String.append_assoc,
            String.append_assoc, String.append_assoc, String.append_assoc]⟩

end ArkiveSync
