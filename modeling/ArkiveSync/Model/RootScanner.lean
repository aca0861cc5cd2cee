import Mathlib.Logic.Relation
import ArkiveSync.Library.FsPath
import ArkiveSync.Model.LocalEntryRepo
import ArkiveSync.Model.SyncPolicy

/-!
# Scanning the local tree

`RootScanner` walks a root with a recursive directory iterator.  `scanRoot`
handles one batch of a scan job and keeps the iterator for the next one;
`scanPath` scans a single path, and a directory with everything in it.  Each
call works inside a transaction.

The iterator is the list of the items it will yield.  What the items say is
read while they are handled, so between two batches the environment may put
another list in the place of the one that was left.

## Main results

* `scanRoot_steps`, `scanPath_steps`: a call of the scanner is a run of the
  statements of `LocalStep`, or leaves the table alone.
* `handleFileEntry_stored`: what a scanned file writes, and when it trusts the
  recorded hash instead of the content.
-/

namespace ArkiveSync

open Library

/-- `kMaxScanBatchSize`. -/
def kMaxScanBatchSize : Nat := 500

/-- What a scan reads of a regular file.  A missing size or time is an error
code, a missing hash an exception. -/
structure FileProbe where
  size : Option Nat
  mtime : Option Int
  hash : Option String
  deriving DecidableEq, Repr

/-- What `symlink_status` says about an item. -/
inductive ItemKind where
  | symlink
  | directory
  | regularFile (probe : FileProbe)
  | other
  deriving DecidableEq, Repr

/-- An item of the directory iterator; `none` is an error code. -/
structure DirItem where
  relative : Option String
  kind : Option ItemKind
  deriving DecidableEq, Repr

/-- An iterator: its items, and whether the last increment fails. -/
structure DirStream where
  items : List DirItem
  failed : Bool

/-- `ScanJob`, while it is running. -/
structure ScanJob where
  id : Nat
  cursorPath : Option String
  deriving DecidableEq, Repr

/-- What `handleFileEntry` does: it writes the row, refuses the file, or
throws. -/
inductive FileOutcome where
  | stored (entries : EntryTable)
  | skipped
  | threw

/-- How a call of the scanner ends. -/
inductive ScanCall where
  | succeeded
  | failed
  | threw
  | unfinished
  deriving DecidableEq, Repr

/-- What a call of `scanPath` finds at its path.  A directory comes with what
the iterators of the successive rounds yield. -/
inductive PathState where
  | unreadable
  | missing
  | regularFile (probe : FileProbe)
  | directory (rounds : List (Option DirStream))
  | other

/-- The scanner's own state for one root, with the table it writes. -/
structure ScanState where
  entries : EntryTable
  job : Option ScanJob
  nextJobId : Nat
  activeScan : Option (List DirItem)

namespace RootScanner

/-- The row says what the disk says: the file is not read again.  A stored
time has milliseconds only. -/
def looksRecorded (existing : Option Entry) (size : Nat) (mtime : Int) :
    Bool :=
  match existing with
  | none => false
  | some e => !e.deleted && e.size == some (size : Int) &&
      e.mtime.map (· * 1000000) == some mtime

/-- The `sync_state` a scanned file gets. -/
def scannedState (existing : Option Entry) (shouldHash : Bool)
    (contentHash : String) : EntrySyncState :=
  match existing with
  | none => .pendingUpload
  | some e =>
      if e.deleted || e.remoteId.isNone ||
          (shouldHash && e.contentHash != some contentHash)
      then .pendingUpload else .unchanged

/-- `handleFileEntry`.  Reading the hash of a row that has a size but no hash
is undefined in the source; it counts as an exception here. -/
def handleFileEntry (t : EntryTable) (syncRootId : String) (jobId : Nat)
    (relativePath : String) (probe : FileProbe) : FileOutcome :=
  match probe.size, probe.mtime with
  | some fileSize, some mtime =>
      if fileSize > int64Max then .skipped
      else
        let existing := EntryRepo.findEntryByPath t syncRootId relativePath
        let shouldHash := !looksRecorded existing fileSize mtime
        let contentHash :=
          if shouldHash then probe.hash else existing.bind Entry.contentHash
        match contentHash with
        | none => .threw
        | some contentHash =>
            .stored (LocalEntryRepo.upsertFileEntry t
              { syncRootId := syncRootId
                relativePath := relativePath
                size := fileSize
                mtime := toMtimeMs mtime
                contentHash := contentHash
                syncState := scannedState existing shouldHash contentHash
                lastSeenScanId := jobId })
  | _, _ => .skipped

/-- Where a batch stands. -/
structure Batch where
  entries : EntryTable
  lastCursor : Option String
  rest : List DirItem

/-- The loop of a batch; `budget` is what is left of the batch size.  `none`
is an exception. -/
def scanItems (syncRootId : String) (jobId : Nat) :
    List DirItem → Nat → EntryTable → Option String → Option Batch
  | [], _, t, last => some { entries := t, lastCursor := last, rest := [] }
  | item :: items, 0, t, last =>
      some { entries := t, lastCursor := last, rest := item :: items }
  | item :: items, budget + 1, t, last =>
      match item.relative, item.kind with
      | some rel, some .directory =>
          scanItems syncRootId jobId items budget
            (LocalEntryRepo.upsertDirectoryEntry t
              { syncRootId := syncRootId
                relativePath := rel
                lastSeenScanId := jobId }) (some rel)
      | some rel, some (.regularFile probe) =>
          match handleFileEntry t syncRootId jobId rel probe with
          | .threw => none
          | .skipped => scanItems syncRootId jobId items (budget + 1) t last
          | .stored t' => scanItems syncRootId jobId items budget t' (some rel)
      | _, _ => scanItems syncRootId jobId items (budget + 1) t last

/-- The items behind the one at `cursor`; `none` when an increment or a
relative path fails on the way. -/
def dropThrough (cursor : String) (failed : Bool) :
    List DirItem → Option (List DirItem)
  | [] => if failed then none else some []
  | item :: items =>
      match item.relative with
      | none => none
      | some rel =>
          if rel = cursor then
            if items.isEmpty && failed then none else some items
          else dropThrough cursor failed items

/-- `positionAfterCursor`; a cursor that is gone, or was the last item,
restarts the walk. -/
def positionAfterCursor (cursor : Option String) (listing : DirStream) :
    Option (List DirItem) :=
  match cursor with
  | none => some listing.items
  | some c =>
      (dropThrough c listing.failed listing.items).map (fun items =>
        if items.isEmpty then listing.items else items)

/-- `scanRoot`.  `isDirectory` is the test on the root's path, and `listing`
what a new iterator over it would yield. -/
def scanRoot (root : SyncRoot) (isDirectory : Bool)
    (listing : Option DirStream) (s : ScanState) : ScanState × ScanCall :=
  if !root.enabled || !isDirectory then (s, .failed)
  else
    let job := s.job.getD { id := s.nextJobId, cursorPath := none }
    let nextJobId := if s.job.isSome then s.nextJobId else s.nextJobId + 1
    let iterator :=
      match s.activeScan with
      | some items => some items
      | none => listing.bind (positionAfterCursor job.cursorPath)
    match iterator with
    | none => (s, .failed)
    | some items =>
        match scanItems root.id job.id items kMaxScanBatchSize s.entries none
        with
        | none => ({ s with activeScan := none }, .threw)
        | some batch =>
            if batch.rest.isEmpty then
              ({ entries :=
                  LocalEntryRepo.markEntriesNotSeenInScanDeleted batch.entries
                    root.id job.id
                 job := none
                 nextJobId := nextJobId
                 activeScan := none }, .succeeded)
            else
              ({ entries := batch.entries
                 job := some
                  { job with
                    cursorPath :=
                      if batch.lastCursor.isSome then batch.lastCursor
                      else job.cursorPath }
                 nextJobId := nextJobId
                 activeScan := some batch.rest }, .succeeded)

/-- The loop of `scanSubtree`.  Every round makes a new iterator and goes on
behind the cursor; the rounds given are all it gets. -/
def subtreeRounds (syncRootId relativePath : String) (jobId : Nat) :
    List (Option DirStream) → Option String → EntryTable →
      Option EntryTable × ScanCall
  | [], _, _ => (none, .unfinished)
  | none :: _, _, _ => (none, .failed)
  | some listing :: rounds, cursor, t =>
      match positionAfterCursor cursor listing with
      | none => (none, .failed)
      | some items =>
          match scanItems syncRootId jobId items kMaxScanBatchSize t none with
          | none => (none, .threw)
          | some batch =>
              if batch.rest.isEmpty then
                if listing.failed then (none, .failed)
                else
                  (some (LocalEntryRepo.markSubtreeEntriesNotSeenInScanDeleted
                    batch.entries syncRootId relativePath jobId), .succeeded)
              else
                match batch.lastCursor with
                | none => (none, .failed)
                | some last =>
                    subtreeRounds syncRootId relativePath jobId rounds
                      (some last) batch.entries

/-- `scanSubtree`. -/
def scanSubtree (syncRootId relativePath : String) (jobId : Nat)
    (rounds : List (Option DirStream)) (t : EntryTable) :
    Option EntryTable × ScanCall :=
  subtreeRounds syncRootId relativePath jobId rounds none
    (LocalEntryRepo.upsertDirectoryEntry t
      { syncRootId := syncRootId
        relativePath := relativePath
        lastSeenScanId := jobId })

/-- The path of a `scanPath` call below the root; `none` when it is not. -/
def pathBelowRoot (cwd : FsPath) (localPath relativePath : String) :
    Option String :=
  let rootPath := cwd.append (FsPath.parse localPath)
  let absPath := (rootPath.append (FsPath.parse relativePath)).lexicallyNormal
  let names := FsPath.lexicallyRelative absPath.loc rootPath.loc
  if FsPath.acceptsRelative names then
    some (FsPath.genericString
      { isAbsolute := false, names := names, trailing := absPath.trailing })
  else none

/-- `scanPath`. -/
def scanPath (cwd : FsPath) (root : SyncRoot) (relativePath : String)
    (found : PathState) (s : ScanState) : ScanState × ScanCall :=
  if root.localPath.isEmpty then (s, .failed)
  else
    match pathBelowRoot cwd root.localPath relativePath with
    | none => (s, .failed)
    | some rel =>
        match found with
        | .unreadable => (s, .failed)
        | .missing =>
            ({ s with
               entries := LocalEntryRepo.markPathDeleted s.entries root.id rel },
              .succeeded)
        | .regularFile probe =>
            match handleFileEntry s.entries root.id s.nextJobId rel probe with
            | .threw => (s, .threw)
            | .skipped => (s, .failed)
            | .stored t =>
                ({ s with entries := t, nextJobId := s.nextJobId + 1 },
                  .succeeded)
        | .directory rounds =>
            let done := scanSubtree root.id rel s.nextJobId rounds s.entries
            match done.1 with
            | none => (s, done.2)
            | some t =>
                ({ s with entries := t, nextJobId := s.nextJobId + 1 }, done.2)
        | .other => (s, .failed)

/-! ## What a scanned file writes -/

/-- The two ways a scanned file gets its hash. -/
theorem handleFileEntry_stored {t t' : EntryTable} {syncRootId : String}
    {jobId : Nat} {rel : String} {probe : FileProbe}
    (h : handleFileEntry t syncRootId jobId rel probe = .stored t') :
    ∃ (size : Nat) (mtime : Int) (contentHash : String) (hashed : Bool),
      probe.size = some size ∧ probe.mtime = some mtime ∧
      size ≤ int64Max ∧
      hashed = !looksRecorded
        (EntryRepo.findEntryByPath t syncRootId rel) size mtime ∧
      (hashed = true → probe.hash = some contentHash) ∧
      (hashed = false → ∃ e,
        EntryRepo.findEntryByPath t syncRootId rel = some e ∧
          e.contentHash = some contentHash) ∧
      t' = LocalEntryRepo.upsertFileEntry t
        { syncRootId := syncRootId
          relativePath := rel
          size := size
          mtime := toMtimeMs mtime
          contentHash := contentHash
          syncState := scannedState
            (EntryRepo.findEntryByPath t syncRootId rel) hashed contentHash
          lastSeenScanId := jobId } := by
  unfold handleFileEntry at h
  split at h
  next size mtime hsize hmtime =>
      split at h
      next => cases h
      next hfits =>
          simp only at h
          split at h
          next => cases h
          next contentHash hhash =>
              refine ⟨size, mtime, contentHash, _, hsize, hmtime, by omega, rfl,
                ?_, ?_, ?_⟩
              · intro hh
                rw [if_pos hh] at hhash
                exact hhash
              · intro hh
                rw [if_neg (by rw [hh]; decide)] at hhash
                exact Option.bind_eq_some_iff.mp hhash
              · cases h
                rfl
  next => cases h

/-! ## Scans as runs of statements -/

/-- One statement of a scan that handles the given items. -/
inductive LocalStep (syncRootId : String) (jobId : Nat)
    (items : List DirItem) : EntryTable → EntryTable → Prop where
  | directory (t : EntryTable) (rel : String)
      (hitem : { relative := some rel, kind := some .directory } ∈ items) :
      LocalStep syncRootId jobId items t
        (LocalEntryRepo.upsertDirectoryEntry t
          { syncRootId := syncRootId
            relativePath := rel
            lastSeenScanId := jobId })
  | file (t t' : EntryTable) (rel : String) (probe : FileProbe)
      (hitem : { relative := some rel, kind := some (.regularFile probe) } ∈
        items)
      (hstored : handleFileEntry t syncRootId jobId rel probe = .stored t') :
      LocalStep syncRootId jobId items t t'
  | mark (t : EntryTable) (p : Entry → Bool)
      (hroot : ∀ e, p e = true → e.syncRootId = syncRootId) :
      LocalStep syncRootId jobId items t (LocalEntryRepo.markDeleted t p)

/-- Where a row of the new table comes from, as far as the remote file is
concerned: it is new or freed of it, or an old row still with it. -/
theorem LocalStep.row_from {syncRootId : String} {jobId : Nat}
    {items : List DirItem} {t t' : EntryTable}
    (h : LocalStep syncRootId jobId items t t') {e : Entry}
    (he : e ∈ t'.rows) :
    e.remoteFileId = none ∨
      ∃ f ∈ t.rows, e.key = f.key ∧ e.remoteFileId = f.remoteFileId := by
  cases h with
  | directory rel =>
      rcases (t.mem_upsert _ _ _ _ _ _ _ e).mp he with rfl | ⟨he, _⟩
      · cases hold : t.lookup (syncRootId, rel) with
        | none =>
            rw [KeyedTable.upserted_of_none hold]
            exact Or.inl rfl
        | some f =>
            rw [KeyedTable.upserted_of_some hold]
            exact Or.inr ⟨f, KeyedTable.mem_of_lookup hold, rfl, rfl⟩
      · exact Or.inr ⟨e, he, rfl, rfl⟩
  | file _ rel probe hitem hstored =>
      obtain ⟨_, _, _, _, _, _, _, _, _, _, rfl⟩ := handleFileEntry_stored hstored
      rcases (t.mem_upsert _ _ _ _ _ _ _ e).mp he with rfl | ⟨he, _⟩
      · cases hold : t.lookup (syncRootId, rel) with
        | none =>
            rw [KeyedTable.upserted_of_none hold]
            exact Or.inl rfl
        | some f =>
            rw [KeyedTable.upserted_of_some hold]
            cases hdel : f.localDeletedAt with
            | none =>
                refine Or.inr ⟨f, KeyedTable.mem_of_lookup hold, rfl, ?_⟩
                simp [LocalEntryRepo.updateFile, LocalEntryRepo.unlessDeleted,
                  hdel]
            | some _ =>
                left
                simp [LocalEntryRepo.updateFile, LocalEntryRepo.unlessDeleted,
                  hdel]
      · exact Or.inr ⟨e, he, rfl, rfl⟩
  | mark p =>
      obtain ⟨f, hf, rfl⟩ := (LocalEntryRepo.mem_markDeleted t p e).mp he
      refine Or.inr ⟨f, hf, ?_, ?_⟩
      · split <;> rfl
      · split <;> rfl

/-- Some statements of a scan, one after the other. -/
abbrev LocalSteps (syncRootId : String) (jobId : Nat) (items : List DirItem) :
    EntryTable → EntryTable → Prop :=
  Relation.ReflTransGen (LocalStep syncRootId jobId items)

theorem LocalStep.mono {syncRootId : String} {jobId : Nat}
    {items items' : List DirItem} (hsub : ∀ i ∈ items, i ∈ items')
    {t t' : EntryTable} (h : LocalStep syncRootId jobId items t t') :
    LocalStep syncRootId jobId items' t t' := by
  cases h with
  | directory rel hitem => exact .directory t rel (hsub _ hitem)
  | file _ rel probe hitem hstored =>
      exact .file t t' rel probe (hsub _ hitem) hstored
  | mark p hroot => exact .mark t p hroot

theorem LocalSteps.mono {syncRootId : String} {jobId : Nat}
    {items items' : List DirItem} (hsub : ∀ i ∈ items, i ∈ items')
    {t t' : EntryTable} (h : LocalSteps syncRootId jobId items t t') :
    LocalSteps syncRootId jobId items' t t' :=
  h.lift id (fun _ _ hstep => LocalStep.mono hsub hstep)

theorem scanItems_steps {syncRootId : String} {jobId : Nat}
    {items : List DirItem} {budget : Nat} {t : EntryTable}
    {last : Option String} {batch : Batch}
    (h : scanItems syncRootId jobId items budget t last = some batch) :
    LocalSteps syncRootId jobId items t batch.entries := by
  induction items generalizing budget t last with
  | nil =>
      cases h
      exact .refl
  | cons item items ih =>
      have hsub : ∀ i ∈ items, i ∈ item :: items := fun i hi => by simp [hi]
      cases budget with
      | zero =>
          cases h
          exact .refl
      | succ budget =>
          obtain ⟨relative, kind⟩ := item
          unfold scanItems at h
          split at h
          next rel hrel hkind =>
              simp only at hrel hkind
              subst hrel hkind
              refine Relation.ReflTransGen.head ?_ ((ih h).mono hsub)
              exact .directory t rel (by simp)
          next rel probe hrel hkind =>
              simp only at hrel hkind
              subst hrel hkind
              split at h
              next => cases h
              next => exact (ih h).mono hsub
              next t' ht' =>
                  refine Relation.ReflTransGen.head ?_ ((ih h).mono hsub)
                  exact .file t t' rel probe (by simp) ht'
          next => exact (ih h).mono hsub

/-- The items a call of `scanRoot` works on. -/
def itemsOf (listing : Option DirStream) (s : ScanState) : List DirItem :=
  match s.activeScan with
  | some items => items
  | none => (listing.map DirStream.items).getD []

theorem dropThrough_subset {cursor : String} {failed : Bool}
    {items rest : List DirItem} (h : dropThrough cursor failed items = some rest) :
    ∀ i ∈ rest, i ∈ items := by
  induction items with
  | nil =>
      unfold dropThrough at h
      split at h
      · cases h
      · cases h
        exact fun i hi => hi
  | cons item items ih =>
      unfold dropThrough at h
      split at h
      next => cases h
      next rel hrel =>
          split at h
          next =>
              split at h
              · cases h
              · cases h
                exact fun i hi => List.mem_cons_of_mem _ hi
          next => exact fun i hi => List.mem_cons_of_mem _ (ih h i hi)

theorem positionAfterCursor_subset {cursor : Option String}
    {listing : DirStream} {items : List DirItem}
    (h : positionAfterCursor cursor listing = some items) :
    ∀ i ∈ items, i ∈ listing.items := by
  unfold positionAfterCursor at h
  split at h
  next =>
      cases h
      exact fun i hi => hi
  next c =>
      obtain ⟨rest, hrest, heq⟩ := Option.map_eq_some_iff.mp h
      subst heq
      split
      · exact fun i hi => hi
      · exact dropThrough_subset hrest

/-- A batch takes items off the front. -/
theorem scanItems_rest {syncRootId : String} {jobId : Nat}
    {items : List DirItem} {budget : Nat} {t : EntryTable}
    {last : Option String} {batch : Batch}
    (h : scanItems syncRootId jobId items budget t last = some batch) :
    batch.rest <:+ items := by
  induction items generalizing budget t last with
  | nil =>
      cases h
      exact List.suffix_refl _
  | cons item items ih =>
      cases budget with
      | zero =>
          cases h
          exact List.suffix_refl _
      | succ budget =>
          unfold scanItems at h
          split at h
          · exact (ih h).trans (List.suffix_cons _ _)
          · split at h
            · cases h
            · exact (ih h).trans (List.suffix_cons _ _)
            · exact (ih h).trans (List.suffix_cons _ _)
          · exact (ih h).trans (List.suffix_cons _ _)

/-- What a scan goes through is what its iterator, or a new one, yields. -/
theorem iterator_subset {listing : Option DirStream} {s : ScanState}
    {cursor : Option String} {items : List DirItem}
    (h : (match s.activeScan with
      | some items => some items
      | none => listing.bind (positionAfterCursor cursor)) = some items) :
    ∀ i ∈ items, i ∈ itemsOf listing s := by
  unfold itemsOf
  split at h
  next active hactive =>
      cases h
      exact fun i hi => hi
  next hactive =>
      obtain ⟨l, hl, hpos⟩ := Option.bind_eq_some_iff.mp h
      subst hl
      exact positionAfterCursor_subset hpos

/-- A batch of a scan is a run of statements over the items of its iterator,
or leaves the table alone. -/
theorem scanRoot_steps (root : SyncRoot) (isDirectory : Bool)
    (listing : Option DirStream) (s : ScanState) :
    ∃ jobId, LocalSteps root.id jobId (itemsOf listing s) s.entries
      (scanRoot root isDirectory listing s).1.entries := by
  unfold scanRoot
  split
  next => exact ⟨0, .refl⟩
  next =>
      simp only
      split
      next => exact ⟨0, .refl⟩
      next items hitems =>
          split
          next => exact ⟨0, .refl⟩
          next batch hbatch =>
              have hsteps := (scanItems_steps hbatch).mono
                (iterator_subset hitems)
              split
              next =>
                  refine ⟨_, hsteps.tail (.mark _ _ ?_)⟩
                  intro e he
                  simp only [Bool.and_eq_true, beq_iff_eq] at he
                  exact he.1.1
              next => exact ⟨_, hsteps⟩

/-- What a scan leaves of its iterator is part of what it went through. -/
theorem activeScan_scanRoot {root : SyncRoot} {isDirectory : Bool}
    {listing : Option DirStream} {s : ScanState} {rest : List DirItem}
    (h : (scanRoot root isDirectory listing s).1.activeScan = some rest) :
    ∀ i ∈ rest, i ∈ itemsOf listing s := by
  have hold : s.activeScan = some rest → ∀ i ∈ rest, i ∈ itemsOf listing s := by
    intro hactive
    unfold itemsOf
    rw [hactive]
    exact fun i hi => hi
  unfold scanRoot at h
  split at h
  next => exact hold h
  next =>
      simp only at h
      split at h
      next => exact hold h
      next items hitems =>
          split at h
          next => cases h
          next batch hbatch =>
              split at h
              next => cases h
              next =>
                  cases h
                  intro i hi
                  exact iterator_subset hitems i
                    ((scanItems_rest hbatch).subset hi)

/-- The items of some rounds. -/
def itemsOfRounds (rounds : List (Option DirStream)) : List DirItem :=
  rounds.flatMap (fun round => (round.map DirStream.items).getD [])

theorem subtreeRounds_steps {syncRootId rel : String} {jobId : Nat}
    {rounds : List (Option DirStream)} {cursor : Option String}
    {t t' : EntryTable}
    (h : (subtreeRounds syncRootId rel jobId rounds cursor t).1 = some t') :
    LocalSteps syncRootId jobId (itemsOfRounds rounds) t t' := by
  induction rounds generalizing cursor t with
  | nil => cases h
  | cons round rounds ih =>
      cases round with
      | none => cases h
      | some listing =>
          unfold subtreeRounds at h
          split at h
          next => cases h
          next items hpos =>
              split at h
              next => cases h
              next batch hbatch =>
                  have hsub : ∀ i ∈ items,
                      i ∈ itemsOfRounds (some listing :: rounds) := by
                    intro i hi
                    have hin := positionAfterCursor_subset hpos i hi
                    simp [itemsOfRounds, hin]
                  have hsteps := (scanItems_steps hbatch).mono hsub
                  split at h
                  next =>
                      split at h
                      · cases h
                      · cases h
                        refine hsteps.tail (.mark _ _ ?_)
                        intro e he
                        simp only [Bool.and_eq_true, beq_iff_eq] at he
                        exact he.1.1.1
                  next =>
                      split at h
                      next => cases h
                      next last _ =>
                          refine hsteps.trans ((ih h).mono ?_)
                          intro i hi
                          simp only [itemsOfRounds, List.flatMap_cons,
                            List.mem_append]
                          exact Or.inr hi

/-- The items a call of `scanPath` works on. -/
def itemsOfPath (rel : String) (found : PathState) : List DirItem :=
  match found with
  | .regularFile probe =>
      [{ relative := some rel, kind := some (.regularFile probe) }]
  | .directory rounds =>
      { relative := some rel, kind := some .directory } :: itemsOfRounds rounds
  | _ => []

/-- A scan of one path is a run of statements over what is found there, or
leaves the table alone. -/
theorem scanPath_steps (cwd : FsPath) (root : SyncRoot) (relativePath : String)
    (found : PathState) (s : ScanState) :
    (scanPath cwd root relativePath found s).1.entries = s.entries ∨
      ∃ rel, pathBelowRoot cwd root.localPath relativePath = some rel ∧
        LocalSteps root.id s.nextJobId (itemsOfPath rel found) s.entries
          (scanPath cwd root relativePath found s).1.entries := by
  unfold scanPath
  split
  next => exact Or.inl rfl
  next =>
      split
      next => exact Or.inl rfl
      next rel hrel =>
          cases found with
          | unreadable => exact Or.inl rfl
          | missing =>
              refine Or.inr ⟨rel, hrel, .single (.mark _ _ ?_)⟩
              intro e he
              simp only [Bool.and_eq_true, beq_iff_eq] at he
              exact he.1.1
          | regularFile probe =>
              simp only
              split
              next => exact Or.inl rfl
              next => exact Or.inl rfl
              next t ht =>
                  refine Or.inr ⟨rel, hrel, .single ?_⟩
                  exact .file _ _ rel probe (by simp [itemsOfPath]) ht
          | directory rounds =>
              simp only
              split
              next => exact Or.inl rfl
              next t ht =>
                  refine Or.inr ⟨rel, hrel, Relation.ReflTransGen.head
                    (.directory _ rel (by simp [itemsOfPath])) ?_⟩
                  refine (subtreeRounds_steps ht).mono ?_
                  intro i hi
                  simp [itemsOfPath, hi]
          | other => exact Or.inl rfl

@[simp] theorem activeScan_scanPath (cwd : FsPath) (root : SyncRoot)
    (relativePath : String) (found : PathState) (s : ScanState) :
    (scanPath cwd root relativePath found s).1.activeScan = s.activeScan := by
  unfold scanPath
  simp only
  repeat' split
  all_goals rfl

end RootScanner

end ArkiveSync
