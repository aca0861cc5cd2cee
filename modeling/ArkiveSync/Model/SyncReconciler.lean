import ArkiveSync.Library.FileTree
import ArkiveSync.Model.RemoteEntryRepo
import ArkiveSync.Model.SyncPolicy

/-!
# Reconciling a root

`SyncReconciler::reconcileRoot` takes the rows of a root once, in path order,
decides about each and acts on the disk: it removes a path, recursively or
not, fetches the remote object into it, or keeps both copies of a conflict.
The rows are a snapshot; the table and the disk move on while it works through
them.

The network, the hash function, the clock and the random part of temporary
names are the environment of a call.  The temporary file of a download lives
next to its target under a fresh name and is gone when the row is done, so the
disk does not show it, but the log of effects does.  A disk operation that
fails leaves the disk as it was and the row is logged and skipped, as the
`std::error_code` overloads and the `catch` of the source have it.
-/

namespace ArkiveSync

open Library

/-- File contents. -/
abbrev Bytes := List UInt8

/-- A regular file as the disk holds it; the time is in nanoseconds. -/
structure LocalFile where
  content : Bytes
  mtime : Int
  deriving DecidableEq, Repr

/-- The disk of the client. -/
abbrev Disk := FileTree LocalFile

/-- `normalizeFsPath`; `none` is the exception for an empty path. -/
def normalizeFsPath (cwd : FsPath) (path : String) : Option String :=
  if (FsPath.parse path).isEmpty then none
  else some (cwd.append (FsPath.parse path)).lexicallyNormal.genericString

/-- How a file transfer can end: the record cannot be had, the transfer breaks
off after the target directory was made, or the content arrives. -/
inductive Transfer where
  | unavailable
  | interrupted
  | delivered (content : Bytes)
  deriving DecidableEq, Repr

/-- What a call of `reconcileRoot` finds around it.  The functions of a row's
id are what the environment does while that row is worked on. -/
structure ReconcileEnv where
  cwd : FsPath
  conflictRepo : Bool := true
  remoteEntryRepo : Bool := true
  downloadFile : Option (Nat → String → Transfer)
  hashFile : Option (Bytes → String)
  stamp : Nat → String
  tempHex : Nat → String
  clock : Nat → Int

/-- What a call does to the disk, in order. -/
inductive FsEffect where
  | remove (path : FsPath)
  | removeAll (path : FsPath)
  | writeTemp (path : FsPath)
  | replace (fileId : String) (path : FsPath)
  deriving DecidableEq, Repr

/-- The path an effect deletes, deletes recursively or writes. -/
def FsEffect.path : FsEffect → FsPath
  | .remove p => p
  | .removeAll p => p
  | .writeTemp p => p
  | .replace _ p => p

/-- The state a reconciliation works on. -/
structure World where
  entries : EntryTable
  disk : Disk

/-- The outcome of a piece of a reconciliation; `returned` is false when it
leaves by an exception. -/
structure Reconciled where
  world : World
  effects : List FsEffect
  returned : Bool

namespace SyncReconciler

/-- `path(normalizeFsPath(root.localPath)) / entry.relativePath`. -/
def absolutePath (env : ReconcileEnv) (root : SyncRoot) (e : Entry) :
    Option FsPath :=
  (normalizeFsPath env.cwd root.localPath).map (fun base =>
    (FsPath.parse base).append (FsPath.parse e.relativePath))

/-- `applyDeleteLocal`. -/
def applyDeleteLocal (disk : Disk) (path : FsPath) (isDirectory : Bool) :
    Disk × List FsEffect :=
  if isDirectory then (disk.removeAll path.loc, [.removeAll path])
  else ((disk.remove path.loc).getD disk, [.remove path])

/-- The name of the `index`-th candidate of `conflictPathFor`. -/
def conflictName (stamp stem extension : String) (index : Nat) : String :=
  stem ++ (" (remote conflict " ++ stamp ++ ")") ++
    (if index > 1 then "-" ++ toString index else "") ++ extension

/-- `conflictPathFor`; `none` is the exception when no name is free. -/
def conflictPathFor (disk : Disk) (stamp : String) (path : FsPath) :
    Option FsPath :=
  ((List.range' 1 999).map (fun index => path.parentPath.appendName
    (conflictName stamp path.stem path.extension index))).find?
      (fun candidate => !disk.exists? candidate.loc)

/-- The temporary name `AtomicFileWriter` writes under. -/
def tempPathFor (hex : String) (target : FsPath) : FsPath :=
  target.concat (".arkive-" ++ hex ++ ".tmp")

/-- What a download leaves: the disk, its effects, and the new file unless it
threw. -/
structure Downloaded where
  disk : Disk
  effects : List FsEffect
  file : Option LocalFile

/-- `DownloadService::downloadFile` over the atomic file writer: make the
parent directories, fill a temporary file, rename it onto the target. -/
def downloadFile (env : ReconcileEnv) (rowId : Nat) (transfer : Transfer)
    (fileId : String) (target : FsPath) (disk : Disk) : Downloaded :=
  match transfer with
  | .unavailable => { disk := disk, effects := [], file := none }
  | .interrupted =>
      match disk.makeDirectories target.parentPath.loc with
      | none => { disk := disk, effects := [], file := none }
      | some made =>
          { disk := made
            effects := [.writeTemp (tempPathFor (env.tempHex rowId) target)]
            file := none }
  | .delivered content =>
      match disk.makeDirectories target.parentPath.loc with
      | none => { disk := disk, effects := [], file := none }
      | some made =>
          let temp := FsEffect.writeTemp (tempPathFor (env.tempHex rowId) target)
          let file : LocalFile :=
            { content := content, mtime := env.clock rowId }
          match made.writeFile target.loc file with
          | none => { disk := made, effects := [temp], file := none }
          | some written =>
              { disk := written
                effects := [temp, .replace fileId target]
                file := some file }

/-- `applyConflict`. -/
def applyConflict (env : ReconcileEnv) (e : Entry) (path : FsPath)
    (w : World) : Reconciled :=
  let entries :=
    if env.conflictRepo then
      ConflictRepo.markConflict w.entries e.id "local_remote_modified"
    else w.entries
  let marked : Reconciled :=
    { world := { w with entries := entries }, effects := [], returned := true }
  if e.isDirectory then marked
  else if e.remoteDeletedAt.isSome then marked
  else
    match env.downloadFile, e.remoteFileId with
    | some download, some fileId =>
        match conflictPathFor w.disk (env.stamp e.id) path with
        | none => { marked with returned := false }
        | some conflictPath =>
            let got := downloadFile env e.id (download e.id fileId) fileId
              conflictPath w.disk
            { marked with
              world := { entries := entries, disk := got.disk }
              effects := got.effects }
    | _, _ => marked

/-- The rows' bookkeeping after a download. -/
def recordDownload (env : ReconcileEnv) (e : Entry) (file : LocalFile)
    (t : EntryTable) : EntryTable :=
  if !env.remoteEntryRepo then t
  else
    match env.hashFile with
    | none => RemoteEntryRepo.markEntryDownloaded t e.id
    | some hash =>
        if file.content.length > int64Max then t
        else
          RemoteEntryRepo.markEntryDownloadedAs t e.id file.content.length
            (toMtimeMs file.mtime) (hash file.content)

/-- The `Download` branch. -/
def applyDownload (env : ReconcileEnv) (e : Entry) (path : FsPath)
    (w : World) : Reconciled :=
  if e.isDirectory then { world := w, effects := [], returned := true }
  else
    match env.downloadFile, e.remoteFileId with
    | some download, some fileId =>
        let got := downloadFile env e.id (download e.id fileId) fileId path
          w.disk
        { world :=
            { entries :=
                match got.file with
                | none => w.entries
                | some file => recordDownload env e file w.entries
              disk := got.disk }
          effects := got.effects
          returned := true }
    | _, _ => { world := w, effects := [], returned := true }

/-- One turn of the loop of `reconcileRoot`. -/
def reconcileEntry (env : ReconcileEnv) (root : SyncRoot) (e : Entry)
    (w : World) : Reconciled :=
  match absolutePath env root e with
  | none => { world := w, effects := [], returned := false }
  | some path =>
      match decideEntry root.mode e with
      | .deleteLocal =>
          let done := applyDeleteLocal w.disk path e.isDirectory
          { world := { w with disk := done.1 }
            effects := done.2
            returned := true }
      | .conflict => applyConflict env e path w
      | .download => applyDownload env e path w
      | _ => { world := w, effects := [], returned := true }

/-- The loop of `reconcileRoot` over the rows still to come. -/
def reconcileRows (env : ReconcileEnv) (root : SyncRoot) :
    List Entry → World → Reconciled
  | [], w => { world := w, effects := [], returned := true }
  | e :: es, w =>
      let now := reconcileEntry env root e w
      if now.returned then
        let rest := reconcileRows env root es now.world
        { rest with effects := now.effects ++ rest.effects }
      else now

/-- `reconcileRoot`. -/
def reconcileRoot (env : ReconcileEnv) (root : SyncRoot) (w : World) :
    Reconciled :=
  reconcileRows env root (EntryRepo.listEntriesBySyncRootId w.entries root.id) w

/-- The rows a call gets to, each with what it does for the row. -/
def turns (env : ReconcileEnv) (root : SyncRoot) :
    List Entry → World → List (Entry × List FsEffect)
  | [], _ => []
  | e :: es, w =>
      let now := reconcileEntry env root e w
      (e, now.effects) ::
        if now.returned then turns env root es now.world else []

/-! ## What one row can do -/

/-- The ways a download can leave the disk: nothing happened, the target
directory was made, or the file is in place. -/
inductive Fetched (env : ReconcileEnv) (rowId : Nat) (fileId : String)
    (target : FsPath) (disk : Disk) : Downloaded → Prop where
  | nothing :
      Fetched env rowId fileId target disk
        { disk := disk, effects := [], file := none }
  | made (made : Disk)
      (hmade : disk.makeDirectories target.parentPath.loc = some made) :
      Fetched env rowId fileId target disk
        { disk := made
          effects := [.writeTemp (tempPathFor (env.tempHex rowId) target)]
          file := none }
  | wrote (made written : Disk) (file : LocalFile)
      (hmade : disk.makeDirectories target.parentPath.loc = some made)
      (hwritten : made.writeFile target.loc file = some written) :
      Fetched env rowId fileId target disk
        { disk := written
          effects := [.writeTemp (tempPathFor (env.tempHex rowId) target),
            .replace fileId target]
          file := some file }

theorem downloadFile_fetched (env : ReconcileEnv) (rowId : Nat)
    (transfer : Transfer) (fileId : String) (target : FsPath) (disk : Disk) :
    Fetched env rowId fileId target disk
      (downloadFile env rowId transfer fileId target disk) := by
  cases transfer with
  | unavailable => exact .nothing
  | interrupted =>
      unfold downloadFile
      cases hm : disk.makeDirectories target.parentPath.loc with
      | none => exact .nothing
      | some made => exact .made made hm
  | delivered content =>
      unfold downloadFile
      cases hm : disk.makeDirectories target.parentPath.loc with
      | none => exact .nothing
      | some made =>
          simp only
          cases hw : made.writeFile target.loc
              { content := content, mtime := env.clock rowId } with
          | none => exact .made made hm
          | some written => exact .wrote made written _ hm hw

/-- A download touches no regular file but its target. -/
theorem Fetched.elsewhere {env : ReconcileEnv} {rowId : Nat} {fileId : String}
    {target : FsPath} {disk : Disk} {got : Downloaded}
    (h : Fetched env rowId fileId target disk got) {l : Loc}
    (hl : l ≠ target.loc) {f : LocalFile} (hf : got.disk.file? l = some f) :
    disk.file? l = some f := by
  rw [FileTree.file?_eq_some_iff] at hf ⊢
  cases h with
  | nothing => exact hf
  | made made hmade => exact (FileTree.file_of_makeDirectories hmade l f).mp hf
  | wrote made written file hmade hwritten =>
      have hmid := (FileTree.file_of_writeFile hwritten hl).mp hf
      exact (FileTree.file_of_makeDirectories hmade l f).mp hmid

/-- What a download puts in place, it puts onto its target. -/
theorem Fetched.target_of_replace {env : ReconcileEnv} {rowId : Nat}
    {own fileId : String} {target path : FsPath} {disk : Disk}
    {got : Downloaded} (h : Fetched env rowId own target disk got)
    (hmem : .replace fileId path ∈ got.effects) :
    own = fileId ∧ path = target := by
  cases h with
  | nothing => simp at hmem
  | made => simp at hmem
  | wrote =>
      simp only [List.mem_cons, reduceCtorEq, FsEffect.replace.injEq,
        List.not_mem_nil, or_false, false_or] at hmem
      exact ⟨hmem.1.symm, hmem.2⟩

/-- A deletion puts no file anywhere. -/
theorem file_of_applyDeleteLocal {disk : Disk} {path : FsPath}
    {isDirectory : Bool} {l : Loc} {f : LocalFile}
    (h : (applyDeleteLocal disk path isDirectory).1.file? l = some f) :
    disk.file? l = some f := by
  unfold applyDeleteLocal at h
  split at h
  next => exact FileTree.file_of_removeAll h
  next =>
      cases hrem : disk.remove path.loc with
      | none =>
          rw [hrem] at h
          exact h
      | some disk' =>
          rw [hrem] at h
          exact FileTree.file_of_remove hrem h

/-- The name a conflict copy gets is free. -/
theorem file_of_conflictPathFor {disk : Disk} {stamp : String}
    {path target : FsPath} (h : conflictPathFor disk stamp path = some target) :
    disk.file? target.loc = none := by
  have hfree := List.find?_some h
  have hget : disk.get target.loc = none := by
    simpa [FileTree.exists?] using hfree
  unfold FileTree.file?
  rw [hget]

/-- The ways one turn of the loop can go for a row at `path`. -/
inductive Turn (env : ReconcileEnv) (root : SyncRoot) (e : Entry)
    (path : FsPath) (w : World) : Reconciled → Prop where
  | idle (hdel : decideEntry root.mode e ≠ .deleteLocal) :
      Turn env root e path w { world := w, effects := [], returned := true }
  | deleteTree (hdec : decideEntry root.mode e = .deleteLocal)
      (hdir : e.isDirectory = true) :
      Turn env root e path w
        { world := { w with disk := w.disk.removeAll path.loc }
          effects := [.removeAll path]
          returned := true }
  | deleteFile (hdec : decideEntry root.mode e = .deleteLocal)
      (hfile : e.isDirectory = false) :
      Turn env root e path w
        { world := { w with disk := (w.disk.remove path.loc).getD w.disk }
          effects := [.remove path]
          returned := true }
  | marked (hdec : decideEntry root.mode e = .conflict) (returned : Bool)
      (entries : EntryTable)
      (hentries : entries = w.entries ∨ entries =
        ConflictRepo.markConflict w.entries e.id "local_remote_modified") :
      Turn env root e path w
        { world := { w with entries := entries }
          effects := []
          returned := returned }
  | keptBoth (hdec : decideEntry root.mode e = .conflict)
      (entries : EntryTable)
      (hentries : entries = w.entries ∨ entries =
        ConflictRepo.markConflict w.entries e.id "local_remote_modified")
      (fileId : String) (target : FsPath) (got : Downloaded)
      (hfileId : e.remoteFileId = some fileId)
      (hdir : e.isDirectory = false) (hlive : e.remoteDeletedAt = none)
      (htarget : conflictPathFor w.disk (env.stamp e.id) path = some target)
      (hgot : Fetched env e.id fileId target w.disk got) :
      Turn env root e path w
        { world := { entries := entries, disk := got.disk }
          effects := got.effects
          returned := true }
  | downloaded (hdec : decideEntry root.mode e = .download)
      (hdir : e.isDirectory = false) (fileId : String) (got : Downloaded)
      (entries : EntryTable)
      (hfileId : e.remoteFileId = some fileId)
      (hgot : Fetched env e.id fileId path w.disk got)
      (hentries : entries = match got.file with
        | none => w.entries
        | some file => recordDownload env e file w.entries) :
      Turn env root e path w
        { world := { entries := entries, disk := got.disk }
          effects := got.effects
          returned := true }

theorem applyConflict_turn {env : ReconcileEnv} {root : SyncRoot} {e : Entry}
    (path : FsPath) (w : World)
    (hdec : decideEntry root.mode e = .conflict) :
    Turn env root e path w (applyConflict env e path w) := by
  have hentries : ∀ b : Bool,
      (if b then
          ConflictRepo.markConflict w.entries e.id "local_remote_modified"
        else w.entries) = w.entries ∨
      (if b then
          ConflictRepo.markConflict w.entries e.id "local_remote_modified"
        else w.entries) =
        ConflictRepo.markConflict w.entries e.id "local_remote_modified" := by
    intro b
    cases b
    · exact Or.inl rfl
    · exact Or.inr rfl
  unfold applyConflict
  simp only
  split
  next => exact .marked hdec true _ (hentries _)
  next hdir =>
      split
      next => exact .marked hdec true _ (hentries _)
      next hdeleted =>
          split
          next download fileId _ hfile =>
              split
              next => exact .marked hdec false _ (hentries _)
              next target htarget =>
                  exact .keptBoth hdec _ (hentries _) fileId target _ hfile
                    (by simpa using hdir) (by simpa using hdeleted) htarget
                    (downloadFile_fetched env e.id _ fileId target w.disk)
          next => exact .marked hdec true _ (hentries _)

theorem applyDownload_turn {env : ReconcileEnv} {root : SyncRoot} {e : Entry}
    (path : FsPath) (w : World)
    (hdec : decideEntry root.mode e = .download) :
    Turn env root e path w (applyDownload env e path w) := by
  have hne : decideEntry root.mode e ≠ .deleteLocal := by
    rw [hdec]
    decide
  unfold applyDownload
  split
  next => exact .idle hne
  next hdir =>
      split
      next download fileId _ hfile =>
          exact .downloaded hdec (by simpa using hdir) fileId _ _ hfile
            (downloadFile_fetched env e.id _ fileId path w.disk) rfl
      next => exact .idle hne

/-- Every turn of the loop is one of these. -/
theorem reconcileEntry_turn {env : ReconcileEnv} {root : SyncRoot} {e : Entry}
    {path : FsPath} (hpath : absolutePath env root e = some path)
    (w : World) : Turn env root e path w (reconcileEntry env root e w) := by
  unfold reconcileEntry
  rw [hpath]
  simp only
  split
  next hdec =>
      unfold applyDeleteLocal
      cases hdir : e.isDirectory with
      | true => exact .deleteTree hdec hdir
      | false => exact .deleteFile hdec hdir
  next hdec => exact applyConflict_turn path w hdec
  next hdec => exact applyDownload_turn path w hdec
  next hdel _ _ => exact .idle hdel

/-- A row that cannot be placed ends the call before anything is done. -/
theorem reconcileEntry_unplaced {env : ReconcileEnv} {root : SyncRoot}
    {e : Entry} (hpath : absolutePath env root e = none) (w : World) :
    reconcileEntry env root e w =
      { world := w, effects := [], returned := false } := by
  unfold reconcileEntry
  rw [hpath]

/-- What a turn writes to the table: nothing, a conflict, or the bookkeeping
of a download, always on the row it works on. -/
inductive RowWritten (root : SyncRoot) (e : Entry) (t : EntryTable) :
    EntryTable → Prop where
  | untouched : RowWritten root e t t
  | conflict (hdec : decideEntry root.mode e = .conflict) :
      RowWritten root e t
        (ConflictRepo.markConflict t e.id "local_remote_modified")
  | downloaded (hdec : decideEntry root.mode e = .download) :
      RowWritten root e t (RemoteEntryRepo.markEntryDownloaded t e.id)
  | downloadedAs (hdec : decideEntry root.mode e = .download)
      (size mtime : Int) (contentHash : String) :
      RowWritten root e t
        (RemoteEntryRepo.markEntryDownloadedAs t e.id size mtime contentHash)

theorem recordDownload_written {env : ReconcileEnv} {root : SyncRoot}
    {e : Entry} (hdec : decideEntry root.mode e = .download)
    (file : LocalFile) (t : EntryTable) :
    RowWritten root e t (recordDownload env e file t) := by
  unfold recordDownload
  split
  next => exact .untouched
  next =>
      split
      next => exact .downloaded hdec
      next hash _ =>
          split
          next => exact .untouched
          next => exact .downloadedAs hdec _ _ _

/-- One turn of the loop writes at most one statement. -/
theorem reconcileEntry_written (env : ReconcileEnv) (root : SyncRoot)
    (e : Entry) (w : World) :
    RowWritten root e w.entries (reconcileEntry env root e w).world.entries := by
  cases hpath : absolutePath env root e with
  | none =>
      rw [reconcileEntry_unplaced hpath]
      exact .untouched
  | some path =>
      have hturn := reconcileEntry_turn hpath w
      generalize reconcileEntry env root e w = r at hturn ⊢
      cases hturn with
      | idle => exact .untouched
      | deleteTree => exact .untouched
      | deleteFile => exact .untouched
      | marked hdec returned entries hentries =>
          rcases hentries with rfl | rfl
          · exact .untouched
          · exact .conflict hdec
      | keptBoth hdec entries hentries =>
          rcases hentries with rfl | rfl
          · exact .untouched
          · exact .conflict hdec
      | downloaded hdec hdir fileId got entries hfileId hgot hentries =>
          cases hfile : got.file with
          | none =>
              rw [hfile] at hentries
              subst hentries
              exact .untouched
          | some file =>
              rw [hfile] at hentries
              subst hentries
              exact recordDownload_written hdec file w.entries

/-- With a hasher a download is recorded with the content it delivered. -/
theorem reconcileEntry_hashed {env : ReconcileEnv}
    (hhash : env.hashFile.isSome = true) (root : SyncRoot) (e : Entry)
    (w : World) :
    (reconcileEntry env root e w).world.entries = w.entries ∨
    (reconcileEntry env root e w).world.entries =
      ConflictRepo.markConflict w.entries e.id "local_remote_modified" ∨
    (decideEntry root.mode e = .download ∧ ∃ size mtime contentHash,
      (reconcileEntry env root e w).world.entries =
        RemoteEntryRepo.markEntryDownloadedAs w.entries e.id size mtime
          contentHash) := by
  cases hpath : absolutePath env root e with
  | none =>
      rw [reconcileEntry_unplaced hpath]
      exact Or.inl rfl
  | some path =>
      have hturn := reconcileEntry_turn hpath w
      generalize reconcileEntry env root e w = r at hturn ⊢
      cases hturn with
      | idle => exact Or.inl rfl
      | deleteTree => exact Or.inl rfl
      | deleteFile => exact Or.inl rfl
      | marked hdec returned entries hentries =>
          exact hentries.imp_right Or.inl
      | keptBoth hdec entries hentries =>
          exact hentries.imp_right Or.inl
      | downloaded hdec hdir fileId got entries hfileId hgot hentries =>
          subst hentries
          split
          next => exact Or.inl rfl
          next file _ =>
              unfold recordDownload
              split
              next => exact Or.inl rfl
              next =>
                  split
                  next hnone =>
                      rw [hnone] at hhash
                      cases hhash
                  next hash _ =>
                      split
                      next => exact Or.inl rfl
                      next => exact Or.inr (Or.inr ⟨hdec, _, _, _, rfl⟩)

/-- A file is put in place only for the row's own remote file. -/
theorem remoteFileId_of_replace {env : ReconcileEnv} {root : SyncRoot}
    {e : Entry} {w : World} {fileId : String} {target : FsPath}
    (h : .replace fileId target ∈ (reconcileEntry env root e w).effects) :
    e.remoteFileId = some fileId := by
  have hfetched : ∀ {target' got own}, Fetched env e.id own target' w.disk got →
      .replace fileId target ∈ got.effects → own = fileId := by
    intro target' got own hgot hmem
    exact (hgot.target_of_replace hmem).1
  cases hpath : absolutePath env root e with
  | none =>
      rw [reconcileEntry_unplaced hpath] at h
      simp at h
  | some path =>
      have hturn := reconcileEntry_turn hpath w
      generalize reconcileEntry env root e w = r at hturn h
      cases hturn with
      | idle => simp at h
      | deleteTree => simp at h
      | deleteFile => simp at h
      | marked => simp at h
      | keptBoth hdec entries hentries own target' got hfileId hdir hlive
          htarget hgot =>
          rw [hfileId, hfetched hgot h]
      | downloaded hdec hdir own got entries hfileId hgot =>
          rw [hfileId, hfetched hgot h]

/-! ## The loop -/

/-- A loop that returns has returned from each of its parts. -/
theorem returned_of_append {env : ReconcileEnv} {root : SyncRoot}
    (es fs : List Entry) (w : World)
    (h : (reconcileRows env root (es ++ fs) w).returned = true) :
    (reconcileRows env root es w).returned = true := by
  induction es generalizing w with
  | nil => rfl
  | cons e es ih =>
      simp only [List.cons_append, reconcileRows] at h ⊢
      split at h
      next hnow =>
          rw [if_pos hnow]
          exact ih _ h
      next hnow => exact absurd h hnow

/-- After a part that returned, the loop goes on from where it stands. -/
theorem reconcileRows_append {env : ReconcileEnv} {root : SyncRoot}
    (es fs : List Entry) (w : World)
    (h : (reconcileRows env root es w).returned = true) :
    (reconcileRows env root (es ++ fs) w).world =
      (reconcileRows env root fs (reconcileRows env root es w).world).world := by
  induction es generalizing w with
  | nil => rfl
  | cons e es ih =>
      simp only [List.cons_append, reconcileRows] at h ⊢
      split at h
      next hnow =>
          rw [if_pos hnow, if_pos hnow]
          exact ih _ h
      next hnow => exact absurd h hnow

/-- The effects of a call are those of its turns. -/
theorem effects_eq_turns (env : ReconcileEnv) (root : SyncRoot)
    (es : List Entry) (w : World) :
    (reconcileRows env root es w).effects =
      (turns env root es w).flatMap Prod.snd := by
  induction es generalizing w with
  | nil => rfl
  | cons e es ih =>
      simp only [reconcileRows, turns]
      split
      next => simp [ih]
      next => simp

/-- Every turn of a call is one of a row at some moment of it. -/
theorem mem_turns {env : ReconcileEnv} {root : SyncRoot} {es : List Entry}
    {w : World} {turn : Entry × List FsEffect}
    (h : turn ∈ turns env root es w) :
    turn.1 ∈ es ∧
      ∃ v, turn.2 = (reconcileEntry env root turn.1 v).effects := by
  induction es generalizing w with
  | nil => cases h
  | cons e es ih =>
      simp only [turns, List.mem_cons] at h
      rcases h with rfl | h
      · exact ⟨by simp, w, rfl⟩
      · split at h
        next =>
            obtain ⟨hmem, hv⟩ := ih h
            exact ⟨List.mem_cons_of_mem _ hmem, hv⟩
        next => cases h

/-- What every turn preserves, the loop preserves. -/
theorem reconcileRows_induction {env : ReconcileEnv} {root : SyncRoot}
    {P : World → Prop} (es : List Entry) (w : World) (hw : P w)
    (hstep : ∀ e ∈ es, ∀ v, P v → P (reconcileEntry env root e v).world) :
    P (reconcileRows env root es w).world := by
  induction es generalizing w with
  | nil => exact hw
  | cons e es ih =>
      have hnow := hstep e (by simp) w hw
      simp only [reconcileRows]
      split
      · exact ih _ hnow (fun f hf => hstep f (by simp [hf]))
      · exact hnow

/-- What a call of `reconcileRoot` leaves of a row. -/
inductive RowAfter (root : SyncRoot) (f : Entry) : Entry → Prop where
  | same : RowAfter root f f
  | conflict (hdec : decideEntry root.mode f = .conflict) :
      RowAfter root f
        { f with conflictState := some "local_remote_modified" }
  | downloaded (hdec : decideEntry root.mode f = .download) :
      RowAfter root f
        { f with
          syncedRemoteUpdatedAt := f.remoteUpdatedAt
          syncState := .unchanged }
  | downloadedAs (hdec : decideEntry root.mode f = .download)
      (size mtime : Int) (contentHash : String) :
      RowAfter root f
        { f with
          size := some size
          mtime := some mtime
          contentHash := some contentHash
          syncedContentHash := some contentHash
          syncedRemoteUpdatedAt := f.remoteUpdatedAt
          syncState := .unchanged }

theorem RowAfter.id {root : SyncRoot} {f g : Entry} (h : RowAfter root f g) :
    g.id = f.id := by
  cases h <;> rfl

/-- A turn on the row `f` itself leaves the row in one of the ways of a whole
call, also when an earlier turn was on it. -/
theorem RowAfter.step {root : SyncRoot} {f g : Entry} {t t' : EntryTable}
    (hwritten : RowWritten root f t t') {r p : String}
    (hg : EntryRepo.findEntryByPath t r p = some g) (h : RowAfter root f g) :
    ∃ g', EntryRepo.findEntryByPath t' r p = some g' ∧ RowAfter root f g' := by
  have hid := h.id
  cases hwritten with
  | untouched => exact ⟨g, hg, h⟩
  | conflict hdec =>
      refine ⟨{ g with conflictState := some "local_remote_modified" }, ?_, ?_⟩
      · exact RemoteEntryRepo.findEntryByPath_updateById_self hg hid
      · cases h with
        | same => exact .conflict hdec
        | conflict => exact .conflict hdec
        | downloaded hdec' => rw [hdec] at hdec'; cases hdec'
        | downloadedAs hdec' => rw [hdec] at hdec'; cases hdec'
  | downloaded hdec =>
      refine ⟨{ g with
        syncedRemoteUpdatedAt := g.remoteUpdatedAt
        syncState := .unchanged }, ?_, ?_⟩
      · exact RemoteEntryRepo.findEntryByPath_updateById_self hg hid
      · cases h with
        | same => exact .downloaded hdec
        | conflict hdec' => rw [hdec] at hdec'; cases hdec'
        | downloaded => exact .downloaded hdec
        | downloadedAs _ size mtime contentHash =>
            exact .downloadedAs hdec size mtime contentHash
  | downloadedAs hdec size mtime contentHash =>
      refine ⟨{ g with
        size := some size
        mtime := some mtime
        contentHash := some contentHash
        syncedContentHash := some contentHash
        syncedRemoteUpdatedAt := g.remoteUpdatedAt
        syncState := .unchanged }, ?_, ?_⟩
      · exact RemoteEntryRepo.findEntryByPath_updateById_self hg hid
      · cases h with
        | same => exact .downloadedAs hdec size mtime contentHash
        | conflict hdec' => rw [hdec] at hdec'; cases hdec'
        | downloaded => exact .downloadedAs hdec size mtime contentHash
        | downloadedAs => exact .downloadedAs hdec size mtime contentHash

/-- A turn on another row leaves the row alone. -/
theorem RowWritten.other {root : SyncRoot} {e : Entry} {t t' : EntryTable}
    (hwritten : RowWritten root e t t') {r p : String} {g : Entry}
    (hg : EntryRepo.findEntryByPath t r p = some g) (hne : g.id ≠ e.id) :
    EntryRepo.findEntryByPath t' r p = some g := by
  cases hwritten with
  | untouched => exact hg
  | conflict => exact RemoteEntryRepo.findEntryByPath_updateById_other hg hne
  | downloaded => exact RemoteEntryRepo.findEntryByPath_updateById_other hg hne
  | downloadedAs =>
      exact RemoteEntryRepo.findEntryByPath_updateById_other hg hne

end SyncReconciler

end ArkiveSync
