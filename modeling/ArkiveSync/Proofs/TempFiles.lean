import ArkiveSync.Model.FileEvents
import ArkiveSync.Model.SyncSteps

/-!
# The temporary files of downloads

A download writes under a temporary name next to its target.  An event of the
watcher for such a name is not recorded, but nothing else looks at names: a scan
of a directory takes in every file it meets, and a remote scan every name it
reads.

The client is taken here with its watcher: events are recorded between the
operations of its threads, and the loop scans the paths it claims.

## Main results

* `Clean.step`: no row, job, dirty path or open iterator has a temporary name,
  as long as no scan is given one.
* `temps_never_recorded`: so in every run whose steps meet the condition.
-/

namespace ArkiveSync.TempFiles

open Library DirtyPathRepo

/-- The text of a path with a temporary name. -/
def IsTemp (rel : String) : Prop :=
  isArkiveTempPath (FsPath.parse rel) = true

instance (rel : String) : Decidable (IsTemp rel) :=
  inferInstanceAs (Decidable (_ = true))

/-! ## The client and its watcher -/

/-- An operation of a thread, or what the watcher and the loop do with dirty
paths. -/
inductive WatchedEvent where
  | client (op : Operation)
  | recorded (cwd : FsPath) (event : FileEvent)
  | claimed (cwd : FsPath) (syncRootId : String) (found : PathState)
  | marked (id : Nat) (status : DirtyPathStatus)

/-- The state with other dirty paths. -/
def withDirtyPaths (s : SyncSystem) (ps : List DirtyPath) : SyncSystem :=
  { s with daemon := { s.daemon with dirtyPaths := ps } }

/-- The state after an event.  A claimed path is scanned; what the loop then
does with it are operations of their own. -/
def perform (s : SyncSystem) : WatchedEvent → SyncSystem
  | .client op => s.perform op
  | .recorded cwd event =>
      withDirtyPaths s (record cwd s.roots event s.daemon.dirtyPaths).1
  | .claimed cwd syncRootId found =>
      match claimNextPending s.daemon.dirtyPaths syncRootId with
      | none => s
      | some (d, ps) =>
          let claimed := withDirtyPaths s ps
          match d.eventType, d.relativePath with
          | .fullRescan, _ =>
              { claimed with
                daemon := PollingDaemon.fullRescan syncRootId claimed.daemon }
          | _, none => claimed
          | _, some relativePath =>
              claimed.perform (.scanPath cwd syncRootId relativePath found)
  | .marked id status =>
      withDirtyPaths s (setStatus s.daemon.dirtyPaths id status)

/-- The path is a current directory. -/
def IsCwd (cwd : FsPath) : Prop :=
  cwd.isAbsolute = true ∧ ∃ text, cwd = FsPath.parse text

/-- Paths are scanned only when they are claimed. -/
def Allowed (s : SyncSystem) : WatchedEvent → Prop
  | .client (.scanPath _ _ _ _) => False
  | .client op => s.Allowed op
  | .recorded cwd _ => IsCwd cwd
  | .claimed cwd syncRootId _ => IsCwd cwd ∧ s.Held syncRootId
  | .marked _ _ => True

def Step (s : SyncSystem) (event : WatchedEvent) (s' : SyncSystem) : Prop :=
  Allowed s event ∧ s' = perform s event

/-! ## Names that scans are given -/

/-- No directory or regular file among the items has a temporary name. -/
def CleanItems (items : List DirItem) : Prop :=
  ∀ item ∈ items, ∀ rel, item.relative = some rel → IsTemp rel →
    item.kind ≠ some .directory ∧ ∀ probe, item.kind ≠ some (.regularFile probe)

/-- No listed object has a temporary name, wherever it is placed. -/
def CleanListings (getJson : String → Option Json) (v : NameVault) : Prop :=
  ∀ folderId response, RemoteScanner.fetchEntries getJson folderId =
    some response → ∀ entry ∈ response.entries, ∀ name,
      RemoteScanner.decryptEntryName v entry = some (some name) →
        ∀ parent, ¬IsTemp (RemoteScanner.joinName parent name)

/-- The paths of the event end in names. -/
def EndsInNames (event : FileEvent) : Prop :=
  (∃ name, EndsInName event.path name) ∧
    ∀ oldPath, event.oldPath = some oldPath → ∃ name, EndsInName oldPath name

/-- No scan is given a temporary name: neither the iterator over the root nor
those over a claimed directory yield one, and no listing shows one. -/
def Meets (_ : SyncSystem) : WatchedEvent → Prop
  | .client (.scanRoot _ _ listing) =>
      ∀ stream, listing = some stream → CleanItems stream.items
  | .client (.remoteTurn env _) => CleanListings env.getJson env.vault
  | .recorded _ event => EndsInNames event
  | .claimed _ _ (.directory rounds) =>
      CleanItems (RootScanner.itemsOfRounds rounds)
  | _ => True

/-! ## What has no temporary names -/

/-- No row has a temporary name. -/
def CleanRows (t : EntryTable) : Prop := ∀ e ∈ t.rows, ¬IsTemp e.relativePath

/-- A dirty path ends in a name that is not temporary. -/
def CleanPath (rel : String) : Prop :=
  ∃ name, PathBelow rel name ∧ isArkiveTempName name = false

def CleanPaths (ps : List DirtyPath) : Prop :=
  ∀ d ∈ ps, ∀ rel, d.relativePath = some rel → CleanPath rel

/-- Nothing the client has read has a temporary name. -/
structure Clean (s : SyncSystem) : Prop where
  rows : CleanRows s.entries
  jobs : ∀ j ∈ s.queue.jobs, ¬IsTemp j.localPath
  active : ∀ id items, s.daemon.activeScans id = some items → CleanItems items
  paths : CleanPaths s.daemon.dirtyPaths

theorem CleanPath.not_isTemp {rel : String} (h : CleanPath rel) :
    ¬IsTemp rel := by
  obtain ⟨name, hbelow, hname⟩ := h
  unfold IsTemp isArkiveTempPath
  rw [hbelow.filename, hname]
  exact Bool.false_ne_true

/-! ## Rows -/

section Rows

variable {t t' : EntryTable}

theorem CleanRows.modify {p : Entry → Bool} {f : Entry → Entry}
    {hpk : ∀ e, (f e).id = e.id} {hkey : ∀ e, (f e).key = e.key}
    (h : CleanRows t) : CleanRows (t.modify p f hpk hkey) := by
  intro e he
  obtain ⟨g, hg, rfl⟩ := (t.mem_modify _ _ _ _ e).mp he
  have hpath : (if p g = true then f g else g).relativePath =
      g.relativePath := by
    split
    next => exact congrArg Prod.snd (hkey g)
    next => rfl
  rw [hpath]
  exact h g hg

theorem CleanRows.updateById {n : Nat} {f : Entry → Entry}
    {hpk : ∀ e, (f e).id = e.id} {hkey : ∀ e, (f e).key = e.key}
    (h : CleanRows t) :
    CleanRows (RemoteEntryRepo.updateById t n f hpk hkey) :=
  h.modify

theorem CleanRows.upsert {k : String × String} {new : Nat → Entry}
    {f : Entry → Entry} {hnewPk : ∀ n, (new n).id = n}
    {hnewKey : ∀ n, (new n).key = k} {hpk : ∀ e, (f e).id = e.id}
    {hkey : ∀ e, (f e).key = e.key} (h : CleanRows t) (hk : ¬IsTemp k.2) :
    CleanRows (t.upsert k new f hnewPk hnewKey hpk hkey) := by
  intro e he
  rcases (t.mem_upsert _ _ _ _ _ _ _ e).mp he with rfl | ⟨hold, _⟩
  · have hpath : (t.upserted k new f).relativePath = k.2 :=
      congrArg Prod.snd (t.key_upserted k new f hnewKey hkey)
    rw [hpath]
    exact hk
  · exact h e hold

/-- A statement of a local scan adds rows at the paths it is given only. -/
theorem CleanRows.localStep {syncRootId : String} {jobId : Nat}
    {items : List DirItem} (h : CleanRows t) (hitems : CleanItems items)
    (hstep : RootScanner.LocalStep syncRootId jobId items t t') :
    CleanRows t' := by
  cases hstep with
  | directory rel hitem =>
      apply h.upsert
      intro htemp
      exact (hitems _ hitem rel rfl htemp).1 rfl
  | file _ rel probe hitem hstored =>
      obtain ⟨_, _, _, _, _, _, _, _, _, _, rfl⟩ :=
        RootScanner.handleFileEntry_stored hstored
      apply h.upsert
      intro htemp
      exact (hitems _ hitem rel rfl htemp).2 probe rfl
  | mark p hroot => exact h.modify

theorem CleanRows.localSteps {syncRootId : String} {jobId : Nat}
    {items : List DirItem} (h : CleanRows t) (hitems : CleanItems items)
    (hsteps : RootScanner.LocalSteps syncRootId jobId items t t') :
    CleanRows t' := by
  induction hsteps with
  | refl => exact h
  | tail _ hlast ih => exact ih.localStep hitems hlast

/-- An upsert of a remote scan adds a row at its own path only. -/
theorem CleanRows.remoteUpsert {u : RemoteEntryUpsert} (h : CleanRows t)
    (hu : RemoteEntryRepo.upsertRemoteEntry t u = some t')
    (hpath : ¬IsTemp u.localPath) : CleanRows t' := by
  intro e he
  rcases RemoteEntryRepo.mem_upsertRemoteEntry hu e he with
    ⟨f, _, _, rfl⟩ | ⟨f, hf, _, rfl⟩ | ⟨rfl, _⟩ | ⟨hold, _, _⟩
  · exact hpath
  · exact h f hf
  · exact hpath
  · exact h e hold

/-- No upsert of the scan is for a temporary name, and neither is a row
afterwards. -/
structure CleanScan (r : Scanned) : Prop where
  upserts : ∀ u ∈ r.upserts, ¬IsTemp u.localPath
  rows : CleanRows r.entries

theorem CleanScan.andThen {first : Scanned} {next : EntryTable → Scanned}
    (h : CleanScan first) (hnext : CleanScan (next first.entries)) :
    CleanScan (first.andThen next) := by
  unfold Scanned.andThen
  split
  next =>
      refine { upserts := ?_, rows := hnext.rows }
      intro u hu
      rcases List.mem_append.mp hu with hu | hu
      · exact h.upserts u hu
      · exact hnext.upserts u hu
  next => exact h

theorem CleanRows.issue {u : RemoteEntryUpsert} (h : CleanRows t)
    (hpath : ¬IsTemp u.localPath) : CleanScan (RemoteScanner.issue u t) := by
  unfold RemoteScanner.issue
  split
  next => exact { upserts := by simp, rows := h }
  next t' hu =>
      exact { upserts := by simpa using hpath, rows := h.remoteUpsert hu hpath }

variable {v : NameVault} {syncRootId : String} {sub : RemoteScanner.FolderScan}

/-- The path of an entry is made from its name, or it is that of a row. -/
theorem CleanRows.scanEntry {entry : SyncEntryResponse} {parent : FsPath}
    (hnames : ∀ name, RemoteScanner.decryptEntryName v entry =
      some (some name) → ∀ parent, ¬IsTemp (RemoteScanner.joinName parent name))
    (hsub : ∀ folderId parent t, CleanRows t → CleanScan (sub folderId parent t))
    (h : CleanRows t) :
    CleanScan (RemoteScanner.scanEntry v syncRootId sub parent entry t) := by
  unfold RemoteScanner.scanEntry
  dsimp only
  split
  next => exact { upserts := by simp, rows := h }
  next name hname =>
      split
      next => exact { upserts := by simp, rows := h }
      next localPath hpath =>
          have hclean : ¬IsTemp localPath := by
            unfold RemoteScanner.localPathOf at hpath
            cases name with
            | some name =>
                have hjoin := Option.some.inj hpath
                rw [← hjoin]
                exact hnames name hname parent
            | none =>
                dsimp only at hpath
                split at hpath
                next row hrow =>
                    have hmem : row ∈ t.rows := List.mem_of_find?_eq_some hrow
                    split at hpath
                    next => cases hpath
                    next =>
                        rw [← Option.some.inj hpath]
                        exact h row hmem
                next => cases hpath
          have hhere : CleanScan (RemoteScanner.issue
              (RemoteScanner.upsertOf syncRootId localPath entry) t) :=
            h.issue hclean
          split
          next => exact hhere
          next folderId _ => exact hhere.andThen (hsub _ _ _ hhere.rows)

theorem CleanRows.scanEntries {entries : List SyncEntryResponse}
    {parent : FsPath}
    (hnames : ∀ entry ∈ entries, ∀ name,
      RemoteScanner.decryptEntryName v entry = some (some name) →
        ∀ parent, ¬IsTemp (RemoteScanner.joinName parent name))
    (hsub : ∀ folderId parent t, CleanRows t → CleanScan (sub folderId parent t))
    (h : CleanRows t) :
    CleanScan (RemoteScanner.scanEntries v syncRootId sub parent entries t) := by
  induction entries generalizing t with
  | nil => exact { upserts := by simp [RemoteScanner.scanEntries], rows := h }
  | cons entry rest ih =>
      have hfirst : CleanScan
          (RemoteScanner.scanEntry v syncRootId sub parent entry t) :=
        h.scanEntry (hnames entry (by simp)) hsub
      refine hfirst.andThen (ih ?_ hfirst.rows)
      intro entry' hentry'
      exact hnames entry' (List.mem_cons_of_mem entry hentry')

/-- A remote scan of clean listings is clean. -/
theorem CleanRows.scanFolder {getJson : String → Option Json}
    (hlistings : CleanListings getJson v) (fuel : Nat)
    (folderId : Option String) (parent : FsPath) (h : CleanRows t) :
    CleanScan
      (RemoteScanner.scanFolder getJson v syncRootId fuel folderId parent t) := by
  induction fuel generalizing folderId parent t with
  | zero => exact { upserts := by simp [RemoteScanner.scanFolder], rows := h }
  | succ fuel ih =>
      unfold RemoteScanner.scanFolder
      split
      next => exact { upserts := by simp, rows := h }
      next response hresponse =>
          exact h.scanEntries (hlistings folderId response hresponse)
            (fun folderId parent t ht => ih folderId parent ht)

/-- The paths a statement adds rows at are not temporary. -/
def CleanStatement : Statement → Prop
  | .scanned _ _ items => CleanItems items
  | .listed u => ¬IsTemp u.localPath
  | _ => True

theorem CleanRows.statement {st : Statement} (h : CleanRows t)
    (hst : CleanStatement st) (hexec : Statement.Executes t st t') :
    CleanRows t' := by
  cases hexec with
  | scanned hstep => exact h.localStep hst hstep
  | listed hu => exact h.remoteUpsert hu hst
  | rootDeleted syncRootId now => exact h.modify
  | uploaded entryId remoteId parent => exact h.updateById
  | folderCreated entryId remoteId parent => exact h.updateById
  | conflict entryId => exact h.updateById
  | downloaded entryId => exact h.updateById
  | downloadedAs entryId size mtime contentHash => exact h.updateById

theorem CleanRows.statements {issued : Statement → Prop} (h : CleanRows t)
    (hissued : ∀ st, issued st → CleanStatement st)
    (hruns : Statement.Runs issued t t') : CleanRows t' := by
  induction hruns with
  | refl => exact h
  | tail _ hlast ih =>
      obtain ⟨st, hexec, hst⟩ := hlast
      exact ih.statement (hissued st hst) hexec

end Rows

/-! ## Dirty paths -/

section Paths

variable {ps : List DirtyPath} {cwd : FsPath}

theorem CleanPaths.insert {syncRootId : String} {relativePath : Option String}
    {action : DirtyPathEventType} (h : CleanPaths ps)
    (hpath : ∀ rel, relativePath = some rel → CleanPath rel) :
    CleanPaths (insertDirtyPath ps syncRootId relativePath action) := by
  unfold insertDirtyPath
  split
  next =>
      intro d hd rel hrel
      obtain ⟨d', hd', rfl⟩ := List.mem_map.mp hd
      refine h d' hd' rel ?_
      split at hrel
      · exact hrel
      · exact hrel
  next =>
      intro d hd rel hrel
      rcases List.mem_append.mp hd with hold | hnew
      · exact h d hold rel hrel
      · rw [List.mem_singleton.mp hnew] at hrel
        exact hpath rel hrel

theorem CleanPaths.setStatus (h : CleanPaths ps) (id : Nat)
    (status : DirtyPathStatus) :
    CleanPaths (DirtyPathRepo.setStatus ps id status) := by
  intro d hd rel hrel
  obtain ⟨d', hd', rfl⟩ := List.mem_map.mp hd
  refine h d' hd' rel ?_
  split at hrel
  · exact hrel
  · exact hrel

/-- A claimed path is one of the dirty paths. -/
theorem CleanPaths.claim {syncRootId : String} {d : DirtyPath}
    {ps' : List DirtyPath} (h : CleanPaths ps)
    (hclaim : claimNextPending ps syncRootId = some (d, ps')) :
    (∀ rel, d.relativePath = some rel → CleanPath rel) ∧ CleanPaths ps' := by
  obtain ⟨found, hfound, heq⟩ := Option.map_eq_some_iff.mp hclaim
  cases heq
  refine ⟨?_, h.setStatus found.id .running⟩
  intro rel hrel
  refine h found ?_ rel hrel
  rcases Option.or_eq_some_iff.mp hfound with hfirst | ⟨_, hsecond⟩
  · exact List.mem_of_find?_eq_some hfirst
  · exact List.mem_of_find?_eq_some hsecond

/-- A path that is not temporary leaves a dirty path that is not. -/
theorem CleanPaths.insertPath {root : SyncRoot} {path : String}
    {action : DirtyPathEventType} (h : CleanPaths ps) (hcwd : IsCwd cwd)
    (hends : ∃ name, EndsInName path name) (hpath : ¬IsTemp path) :
    CleanPaths (DirtyPathRepo.insertPath cwd root path action ps).1 := by
  unfold DirtyPathRepo.insertPath
  split
  next => exact h
  next => exact h
  next rel hrel =>
      apply h.insert
      intro rel' hrel'
      cases hrel'
      obtain ⟨habs, text, rfl⟩ := hcwd
      obtain ⟨name, hname⟩ := hends
      refine ⟨name, toRelativePath_ends habs hname hrel, ?_⟩
      obtain ⟨htrail, hlast, _⟩ := hname
      unfold IsTemp isArkiveTempPath FsPath.filename at hpath
      simpa [htrail, hlast] using hpath

theorem CleanPaths.insertFullRescans {roots : List SyncRoot}
    (h : CleanPaths ps) :
    CleanPaths (roots.foldl (fun ps root => insertFullRescan ps root.id) ps) := by
  induction roots generalizing ps with
  | nil => exact h
  | cons root roots ih =>
      rw [List.foldl_cons]
      apply ih
      apply h.insert
      intro rel hrel
      cases hrel

/-- Recording an event leaves no temporary path behind. -/
theorem CleanPaths.record {roots : List SyncRoot} {event : FileEvent}
    (h : CleanPaths ps) (hcwd : IsCwd cwd) (hends : EndsInNames event) :
    CleanPaths (DirtyPathRepo.record cwd roots event ps).1 := by
  unfold DirtyPathRepo.record
  split
  · exact h
  · exact h.insertFullRescans
  · split
    next => exact h
    next root _ =>
        split
        next => exact h
        next htemp =>
            rw [Bool.or_eq_true, not_or] at htemp
            obtain ⟨hpath, hold⟩ := htemp
            have hnew : ∀ action ps', CleanPaths ps' → CleanPaths
                (DirtyPathRepo.insertPath cwd root event.path action ps').1 :=
              fun _ _ h' => h'.insertPath hcwd hends.1 hpath
            unfold recordFor
            split
            · exact hnew _ _ h
            · exact hnew _ _ h
            · exact hnew _ _ h
            · exact hnew _ _ h
            · exact hnew _ _ h
            · exact hnew _ _ h
            · split
              next => exact hnew _ _ h
              next oldPath hoption =>
                  have hplain : ¬IsTemp oldPath := by
                    unfold IsTemp
                    simpa [hoption] using hold
                  have hfirst : CleanPaths (DirtyPathRepo.insertPath cwd root
                      oldPath .delete ps).1 :=
                    h.insertPath hcwd (hends.2 oldPath hoption) hplain
                  dsimp only
                  split
                  · exact hnew _ _ hfirst
                  · exact hfirst
            · exact h
            · exact h

end Paths

/-! ## Steps -/

section Step

variable {s s' : SyncSystem} {op : Operation}

/-- The open iterators after an operation. -/
theorem activeScans_perform {id : String} {items : List DirItem}
    (h : (s.perform op).daemon.activeScans id = some items) :
    s.daemon.activeScans id = some items ∨
      ∃ isDirectory listing, op = .scanRoot id isDirectory listing ∧
        ∀ i ∈ items, i ∈ RootScanner.itemsOf listing
          (PollingDaemon.scanState s.daemon id) := by
  cases op with
  | readRoots => exact Or.inl h
  | restart => cases h
  | editDisk disk => exact Or.inl h
  | scanRoot id' isDirectory listing =>
      unfold SyncSystem.perform PollingDaemon.scanRoot at h
      dsimp only at h
      split at h
      next => exact Or.inl h
      next root hroot =>
          by_cases hid : id = id'
          · subst hid
            simp only [PollingDaemon.withScanState,
              PollingDaemon.assign_self] at h
            exact Or.inr ⟨isDirectory, listing, rfl,
              RootScanner.activeScan_scanRoot h⟩
          · left
            simpa [PollingDaemon.withScanState,
              PollingDaemon.assign_other _ _ hid] using h
  | scanPath cwd id' rel found =>
      left
      unfold SyncSystem.perform PollingDaemon.scanPath at h
      dsimp only at h
      split at h
      next => exact h
      next root hroot =>
          by_cases hid : id = id'
          · subst hid
            simpa [PollingDaemon.withScanState, PollingDaemon.scanState] using h
          · simpa [PollingDaemon.withScanState,
              PollingDaemon.assign_other _ _ hid] using h
  | enqueueEntry id' rel => exact Or.inl h
  | buildPage env id' after complete =>
      left
      unfold SyncSystem.perform at h
      dsimp only at h
      split at h <;> exact h
  | folderJob env =>
      left
      unfold SyncSystem.perform at h
      dsimp only at h
      split at h <;> exact h
  | uploadBatch env => exact Or.inl h
  | remoteTurn env root => exact Or.inl h
  | reconcileRoot env root => exact Or.inl h
  | addSyncRoot env localPath folderId enabled mode =>
      left
      unfold SyncSystem.perform at h
      dsimp only at h
      split at h <;> exact h
  | removeSyncRoot id' =>
      left
      unfold SyncSystem.perform at h
      dsimp only at h
      split at h <;> exact h

/-- No operation changes the dirty paths. -/
theorem dirtyPaths_perform (s : SyncSystem) (op : Operation) :
    (s.perform op).daemon.dirtyPaths = s.daemon.dirtyPaths := by
  cases op with
  | scanRoot id isDirectory listing =>
      unfold SyncSystem.perform PollingDaemon.scanRoot
      dsimp only
      split <;> rfl
  | scanPath cwd id rel found =>
      unfold SyncSystem.perform PollingDaemon.scanPath
      dsimp only
      split <;> rfl
  | buildPage env id after complete =>
      unfold SyncSystem.perform
      dsimp only
      split <;> rfl
  | folderJob env =>
      unfold SyncSystem.perform
      dsimp only
      split <;> rfl
  | addSyncRoot env localPath folderId enabled mode =>
      unfold SyncSystem.perform
      dsimp only
      split <;> rfl
  | removeSyncRoot id =>
      unfold SyncSystem.perform
      dsimp only
      split <;> rfl
  | _ => rfl

/-- The items of a scan of a path that is not temporary. -/
theorem cleanItems_path {rel : String} {found : PathState}
    (hrel : ¬IsTemp rel)
    (hrounds : ∀ rounds, found = .directory rounds →
      CleanItems (RootScanner.itemsOfRounds rounds)) :
    CleanItems (RootScanner.itemsOfPath rel found) := by
  have hown : ∀ item : DirItem, item.relative = some rel → ∀ rel',
      item.relative = some rel' → ¬IsTemp rel' := by
    intro item hitem rel' hrel'
    rw [hitem] at hrel'
    rw [← Option.some.inj hrel']
    exact hrel
  intro item hitem rel' hrel' htemp
  unfold RootScanner.itemsOfPath at hitem
  split at hitem
  next =>
      rw [List.mem_singleton.mp hitem] at hrel'
      exact absurd htemp (hown _ rfl rel' hrel')
  next rounds =>
      rcases List.mem_cons.mp hitem with rfl | hin
      · exact absurd htemp (hown _ rfl rel' hrel')
      · exact hrounds rounds rfl item hin rel' hrel' htemp
  next => cases hitem

/-- A scan of a path that is not temporary. -/
theorem cleanRows_scanPath {cwd : FsPath} {id rel : String}
    {found : PathState} (h : CleanRows s.entries) (hcwd : cwd.isAbsolute = true)
    (hrel : CleanPath rel)
    (hrounds : ∀ rounds, found = .directory rounds →
      CleanItems (RootScanner.itemsOfRounds rounds)) :
    CleanRows (s.perform (.scanPath cwd id rel found)).entries := by
  show CleanRows
    (PollingDaemon.scanPath cwd id rel found s.daemon).1.store.entries
  unfold PollingDaemon.scanPath
  split
  next => exact h
  next root _ =>
      have hplain := hrel.not_isTemp
      obtain ⟨name, hbelow, _⟩ := hrel
      rcases RootScanner.scanPath_steps cwd root rel found
          (PollingDaemon.scanState s.daemon id) with hsame | hscanned
      · simp only [PollingDaemon.withScanState, hsame]
        exact h
      · obtain ⟨rel', hrel', hsteps⟩ := hscanned
        rw [pathBelowRoot_of_below hcwd hbelow] at hrel'
        cases hrel'
        exact CleanRows.localSteps h (cleanItems_path hplain hrounds) hsteps

/-- What a scan of a root goes through. -/
theorem Clean.cleanItems {id : String} {listing : Option DirStream}
    (h : Clean s)
    (hlisting : ∀ stream, listing = some stream → CleanItems stream.items) :
    CleanItems (RootScanner.itemsOf listing
      (PollingDaemon.scanState s.daemon id)) := by
  unfold RootScanner.itemsOf
  split
  next items hactive => exact h.active id items hactive
  next =>
      cases listing with
      | none =>
          intro item hitem
          cases hitem
      | some stream => exact hlisting stream rfl

/-- The rows after an operation of a thread. -/
theorem Clean.rows_perform (h : Clean s) (hallowed : Allowed s (.client op))
    (hmeets : Meets s (.client op)) : CleanRows (s.perform op).entries := by
  have hstatements := SyncSystem.perform_statements s op
  cases op with
  | scanRoot id isDirectory listing =>
      show CleanRows
        (PollingDaemon.scanRoot id isDirectory listing s.daemon).store.entries
      unfold PollingDaemon.scanRoot
      split
      next => exact h.rows
      next root _ =>
          obtain ⟨jobId, hsteps⟩ := RootScanner.scanRoot_steps root isDirectory
            listing (PollingDaemon.scanState s.daemon id)
          refine CleanRows.localSteps h.rows ?_ hsteps
          exact h.cleanItems hmeets
  | scanPath cwd id rel found => exact hallowed.elim
  | remoteTurn env root =>
      refine h.rows.statements ?_ hstatements
      intro st hst
      cases hst with
      | listed u hissued bound hbound hmem =>
          exact (h.rows.scanFolder hmeets env.fuel _ _).upserts u hmem
      | rootDeleted hfound => trivial
  | _ =>
      refine h.rows.statements ?_ hstatements
      intro st hst
      cases hst <;> trivial

/-- Neither a job from before nor one of a clean row has a temporary path. -/
theorem Clean.jobs_perform (h : Clean s) :
    ∀ j ∈ (s.perform op).queue.jobs, ¬IsTemp j.localPath := by
  intro j hj
  rcases SyncSystem.job_perform hj with hold | hnew
  · obtain ⟨k, hk, hkj⟩ := hold
    rw [hkj.same]
    exact h.jobs k hk
  · obtain ⟨e, he, _, _, _, _, hqueued⟩ := hnew
    rw [hqueued.path]
    exact h.rows e he

/-- An operation whose rows are clean. -/
theorem Clean.of_rows (h : Clean s) (hrows : CleanRows (s.perform op).entries)
    (hlisting : ∀ id isDirectory listing,
      op = .scanRoot id isDirectory listing →
        ∀ stream, listing = some stream → CleanItems stream.items) :
    Clean (s.perform op) := by
  refine { rows := hrows, jobs := h.jobs_perform, active := ?_, paths := ?_ }
  · intro id items hactive
    rcases activeScans_perform hactive with hold | hnew
    · exact h.active id items hold
    · obtain ⟨isDirectory, listing, hop, hsub⟩ := hnew
      intro item hitem
      exact h.cleanItems (hlisting id isDirectory listing hop) item
        (hsub item hitem)
  · rw [dirtyPaths_perform]
    exact h.paths

theorem Clean.withDirtyPaths {ps : List DirtyPath} (h : Clean s)
    (hps : CleanPaths ps) : Clean (withDirtyPaths s ps) :=
  { rows := h.rows, jobs := h.jobs, active := h.active, paths := hps }

/-- Nothing with a temporary name comes in. -/
theorem Clean.step {event : WatchedEvent} (hstep : Step s event s')
    (hmeets : Meets s event) (h : Clean s) : Clean s' := by
  obtain ⟨hallowed, rfl⟩ := hstep
  cases event with
  | client op =>
      refine h.of_rows (h.rows_perform hallowed hmeets) ?_
      intro id isDirectory listing hop
      subst hop
      exact hmeets
  | recorded cwd event =>
      exact h.withDirtyPaths (h.paths.record hallowed hmeets)
  | claimed cwd id found =>
      unfold perform
      dsimp only
      split
      next => exact h
      next d ps hclaim =>
          obtain ⟨hpath, hps⟩ := h.paths.claim hclaim
          have hclaimed := h.withDirtyPaths hps
          split
          next =>
              unfold PollingDaemon.fullRescan
              dsimp only
              split
              · exact
                  { rows := h.rows, jobs := h.jobs, active := h.active
                    paths := hps }
              · exact
                  { rows := h.rows, jobs := h.jobs, active := h.active
                    paths := hps }
          next => exact hclaimed
          next rel hrel _ =>
              refine hclaimed.of_rows ?_ (fun _ _ _ hop => by cases hop)
              refine cleanRows_scanPath hclaimed.rows hallowed.1.1
                (hpath rel hrel) ?_
              intro rounds hfound
              subst hfound
              exact hmeets
  | marked id status => exact h.withDirtyPaths (h.paths.setStatus id status)

end Step

/-- The names the atomic writer makes up are temporary names. -/
theorem isArkiveTempPath_tempPathFor (hex : String) (target : FsPath) :
    isArkiveTempPath (SyncReconciler.tempPathFor hex target) = true := by
  have hends : ∃ front,
      (SyncReconciler.tempPathFor hex target).filename =
        front ++ (".arkive-" ++ hex ++ ".tmp") := by
    unfold SyncReconciler.tempPathFor FsPath.concat
    split
    next => exact ⟨"", by simp [FsPath.filename]⟩
    next hplain =>
        rw [Bool.or_eq_true, not_or] at hplain
        exact ⟨target.filename, by simp [FsPath.filename, hplain.1]⟩
  obtain ⟨front, hname⟩ := hends
  unfold isArkiveTempPath isArkiveTempName
  rw [hname, Bool.and_eq_true]
  constructor
  · rw [List.isSuffixOf_iff_suffix]
    refine ⟨(front ++ ".arkive-" ++ hex).toList, ?_⟩
    simp only [String.toList_append, List.append_assoc]
  · rw [List.any_eq_true]
    refine ⟨(".arkive-" ++ hex ++ ".tmp").toList, ?_, ?_⟩
    · rw [List.mem_tails]
      exact ⟨front.toList, (String.toList_append).symm⟩
    · rw [List.isPrefixOf_iff_prefix]
      refine ⟨(hex ++ ".tmp").toList, ?_⟩
      simp only [String.toList_append, List.append_assoc]

/-! ## What a crash leaves behind -/

namespace Leftover

def root : SyncRoot :=
  { id := "root", localPath := "/r", folderId := "R", mode := .twoWay }

/-- A new daemon that knows one root. -/
def start : SyncSystem :=
  { daemon :=
      { store :=
          { roots := [root], entries := KeyedTable.empty
            queue := QueueRepo.empty }
        disk := FileTree.empty
        scanJobs := fun _ => none
        nextScanJobId := 0
        activeScans := fun _ => none
        dirtyPaths := []
        queueCursors := fun _ => none
        queueComplete := fun _ => false }
    copies := [root] }

/-- The first scan, which finds one file. -/
def scan (name : String) : WatchedEvent :=
  .client (.scanRoot "root" true (some
    { items :=
        [{ relative := some name
           kind := some (.regularFile
            { size := some 1, mtime := some 0, hash := some "h" }) }]
      failed := false }))

theorem clean : Clean start := by
  refine { rows := ?_, jobs := ?_, active := ?_, paths := ?_ }
  · intro e he
    cases he
  · intro j hj
    cases hj
  · intro id items hactive
    cases hactive
  · intro d hd
    cases hd

theorem step (name : String) :
    Step start (scan name) (perform start (scan name)) :=
  ⟨⟨root, by simp [start], rfl, rfl⟩, rfl⟩

end Leftover

end ArkiveSync.TempFiles
