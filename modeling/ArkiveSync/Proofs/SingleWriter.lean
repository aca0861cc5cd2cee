import ArkiveSync.Library.Runs
import ArkiveSync.Model.RemoteScanner
import ArkiveSync.Model.RootScanner
import ArkiveSync.Model.SyncReconciler

/-!
# One client, several uploads of one path

Every upload of a path makes a new remote file, and the earlier ones stay
listed under the same name.  A remote scan upserts all of them at the path, so
the row names whichever was listed last, and a reconciliation that finds the
row clean fetches that one.

## Main results

* `Invariant.keeps`: as long as every remote scan comes to the last upload
  last, no row of the root names an earlier one.
* `uploads_stable_of_lastListed`: in such a run the row keeps the last recorded
  id, and no earlier upload is put in place of the local file.
-/

namespace ArkiveSync.SingleWriter

open Library SyncReconciler

/-- The client and the ids `markEntryUploaded` recorded for the path, the last
one first. -/
structure State where
  world : World
  uploads : List String

/-- What a step of a run is. -/
inductive Event where
  | edit
  | scan
  | upload (remoteId : String)
  | remoteScan (upserts : List RemoteEntryUpsert)
  | reconcile (target : Option FsPath) (effects : List FsEffect)

/-- What a scan can list when the uploads of the path are the client's own:
they are listed under the name of the path, and every object is listed under
one name. -/
structure OwnListing (path : String) (uploads : List String)
    (upserts : List RemoteEntryUpsert) : Prop where
  own : ∀ u ∈ upserts, u.remoteId ∈ uploads → u.localPath = path
  onePlace : ∀ u ∈ upserts, ∀ u' ∈ upserts, u.remoteId = u'.remoteId →
    u.localPath = u'.localPath

/-- The steps of a run.  Local scans may find anything; an upload of the path
returns an id that no row knows. -/
inductive Step (root : SyncRoot) (path : String) :
    State → Event → State → Prop where
  | edit (s : State) (disk : Disk) :
      Step root path s .edit { s with world := { s.world with disk := disk } }
  | scanRoot (s : State) (isDirectory : Bool) (listing : Option DirStream)
      (c : ScanState) (hc : c.entries = s.world.entries) :
      Step root path s .scan
        { s with
          world :=
            { s.world with
              entries :=
                (RootScanner.scanRoot root isDirectory listing c).1.entries } }
  | scanPath (s : State) (cwd : FsPath) (relativePath : String)
      (found : PathState) (c : ScanState) (hc : c.entries = s.world.entries) :
      Step root path s .scan
        { s with
          world :=
            { s.world with
              entries :=
                (RootScanner.scanPath cwd root relativePath found c).1.entries } }
  | upload (s : State) (e : Entry) (remoteId : String)
      (parent : Option String)
      (he : EntryRepo.findEntryByPath s.world.entries root.id path = some e)
      (hfresh : remoteId ∉ s.uploads)
      (hunknown : ∀ f ∈ s.world.entries.rows, f.remoteFileId ≠ some remoteId) :
      Step root path s (.upload remoteId)
        { world :=
            { s.world with
              entries := RemoteEntryRepo.markEntryUploaded s.world.entries e.id
                remoteId parent }
          uploads := remoteId :: s.uploads }
  | remoteScan (s : State) (getJson : String → Option Json) (v : NameVault)
      (fuel : Nat)
      (hown : OwnListing path s.uploads
        (RemoteScanner.scanRoot getJson v root fuel s.world.entries).upserts) :
      Step root path s
        (.remoteScan
          (RemoteScanner.scanRoot getJson v root fuel s.world.entries).upserts)
        { s with
          world :=
            { s.world with
              entries := (RemoteScanner.scanRoot getJson v root fuel
                s.world.entries).entries } }
  | reconcile (s : State) (env : ReconcileEnv) :
      Step root path s
        (.reconcile ((normalizeFsPath env.cwd root.localPath).map (fun base =>
            (FsPath.parse base).append (FsPath.parse path)))
          (reconcileRoot env root s.world).effects)
        { s with world := (reconcileRoot env root s.world).world }

/-- Nobody else writes to the account: a remote scan lists every upload of the
path, all of them live, and nothing else under its name. -/
def OwnAccount (path : String) (s : State) : Event → Prop
  | .remoteScan upserts =>
      (∀ id ∈ s.uploads, ∃ u ∈ upserts, u.remoteId = id ∧
        u.remoteDeletedAt = none) ∧
      ∀ u ∈ upserts, u.localPath = path → u.remoteId ∈ s.uploads
  | _ => True

/-- The remote scan comes to the last upload after all others. -/
def LastListed (path : String) (s : State) : Event → Prop
  | .remoteScan upserts =>
      ∀ w, Write.lastAt path (upserts.map RemoteScanner.writeOf) = some w →
        s.uploads.head? = some w.owner
  | _ => True

/-- The row keeps the last recorded id through a remote scan that lists it,
and a reconciliation puts no earlier upload in place of the local file. -/
def Stable (root : SyncRoot) (path : String) (s : State) (event : Event)
    (s' : State) : Prop :=
  match event with
  | .remoteScan upserts =>
      ∀ last, s.uploads.head? = some last →
        (∃ u ∈ upserts, u.remoteId = last) →
          ∃ e, EntryRepo.findEntryByPath s'.world.entries root.id path =
            some e ∧ e.remoteId = some last
  | .reconcile target effects =>
      ∀ fileId path', target = some path' → .replace fileId path' ∈ effects →
        fileId ∉ s.uploads.tail
  | _ => True

/-- No row of the root names an upload of the path but the last one, and that
is the row of the path. -/
structure Invariant (root : SyncRoot) (path : String) (s : State) : Prop where
  named : ∀ e ∈ s.world.entries.rows, e.syncRootId = root.id →
    ∀ remoteId ∈ s.uploads, e.remoteFileId = some remoteId →
      e.relativePath = path ∧ s.uploads.head? = some remoteId
  distinct : s.uploads.Nodup

/-! ## One step -/

section Steps

variable {root : SyncRoot} {path : String} {s : State}

/-- Rows that come from old ones with the same file keep the invariant. -/
theorem Invariant.of_rows (h : Invariant root path s) {w : World}
    (hrows : ∀ e ∈ w.entries.rows, e.remoteFileId = none ∨
      ∃ f ∈ s.world.entries.rows, e.key = f.key ∧
        e.remoteFileId = f.remoteFileId) :
    Invariant root path { s with world := w } := by
  refine { named := ?_, distinct := h.distinct }
  intro e he hroot remoteId hid hfile
  rcases hrows e he with hnone | ⟨f, hf, hkey, hsame⟩
  · rw [hnone] at hfile
    cases hfile
  · obtain ⟨hroot', hpath'⟩ := Prod.mk.inj hkey
    obtain ⟨hpath, hhead⟩ := h.named f hf (hroot'.symm.trans hroot) remoteId hid
      (hsame.symm.trans hfile)
    exact ⟨hpath'.trans hpath, hhead⟩

theorem rows_of_localSteps {jobId : Nat} {items : List DirItem}
    {t t' : EntryTable}
    (hsteps : RootScanner.LocalSteps root.id jobId items t t') :
    ∀ e ∈ t'.rows, e.remoteFileId = none ∨
      ∃ f ∈ t.rows, e.key = f.key ∧ e.remoteFileId = f.remoteFileId := by
  induction hsteps with
  | refl => exact fun e he => Or.inr ⟨e, he, rfl, rfl⟩
  | tail _ hlast ih =>
      intro e he
      rcases hlast.row_from he with hnone | ⟨f, hf, hkey, hfile⟩
      · exact Or.inl hnone
      · rcases ih f hf with hnone | ⟨g, hg, hkey', hfile'⟩
        · exact Or.inl (hfile.trans hnone)
        · exact Or.inr ⟨g, hg, hkey.trans hkey', hfile.trans hfile'⟩

theorem rows_of_written {e₀ : Entry} {t t' : EntryTable}
    (h : RowWritten root e₀ t t') :
    ∀ e ∈ t'.rows, ∃ f ∈ t.rows, e.key = f.key ∧
      e.remoteFileId = f.remoteFileId := by
  have hbyId : ∀ {n : Nat} {f : Entry → Entry} {hid : ∀ e, (f e).id = e.id}
      {hkey : ∀ e, (f e).key = e.key},
      (∀ e, (f e).remoteFileId = e.remoteFileId) →
      ∀ e ∈ (RemoteEntryRepo.updateById t n f hid hkey).rows,
        ∃ g ∈ t.rows, e.key = g.key ∧ e.remoteFileId = g.remoteFileId := by
    intro n f hid hkey hf e he
    obtain ⟨g, hg, rfl⟩ := (RemoteEntryRepo.mem_updateById e).mp he
    refine ⟨g, hg, ?_, ?_⟩
    · split
      · exact hkey g
      · rfl
    · split
      · exact hf g
      · rfl
  cases h with
  | untouched => exact fun e he => ⟨e, he, rfl, rfl⟩
  | conflict => exact hbyId (fun _ => rfl)
  | downloaded => exact hbyId (fun _ => rfl)
  | downloadedAs => exact hbyId (fun _ => rfl)

theorem rows_of_reconcileRoot (env : ReconcileEnv) (w : World) :
    ∀ e ∈ (reconcileRoot env root w).world.entries.rows,
      ∃ f ∈ w.entries.rows, e.key = f.key ∧
        e.remoteFileId = f.remoteFileId := by
  refine reconcileRows_induction (P := fun v => ∀ e ∈ v.entries.rows,
    ∃ f ∈ w.entries.rows, e.key = f.key ∧ e.remoteFileId = f.remoteFileId) _ w
    (fun e he => ⟨e, he, rfl, rfl⟩) ?_
  intro e₀ _ v hv e he
  obtain ⟨f, hf, hkey, hfile⟩ :=
    rows_of_written (reconcileEntry_written env root e₀ v) e he
  obtain ⟨g, hg, hkey', hfile'⟩ := hv f hf
  exact ⟨g, hg, hkey.trans hkey', hfile.trans hfile'⟩

/-- After an upload the row of the path names it, and no other row names an
upload. -/
theorem Invariant.upload (h : Invariant root path s) {e : Entry}
    {remoteId : String} {parent : Option String}
    (he : EntryRepo.findEntryByPath s.world.entries root.id path = some e)
    (hfresh : remoteId ∉ s.uploads)
    (hunknown : ∀ f ∈ s.world.entries.rows, f.remoteFileId ≠ some remoteId) :
    Invariant root path
      { world :=
          { s.world with
            entries := RemoteEntryRepo.markEntryUploaded s.world.entries e.id
              remoteId parent }
        uploads := remoteId :: s.uploads } := by
  obtain ⟨hemem, _, hepath⟩ :=
    (EntryRepo.findEntryByPath_eq_some_iff _ _ _ _).mp he
  refine { named := ?_, distinct := List.nodup_cons.mpr ⟨hfresh, h.distinct⟩ }
  intro f hf hroot id hid hfile
  have hmem : f ∈ (RemoteEntryRepo.markEntryUploaded s.world.entries e.id
      remoteId parent).rows := hf
  unfold RemoteEntryRepo.markEntryUploaded at hmem
  obtain ⟨g, hg, rfl⟩ := (RemoteEntryRepo.mem_updateById f).mp hmem
  by_cases hgid : g.id = e.id
  · have hge : g = e := s.world.entries.eq_of_pk_eq hg hemem hgid
    simp only [hgid, if_true] at hfile hroot ⊢
    refine ⟨by rw [hge]; exact hepath, ?_⟩
    rw [List.head?_cons]
    exact hfile
  · simp only [hgid, if_false] at hfile hroot ⊢
    rcases List.mem_cons.mp hid with rfl | hid
    · exact absurd hfile (hunknown g hg)
    · -- an earlier upload is named by the row of the path only
      obtain ⟨hpath, _⟩ := h.named g hg hroot id hid hfile
      have hge : g = e := EntryRepo.eq_of_path_eq _ hg hemem
        (hroot.trans ((EntryRepo.findEntryByPath_eq_some_iff _ _ _ _).mp
          he).2.1.symm) (hpath.trans hepath.symm)
      exact absurd (by rw [hge]) hgid

/-- A remote scan as a batch of writes, no remote object in two of them under
different names. -/
theorem view_of_remoteScan {getJson : String → Option Json} {v : NameVault}
    {fuel : Nat}
    (hown : OwnListing path s.uploads
      (RemoteScanner.scanRoot getJson v root fuel s.world.entries).upserts) :
    Write.OnePlace ((RemoteScanner.scanRoot getJson v root fuel
        s.world.entries).upserts.map RemoteScanner.writeOf) ∧
      RemoteScanner.viewOf (RemoteScanner.scanRoot getJson v root fuel
          s.world.entries).entries root.id =
        Write.putAll ((RemoteScanner.scanRoot getJson v root fuel
          s.world.entries).upserts.map RemoteScanner.writeOf)
          (RemoteScanner.viewOf s.world.entries root.id) := by
  have hlog := RemoteScanner.scanRoot_log getJson v root fuel s.world.entries
  constructor
  · intro w hw w' hw' howner
    obtain ⟨u, hu, rfl⟩ := List.mem_map.mp hw
    obtain ⟨u', hu', rfl⟩ := List.mem_map.mp hw'
    exact hown.onePlace u hu u' hu' howner
  · exact RemoteScanner.view_applyAll _
      (fun u hu => (hlog.issued u hu).root) hlog.table

/-- A remote scan that comes to the last upload last leaves no row with an
earlier one. -/
theorem Invariant.remoteScan (h : Invariant root path s)
    {getJson : String → Option Json} {v : NameVault} {fuel : Nat}
    (hown : OwnListing path s.uploads
      (RemoteScanner.scanRoot getJson v root fuel s.world.entries).upserts)
    (hlast : LastListed path s (.remoteScan
      (RemoteScanner.scanRoot getJson v root fuel s.world.entries).upserts)) :
    Invariant root path
      { s with
        world :=
          { s.world with
            entries := (RemoteScanner.scanRoot getJson v root fuel
              s.world.entries).entries } } := by
  have hlog := RemoteScanner.scanRoot_log getJson v root fuel s.world.entries
  refine { named := ?_, distinct := h.distinct }
  intro e he hroot remoteId hid hfile
  have hfind := (EntryRepo.findEntryByPath_eq_some_iff _ root.id
    e.relativePath e).mpr ⟨he, hroot, rfl⟩
  have hat : RemoteScanner.viewOf (RemoteScanner.scanRoot getJson v root fuel
      s.world.entries).entries root.id e.relativePath =
        some (RemoteScanner.remoteView e) := by
    unfold RemoteScanner.viewOf
    rw [hfind]
    rfl
  obtain ⟨hone, hview⟩ := view_of_remoteScan hown
  rw [hview] at hat
  cases hw : Write.lastAt e.relativePath ((RemoteScanner.scanRoot getJson v root
      fuel s.world.entries).upserts.map RemoteScanner.writeOf) with
  | some w =>
      rw [Write.putAll_of_last hone hw] at hat
      obtain ⟨hmem, hplace⟩ := Write.lastAt_mem hw
      obtain ⟨u, hu, rfl⟩ := List.mem_map.mp hmem
      have hufile : u.remoteFileId = some remoteId := by
        have hval := congrArg RemoteScanner.RemoteView.remoteFileId
          (Option.some.inj hat)
        exact hval.trans hfile
      have huid : remoteId = u.remoteId :=
        (hlog.issued u hu).ownFile remoteId hufile
      have hpath : u.localPath = path := by
        apply hown.own u hu
        rw [← huid]
        exact hid
      have hplace' : e.relativePath = path := hplace.symm.trans hpath
      refine ⟨hplace', ?_⟩
      rw [hplace'] at hw
      rw [hlast _ hw, huid]
      rfl
  | none =>
      rcases Write.putAll_of_unwritten (v := RemoteScanner.viewOf
        s.world.entries root.id) hone hw with hgone | hkept
      · rw [hgone] at hat
        cases hat
      · rw [hkept] at hat
        obtain ⟨f, hf, hsame⟩ := Option.map_eq_some_iff.mp hat
        obtain ⟨hfmem, hfroot, hfpath⟩ :=
          (EntryRepo.findEntryByPath_eq_some_iff _ _ _ _).mp hf
        have hffile : f.remoteFileId = some remoteId := by
          have hval := congrArg RemoteScanner.RemoteView.remoteFileId hsame
          exact hval.trans hfile
        obtain ⟨hpath, hhead⟩ := h.named f hfmem hfroot remoteId hid hffile
        exact ⟨hfpath.symm.trans hpath, hhead⟩

/-- Every step that meets the condition keeps the invariant. -/
theorem Invariant.keeps {event : Event} {s' : State}
    (hstep : Step root path s event s') (hmeets : LastListed path s event)
    (h : Invariant root path s) : Invariant root path s' := by
  cases hstep with
  | edit disk => exact { named := h.named, distinct := h.distinct }
  | scanRoot isDirectory listing c hc =>
      apply h.of_rows
      obtain ⟨_, hsteps⟩ :=
        RootScanner.scanRoot_steps root isDirectory listing c
      rw [hc] at hsteps
      exact rows_of_localSteps hsteps
  | scanPath cwd relativePath found c hc =>
      apply h.of_rows
      rcases RootScanner.scanPath_steps cwd root relativePath found c with
        heq | ⟨_, _, hsteps⟩
      · intro e he
        simp only [heq, hc] at he
        exact Or.inr ⟨e, he, rfl, rfl⟩
      · rw [hc] at hsteps
        exact rows_of_localSteps hsteps
  | upload e remoteId parent he hfresh hunknown =>
      exact h.upload he hfresh hunknown
  | remoteScan getJson v fuel hown => exact h.remoteScan hown hmeets
  | reconcile env =>
      apply h.of_rows
      intro e he
      exact Or.inr (rows_of_reconcileRoot env s.world e he)

/-- A step that meets the condition is stable. -/
theorem Invariant.stable {event : Event} {s' : State}
    (hstep : Step root path s event s') (hmeets : LastListed path s event)
    (h : Invariant root path s) : Stable root path s event s' := by
  cases hstep with
  | edit => trivial
  | scanRoot => trivial
  | scanPath => trivial
  | upload => trivial
  | remoteScan getJson v fuel hown =>
      intro last hhead hlisted
      obtain ⟨u, hu, huid⟩ := hlisted
      have hupath : u.localPath = path := by
        apply hown.own u hu
        rw [huid]
        exact List.mem_of_head? hhead
      have hne : Write.lastAt path ((RemoteScanner.scanRoot getJson v root fuel
          s.world.entries).upserts.map RemoteScanner.writeOf) ≠ none := by
        rw [Ne, Write.lastAt_eq_none_iff]
        intro hall
        exact hall _ (List.mem_map.mpr ⟨u, hu, rfl⟩) hupath
      obtain ⟨w, hw⟩ := Option.ne_none_iff_exists'.mp hne
      have howner : w.owner = last := by
        have := hmeets w hw
        rw [hhead] at this
        exact (Option.some.inj this).symm
      obtain ⟨hone, hview⟩ := view_of_remoteScan hown
      have hat := congrFun hview path
      rw [Write.putAll_of_last hone hw] at hat
      obtain ⟨e, he, hvalue⟩ := Option.map_eq_some_iff.mp hat
      refine ⟨e, he, ?_⟩
      have hid := congrArg RemoteScanner.RemoteView.remoteId hvalue
      rw [← howner, ← w.owned]
      exact hid
  | reconcile env =>
      intro fileId path' _ hreplace htail
      unfold reconcileRoot at hreplace
      rw [effects_eq_turns] at hreplace
      obtain ⟨turn, hturn, hmem⟩ := List.mem_flatMap.mp hreplace
      obtain ⟨hrow, w, hw⟩ := mem_turns hturn
      rw [hw] at hmem
      have hfile := remoteFileId_of_replace hmem
      obtain ⟨hin, hroot⟩ := (EntryRepo.mem_listEntries _ _ _).mp hrow
      obtain ⟨_, hhead⟩ := h.named turn.1 hin hroot fileId
        (List.mem_of_mem_tail htail) hfile
      -- the ids are distinct, so the last one is not among the earlier ones
      cases huploads : s.uploads with
      | nil =>
          rw [huploads] at hhead
          cases hhead
      | cons last earlier =>
          have hdistinct := h.distinct
          rw [huploads] at hhead htail hdistinct
          cases hhead
          exact (List.nodup_cons.mp hdistinct).1 htail

end Steps

/-! ## Whole runs -/

/-- In a run whose remote scans all come to the last upload last, the row
keeps the last recorded id, and no earlier upload replaces the local file. -/
theorem uploads_stable_of_lastListed {root : SyncRoot} {path : String}
    {s₀ s s' : State} {event : Event} (hstart : s₀.uploads = [])
    (hrun : Run (Guarded (Step root path) (LastListed path)) s₀ s)
    (hstep : Step root path s event s') (hmeets : LastListed path s event) :
    Stable root path s event s' := by
  have hinit : Invariant root path s₀ := by
    refine { named := ?_, distinct := by rw [hstart]; exact List.nodup_nil }
    intro e _ _ remoteId hid
    rw [hstart] at hid
    cases hid
  have hkeep : ∀ a event b, Step root path a event b →
      LastListed path a event → Invariant root path a → Invariant root path b :=
    fun _ _ _ hstep hmeets h => h.keeps hstep hmeets
  have hsafe : ∀ a event b, Step root path a event b →
      LastListed path a event → Invariant root path a →
        Stable root path a event b :=
    fun _ _ _ hstep hmeets h => h.stable hstep hmeets
  exact safe_of_guarded hkeep hsafe hinit hrun hstep hmeets

/-! ## Two uploads of the file `a` -/

namespace TwoUploads

/-- A vault whose plaintexts are the names themselves. -/
def vault : NameVault :=
  { unlocked := true
    userId := some "user"
    folderPlaintext := fun _ => none
    filePlaintext := fun _ _ _ metadata => some metadata
    parseJson := fun text => some (.object [("name", .string text)]) }

/-- A server that lists these files, all of them live and named `a`. -/
def getJson (ids : List String) (_ : String) : Option Json :=
  some (.object [("entries", .array (ids.map (fun id => .object
    [("id", .string id), ("type", .string "file"),
     ("encrypted_metadata", .string "a"), ("encrypted_file_key", .string "key"),
     ("updated_at", .string ("t" ++ id))])))])

def root : SyncRoot :=
  { id := "root", localPath := "/r", folderId := "R", mode := .twoWay }

theorem unique_nodes : [["r"], ["r", "a"]].Nodup := by
  decide

theorem closed_nodes (content : Bytes) :
    ∀ x ∈ ([(["r"], .directory),
        (["r", "a"], .file { content := content, mtime := 1000000 })] :
          List (Loc × Node LocalFile)),
      x.1.dropLast = [] ∨ (x.1.dropLast, Node.directory) ∈
        ([(["r"], .directory),
          (["r", "a"], .file { content := content, mtime := 1000000 })] :
            List (Loc × Node LocalFile)) := by
  simp

/-- The disk with the file in one of its versions. -/
def disk (content : Bytes) : Disk :=
  { nodes :=
      [(["r"], .directory),
       (["r", "a"], .file { content := content, mtime := 1000000 })]
    unique := unique_nodes
    closed := closed_nodes content }

/-- The row of the file before its first upload. -/
def row : Entry :=
  { id := 0, syncRootId := "root", relativePath := "a", isDirectory := false
    size := some 1, mtime := some 1, contentHash := some "1"
    syncState := .pendingUpload }

/-- The row before the second upload. -/
def editedRow : Entry :=
  { row with
    remoteId := some "A", remoteFileId := some "A", parentFolderId := some "R"
    mtime := some 2, contentHash := some "2", syncedContentHash := some "1"
    lastSeenScanJobId := some 1 }

/-- The file was scanned and waits for its first upload. -/
def scanned : State :=
  { world :=
      { entries :=
          { rows := [row]
            nextPk := 1
            pkUnique := by decide
            pkFresh := by decide
            keyUnique := by decide }
        disk := disk [1] }
    uploads := [] }

/-- The state after an upload. -/
def uploaded (s : State) (remoteId : String) : State :=
  { world :=
      { s.world with
        entries := RemoteEntryRepo.markEntryUploaded s.world.entries 0 remoteId
          (some "R") }
    uploads := remoteId :: s.uploads }

/-- The state after the first upload and an edit. -/
def edited : State :=
  { uploaded scanned "A" with
    world := { (uploaded scanned "A").world with disk := disk [2] } }

/-- The scanner before it comes to the edited file. -/
def scanner : ScanState :=
  { entries := edited.world.entries, job := none, nextJobId := 1
    activeScan := none }

def listing : DirStream :=
  { items :=
      [{ relative := some "a"
         kind := some (.regularFile
          { size := some 1, mtime := some 2000000, hash := some "2" }) }]
    failed := false }

/-- The edited file was scanned. -/
def rescanned : State :=
  { edited with
    world :=
      { edited.world with
        entries :=
          (RootScanner.scanRoot root true (some listing) scanner).1.entries } }

/-- Both versions were uploaded. -/
def twice : State := uploaded rescanned "B"

/-- The remote scan that lists the uploads in this order. -/
def remoteScan (ids : List String) : Scanned :=
  RemoteScanner.scanRoot (getJson ids) vault root 1 twice.world.entries

/-- The state after it. -/
def listed (ids : List String) : State :=
  { twice with
    world := { twice.world with entries := (remoteScan ids).entries } }

/-- The run up to the second upload, which meets any condition on remote
scans only. -/
theorem run_twice {meets : State → Event → Prop}
    (hmeets : ∀ s event, (∀ upserts, event ≠ .remoteScan upserts) →
      meets s event) :
    Run (Guarded (Step root "a") meets) scanned twice := by
  have hfirst : Step root "a" scanned (.upload "A") (uploaded scanned "A") :=
    .upload scanned row "A" (some "R") rfl (by decide) (by decide)
  have hedit : Step root "a" (uploaded scanned "A") .edit edited :=
    .edit _ (disk [2])
  have hscan : Step root "a" edited .scan rescanned :=
    .scanRoot edited true (some listing) scanner rfl
  have hsecond : Step root "a" rescanned (.upload "B") twice :=
    .upload rescanned editedRow "B" (some "R") rfl (by decide) (by decide)
  exact .tail (.tail (.tail (.tail .refl
    ⟨_, hfirst, hmeets _ _ (by simp)⟩) ⟨_, hedit, hmeets _ _ (by simp)⟩)
    ⟨_, hscan, hmeets _ _ (by simp)⟩) ⟨_, hsecond, hmeets _ _ (by simp)⟩

theorem step_listed {ids : List String}
    (hown : OwnListing "a" twice.uploads (remoteScan ids).upserts) :
    Step root "a" twice (.remoteScan (remoteScan ids).upserts) (listed ids) :=
  .remoteScan twice (getJson ids) vault 1 hown

end TwoUploads

/-- A listing that ends with the second upload keeps the row at it. -/
theorem uploads_stable_inOrder :
    Stable TwoUploads.root "a" TwoUploads.twice
      (.remoteScan (TwoUploads.remoteScan ["A", "B"]).upserts)
      (TwoUploads.listed ["A", "B"]) :=
  uploads_stable_of_lastListed (rfl : TwoUploads.scanned.uploads = [])
    (TwoUploads.run_twice (by
      intro s event hevent
      cases event with
      | remoteScan upserts => exact absurd rfl (hevent upserts)
      | _ => trivial))
    (TwoUploads.step_listed (by constructor <;> decide))
    (by
      intro w hw
      cases hw
      rfl)

/-- A listing that ends with the first upload takes the row back to it. -/
theorem not_uploads_stable :
    ¬∀ (root : SyncRoot) (path : String) (s₀ s s' : State) (event : Event),
        root.mode = .twoWay → s₀.uploads = [] →
        Run (Guarded (Step root path) (OwnAccount path)) s₀ s →
        Step root path s event s' → OwnAccount path s event →
          Stable root path s event s' := by
  intro h
  have hrun : Run (Guarded (Step TwoUploads.root "a") (OwnAccount "a"))
      TwoUploads.scanned TwoUploads.twice := by
    apply TwoUploads.run_twice
    intro s event hevent
    cases event with
    | remoteScan upserts => exact absurd rfl (hevent upserts)
    | _ => trivial
  have hown : OwnAccount "a" TwoUploads.twice
      (.remoteScan (TwoUploads.remoteScan ["B", "A"]).upserts) := by
    unfold OwnAccount
    decide
  have hstable := h TwoUploads.root "a" TwoUploads.scanned TwoUploads.twice
    (TwoUploads.listed ["B", "A"]) _ rfl rfl hrun
    (TwoUploads.step_listed (by constructor <;> decide)) hown
  obtain ⟨e, he, hid⟩ := hstable "B" rfl (by decide)
  cases he
  revert hid
  decide

end ArkiveSync.SingleWriter
