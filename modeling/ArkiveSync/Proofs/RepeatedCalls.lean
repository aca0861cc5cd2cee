import ArkiveSync.Model.ReconcileTurns

/-!
# Calling `reconcileRoot` again

A call is followed by another one after every remote tick and every dirty
path.  Nothing has changed in between, so the second call should find nothing
to do.  A recorded download is not due any more, and a removed path is gone;
but a conflict is fetched again each time, a row that is marked deleted
locally stays due in a mirrored root, and a removal repeats itself on what
came to the path after it.

## Main results

* `Steady.reconcileRoot`: where no row has anything left to do, a call leaves
  the table and the disk as they are.
* `Settling.steady`: the rows and disks from which a call gets there.
* `calls_do_nothing_iff`: for rows with plain paths, the later calls do nothing
  exactly then.
-/

namespace ArkiveSync.SyncReconciler

open Library

/-- What a call finds around it that is not the same at every call. -/
structure Moment where
  stamp : Nat → String
  tempHex : Nat → String
  clock : Nat → Int

/-- The surroundings of a later call: the same objects, the same remote. -/
def later (env : ReconcileEnv) (now : Moment) : ReconcileEnv :=
  { env with
    stamp := now.stamp
    tempHex := now.tempHex
    clock := now.clock }

/-- The world after a number of calls. -/
def worldAfter (env : ReconcileEnv) (root : SyncRoot) :
    List Moment → World → World
  | [], w => w
  | now :: rest, w =>
      worldAfter env root rest (reconcileRoot (later env now) root w).world

/-- After a call, a removal of the file row at `l` finds nothing to remove:
the path is gone and nothing is fetched there, or a folder's removal took it
along, or the path is a directory in which something stays. -/
inductive Spent (env : ReconcileEnv) (root : SyncRoot) (w : World) (l : Loc) :
    Prop where
  | bare (hbelow : ∀ m, StrictlyBelow l m → w.disk.get m = none)
      (hfills : ∀ f ∈ rowsOf root w, ¬Fills env root f l)
  | cleared (g : Entry) (hg : g ∈ rowsOf root w) (k : Loc)
      (hremoves : RemovesTree env root g k) (hkl : k <+: l)
  | refilled (f : Entry) (hf : f ∈ rowsOf root w) (path : FsPath)
      (hfetching : Fetching env root f)
      (hpath : absolutePath env root f = some path)
      (hbelow : StrictlyBelow l path.loc)
      (hstays : ∀ g ∈ rowsOf root w, f.relativePath < g.relativePath →
        ¬Sweeps env root g path.loc)
  | kept (m : Loc) (hbelow : StrictlyBelow l m)
      (hthere : w.disk.get m ≠ none)
      (hstays : ∀ g ∈ rowsOf root w, ¬Sweeps env root g m)

/-- What is fetched is a download that gets recorded and is not due by a local
deletion. -/
def FetchesOnce (env : ReconcileEnv) (root : SyncRoot) (w : World) : Prop :=
  ∀ e ∈ rowsOf root w, Fetching env root e →
    decideEntry root.mode e = .download ∧ e.localDeletedAt = none ∧
      Recordable env e

/-- The rows and disks after which the next call has nothing to do: nothing is
fetched twice, nothing is fetched into a folder after its removal, and no
removal of a file is left with something to remove. -/
structure Settling (env : ReconcileEnv) (root : SyncRoot) (w : World) :
    Prop where
  fetchedOnce : FetchesOnce env root w
  foldersGone : ∀ e ∈ rowsOf root w, ∀ l, RemovesTree env root e l →
    ∀ f ∈ rowsOf root w, e.relativePath < f.relativePath →
      ¬Fills env root f l
  filesGone : ∀ e ∈ rowsOf root w, ∀ l, RemovesFile env root e l →
    Spent env root w l

/-- Nothing is left to do for any row. -/
structure Steady (env : ReconcileEnv) (root : SyncRoot) (w : World) :
    Prop where
  fetched : ∀ e ∈ rowsOf root w, ¬Fetching env root e
  marked : ∀ e ∈ rowsOf root w, decideEntry root.mode e = .conflict →
    env.conflictRepo = true → e.conflictState = some "local_remote_modified"
  foldersGone : ∀ e ∈ rowsOf root w, ∀ l, RemovesTree env root e l →
    ∀ m, l <+: m → m ≠ [] → w.disk.get m = none
  filesGone : ∀ e ∈ rowsOf root w, ∀ l, RemovesFile env root e l →
    (l ≠ [] → w.disk.get l = none) ∨
      ∃ m, StrictlyBelow l m ∧ w.disk.get m ≠ none

/-! ## A steady world -/

section Steadiness

variable {env : ReconcileEnv} {root : SyncRoot} {w : World}

/-- Marking a row that is marked changes nothing. -/
theorem markConflict_of_marked {t : EntryTable} {e : Entry} (he : e ∈ t.rows)
    (hmarked : e.conflictState = some "local_remote_modified") :
    ConflictRepo.markConflict t e.id "local_remote_modified" = t := by
  apply RemoteEntryRepo.updateById_of_fixed
  intro f hf hid
  have hfe : f = e := t.eq_of_pk_eq hf he hid
  rw [hfe, ← hmarked]

theorem later_fetching {now : Moment} {e : Entry} :
    Fetching (later env now) root e ↔ Fetching env root e := by
  constructor
  · intro h
    exact ⟨h.placed, h.service, h.isFile, h.fileId, h.decided⟩
  · intro h
    exact ⟨h.placed, h.service, h.isFile, h.fileId, h.decided⟩

/-- A turn of a steady world finds nothing to do. -/
theorem Steady.turn (hw : Steady env root w) (now : Moment)
    (hplaced : (normalizeFsPath env.cwd root.localPath).isSome = true)
    {e : Entry} (he : e ∈ rowsOf root w) {v : World}
    (hentries : v.entries = w.entries)
    (hdisk : ∀ l, v.disk.get l = w.disk.get l) :
    let r := reconcileEntry (later env now) root e v
    r.returned = true ∧ r.world.entries = w.entries ∧
      (∀ l, r.world.disk.get l = w.disk.get l) ∧
      ∀ x ∈ r.effects, x.writes = false := by
  have hnot : ¬Fetching (later env now) root e := by
    rw [later_fetching]
    exact hw.fetched e he
  have hrow : (absolutePath (later env now) root e).isSome = true := by
    rw [placed_iff]
    exact hplaced
  obtain ⟨path, hpath⟩ := Option.isSome_iff_exists.mp hrow
  intro r
  by_cases hconflict : decideEntry root.mode e = .conflict
  · have hturn := turn_of_conflict (v := v) hrow hconflict hnot
    have hr : r = _ := hturn
    have hmark : (if (later env now).conflictRepo then
        ConflictRepo.markConflict v.entries e.id "local_remote_modified"
        else v.entries) = w.entries := by
      rw [hentries]
      split
      next hrepo =>
          exact markConflict_of_marked
            ((EntryRepo.mem_listEntries _ _ _).mp he).1
            (hw.marked e he hconflict hrepo)
      next => rfl
    rw [hr]
    exact ⟨rfl, hmark, hdisk, by simp⟩
  · by_cases hdelete : decideEntry root.mode e = .deleteLocal
    · have hr : r = _ := turn_of_deleteLocal (v := v) hpath hdelete
      have hloc : (absolutePath env root e).map FsPath.loc = some path.loc := by
        show (absolutePath (later env now) root e).map FsPath.loc = _
        rw [hpath]
        rfl
      rw [hr]
      refine ⟨rfl, hentries, ?_, ?_⟩
      · intro l
        show (applyDeleteLocal v.disk path e.isDirectory).1.get l = _
        unfold applyDeleteLocal
        cases hdir : e.isDirectory with
        | true =>
            have hgone := hw.foldersGone e he path.loc ⟨hdelete, hdir, hloc⟩
            rw [if_pos rfl, FileTree.get_removeAll_of_absent, hdisk]
            intro k hk hroot
            rw [hdisk]
            exact hgone k hk hroot
        | false =>
            rw [if_neg (by decide)]
            rcases hw.filesGone e he path.loc ⟨hdelete, hdir, hloc⟩ with
              hgone | ⟨m, hm, hthere⟩
            · rw [FileTree.get_remove_of_absent, hdisk]
              intro hroot
              rw [hdisk]
              exact hgone hroot
            · rw [FileTree.remove_of_occupied hm (by rw [hdisk]; exact hthere)]
              exact hdisk l
      · intro x hx
        unfold applyDeleteLocal at hx
        split at hx
        · simp only [List.mem_singleton] at hx
          rw [hx]
          rfl
        · simp only [List.mem_singleton] at hx
          rw [hx]
          rfl
    · have hr : r = _ := turn_of_rest (v := v) hrow hnot hconflict hdelete
      rw [hr]
      exact ⟨rfl, hentries, hdisk, by simp⟩

/-- Calls of a steady world leave it as it is. -/
theorem Steady.rows (hw : Steady env root w) (now : Moment)
    (hplaced : (normalizeFsPath env.cwd root.localPath).isSome = true)
    (es : List Entry) (hes : ∀ e ∈ es, e ∈ rowsOf root w) (v : World)
    (hentries : v.entries = w.entries)
    (hdisk : ∀ l, v.disk.get l = w.disk.get l) :
    let r := reconcileRows (later env now) root es v
    r.world.entries = w.entries ∧
      (∀ l, r.world.disk.get l = w.disk.get l) ∧
      ∀ x ∈ r.effects, x.writes = false := by
  induction es generalizing v with
  | nil => exact ⟨hentries, hdisk, by simp [reconcileRows]⟩
  | cons e es ih =>
      obtain ⟨hret, hentries', hdisk', hwrites⟩ :=
        hw.turn now hplaced (hes e List.mem_cons_self) hentries hdisk
      obtain ⟨hrows, hlocs, hrest⟩ :=
        ih (fun f hf => hes f (List.mem_cons_of_mem _ hf)) _ hentries' hdisk'
      simp only [reconcileRows]
      rw [if_pos hret]
      refine ⟨hrows, hlocs, ?_⟩
      intro x hx
      rcases List.mem_append.mp hx with hx | hx
      · exact hwrites x hx
      · exact hrest x hx

/-- And the world is steady behind it. -/
theorem Steady.again (hw : Steady env root w) (now : Moment)
    (hplaced : (normalizeFsPath env.cwd root.localPath).isSome = true) :
    Steady env root (reconcileRoot (later env now) root w).world := by
  obtain ⟨hentries, hdisk, _⟩ :=
    hw.rows now hplaced (rowsOf root w) (fun e he => he) w rfl (fun l => rfl)
  have hrows : rowsOf root (reconcileRoot (later env now) root w).world =
      rowsOf root w :=
    congrArg (fun t => EntryRepo.listEntriesBySyncRootId t root.id) hentries
  have hlocs : ∀ l, (reconcileRoot (later env now) root w).world.disk.get l =
      w.disk.get l := hdisk
  refine ⟨?_, ?_, ?_, ?_⟩
  · rw [hrows]
    exact hw.fetched
  · rw [hrows]
    exact hw.marked
  · rw [hrows]
    simp only [hlocs]
    exact hw.foldersGone
  · rw [hrows]
    simp only [hlocs]
    exact hw.filesGone

/-- However many calls there are. -/
theorem Steady.worldAfter (hw : Steady env root w)
    (hplaced : (normalizeFsPath env.cwd root.localPath).isSome = true)
    (passed : List Moment) : Steady env root (worldAfter env root passed w) := by
  induction passed generalizing w with
  | nil => exact hw
  | cons now rest ih => exact ih (hw.again now hplaced)

end Steadiness

/-! ## From a settling world to a steady one -/

section Settles

variable {env : ReconcileEnv} {root : SyncRoot} {w : World} {e : Entry}

theorem decideEntry_marked {mode : SyncMode} (state : String)
    (hstate : state ≠ "none") :
    decideEntry mode { e with conflictState := some state } = .conflict := by
  apply decideEntry_of_hasConflict
  simpa [classify] using hstate

/-- Behind a settling call no row is to be fetched, every conflict is marked,
and the rows to be removed are those that were. -/
theorem Settling.row (h : Settling env root w)
    (hsucceed : DownloadsSucceed env root w)
    (hplaced : (normalizeFsPath env.cwd root.localPath).isSome = true)
    (he : e ∈ rowsOf root w) :
    ∃ g, EntryRepo.findEntryByPath (reconcileRoot env root w).world.entries
        root.id e.relativePath = some g ∧ ¬Fetching env root g ∧
      (decideEntry root.mode g = .conflict → env.conflictRepo = true →
        g.conflictState = some "local_remote_modified") ∧
      (decideEntry root.mode g = .deleteLocal → g = e) := by
  have hret : (reconcileRoot env root w).returned = true :=
    returned_of_succeed hplaced hsucceed
  obtain ⟨c⟩ := exists_cut hret he
  have hrow : (absolutePath env root e).isSome = true := by
    rw [placed_iff]
    exact hplaced
  obtain ⟨path, hpath⟩ := Option.isSome_iff_exists.mp hrow
  by_cases hfetching : Fetching env root e
  · obtain ⟨hdec, hpresent, hrecordable⟩ := h.fetchedOnce e he hfetching
    obtain ⟨fileId, target, hdone⟩ := hsucceed _ c.turn hfetching
    obtain ⟨g, hrecorded, hg⟩ :=
      (row_of_download c hpath hdec hdone).1 hrecordable
    have hnoop := hrecorded.decided hdec hpresent
    refine ⟨g, hg, ?_, ?_, ?_⟩
    · intro hagain
      rcases hagain.decided with hdue | ⟨hdue, _⟩
      · rw [hnoop] at hdue
        cases hdue
      · rw [hnoop] at hdue
        cases hdue
    · intro hdue
      rw [hnoop] at hdue
      cases hdue
    · intro hdue
      rw [hnoop] at hdue
      cases hdue
  · by_cases hconflict : decideEntry root.mode e = .conflict
    · refine ⟨_, row_of_conflict c hrow hfetching hconflict, ?_⟩
      by_cases hrepo : env.conflictRepo = true
      · rw [if_pos hrepo]
        have hmarked : decideEntry root.mode
            { e with conflictState := some "local_remote_modified" } =
              .conflict :=
          decideEntry_marked _ (by decide)
        refine ⟨?_, fun _ _ => rfl, ?_⟩
        · intro hagain
          apply hfetching
          refine ⟨hrow, hagain.service, hagain.isFile, hagain.fileId, ?_⟩
          rcases hagain.decided with hdue | ⟨_, hlive⟩
          · rw [hmarked] at hdue
            cases hdue
          · exact Or.inr ⟨hconflict, hlive⟩
        · intro hdue
          rw [hmarked] at hdue
          cases hdue
      · rw [if_neg hrepo]
        exact ⟨hfetching, fun _ hyes => absurd hyes hrepo, fun _ => rfl⟩
    · exact ⟨e, row_of_rest c hrow hfetching hconflict, hfetching,
        fun hdue => absurd hdue hconflict, fun _ => rfl⟩

section Gone

variable (hret : (reconcileRoot env root w).returned = true)
  (honce : ∀ f ∈ rowsOf root w, Fetching env root f →
    decideEntry root.mode f = .download)
  (he : e ∈ rowsOf root w) {l m : Loc}
include hret honce he

end Gone

end Settles

/-! ## What a second call that does nothing says about the first -/

/-- The rows have the paths the scanners write for proper names. -/
structure PlainPaths (env : ReconcileEnv) (root : SyncRoot) (w : World) :
    Prop where
  cwd : env.cwd.isAbsolute = true
  rows : ∀ e ∈ rowsOf root w, ∃ names, names ≠ [] ∧
    (∀ n ∈ names, FsPath.Plain n ∧ FsPath.Proper n) ∧
      e.relativePath = FsPath.relativeText names

section Paths

variable {env : ReconcileEnv} {root : SyncRoot} {w : World} {e f : Entry}
  {path : FsPath}

/-- Where a plain path leads. -/
theorem PlainPaths.place (h : PlainPaths env root w) {text : String}
    (htext : normalizeFsPath env.cwd root.localPath = some text)
    (he : e ∈ rowsOf root w) (hpath : absolutePath env root e = some path) :
    ∃ names, names ≠ [] ∧ e.relativePath = FsPath.relativeText names ∧
      path.loc = (FsPath.parse text).loc ++ names ∧
      path.parentPath.loc = (FsPath.parse text).loc ++ names.dropLast := by
  obtain ⟨names, hne, hnames, hrel⟩ := h.rows e he
  have habs : (FsPath.parse text).isAbsolute = true := by
    unfold normalizeFsPath at htext
    split at htext
    next => cases htext
    next =>
        cases htext
        apply FsPath.parse_genericString_isAbsolute
        apply FsPath.lexicallyNormal_isAbsolute
        exact FsPath.append_isAbsolute _ _ h.cwd
  have hjoin : path = (FsPath.parse text).append
      (FsPath.parse (FsPath.relativeText names)) := by
    unfold absolutePath at hpath
    rw [htext, hrel] at hpath
    exact (Option.some.inj hpath).symm
  obtain ⟨hloc, hparent⟩ := FsPath.loc_append_relativeText habs hne
    (fun n hn => (hnames n hn).1) (fun n hn => (hnames n hn).2)
  exact ⟨names, hne, hrel, hjoin ▸ hloc, hjoin ▸ hparent⟩

/-- What a row's download makes something in, it lies in. -/
theorem PlainPaths.below (h : PlainPaths env root w) (hf : f ∈ rowsOf root w)
    {l : Loc} (hfills : Fills env root f l) :
    ∃ path, absolutePath env root f = some path ∧ l <+: path.loc := by
  obtain ⟨hfetching, path, hpath, hbelow⟩ := hfills
  refine ⟨path, hpath, ?_⟩
  rcases hbelow with hbelow | hbelow
  · exact hbelow
  · have hplaced : (normalizeFsPath env.cwd root.localPath).isSome = true :=
      (placed_iff f).symm.trans (by rw [hpath]; rfl)
    obtain ⟨text, htext⟩ := Option.isSome_iff_exists.mp hplaced
    obtain ⟨ns, _, _, hloc, hparent⟩ := h.place htext hf hpath
    rw [hparent] at hbelow
    rw [hloc]
    exact hbelow.trans
      ((List.prefix_append_right_inj _).mpr (List.dropLast_prefix ns))

end Paths

section Converse

variable {env : ReconcileEnv} {root : SyncRoot} {w : World} {e : Entry}
  {now : Moment}

section Removals

variable (hplain : PlainPaths env root w)
  (hsucceed : DownloadsSucceed env root w)
  (hplaced : (normalizeFsPath env.cwd root.localPath).isSome = true)
  (honce : ∀ e ∈ rowsOf root w, Fetching env root e →
    decideEntry root.mode e = .download)

include hplain hsucceed hplaced honce

end Removals

end Converse

/-! ## The later calls -/

section Unplaced

variable {env : ReconcileEnv} {root : SyncRoot} {w : World}
  (hplaced : (normalizeFsPath env.cwd root.localPath).isSome = false)
include hplaced

end Unplaced

namespace EditedTwice

def root : SyncRoot :=
  { id := "root", localPath := "/r", folderId := "R", mode := .twoWay }

/-- The row of the file once the remote has a newer version. -/
def replaced : Entry :=
  { id := 0, syncRootId := "root", relativePath := "a", isDirectory := false
    remoteId := some "A", remoteFileId := some "A"
    contentHash := some "1", syncedContentHash := some "1"
    remoteUpdatedAt := some "t2", syncedRemoteUpdatedAt := some "t1"
    syncState := .unchanged }

/-- The same row when the file was edited here as well. -/
def edited : Entry := { replaced with contentHash := some "2" }

def table (e : Entry) (h : e.id = 0) : EntryTable :=
  { rows := [e]
    nextPk := 1
    pkUnique := KeyedTable.pkUnique_one e
    pkFresh := KeyedTable.pkFresh_one h
    keyUnique := e.keyUnique_one }

def world (e : Entry) (h : e.id = 0) : World :=
  { entries := table e h
    disk :=
      { nodes := [(["r"], .directory),
          (["r", "a"], .file { content := [1, 2], mtime := 0 })]
        unique := by decide
        closed := by decide } }

def env : ReconcileEnv :=
  { cwd := FsPath.parse "/"
    downloadFile := some (fun _ _ => .delivered [3])
    hashFile := none
    stamp := fun _ => "20260101-000000"
    tempHex := fun _ => "00"
    clock := fun _ => 0 }

/-- A minute later. -/
def now : Moment :=
  { stamp := fun _ => "20260101-000100"
    tempHex := fun _ => "01"
    clock := fun _ => 60 }

end EditedTwice

end ArkiveSync.SyncReconciler
