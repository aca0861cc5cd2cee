import ArkiveSync.Model.ReconcileCall
import ArkiveSync.Model.SyncStatements

/-!
# Transfers in flight

An upload reads its row when it is prepared and writes it when the server has
answered; a download reads its row when `reconcileRoot` starts and writes it
when the file is in place.  In between the other thread goes on scanning, and
other clients go on updating.

A remote object is the versions it has had, each with the `updated_at` the
server gave it, which is new for the object at every update.  A running call
of `reconcileRoot` carries the version it was served, and an upload what it has
sent; the program keeps neither.

## Main results

* `recording_of_step`: a call that is about to write a row has put the file in
  place that it was served.
* `wrote_of_step`: what a step of a call writes to the table.
-/

namespace ArkiveSync

open Library SyncReconciler

/-- A state of a remote object. -/
structure Version where
  updatedAt : String
  content : Bytes
  deriving DecidableEq, Repr

/-- The versions the server has had, with the ids of their objects. -/
abbrev Versions := List (String × Version)

/-- The time is new for the object. -/
def Versions.Fresh (server : Versions) (id : String) (v : Version) : Prop :=
  ∀ w, (id, w) ∈ server → w.updatedAt ≠ v.updatedAt

/-- An upload between `prepareUploadItem` and `markEntryUploaded`: the row it
is for, as prepared, and the object and the content that the server has. -/
structure Upload where
  entryId : Nat
  entry : Entry
  sent : Option (String × Bytes)
  deriving DecidableEq

/-- A running call of `reconcileRoot`, with the version it was served last. -/
structure Fetch where
  root : SyncRoot
  call : Call
  served : Option Version

/-- The tables, the disk, the server and the transfers. -/
structure Transfers where
  store : SyncStore
  disk : Disk
  server : Versions
  uploads : List Upload
  fetches : List Fetch

/-- The statement is one of a scan, a listing or a folder job; the others are
those of transfers. -/
def Statement.Scans : Statement → Prop
  | .scanned _ _ _ => True
  | .listed _ => True
  | .rootDeleted _ _ => True
  | .folderCreated _ _ _ => True
  | _ => False

namespace Transfers

/-- The rows. -/
abbrev entries (s : Transfers) : EntryTable := s.store.entries

/-- The state with other rows. -/
def withEntries (s : Transfers) (t : EntryTable) : Transfers :=
  { s with store := { s.store with entries := t } }

/-- What a call works on. -/
def world (s : Transfers) : World := { entries := s.entries, disk := s.disk }

/-- What a step is. -/
inductive Event where
  | edit (disk : Disk)
  | statement (st : Statement) (t : EntryTable)
  | prepare (job : TransferJob)
  | send (u : Upload) (id : String) (v : Version)
  | acknowledge (u : Upload) (id : String) (content : Bytes)
  | fail (u : Upload)
  | update (id : String) (v : Version)
  | startCall (root : SyncRoot)
  | call (f : Fetch) (env : ReconcileEnv) (served : Option Version)

/-- The version a call is served with a step: one of the object it asks for,
with the content that arrives. -/
def Serves (s : Transfers) (env : ReconcileEnv) (c : Call)
    (served : Option Version) : Prop :=
  match c.phase with
  | .fetching e fileId _ _ =>
      ∀ download content, env.downloadFile = some download →
        download e.id fileId = .delivered content →
          ∃ v, served = some v ∧ (fileId, v) ∈ s.server ∧ v.content = content
  | _ => True

/-- The steps: the user, the statements of the other thread, the stages of an
upload, the updates of other clients, and the steps of running calls.  What a
scan lists for a file is a version the server has had. -/
inductive Step (cwd : FsPath) (hash : Bytes → String) :
    Transfers → Event → Transfers → Prop where
  | edit (s : Transfers) (disk : Disk) :
      Step cwd hash s (.edit disk) { s with disk := disk }
  | statement (s : Transfers) (st : Statement) (t : EntryTable)
      (hscans : st.Scans) (hexec : Statement.Executes s.entries st t)
      (hlisted : ∀ u, st = .listed u → u.remoteType = "file" →
        ∃ v, (u.remoteId, v) ∈ s.server ∧ v.updatedAt = u.remoteUpdatedAt) :
      Step cwd hash s (.statement st t) (s.withEntries t)
  | prepare (s : Transfers) (job : TransferJob) (e : Entry)
      (hitem : UploadJobRunner.prepareUploadItem cwd s.disk s.store job =
        .item e) :
      Step cwd hash s (.prepare job)
        { s with
          uploads := s.uploads ++
            [{ entryId := job.entryId, entry := e, sent := none }] }
  | send (s : Transfers) (pre post : List Upload) (u : Upload) (id : String)
      (v : Version) (huploads : s.uploads = pre ++ u :: post)
      (hnone : u.sent = none) (hfresh : s.server.Fresh id v) :
      Step cwd hash s (.send u id v)
        { s with
          server := s.server ++ [(id, v)]
          uploads := pre ++ { u with sent := some (id, v.content) } :: post }
  | acknowledge (s : Transfers) (pre post : List Upload) (u : Upload)
      (id : String) (content : Bytes)
      (huploads : s.uploads = pre ++ u :: post)
      (hsent : u.sent = some (id, content)) :
      Step cwd hash s (.acknowledge u id content)
        { s.withEntries (RemoteEntryRepo.markEntryUploaded s.entries u.entryId
            id u.entry.parentFolderId) with
          uploads := pre ++ post }
  | fail (s : Transfers) (pre post : List Upload) (u : Upload)
      (huploads : s.uploads = pre ++ u :: post) :
      Step cwd hash s (.fail u) { s with uploads := pre ++ post }
  | update (s : Transfers) (id : String) (v : Version)
      (hfresh : s.server.Fresh id v) :
      Step cwd hash s (.update id v) { s with server := s.server ++ [(id, v)] }
  | startCall (s : Transfers) (root : SyncRoot) :
      Step cwd hash s (.startCall root)
        { s with
          fetches := s.fetches ++
            [{ root := root, call := Call.start root s.entries
               served := none }] }
  | call (s : Transfers) (pre post : List Fetch) (f : Fetch)
      (env : ReconcileEnv) (p : Progress) (served : Option Version)
      (hfetches : s.fetches = pre ++ f :: post)
      (hhash : ∀ h, env.hashFile = some h → h = hash)
      (hstep : Call.step env f.root f.call s.world = some p)
      (hserved : s.Serves env f.call served) :
      Step cwd hash s (.call f env served)
        { s.withEntries p.world.entries with
          disk := p.world.disk
          fetches := pre ++ { f with call := p.call, served := served } ::
            post }

end Transfers

/-! ## What a step of a call leaves -/

namespace SyncReconciler.Call

/-- A file that is put in place holds what was delivered. -/
theorem content_of_delivered (env : ReconcileEnv) (rowId : Nat)
    (transfer : Transfer) (fileId : String) (target : FsPath) (disk : Disk) :
    ∀ file, (downloadFile env rowId transfer fileId target disk).file =
      some file → transfer = .delivered file.content := by
  intro file hfile
  cases transfer with
  | unavailable => cases hfile
  | interrupted =>
      unfold downloadFile at hfile
      dsimp only at hfile
      split at hfile <;> cases hfile
  | delivered content =>
      unfold downloadFile at hfile
      dsimp only at hfile
      split at hfile
      · cases hfile
      · split at hfile
        · cases hfile
        · cases hfile
          rfl

/-- A call that is about to write a row after a step has just put the file in
place that it was served. -/
theorem recording_of_step {env : ReconcileEnv} {root : SyncRoot} {c : Call}
    {w : World} {p : Progress} (h : step env root c w = some p) {e : Entry}
    {path : FsPath} (hphase : p.call.phase = .recording e path) :
    ∃ fileId download content, c.phase = .fetching e fileId path true ∧
      env.downloadFile = some download ∧
      download e.id fileId = .delivered content ∧
      p.world.entries = w.entries ∧
      ∃ file, p.world.disk.file? path.loc = some file ∧
        file.content = content := by
  obtain ⟨rows, phase⟩ := c
  cases phase with
  | choosing =>
      cases rows with
      | nil => cases h
      | cons e' es =>
          have hp : choose env root e' es w = p := Option.some.inj h
          have hchosen := choose_chosen env root e' es w
          rw [hp] at hchosen
          cases hchosen <;> cases hphase
  | recording e' path' =>
      have hp := Option.some.inj h
      rw [← hp] at hphase
      cases hphase
  | fetching e' fileId target records =>
      have hp : arrive env e' fileId target records rows w = p :=
        Option.some.inj h
      rw [← hp] at hphase ⊢
      cases hdownload : env.downloadFile with
      | none =>
          unfold arrive at hphase
          rw [hdownload] at hphase
          cases hphase
      | some download =>
          have hgot := downloadFile_fetched env e'.id (download e'.id fileId)
            fileId target w.disk
          have hcontent := content_of_delivered env e'.id
            (download e'.id fileId) fileId target w.disk
          have harrive : arrive env e' fileId target records rows w =
              { call :=
                  { rows := rows
                    phase :=
                      if records && (downloadFile env e'.id
                          (download e'.id fileId) fileId target w.disk
                          ).file.isSome
                      then .recording e' target else .choosing }
                world :=
                  { w with
                    disk := (downloadFile env e'.id (download e'.id fileId)
                      fileId target w.disk).disk }
                effects := (downloadFile env e'.id (download e'.id fileId)
                  fileId target w.disk).effects } := by
            unfold arrive
            rw [hdownload]
          rw [harrive] at hphase ⊢
          generalize downloadFile env e'.id (download e'.id fileId) fileId
            target w.disk = got at hgot hcontent hphase ⊢
          dsimp only at hphase ⊢
          split at hphase
          next hboth =>
              obtain ⟨hrecords, hsome⟩ := (Bool.and_eq_true _ _).mp hboth
              obtain ⟨file, hfile⟩ := Option.isSome_iff_exists.mp hsome
              cases hphase
              subst hrecords
              exact ⟨fileId, download, file.content, rfl, rfl,
                hcontent file hfile, rfl, file, file_of_fetched hgot hfile,
                rfl⟩
          next => cases hphase

/-- The rows that a call still has are among those it had. -/
theorem rows_of_step {env : ReconcileEnv} {root : SyncRoot} {c : Call}
    {w : World} {p : Progress} (h : step env root c w = some p) :
    (∀ e ∈ p.call.rows, e ∈ c.rows) ∧
      ∀ e, p.call.phase.entry = some e → e ∈ c.rows ∨ c.phase.entry = some e := by
  cases stepped_of_step h with
  | chose e es _ hchosen =>
      cases hchosen with
      | left => exact ⟨fun _ hf => (by cases hf), fun _ hf => (by cases hf)⟩
      | passed entries fs hrows hentries =>
          refine ⟨?_, fun _ hf => by cases hf⟩
          intro f hf
          rcases hrows with rfl | rfl
          · exact List.mem_cons_of_mem _ hf
          · cases hf
      | deleted path =>
          exact ⟨fun _ hf => List.mem_cons_of_mem _ hf,
            fun _ hf => by cases hf⟩
      | keepsBoth entries fileId target path hentries htarget =>
          refine ⟨fun _ hf => List.mem_cons_of_mem _ hf, ?_⟩
          intro f hf
          cases hf
          exact Or.inl List.mem_cons_self
      | downloads fileId path hdec hfile hpath =>
          refine ⟨fun _ hf => List.mem_cons_of_mem _ hf, ?_⟩
          intro f hf
          cases hf
          exact Or.inl List.mem_cons_self
  | arrived e fileId target records es got phase hgot hphase =>
      refine ⟨fun _ hf => hf, ?_⟩
      intro f hf
      rcases hphase with rfl | rfl
      · cases hf
      · exact Or.inr hf
  | recorded e path es =>
      exact ⟨fun _ hf => hf, fun _ hf => by cases hf⟩

/-- What a step of a call writes to the table. -/
inductive Wrote (env : ReconcileEnv) (c : Call) (w : World) :
    EntryTable → Prop where
  | nothing : Wrote env c w w.entries
  | conflict (n : Nat) (hphase : c.phase = .choosing) :
      Wrote env c w
        (ConflictRepo.markConflict w.entries n "local_remote_modified")
  | downloaded (e : Entry) (path : FsPath)
      (hphase : c.phase = .recording e path) (hnone : env.hashFile = none) :
      Wrote env c w (RemoteEntryRepo.markEntryDownloaded w.entries e.id)
  | downloadedAs (e : Entry) (path : FsPath)
      (hphase : c.phase = .recording e path) (hash : Bytes → String)
      (hhash : env.hashFile = some hash) (file : LocalFile)
      (hfile : w.disk.file? path.loc = some file) (size mtime : Int) :
      Wrote env c w
        (RemoteEntryRepo.markEntryDownloadedAs w.entries e.id size mtime
          (hash file.content))

theorem wrote_of_step {env : ReconcileEnv} {root : SyncRoot} {c : Call}
    {w : World} {p : Progress} (h : step env root c w = some p) :
    Wrote env c w p.world.entries := by
  cases stepped_of_step h with
  | chose e es _ hchosen =>
      cases hchosen with
      | left => exact .nothing
      | passed entries fs hrows hentries =>
          rcases hentries with rfl | rfl
          · exact .nothing
          · exact .conflict e.id rfl
      | deleted path => exact .nothing
      | keepsBoth entries fileId target path hentries =>
          rcases hentries with rfl | rfl
          · exact .nothing
          · exact .conflict e.id rfl
      | downloads => exact .nothing
  | arrived => exact .nothing
  | recorded e path es =>
      show Wrote env _ w (record env e path w)
      unfold record
      split
      next file hfile =>
          unfold recordDownload
          split
          next => exact .nothing
          next =>
              split
              next hnone => exact .downloaded e path rfl hnone
              next hash hhash =>
                  split
                  next => exact .nothing
                  next =>
                      exact .downloadedAs e path rfl hash hhash file hfile _ _
      next =>
          split
          next => exact .nothing
          next hnone =>
              have hhash : env.hashFile = none := by simpa using hnone
              unfold recordDownload
              rw [hhash]
              split
              · exact .nothing
              · exact .downloaded e path rfl hhash

end SyncReconciler.Call

end ArkiveSync
