import ArkiveSync.Library.Runs
import ArkiveSync.Model.SyncReconciler

/-!
# A reconciliation step by step

A call of `reconcileRoot` keeps the rows it has read and goes through them
while the table and the disk move on: a transfer takes its time between the
choice of its target and the rename onto it, and the file is read once more
before the row is written.  `Call.step` is one of these moments.

## Main results

* `reconcileRoot_alone`: a call that nothing interrupts is `reconcileRoot`.
-/

namespace ArkiveSync

open Library

namespace SyncReconciler

/-- Where a call stands: at the next row, with a transfer under way, or with
a file in place whose row is not written yet. -/
inductive Phase where
  | choosing
  | fetching (e : Entry) (fileId : String) (target : FsPath) (records : Bool)
  | recording (e : Entry) (path : FsPath)

/-- The row a call works on between two choices. -/
def Phase.entry : Phase → Option Entry
  | .choosing => none
  | .fetching e _ _ _ => some e
  | .recording e _ => some e

/-- A running call with the rows still to come. -/
structure Call where
  rows : List Entry
  phase : Phase

/-- A call, the state it works on, and what it has done to the disk. -/
structure Progress where
  call : Call
  world : World
  effects : List FsEffect

namespace Call

/-- The start of a call: `listEntriesBySyncRootId`. -/
def start (root : SyncRoot) (t : EntryTable) : Call :=
  { rows := EntryRepo.listEntriesBySyncRootId t root.id, phase := .choosing }

/-- A call that is at the row after `e`, or has left by an exception. -/
def between (es : List Entry) : Call := { rows := es, phase := .choosing }

/-- `applyConflict` up to the transfer it may start. -/
def chooseConflict (env : ReconcileEnv) (e : Entry) (path : FsPath)
    (es : List Entry) (w : World) : Progress :=
  let entries :=
    if env.conflictRepo then
      ConflictRepo.markConflict w.entries e.id "local_remote_modified"
    else w.entries
  let marked : Progress :=
    { call := between es, world := { w with entries := entries }, effects := [] }
  if e.isDirectory then marked
  else if e.remoteDeletedAt.isSome then marked
  else
    match env.downloadFile, e.remoteFileId with
    | some _, some fileId =>
        match conflictPathFor w.disk (env.stamp e.id) path with
        | none => { marked with call := between [] }
        | some conflictPath =>
            { marked with
              call :=
                { rows := es
                  phase := .fetching e fileId conflictPath false } }
    | _, _ => marked

/-- The `Download` branch up to the transfer. -/
def chooseDownload (env : ReconcileEnv) (e : Entry) (path : FsPath)
    (es : List Entry) (w : World) : Progress :=
  let pass : Progress := { call := between es, world := w, effects := [] }
  if e.isDirectory then pass
  else
    match env.downloadFile, e.remoteFileId with
    | some _, some fileId =>
        { pass with
          call := { rows := es, phase := .fetching e fileId path true } }
    | _, _ => pass

/-- The decision about a row, up to the transfer it may start. -/
def choose (env : ReconcileEnv) (root : SyncRoot) (e : Entry)
    (es : List Entry) (w : World) : Progress :=
  match absolutePath env root e with
  | none => { call := between [], world := w, effects := [] }
  | some path =>
      match decideEntry root.mode e with
      | .deleteLocal =>
          let done := applyDeleteLocal w.disk path e.isDirectory
          { call := between es
            world := { w with disk := done.1 }
            effects := done.2 }
      | .conflict => chooseConflict env e path es w
      | .download => chooseDownload env e path es w
      | _ => { call := between es, world := w, effects := [] }

/-- The end of a transfer. -/
def arrive (env : ReconcileEnv) (e : Entry) (fileId : String)
    (target : FsPath) (records : Bool) (es : List Entry) (w : World) :
    Progress :=
  match env.downloadFile with
  | none => { call := between es, world := w, effects := [] }
  | some download =>
      let got := downloadFile env e.id (download e.id fileId) fileId target
        w.disk
      { call :=
          { rows := es
            phase :=
              if records && got.file.isSome then .recording e target
              else .choosing }
        world := { w with disk := got.disk }
        effects := got.effects }

/-- The row after a download, from the file that is at the path now. -/
def record (env : ReconcileEnv) (e : Entry) (path : FsPath) (w : World) :
    EntryTable :=
  match w.disk.file? path.loc with
  | some file => recordDownload env e file w.entries
  | none =>
      if env.hashFile.isSome then w.entries
      else recordDownload env e { content := [], mtime := 0 } w.entries

/-- One step of a call; `none` when it has returned. -/
def step (env : ReconcileEnv) (root : SyncRoot) (c : Call) (w : World) :
    Option Progress :=
  match c.phase, c.rows with
  | .choosing, [] => none
  | .choosing, e :: es => some (choose env root e es w)
  | .fetching e fileId target records, es =>
      some (arrive env e fileId target records es w)
  | .recording e path, es =>
      some
        { call := between es
          world := { w with entries := record env e path w }
          effects := [] }

/-! ## What a step can do -/

/-- The ways a call can go on from the choice at the row `e`. -/
inductive Chosen (env : ReconcileEnv) (root : SyncRoot) (e : Entry)
    (es : List Entry) (w : World) : Progress → Prop where
  | left :
      Chosen env root e es w
        { call := between [], world := w, effects := [] }
  | passed (entries : EntryTable) (fs : List Entry) (hrows : fs = es ∨ fs = [])
      (hentries : entries = w.entries ∨ entries =
        ConflictRepo.markConflict w.entries e.id "local_remote_modified") :
      Chosen env root e es w
        { call := between fs
          world := { w with entries := entries }
          effects := [] }
  | deleted (path : FsPath) :
      Chosen env root e es w
        { call := between es
          world :=
            { w with
              disk := (applyDeleteLocal w.disk path e.isDirectory).1 }
          effects := (applyDeleteLocal w.disk path e.isDirectory).2 }
  | keepsBoth (entries : EntryTable) (fileId : String) (target path : FsPath)
      (hentries : entries = w.entries ∨ entries =
        ConflictRepo.markConflict w.entries e.id "local_remote_modified")
      (htarget : conflictPathFor w.disk (env.stamp e.id) path = some target) :
      Chosen env root e es w
        { call := { rows := es, phase := .fetching e fileId target false }
          world := { w with entries := entries }
          effects := [] }
  | downloads (fileId : String) (path : FsPath)
      (hdec : decideEntry root.mode e = .download)
      (hfile : e.isDirectory = false)
      (hpath : absolutePath env root e = some path) :
      Chosen env root e es w
        { call := { rows := es, phase := .fetching e fileId path true }
          world := w
          effects := [] }

theorem choose_chosen (env : ReconcileEnv) (root : SyncRoot) (e : Entry)
    (es : List Entry) (w : World) :
    Chosen env root e es w (choose env root e es w) := by
  have hpass : Chosen env root e es w
      { call := between es, world := w, effects := [] } :=
    .passed w.entries es (Or.inl rfl) (Or.inl rfl)
  have hentries : (if env.conflictRepo then
        ConflictRepo.markConflict w.entries e.id "local_remote_modified"
      else w.entries) = w.entries ∨
      (if env.conflictRepo then
        ConflictRepo.markConflict w.entries e.id "local_remote_modified"
      else w.entries) =
        ConflictRepo.markConflict w.entries e.id "local_remote_modified" := by
    cases env.conflictRepo
    · exact Or.inl rfl
    · exact Or.inr rfl
  unfold choose
  split
  next => exact .left
  next path hpath =>
      split
      next => exact .deleted path
      next hdec =>
          unfold chooseConflict
          simp only
          split
          next => exact .passed _ es (Or.inl rfl) hentries
          next =>
              split
              next => exact .passed _ es (Or.inl rfl) hentries
              next =>
                  split
                  next =>
                      split
                      next => exact .passed _ [] (Or.inr rfl) hentries
                      next target htarget =>
                          exact .keepsBoth _ _ target path hentries htarget
                  next => exact .passed _ es (Or.inl rfl) hentries
      next hdec =>
          unfold chooseDownload
          simp only
          split
          next => exact hpass
          next hdir =>
              split
              next fileId _ _ =>
                  exact .downloads _ path hdec (by simpa using hdir) hpath
              next => exact hpass
      next => exact hpass

/-- What an arriving transfer leaves on the disk. -/
theorem arrive_fetched (env : ReconcileEnv) (e : Entry) (fileId : String)
    (target : FsPath) (records : Bool) (es : List Entry) (w : World) :
    ∃ got, Fetched env e.id fileId target w.disk got ∧
      (arrive env e fileId target records es w).world =
        { w with disk := got.disk } ∧
      (arrive env e fileId target records es w).effects = got.effects ∧
      (arrive env e fileId target records es w).call.rows = es ∧
      ((arrive env e fileId target records es w).call.phase = .choosing ∨
        (arrive env e fileId target records es w).call.phase =
          .recording e target) := by
  unfold arrive
  split
  next => exact ⟨_, .nothing, rfl, rfl, rfl, Or.inl rfl⟩
  next download _ =>
      refine ⟨_, downloadFile_fetched env e.id _ fileId target w.disk, rfl, rfl,
        rfl, ?_⟩
      simp only
      split
      · exact Or.inr rfl
      · exact Or.inl rfl

/-- What a step of a call can be. -/
inductive Stepped (env : ReconcileEnv) (root : SyncRoot) (w : World) :
    Call → Progress → Prop where
  | chose (e : Entry) (es : List Entry) (p : Progress)
      (hchosen : Chosen env root e es w p) :
      Stepped env root w { rows := e :: es, phase := .choosing } p
  | arrived (e : Entry) (fileId : String) (target : FsPath) (records : Bool)
      (es : List Entry) (got : Downloaded) (phase : Phase)
      (hgot : Fetched env e.id fileId target w.disk got)
      (hphase : phase = .choosing ∨ phase = .recording e target) :
      Stepped env root w
        { rows := es, phase := .fetching e fileId target records }
        { call := { rows := es, phase := phase }
          world := { w with disk := got.disk }
          effects := got.effects }
  | recorded (e : Entry) (path : FsPath) (es : List Entry) :
      Stepped env root w { rows := es, phase := .recording e path }
        { call := between es
          world := { w with entries := record env e path w }
          effects := [] }

theorem stepped_of_step {env : ReconcileEnv} {root : SyncRoot} {c : Call}
    {w : World} {p : Progress} (h : step env root c w = some p) :
    Stepped env root w c p := by
  obtain ⟨rows, phase⟩ := c
  cases phase with
  | choosing =>
      cases rows with
      | nil => cases h
      | cons e es =>
          cases h
          exact .chose e es _ (choose_chosen env root e es w)
  | fetching e fileId target records =>
      cases h
      obtain ⟨got, hgot, hworld, heffects, hrows, hphase⟩ :=
        arrive_fetched env e fileId target records rows w
      generalize arrive env e fileId target records rows w = p at *
      obtain ⟨⟨rows', phase'⟩, world, effects⟩ := p
      cases hworld
      cases heffects
      cases hrows
      exact .arrived e fileId target records _ got phase' hgot hphase
  | recording e path =>
      cases h
      exact .recorded e path rows

/-! ## A call that nothing interrupts -/

/-- Steps of one call with nothing in between; the effects add up. -/
def Alone (env : ReconcileEnv) (root : SyncRoot) (a b : Progress) : Prop :=
  ∃ p, step env root a.call a.world = some p ∧
    b = { p with effects := a.effects ++ p.effects }

/-- A file that was just put in place is the one that is read again. -/
theorem file_of_fetched {env : ReconcileEnv} {rowId : Nat} {fileId : String}
    {target : FsPath} {disk : Disk} {got : Downloaded} {file : LocalFile}
    (h : Fetched env rowId fileId target disk got)
    (hfile : got.file = some file) : got.disk.file? target.loc = some file := by
  cases h with
  | nothing => cases hfile
  | made => cases hfile
  | wrote made written file' hmade hwritten =>
      cases hfile
      rw [FileTree.file?_eq_some_iff, FileTree.get_writeFile hwritten,
        if_pos rfl]

/-- The state of a call that is done with a turn of the loop. -/
def afterTurn (es : List Entry) (log : List FsEffect) (r : Reconciled) :
    Progress :=
  { call := between (if r.returned then es else [])
    world := r.world
    effects := log ++ r.effects }

theorem chooseConflict_alone (env : ReconcileEnv) (root : SyncRoot) (e : Entry)
    (path : FsPath) (es : List Entry) (w : World) (log : List FsEffect) :
    Run (Alone env root)
      { chooseConflict env e path es w with
        effects := log ++ (chooseConflict env e path es w).effects }
      (afterTurn es log (applyConflict env e path w)) := by
  unfold chooseConflict applyConflict
  simp only
  split
  next => exact .refl
  next =>
      split
      next => exact .refl
      next =>
          cases hdownload : env.downloadFile with
          | none => exact .refl
          | some download =>
              cases hfileId : e.remoteFileId with
              | none => exact .refl
              | some fileId =>
                  cases htarget : conflictPathFor w.disk (env.stamp e.id)
                      path with
                  | none =>
                      exact .refl
                  | some target =>
                      refine .single ⟨_, rfl, ?_⟩
                      simp [arrive, hdownload, afterTurn, between]

theorem chooseDownload_alone (env : ReconcileEnv) (root : SyncRoot) (e : Entry)
    (path : FsPath) (es : List Entry) (w : World) (log : List FsEffect) :
    Run (Alone env root)
      { chooseDownload env e path es w with
        effects := log ++ (chooseDownload env e path es w).effects }
      (afterTurn es log (applyDownload env e path w)) := by
  unfold chooseDownload applyDownload
  simp only
  split
  next => exact .refl
  next =>
      cases hdownload : env.downloadFile with
      | none => exact .refl
      | some download =>
          cases hfileId : e.remoteFileId with
          | none => exact .refl
          | some fileId =>
              have hgot := downloadFile_fetched env e.id (download e.id fileId)
                fileId path w.disk
              generalize hdef : downloadFile env e.id (download e.id fileId)
                fileId path w.disk = got at hgot
              cases hfile : got.file with
              | none =>
                  refine .single ⟨_, rfl, ?_⟩
                  simp [arrive, hdownload, hdef, hfile, afterTurn, between]
              | some file =>
                  have hread := file_of_fetched hgot hfile
                  have harrived : Alone env root
                      { call :=
                          { rows := es
                            phase := .fetching e fileId path true }
                        world := w
                        effects := log ++ [] }
                      { call := { rows := es, phase := .recording e path }
                        world := { w with disk := got.disk }
                        effects := log ++ got.effects } := by
                    refine ⟨_, rfl, ?_⟩
                    simp [arrive, hdownload, hdef, hfile]
                  refine .tail (.single harrived) ⟨_, rfl, ?_⟩
                  simp [hdef, hfile, afterTurn, between, record, hread]

/-- The steps from one row to the next do what the turn of the loop does. -/
theorem reconcileEntry_alone (env : ReconcileEnv) (root : SyncRoot) (e : Entry)
    (es : List Entry) (w : World) (log : List FsEffect) :
    Run (Alone env root)
      { call := between (e :: es), world := w, effects := log }
      (afterTurn es log (reconcileEntry env root e w)) := by
  have hstep : Alone env root
      { call := between (e :: es), world := w, effects := log }
      { choose env root e es w with
        effects := log ++ (choose env root e es w).effects } :=
    ⟨_, rfl, rfl⟩
  unfold reconcileEntry
  unfold choose at hstep
  split
  next hpath =>
      simp only [hpath] at hstep
      exact .single hstep
  next path hpath =>
      simp only [hpath] at hstep
      split
      next hdec =>
          simp only [hdec] at hstep
          exact .single hstep
      next hdec =>
          simp only [hdec] at hstep
          exact .head hstep (chooseConflict_alone env root e path es w log)
      next hdec =>
          simp only [hdec] at hstep
          exact .head hstep (chooseDownload_alone env root e path es w log)
      next hdelete hconflict hdownload =>
          cases hdec : decideEntry root.mode e with
          | deleteLocal => exact absurd hdec hdelete
          | conflict => exact absurd hdec hconflict
          | download => exact absurd hdec hdownload
          | _ =>
              simp only [hdec] at hstep
              exact .single hstep

/-- The steps over all rows do what the loop does. -/
theorem reconcileRows_alone (env : ReconcileEnv) (root : SyncRoot)
    (es : List Entry) (w : World) (log : List FsEffect) :
    Run (Alone env root) { call := between es, world := w, effects := log }
      { call := between []
        world := (reconcileRows env root es w).world
        effects := log ++ (reconcileRows env root es w).effects } := by
  induction es generalizing w log with
  | nil =>
      simp only [reconcileRows, List.append_nil]
      exact .refl
  | cons e es ih =>
      have hturn := reconcileEntry_alone env root e es w log
      simp only [reconcileRows]
      unfold afterTurn at hturn
      split
      next hreturned =>
          rw [if_pos hreturned] at hturn
          have hrest := ih (reconcileEntry env root e w).world
            (log ++ (reconcileEntry env root e w).effects)
          rw [List.append_assoc] at hrest
          exact hturn.trans hrest
      next hreturned =>
          rw [if_neg hreturned] at hturn
          exact hturn

/-- A call that nothing interrupts is `reconcileRoot`. -/
theorem reconcileRoot_alone (env : ReconcileEnv) (root : SyncRoot) (w : World) :
    Run (Alone env root)
      { call := start root w.entries, world := w, effects := [] }
      { call := between []
        world := (reconcileRoot env root w).world
        effects := (reconcileRoot env root w).effects } :=
  reconcileRows_alone env root _ w []

end Call

end SyncReconciler

end ArkiveSync
