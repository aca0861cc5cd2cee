import ArkiveSync.Library.Runs
import ArkiveSync.Model.SyncService

/-!
# What the writers of a root's configuration preserve

A run of additions, removals and folder creations, the last cut where the
server is asked.  Any number of folder creations may be waiting at a time, each
with the row it read.

## Main results

* `StableStep.stable`: what one event may do to a root composes along a run.
* `step_stable_iff`: which events are such steps, one case for each writer.
* `run_stable_iff`: a run keeps the configuration of every root exactly when
  each of its events does.
-/

namespace ArkiveSync.RootConfiguration

open Library

/-- The roots, and the rows read by the folder creations under way. -/
structure State where
  roots : List SyncRoot
  waiting : List SyncRoot

/-- The writers of the configuration.  An argument of `addSyncRoot` that is
left out is `none`. -/
inductive Event where
  | add (disk : Disk) (localPath : String) (folderId : Option String)
      (enabled : Option Bool) (mode : Option SyncMode)
  | remove (syncRootId : String)
  | remoteDeleted (syncRootId : String)
  | startFolder (syncRootId : String)
  | finishFolder (index : Nat) (created : Option String)

/-- One event.  An event that throws changes nothing. -/
def step (env : SyncServiceEnv) (s : State) : Event → State
  | .add disk localPath folderId enabled mode =>
      match SyncService.addSyncRoot env disk s.roots localPath folderId
        (enabled.getD true) (mode.getD .twoWay) with
      | none => s
      | some (roots, _) => { s with roots := roots }
  | .remove syncRootId =>
      match SyncService.removeSyncRoot s.roots syncRootId with
      | none => s
      | some roots => { s with roots := roots }
  | .remoteDeleted syncRootId =>
      { s with roots := SyncRepo.disableSyncRoot s.roots syncRootId }
  | .startFolder syncRootId =>
      match FolderCreateWorker.startRootFolder env.cwd syncRootId s.roots with
      | none => s
      | some (read, _) => { s with waiting := s.waiting ++ [read] }
  | .finishFolder index created =>
      match s.waiting[index]? with
      | none => s
      | some read =>
          let waiting := s.waiting.eraseIdx index
          match created with
          | none => { s with waiting := waiting }
          | some id =>
              { roots := FolderCreateWorker.finishRootFolder read id s.roots
                waiting := waiting }

/-- The state after a run. -/
def run (env : SyncServiceEnv) (s : State) (events : List Event) : State :=
  events.foldl (step env) s

/-- The event adds the root explicitly. -/
def Event.Adds (env : SyncServiceEnv) (syncRootId : String) : Event → Prop
  | .add _ localPath _ _ _ =>
      SyncService.rootIdOf env localPath = some syncRootId
  | _ => False

/-- The event chooses a mode for the root explicitly. -/
def Event.ChoosesMode (env : SyncServiceEnv) (syncRootId : String) :
    Event → Prop
  | .add _ localPath _ _ mode =>
      SyncService.rootIdOf env localPath = some syncRootId ∧ mode.isSome = true
  | _ => False

/-- What a stretch of a run may change about a root. -/
structure Keeps (env : SyncServiceEnv) (events : List Event)
    (root root' : SyncRoot) : Prop where
  mode : (∀ e ∈ events, ¬e.ChoosesMode env root.id) → root'.mode = root.mode
  folder : root.folderId ≠ "" → root'.folderId = root.folderId
  disabled : root.enabled = false → (∀ e ∈ events, ¬e.Adds env root.id) →
    root'.enabled = false

/-- The configuration of every root is kept from one state to the other. -/
def Stable (env : SyncServiceEnv) (s : State) (events : List Event)
    (s' : State) : Prop :=
  ∀ id root, SyncRepo.findSyncRootById s.roots id = some root →
    ∃ root', SyncRepo.findSyncRootById s'.roots id = some root' ∧
      Keeps env events root root'

/-- An addition that names the folder of the root it finds, and its mode unless
that is the default one. -/
def AddSafe (folderId : Option String) (mode : Option SyncMode)
    (root : SyncRoot) : Prop :=
  (mode = none → root.mode = .twoWay) ∧
    (root.folderId ≠ "" → folderId = some root.folderId)

/-- A folder creation that finds the root as it was read: in the default mode,
without another folder, and not disabled meanwhile. -/
def FinishSafe (read : SyncRoot) (created : String) (root : SyncRoot) : Prop :=
  root.mode = .twoWay ∧ (root.folderId ≠ "" → root.folderId = created) ∧
    (root.enabled = false → read.enabled = false)

/-- The event leaves the configuration of every root as it may be left. -/
def Safe (env : SyncServiceEnv) (s : State) : Event → Prop
  | .add disk localPath folderId _ mode =>
      ∀ root path, normalizeFsPath env.cwd localPath = some path →
        disk.isDirectory (FsPath.parse path).loc = true →
        SyncService.rootIdOf env localPath = some root.id →
        SyncRepo.findSyncRootById s.roots root.id = some root →
        AddSafe folderId mode root
  | .finishFolder index (some created) =>
      ∀ read root, s.waiting[index]? = some read →
        SyncRepo.findSyncRootById s.roots read.id = some root →
        FinishSafe read created root
  | _ => True

/-! ## Stretches of a run -/

theorem Keeps.refl (env : SyncServiceEnv) (root : SyncRoot) :
    Keeps env [] root root :=
  { mode := fun _ => rfl
    folder := fun _ => rfl
    disabled := fun h _ => h }

theorem Keeps.trans {env : SyncServiceEnv} {xs ys : List Event}
    {root root' root'' : SyncRoot} (hid : root'.id = root.id)
    (h : Keeps env xs root root') (h' : Keeps env ys root' root'') :
    Keeps env (xs ++ ys) root root'' := by
  refine { mode := ?_, folder := ?_, disabled := ?_ }
  · intro hnone
    have hfirst := h.mode (fun e he => hnone e (List.mem_append_left ys he))
    have hlast := h'.mode (fun e he => by
      rw [hid]
      exact hnone e (List.mem_append_right xs he))
    exact hlast.trans hfirst
  · intro hbound
    have hfirst := h.folder hbound
    have hlast := h'.folder (by rw [hfirst]; exact hbound)
    exact hlast.trans hfirst
  · intro hoff hnone
    have hfirst := h.disabled hoff
      (fun e he => hnone e (List.mem_append_left ys he))
    exact h'.disabled hfirst (fun e he => by
      rw [hid]
      exact hnone e (List.mem_append_right xs he))

theorem Stable.refl (env : SyncServiceEnv) (s : State) : Stable env s [] s := by
  intro id root hroot
  exact ⟨root, hroot, Keeps.refl env root⟩

theorem Stable.trans (env : SyncServiceEnv) (s : State) (xs : List Event)
    (t : State) (ys : List Event) (u : State) (h : Stable env s xs t)
    (h' : Stable env t ys u) : Stable env s (xs ++ ys) u := by
  intro id root hroot
  obtain ⟨root', hroot', hkeeps⟩ := h id root hroot
  obtain ⟨root'', hroot'', hkeeps'⟩ := h' id root' hroot'
  have hid : root'.id = root.id :=
    (SyncRepo.id_of_find hroot').trans (SyncRepo.id_of_find hroot).symm
  exact ⟨root'', hroot'', hkeeps.trans hid hkeeps'⟩

/-! ## One event -/

section Step

variable {env : SyncServiceEnv} {s s' : State}

/-- A root that an event leaves alone is kept. -/
theorem Keeps.same (events : List Event) (root : SyncRoot) :
    Keeps env events root root :=
  { mode := fun _ => rfl
    folder := fun _ => rfl
    disabled := fun h _ => h }

/-- An event that leaves all roots alone is stable. -/
theorem stable_of_roots_eq (event : Event) (h : s'.roots = s.roots) :
    Stable env s [event] s' := by
  intro id root hroot
  refine ⟨root, ?_, Keeps.same _ root⟩
  rw [h]
  exact hroot

/-- Disabling a root changes nothing else. -/
theorem stable_of_disable (event : Event) {syncRootId : String}
    (h : s'.roots = SyncRepo.disableSyncRoot s.roots syncRootId) :
    Stable env s [event] s' := by
  intro id root hroot
  refine ⟨if root.id == syncRootId then { root with enabled := false }
    else root, ?_, ?_⟩
  · rw [h, SyncRepo.find_disable, hroot]
    rfl
  · by_cases hid : root.id = syncRootId
    · simp only [hid, beq_self_eq_true, if_true]
      exact { mode := fun _ => rfl, folder := fun _ => rfl
              disabled := fun _ _ => rfl }
    · simp only [beq_iff_eq, hid, if_false]
      exact Keeps.same _ root

/-- An upsert is stable exactly when it keeps the row it replaces. -/
theorem stable_upsert_iff (event : Event) {input : SyncRoot}
    (h : s'.roots = SyncRepo.upsertSyncRoot s.roots input) :
    Stable env s [event] s' ↔
      ∀ root, SyncRepo.findSyncRootById s.roots input.id = some root →
        Keeps env [event] root input := by
  constructor
  · intro hstable root hroot
    obtain ⟨root', hroot', hkeeps⟩ := hstable input.id root hroot
    rw [h, SyncRepo.find_upsert_self] at hroot'
    cases hroot'
    exact hkeeps
  · intro hkeeps id root hroot
    by_cases hid : id = input.id
    · subst hid
      exact ⟨input, by rw [h, SyncRepo.find_upsert_self], hkeeps root hroot⟩
    · refine ⟨root, ?_, Keeps.same _ root⟩
      rw [h, SyncRepo.find_upsert_other _ _ hid]
      exact hroot

/-- What an addition does to the root it replaces. -/
theorem keeps_add_iff {disk : Disk} {localPath : String}
    {folderId : Option String} {enabled : Option Bool} {mode : Option SyncMode}
    {root input : SyncRoot}
    (hroot : SyncService.rootIdOf env localPath = some root.id)
    (hfolder : input.folderId = folderId.getD "")
    (hmode : input.mode = mode.getD .twoWay) :
    Keeps env [.add disk localPath folderId enabled mode] root input ↔
      AddSafe folderId mode root := by
  constructor
  · intro h
    refine ⟨?_, ?_⟩
    · intro hnone
      have hkept := h.mode (by
        intro e he hchooses
        rw [List.mem_singleton.mp he] at hchooses
        have hsome := hchooses.2
        rw [hnone] at hsome
        cases hsome)
      rw [hmode, hnone] at hkept
      exact hkept.symm
    · intro hbound
      have hkept := h.folder hbound
      rw [hfolder] at hkept
      cases folderId with
      | none => exact absurd hkept.symm hbound
      | some folder => exact congrArg some hkept
  · rintro ⟨hsafeMode, hsafeFolder⟩
    refine { mode := ?_, folder := ?_, disabled := ?_ }
    · intro hnone
      cases mode with
      | none => exact hmode.trans (hsafeMode rfl).symm
      | some chosen =>
          exact absurd ⟨hroot, rfl⟩ (hnone _ (List.mem_singleton.mpr rfl))
    · intro hbound
      rw [hfolder, hsafeFolder hbound]
      rfl
    · intro _ hnone
      exact absurd hroot (hnone _ (List.mem_singleton.mpr rfl))

/-- What a folder creation does to the root it finds. -/
theorem keeps_finish_iff {index : Nat} {created : Option String}
    {read root : SyncRoot} {id : String} :
    Keeps env [.finishFolder index created] root
        { id := read.id, localPath := read.localPath, folderId := id
          enabled := read.enabled, mode := .twoWay } ↔
      FinishSafe read id root := by
  have hnever : ∀ e ∈ [Event.finishFolder index created],
      ¬e.ChoosesMode env root.id ∧ ¬e.Adds env root.id := by
    intro e he
    rw [List.mem_singleton.mp he]
    exact ⟨fun h => h, fun h => h⟩
  constructor
  · intro h
    refine ⟨?_, ?_, ?_⟩
    · exact (h.mode (fun e he => (hnever e he).1)).symm
    · intro hbound
      exact (h.folder hbound).symm
    · intro hoff
      exact h.disabled hoff (fun e he => (hnever e he).2)
  · rintro ⟨hmode, hfolder, hoff⟩
    exact
      { mode := fun _ => hmode.symm
        folder := fun hbound => (hfolder hbound).symm
        disabled := fun h _ => hoff h }

/-- An addition is stable exactly when it is safe. -/
theorem add_stable_iff (disk : Disk) (localPath : String)
    (folderId : Option String) (enabled : Option Bool) (mode : Option SyncMode) :
    Stable env s [.add disk localPath folderId enabled mode]
        (step env s (.add disk localPath folderId enabled mode)) ↔
      Safe env s (.add disk localPath folderId enabled mode) := by
  cases hadd : SyncService.addSyncRoot env disk s.roots localPath folderId
      (enabled.getD true) (mode.getD .twoWay) with
  | none =>
      have hroots : (step env s
          (.add disk localPath folderId enabled mode)).roots = s.roots := by
        simp only [step, hadd]
      constructor
      · intro _ root path hnorm hdir hid _
        exact absurd hadd (SyncService.addSyncRoot_ne_none hnorm hdir hid)
      · intro _
        exact stable_of_roots_eq _ hroots
  | some result =>
      obtain ⟨roots, input⟩ := result
      obtain ⟨hnorm, hdir, hid, hfolder, hmode, hroots⟩ :=
        SyncService.addSyncRoot_some hadd
      have hstep : (step env s
          (.add disk localPath folderId enabled mode)).roots =
            SyncRepo.upsertSyncRoot s.roots input := by
        simp only [step, hadd]
        exact hroots
      rw [stable_upsert_iff _ hstep]
      constructor
      · intro h root path _ _ hroot hfind
        have hsame : root.id = input.id := Option.some.inj (hroot.symm.trans hid)
        refine (keeps_add_iff hroot hfolder hmode).mp (h root ?_)
        rw [← hsame]
        exact hfind
      · intro h root hfind
        have hsame : root.id = input.id := SyncRepo.id_of_find hfind
        have hroot : SyncService.rootIdOf env localPath = some root.id := by
          rw [hsame]
          exact hid
        refine (keeps_add_iff hroot hfolder hmode).mpr ?_
        refine h root input.localPath hnorm hdir hroot ?_
        rw [hsame]
        exact hfind

/-- An event keeps the configuration of every root exactly when it is safe. -/
theorem step_stable_iff (event : Event) :
    Stable env s [event] (step env s event) ↔ Safe env s event := by
  cases event with
  | add disk localPath folderId enabled mode =>
      exact add_stable_iff disk localPath folderId enabled mode
  | remove syncRootId =>
      refine iff_of_true ?_ trivial
      cases hfind : SyncRepo.findSyncRootById s.roots syncRootId with
      | none =>
          refine stable_of_roots_eq _ ?_
          simp only [step, SyncService.removeSyncRoot, hfind]
      | some _ =>
          have hroots : (step env s (.remove syncRootId)).roots =
              SyncRepo.disableSyncRoot s.roots syncRootId := by
            simp only [step, SyncService.removeSyncRoot, hfind]
          exact stable_of_disable _ hroots
  | remoteDeleted syncRootId =>
      exact iff_of_true (stable_of_disable _ rfl) trivial
  | startFolder syncRootId =>
      refine iff_of_true (stable_of_roots_eq _ ?_) trivial
      unfold step
      dsimp only
      split <;> rfl
  | finishFolder index created =>
      cases created with
      | none =>
          refine iff_of_true (stable_of_roots_eq _ ?_) trivial
          unfold step
          dsimp only
          split <;> rfl
      | some id =>
          cases hread : s.waiting[index]? with
          | none =>
              refine iff_of_true (stable_of_roots_eq _ ?_) ?_
              · simp only [step, hread]
              · intro read root hwait
                rw [hread] at hwait
                cases hwait
          | some read =>
              have hstep : (step env s
                  (.finishFolder index (some id))).roots =
                    FolderCreateWorker.finishRootFolder read id s.roots := by
                simp only [step, hread]
              rw [stable_upsert_iff _ hstep]
              constructor
              · intro h read' root hwait hfind
                rw [hread] at hwait
                cases hwait
                exact keeps_finish_iff.mp (h root hfind)
              · intro h root hfind
                exact keeps_finish_iff.mpr (h read root hread hfind)

end Step

/-- A run keeps the configuration of every root, over each of its stretches,
exactly when every event of it is safe where it happens. -/
theorem run_stable_iff (env : SyncServiceEnv) (s : State)
    (events : List Event) :
    (∀ before during after, events = before ++ during ++ after →
      Stable env (run env s before) during
        (run env (run env s before) during)) ↔
    ∀ before event after, events = before ++ event :: after →
      Safe env (run env s before) event := by
  have hsegments := @segments_iff _ _ (step env) (Stable env)
    (Stable.refl env) (Stable.trans env) s events
  unfold run
  rw [hsegments]
  constructor
  · intro h before event after heq
    exact step_stable_iff event |>.mp (h before event after heq)
  · intro h before event after heq
    exact (step_stable_iff event).mpr (h before event after heq)

/-! ## A removal while the folder is created -/

namespace LateAnswer

def env : SyncServiceEnv :=
  { cwd := { isAbsolute := true, names := [], trailing := false }
    sha256HashHex := fun text => text }

def disk : Disk := (FileTree.empty.makeDirectories ["r"]).getD FileTree.empty

/-- The root is added in a mode of its own and removed before its folder is
there. -/
def events : List Event :=
  [.add disk "/r" none none (some .uploadOnly), .startFolder "sync-root-/r",
    .remove "sync-root-/r", .finishFolder 0 (some "F")]

def removed : SyncRoot :=
  { id := "sync-root-/r", localPath := "/r", folderId := "", enabled := false
    mode := .uploadOnly }

def answered : SyncRoot :=
  { id := "sync-root-/r", localPath := "/r", folderId := "F", enabled := true
    mode := .twoWay }

end LateAnswer

/-- A folder that arrives after the removal enables the root again, in another
mode. -/
theorem not_run_stable :
    ¬∀ (env : SyncServiceEnv) (events before during after : List Event),
      events = before ++ during ++ after →
      Stable env (run env { roots := [], waiting := [] } before) during
        (run env (run env { roots := [], waiting := [] } before) during) := by
  intro h
  have hstable := h LateAnswer.env LateAnswer.events
    (LateAnswer.events.take 3) (LateAnswer.events.drop 3) [] (by rfl)
  obtain ⟨root', hroot', hkeeps⟩ := hstable "sync-root-/r" LateAnswer.removed
    (by decide)
  have hanswered : root' = LateAnswer.answered := by
    refine Option.some.inj (hroot'.symm.trans ?_)
    decide
  rw [hanswered] at hkeeps
  have hoff := hkeeps.disabled rfl (by
    intro e he hadds
    rw [List.mem_singleton.mp he] at hadds
    exact hadds)
  cases hoff

end ArkiveSync.RootConfiguration
