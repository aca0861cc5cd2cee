import ArkiveSync.Model.RootFolderCalls

/-!
# One remote folder for a root

A root without a folder is given one by `ensureRootFolder`.  Between the reading
of the root and the writing of the folder's id the database knows nothing of the
request, so that another call may ask the server for a second folder.

## Main results

* `Standing.step`: how far the calls have come, and that a step which meets the
  condition keeps it.
* `one_root_folder`: at most one folder is created and it alone is used, in
  every run in which no request is answered beside another one; and such an
  answer always makes a second folder.
* `not_one_root_folder`: two calls that both read the root first.
-/

namespace ArkiveSync.RootFolders

open Library

/-! ## The property -/

/-- The folders that the server has created for the root. -/
def createdIds : List FolderEvent → List String
  | [] => []
  | .created folderId :: log => folderId :: createdIds log
  | .stored _ :: log => createdIds log
  | .used _ :: log => createdIds log

/-- Whatever used a folder behind the storing of one used the only one. -/
def UsesOne : List FolderEvent → Prop
  | [] => True
  | .created _ :: log => UsesOne log
  | .stored _ :: log => UsesOne log
  | .used folderId :: log =>
      ((∃ stored, FolderEvent.stored stored ∈ log) →
        createdIds log = [folderId]) ∧ UsesOne log

/-- At most one folder was created, and the later uses are of that one. -/
structure OneFolder (log : List FolderEvent) : Prop where
  once : (createdIds log).length ≤ 1
  uses : UsesOne log

/-! ## The condition -/

/-- The thread holds the answer of the server and has not stored it. -/
def Holds : CallPhase → Prop
  | .answered _ _ => True
  | _ => False

/-- The root has no folder in the database. -/
def Folderless (syncRootId : String) (s : RootFolderRun) : Prop :=
  ∀ root, s.root? syncRootId = some root → root.folderId = ""

/-- A request is answered for one call while the root still has no folder and no
other call holds an answer. -/
def Alone (syncRootId : String) (s : RootFolderRun) : FolderAction → Prop
  | .answer i _ =>
      Folderless syncRootId s ∧ ∀ j, j ≠ i → ¬ Holds (s.threads j)
  | _ => True

/-! ## How far the calls have come -/

/-- A thread that knows of no folder. -/
def Before : CallPhase → Prop
  | .idle => True
  | .ensuring _ => True
  | _ => False

/-- A thread that has no answer to store, and a folder of its root, if it has
read the root again, is the given one. -/
def Behind (folderId : String) : CallPhase → Prop
  | .idle => True
  | .ensuring _ => True
  | .answered _ _ => False
  | .ensured => True
  | .producing root => root.folderId = folderId

theorem Before.behind {phase : CallPhase}
    (h : Before phase) (folderId : String) :
    Behind folderId phase := by
  cases phase with
  | idle => trivial
  | ensuring root => trivial
  | answered root other => exact h.elim
  | ensured => exact h.elim
  | producing root => exact h.elim

/-- The root that a thread is going to write back. -/
def Writes (syncRootId : String) : CallPhase → Prop
  | .ensuring root => root.id = syncRootId
  | .answered root _ => root.id = syncRootId
  | _ => True

/-- No folder has been created. -/
structure Unasked (syncRootId : String) (s : RootFolderRun) : Prop where
  created : createdIds s.log = []
  stored : ∀ folderId, FolderEvent.stored folderId ∉ s.log
  folderless : Folderless syncRootId s
  threads : ∀ i, Before (s.threads i)

/-- One folder has been created, and one thread is about to store it. -/
structure Held (syncRootId : String) (s : RootFolderRun) (i : Nat)
    (root : SyncRoot) (folderId : String) : Prop where
  created : createdIds s.log = [folderId]
  stored : ∀ folderId, FolderEvent.stored folderId ∉ s.log
  folderless : Folderless syncRootId s
  holder : s.threads i = .answered root folderId
  nonempty : folderId ≠ ""
  others : ∀ j, j ≠ i → Before (s.threads j)

/-- One folder has been created, and the root has it. -/
structure Stored (syncRootId : String) (s : RootFolderRun) (folderId : String) :
    Prop where
  created : createdIds s.log = [folderId]
  nonempty : folderId ≠ ""
  root : ∃ root, s.root? syncRootId = some root ∧ root.folderId = folderId
  threads : ∀ i, Behind folderId (s.threads i)

/-- How far the calls have come. -/
inductive Stage (syncRootId : String) (s : RootFolderRun) : Prop where
  | unasked (h : Unasked syncRootId s)
  | held (i : Nat) (root : SyncRoot) (folderId : String)
      (h : Held syncRootId s i root folderId)
  | stored (folderId : String) (h : Stored syncRootId s folderId)

/-- What holds throughout: the stage, the uses, and what the threads write. -/
structure Standing (syncRootId : String) (s : RootFolderRun) : Prop where
  stage : Stage syncRootId s
  uses : UsesOne s.log
  writes : ∀ i, Writes syncRootId (s.threads i)

/-- The threads after one of them has entered another phase. -/
theorem forall_enter (P : Nat → CallPhase → Prop) {s : RootFolderRun} {i : Nat}
    (phase : CallPhase) (hall : ∀ j, j ≠ i → P j (s.threads j))
    (hi : P i phase) (j : Nat) :
    P j (Function.update s.threads i phase j) := by
  by_cases hj : j = i
  · rw [hj, Function.update_self]
    exact hi
  · rw [Function.update_of_ne hj]
    exact hall j hj

/-- An event that is not the storing of a folder. -/
theorem not_stored_cons {event : FolderEvent} {log : List FolderEvent}
    (hlog : ∀ folderId, FolderEvent.stored folderId ∉ log)
    (hevent : ∀ folderId, event ≠ .stored folderId) (folderId : String) :
    FolderEvent.stored folderId ∉ event :: log := by
  intro hmem
  rcases List.mem_cons.mp hmem with heq | hmem
  · exact hevent folderId heq.symm
  · exact hlog folderId hmem

theorem Standing.once {syncRootId : String} {s : RootFolderRun}
    (h : Standing syncRootId s) : OneFolder s.log := by
  refine ⟨?_, h.uses⟩
  cases h.stage with
  | unasked h => simp [h.created]
  | held i root folderId h => simp [h.created]
  | stored folderId h => simp [h.created]

/-! ## One step -/

section Step

variable {cwd : FsPath} {syncRootId : String} {s s' : RootFolderRun}
  {action : FolderAction}

/-- What a thread writes back is the root it has read. -/
theorem writes_step (hstep : FolderStep cwd syncRootId s action s')
    (h : ∀ i, Writes syncRootId (s.threads i)) :
    ∀ i, Writes syncRootId (s'.threads i) := by
  have henter : ∀ i phase, Writes syncRootId phase →
      ∀ j, Writes syncRootId (Function.update s.threads i phase j) :=
    fun i phase => forall_enter (fun _ => Writes syncRootId) phase
      (fun j _ => h j)
  cases hstep with
  | skip i root hphase hroot hfolder => exact henter i .ensured trivial
  | read i root hphase hroot hasks =>
      exact henter i (.ensuring root) (SyncRepo.id_of_find hroot)
  | fail i root hphase => exact henter i .idle trivial
  | answer i root folderId hphase hid =>
      have hi := h i
      rw [hphase] at hi
      exact henter i (.answered root folderId) hi
  | store i root folderId hphase => exact henter i .ensured trivial
  | readAgain i root hphase hroot => exact henter i (.producing root) trivial
  | gone i hphase hroot => exact henter i .idle trivial
  | produce i root hphase => exact h
  | finish i root hphase => exact henter i .idle trivial
  | upload root hroot => exact h
  | others roots hroot => exact h

/-- The root after a folder has been stored in it. -/
theorem root_of_store {root : SyncRoot} (hid : root.id = syncRootId)
    (roots : List SyncRoot) (folderId : String) :
    SyncRepo.findSyncRootById (SyncRepo.upsertSyncRoot roots
      (FolderCreateWorker.withFolder root folderId)) syncRootId =
      some (FolderCreateWorker.withFolder root folderId) := by
  have hwrite : (FolderCreateWorker.withFolder root folderId).id =
      syncRootId := hid
  rw [← hwrite]
  exact SyncRepo.find_upsert_self roots _

/-- Before the first folder is created. -/
theorem Unasked.step (h : Unasked syncRootId s)
    (hstep : FolderStep cwd syncRootId s action s') : Stage syncRootId s' := by
  obtain ⟨hcreated, hstored, hfolderless, hthreads⟩ := h
  have henter : ∀ i phase, Before phase →
      ∀ j, Before (Function.update s.threads i phase j) :=
    fun i phase => forall_enter (fun _ => Before) phase
      (fun j _ => hthreads j)
  have hbefore : ∀ i phase, s.threads i = phase → Before phase :=
    fun i phase hphase => hphase ▸ hthreads i
  cases hstep with
  | skip i root hphase hroot hfolder =>
      exact absurd (hfolderless root hroot) hfolder
  | read i root hphase hroot hasks =>
      exact .unasked ⟨hcreated, hstored, hfolderless,
        henter i (.ensuring root) trivial⟩
  | fail i root hphase =>
      exact .unasked ⟨hcreated, hstored, hfolderless, henter i .idle trivial⟩
  | answer i root folderId hphase hid =>
      refine .held i root folderId ⟨?_, ?_, hfolderless, ?_, hid, ?_⟩
      · show folderId :: createdIds s.log = [folderId]
        rw [hcreated]
      · exact not_stored_cons hstored (fun _ h => by cases h)
      · exact Function.update_self _ _ _
      · exact forall_enter (fun j phase => j ≠ i → Before phase)
          (.answered root folderId) (fun j _ _ => hthreads j)
          (fun h => absurd rfl h)
  | store i root folderId hphase => exact (hbefore i _ hphase).elim
  | readAgain i root hphase hroot => exact (hbefore i _ hphase).elim
  | gone i hphase hroot => exact (hbefore i _ hphase).elim
  | produce i root hphase => exact (hbefore i _ hphase).elim
  | finish i root hphase => exact (hbefore i _ hphase).elim
  | upload root hroot =>
      exact .unasked ⟨hcreated, not_stored_cons hstored
        (fun _ h => by cases h), hfolderless, hthreads⟩
  | others roots hroot =>
      refine .unasked ⟨hcreated, hstored, ?_, hthreads⟩
      intro root hfound
      exact hfolderless root (hroot ▸ hfound)

/-- While one thread holds an answer. -/
theorem Held.step {k : Nat} {root : SyncRoot} {folderId : String}
    (h : Held syncRootId s k root folderId) (hid : root.id = syncRootId)
    (hstep : FolderStep cwd syncRootId s action s')
    (halone : Alone syncRootId s action) : Stage syncRootId s' := by
  obtain ⟨hcreated, hstored, hfolderless, hholder, hne, hothers⟩ := h
  -- Only the holder is in another phase than the first two.
  have hholds : ∀ i phase, s.threads i = phase → ¬ Before phase →
      i = k := by
    intro i phase hphase hbefore
    by_contra hik
    exact hbefore (hphase ▸ hothers i hik)
  have hstay : ∀ i phase, i ≠ k → Before phase →
      Held syncRootId (s.enter i phase) k root folderId := by
    intro i phase hik hphase
    refine ⟨hcreated, hstored, hfolderless, ?_, hne, ?_⟩
    · show Function.update s.threads i phase k = _
      rw [Function.update_of_ne (fun h => hik h.symm)]
      exact hholder
    · exact forall_enter (fun j phase => j ≠ k → Before phase) phase
        (fun j _ => hothers j) (fun _ => hphase)
  cases hstep with
  | skip i root' hphase hroot hfolder =>
      exact absurd (hfolderless root' hroot) hfolder
  | read i root' hphase hroot hasks =>
      refine .held k root folderId (hstay i (.ensuring root') ?_ trivial)
      intro hik
      rw [hik, hholder] at hphase
      cases hphase
  | fail i root' hphase =>
      refine .held k root folderId (hstay i .idle ?_ trivial)
      intro hik
      rw [hik, hholder] at hphase
      cases hphase
  | answer i root' folderId' hphase hid' =>
      have hik : k ≠ i := by
        intro hik
        rw [← hik, hholder] at hphase
        cases hphase
      have hnot := halone.2 k hik
      rw [hholder] at hnot
      exact absurd trivial hnot
  | store i root' folderId' hphase =>
      have hik := hholds i _ hphase id
      rw [hik, hholder] at hphase
      cases hphase
      refine .stored folderId ⟨hcreated, hne, ?_, ?_⟩
      · exact ⟨_, root_of_store hid s.roots folderId, rfl⟩
      · refine forall_enter (fun _ => Behind folderId) .ensured
          (fun j hj => ?_) trivial
        exact Before.behind (hothers j (hik ▸ hj)) folderId
  | readAgain i root' hphase hroot =>
      rw [hholds i _ hphase id, hholder] at hphase
      cases hphase
  | gone i hphase hroot =>
      rw [hholds i _ hphase id, hholder] at hphase
      cases hphase
  | produce i root' hphase =>
      rw [hholds i _ hphase id, hholder] at hphase
      cases hphase
  | finish i root' hphase =>
      rw [hholds i _ hphase id, hholder] at hphase
      cases hphase
  | upload root' hroot =>
      exact .held k root folderId ⟨hcreated, not_stored_cons hstored
        (fun _ h => by cases h), hfolderless, hholder, hne, hothers⟩
  | others roots hroot =>
      refine .held k root folderId
        ⟨hcreated, hstored, ?_, hholder, hne, hothers⟩
      intro root' hfound
      exact hfolderless root' (hroot ▸ hfound)

/-- After the root has its folder. -/
theorem Stored.step {folderId : String} (h : Stored syncRootId s folderId)
    (hstep : FolderStep cwd syncRootId s action s')
    (halone : Alone syncRootId s action) : Stored syncRootId s' folderId := by
  obtain ⟨hcreated, hne, ⟨root, hroot, hfolder⟩, hthreads⟩ := h
  have henter : ∀ i phase, Behind folderId phase →
      Stored syncRootId (s.enter i phase) folderId := by
    intro i phase hphase
    exact ⟨hcreated, hne, ⟨root, hroot, hfolder⟩,
      forall_enter (fun _ => Behind folderId) phase
        (fun j _ => hthreads j) hphase⟩
  cases hstep with
  | skip i root' hphase hroot' hfolder' => exact henter i .ensured trivial
  | read i root' hphase hroot' hasks =>
      exact henter i (.ensuring root') trivial
  | fail i root' hphase => exact henter i .idle trivial
  | answer i root' folderId' hphase hid' =>
      exact absurd (hfolder.symm.trans (halone.1 root hroot)) hne
  | store i root' folderId' hphase =>
      have hi := hthreads i
      rw [hphase] at hi
      exact hi.elim
  | readAgain i root' hphase hroot' =>
      refine henter i (.producing root') ?_
      rw [hroot] at hroot'
      cases hroot'
      exact hfolder
  | gone i hphase hroot' =>
      rw [hroot] at hroot'
      cases hroot'
  | produce i root' hphase =>
      exact ⟨hcreated, hne, ⟨root, hroot, hfolder⟩, hthreads⟩
  | finish i root' hphase => exact henter i .idle trivial
  | upload root' hroot' =>
      exact ⟨hcreated, hne, ⟨root, hroot, hfolder⟩, hthreads⟩
  | others roots hroot' =>
      exact ⟨hcreated, hne, ⟨root, hroot'.trans hroot, hfolder⟩, hthreads⟩

/-- What is used is the folder of the root, once it has one. -/
theorem uses_step (h : Stage syncRootId s) (huses : UsesOne s.log)
    (hstep : FolderStep cwd syncRootId s action s') : UsesOne s'.log := by
  have hnever : ∀ used : String,
      (∀ folderId, FolderEvent.stored folderId ∉ s.log) →
      UsesOne (.used used :: s.log) :=
    fun _ hstored => ⟨fun ⟨other, hmem⟩ => absurd hmem (hstored other), huses⟩
  cases hstep with
  | skip => exact huses
  | read => exact huses
  | fail => exact huses
  | answer => exact huses
  | store => exact huses
  | readAgain => exact huses
  | gone => exact huses
  | produce i root hphase =>
      cases h with
      | unasked h => exact hnever _ h.stored
      | held k other folderId h => exact hnever _ h.stored
      | stored folderId h =>
          refine ⟨fun _ => ?_, huses⟩
          have hfolder : root.folderId = folderId := by
            have hi := h.threads i
            rw [hphase] at hi
            exact hi
          rw [hfolder]
          exact h.created
  | finish => exact huses
  | upload root hroot =>
      cases h with
      | unasked h => exact hnever _ h.stored
      | held k other folderId h => exact hnever _ h.stored
      | stored folderId h =>
          refine ⟨fun _ => ?_, huses⟩
          obtain ⟨other, hother, hfolder⟩ := h.root
          rw [hroot] at hother
          cases hother
          rw [hfolder]
          exact h.created
  | others => exact huses

/-- A step that meets the condition keeps all of it. -/
theorem Standing.step (h : Standing syncRootId s)
    (hstep : FolderStep cwd syncRootId s action s')
    (halone : Alone syncRootId s action) : Standing syncRootId s' := by
  refine ⟨?_, uses_step h.stage h.uses hstep, writes_step hstep h.writes⟩
  cases h.stage with
  | unasked hstage => exact hstage.step hstep
  | held i root folderId hstage =>
      have hid : root.id = syncRootId := by
        have hwrites := h.writes i
        rw [hstage.holder] at hwrites
        exact hwrites
      exact hstage.step hid hstep halone
  | stored folderId hstage =>
      exact .stored folderId (hstage.step hstep halone)

/-! ## Answers beside another one -/

/-- A folder in the database or in a thread's hands was created before. -/
structure Known (syncRootId : String) (s : RootFolderRun) : Prop where
  root : createdIds s.log = [] → Folderless syncRootId s
  threads : createdIds s.log = [] → ∀ i, ¬ Holds (s.threads i)
  writes : ∀ i, Writes syncRootId (s.threads i)

theorem Known.step (h : Known syncRootId s)
    (hstep : FolderStep cwd syncRootId s action s') : Known syncRootId s' := by
  obtain ⟨hroot, hthreads, hwrites⟩ := h
  have henter : ∀ i phase, ¬ Holds phase → createdIds s.log = [] →
      ∀ j, ¬ Holds (Function.update s.threads i phase j) :=
    fun i phase hphase hlog => forall_enter (fun _ phase => ¬ Holds phase)
      phase (fun j _ => hthreads hlog j) hphase
  refine ⟨?_, ?_, writes_step hstep hwrites⟩
  · cases hstep with
    | skip => exact hroot
    | read => exact hroot
    | fail => exact hroot
    | answer => exact fun hlog => by cases hlog
    | store i root folderId hphase =>
        intro hlog
        refine (hthreads hlog i ?_).elim
        rw [hphase]
        trivial
    | readAgain => exact hroot
    | gone => exact hroot
    | produce => exact hroot
    | finish => exact hroot
    | upload => exact hroot
    | others roots hroots =>
        intro hlog root hfound
        exact hroot hlog root (hroots ▸ hfound)
  · cases hstep with
    | skip i => exact henter i .ensured id
    | read i root => exact henter i (.ensuring root) id
    | fail i => exact henter i .idle id
    | answer => exact fun hlog => by cases hlog
    | store i => exact henter i .ensured id
    | readAgain i root => exact henter i (.producing root) id
    | gone i => exact henter i .idle id
    | produce => exact hthreads
    | finish i => exact henter i .idle id
    | upload => exact hthreads
    | others => exact hthreads

/-- An answer that does not meet the condition is a second folder. -/
theorem Known.twice (h : Known syncRootId s)
    (hstep : FolderStep cwd syncRootId s action s')
    (halone : ¬ Alone syncRootId s action) : ¬ OneFolder s'.log := by
  intro hone
  cases hstep with
  | answer i root folderId hphase hid =>
      have hlen : (createdIds s.log).length + 1 ≤ 1 := hone.once
      have hnone : createdIds s.log = [] := by
        rw [← List.length_eq_zero_iff]
        omega
      exact halone ⟨h.root hnone, fun j _ => h.threads hnone j⟩
  | skip => exact halone trivial
  | read => exact halone trivial
  | fail => exact halone trivial
  | store => exact halone trivial
  | readAgain => exact halone trivial
  | gone => exact halone trivial
  | produce => exact halone trivial
  | finish => exact halone trivial
  | upload => exact halone trivial
  | others => exact halone trivial

end Step

/-! ## Every run -/

/-- The root has no folder, and no call is under way. -/
structure Fresh (syncRootId : String) (s : RootFolderRun) : Prop where
  root : Folderless syncRootId s
  threads : ∀ i, s.threads i = .idle
  log : s.log = []

theorem Fresh.standing {syncRootId : String} {s : RootFolderRun}
    (h : Fresh syncRootId s) : Standing syncRootId s := by
  obtain ⟨hroot, hthreads, hlog⟩ := h
  refine ⟨.unasked ⟨?_, ?_, hroot, ?_⟩, ?_, ?_⟩
  · rw [hlog]
    rfl
  · simp [hlog]
  · intro i
    rw [hthreads i]
    trivial
  · rw [hlog]
    trivial
  · intro i
    rw [hthreads i]
    trivial

theorem Fresh.known {syncRootId : String} {s : RootFolderRun}
    (h : Fresh syncRootId s) : Known syncRootId s := by
  refine ⟨fun _ => h.root, fun _ i => ?_, h.standing.writes⟩
  rw [h.threads i]
  exact id

/-- From a root without a folder, with any number of calls in any order: as long
as no request is answered beside another one, at most one folder is created and
it is the one that is used.  An answer beside another one, or for a root that
has been given a folder, always is a second folder. -/
theorem one_root_folder {cwd : FsPath} {syncRootId : String} {s : RootFolderRun}
    (hfresh : Fresh syncRootId s) :
    (∀ s', Run (Guarded (FolderStep cwd syncRootId) (Alone syncRootId)) s s' →
      OneFolder s'.log) ∧
    ∀ s₁ action s₂, Run (RootFolderRun.Next cwd syncRootId) s s₁ →
      FolderStep cwd syncRootId s₁ action s₂ → ¬ Alone syncRootId s₁ action →
      ¬ OneFolder s₂.log := by
  constructor
  · intro s' hrun
    have hkeep : Preserves
        (Guarded (FolderStep cwd syncRootId) (Alone syncRootId))
        (Standing syncRootId) := by
      intro a b hguarded ha
      obtain ⟨action, hstep, halone⟩ := hguarded
      exact ha.step hstep halone
    exact (hkeep.run hrun hfresh.standing).once
  · intro s₁ action s₂ hrun hstep halone
    have hkeep : Preserves (RootFolderRun.Next cwd syncRootId)
        (Known syncRootId) := by
      intro a b hnext ha
      obtain ⟨other, hother⟩ := hnext
      exact ha.step hother
    exact (hkeep.run hrun hfresh.known).twice hstep halone

/-! ## Two calls -/

namespace TwoCalls

def root : SyncRoot :=
  { id := "r", localPath := "/home/u/docs", folderId := "", mode := .twoWay }

/-- No call has begun. -/
def start : RootFolderRun :=
  { roots := [root], threads := fun _ => .idle, log := [] }

theorem fresh : Fresh "r" start := by
  refine ⟨?_, fun _ => rfl, rfl⟩
  intro other hfound
  have hroot : start.root? "r" = some root := by decide
  rw [hroot] at hfound
  cases hfound
  rfl

theorem asks : FolderCreateWorker.asks (FsPath.parse "/") root := by
  refine ⟨rfl, "docs", ?_⟩
  decide

/-- The first call has read the root. -/
def firstReads : RootFolderRun := start.enter 0 (.ensuring root)

/-- So has the second one. -/
def secondReads : RootFolderRun := firstReads.enter 1 (.ensuring root)

/-- The first call has its answer. -/
def answered : RootFolderRun :=
  { firstReads.enter 0 (.answered root "F") with log := [.created "F"] }

/-- And has written it. -/
def stored : RootFolderRun :=
  { answered.enter 0 .ensured with
    roots := [FolderCreateWorker.withFolder root "F"]
    log := [.stored "F", .created "F"] }

/-- And has read the root again. -/
def producing : RootFolderRun :=
  stored.enter 0 (.producing (FolderCreateWorker.withFolder root "F"))

theorem first_step :
    FolderStep (FsPath.parse "/") "r" start (.read 0) firstReads :=
  .read start 0 root rfl (by decide) asks

theorem second_step :
    FolderStep (FsPath.parse "/") "r" firstReads (.read 1) secondReads :=
  .read firstReads 1 root rfl (by decide) asks

end TwoCalls

open TwoCalls FolderCreateWorker in
/-- One call alone, with a page behind it. -/
theorem one_root_folder_single :
    OneFolder [.used "F", .stored "F", .created "F"] := by
  refine (@one_root_folder (FsPath.parse "/") "r" start fresh).1
    { producing with log := .used "F" :: stored.log }
    (.tail (.tail (.tail (.tail (.single ⟨_, first_step, trivial⟩)
      ⟨.answer 0 "F", .answer firstReads 0 root "F" rfl (by decide), ?_, ?_⟩)
      ⟨.store 0, .store answered 0 root "F" rfl, trivial⟩)
      ⟨.readAgain 0, .readAgain stored 0 _ rfl (by rfl), trivial⟩)
      ⟨.produce 0, .produce producing 0 (withFolder root "F") rfl, trivial⟩)
  · exact fresh.root
  · intro j hj
    show ¬ Holds (Function.update start.threads 0 _ j)
    rw [Function.update_of_ne hj]
    exact id

open TwoCalls in
/-- The daemon's call and a command's read the root one after the other, and
the server is asked twice. -/
theorem not_one_root_folder :
    ∃ cwd syncRootId s s', Fresh syncRootId s ∧
      Run (RootFolderRun.Next cwd syncRootId) s s' ∧ ¬ OneFolder s'.log := by
  refine ⟨FsPath.parse "/", "r", start,
    { (secondReads.enter 0 (.answered root "F")).enter 1
        (.answered root "G") with log := [.created "G", .created "F"] },
    fresh, .tail (.tail (.tail (.single ⟨_, first_step⟩) ⟨_, second_step⟩)
      ⟨.answer 0 "F", .answer secondReads 0 root "F" rfl (by decide)⟩)
      ⟨.answer 1 "G", .answer _ 1 root "G" rfl (by decide)⟩, ?_⟩
  intro h
  have hlen : 2 ≤ 1 := h.once
  omega

end ArkiveSync.RootFolders
