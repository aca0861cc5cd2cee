import ArkiveSync.Model.SharedDatabase

/-!
# Two threads on the daemon's connection

No lock spans the transaction of a thread, and SQLite gives a connection one
transaction.  A statement of the IPC thread that comes between `BEGIN` and
`COMMIT` of the daemon thread has returned but is only durable when that
transaction commits, and is undone when it is rolled back.

## Main results

* `threads_isolated_iff`: exactly the writes into another thread's open
  transaction break the isolation.
* `tables_of_writes`: the tables are what the writes counted as present make.
-/

namespace ArkiveSync

open Library

variable {s₀ s s' : DaemonDb} {a : DaemonThread × ThreadStep}

/-- In every interleaving the tables are those that the writes counted as
present make of the first ones. -/
theorem tables_of_writes (hfresh : Fresh s₀)
    (hrun : Run (fun s s' => ∃ a, DbStep s a s') s₀ s) :
    s.conn.written.foldl (fun db x => TableWrite.apply db x.2)
      s₀.conn.tables = s.conn.tables := by
  have hreplay := (tables_replay hfresh hrun).1
  have hfold : ∀ (xs : List (Numbered TableWrite)) (db : DaemonTables),
      replay (fun w db => some (TableWrite.apply db w)) xs db =
        some (xs.foldl (fun db x => TableWrite.apply db x.2) db) := by
    intro xs
    induction xs with
    | nil => intro db; rfl
    | cons x xs ih => intro db; exact ih _
  rw [hfold] at hreplay
  exact Option.some.inj hreplay

/-- As long as no thread has written while the other one had a transaction open,
what returned is durable unless its thread's own transaction is open or rolled
back, and no thread ends or loses the writes of the other; the next step keeps
that exactly when it is no such write. -/
theorem threads_isolated_iff (hfresh : Fresh s₀)
    (hrun : Run (Guarded DbStep Alone) s₀ s) (hstep : DbStep s a s') :
    Isolated s ∧ (Isolated s' ↔ Alone s a) := by
  refine isolated_iff ?_ hfresh hrun hstep
  rintro p ⟨call, rfl⟩
  exact call.disciplined_program

/-! ## A write into a scan that is rolled back -/

/-- The tables with a root, its scan job and a running upload. -/
def busyTables : DaemonTables where
  roots := [{ id := "root", localPath := "/r", folderId := "f"
              mode := .twoWay }]
  entries := KeyedTable.empty
  queue :=
    { jobs := [{ id := 0, entryId := 0, jobType := .uploadFile
                 status := .running, localPath := "/r/x"
                 remoteFolderId := none, bytesTotal := 0 }]
      nextId := 1
      idUnique := by simp
      idFresh := by simp
      activeUnique := List.pairwise_singleton _ _ }
  resume := UploadResumeRepo.empty
  scanJobs := [{ syncRootId := "root", job := { id := 0, cursorPath := none }
                 running := true }]

/-- The threads before their first call. -/
def idleThreads : DaemonDb where
  conn := { tables := busyTables, written := [], saved := none }
  program := fun _ => .done
  own := fun _ => none
  kept := []
  next := 0

theorem fresh_idleThreads : Fresh idleThreads :=
  ⟨rfl, rfl, fun _ => rfl, fun _ => rfl, rfl⟩

/-- The IPC thread is about to mark the upload as done. -/
def markingDone : DaemonDb :=
  idleThreads.goOn .ipc (DbCall.statement (.markDone 0)).program

theorem step_markingDone :
    DbStep idleThreads (.ipc, .start) markingDone :=
  .start rfl ⟨_, rfl⟩

/-- A write while no transaction is open. -/
theorem threads_isolated_markDone :
    ∃ s', DbStep markingDone (.ipc, .wrote) s' ∧ Isolated markingDone ∧
      (Isolated s' ↔ Alone markingDone (.ipc, .wrote)) := by
  have hrun : Run (Guarded DbStep Alone) idleThreads markingDone :=
    .single ⟨_, step_markingDone, trivial⟩
  have hwrote : DbStep markingDone (.ipc, .wrote) _ := .wrote rfl rfl
  exact ⟨_, hwrote, threads_isolated_iff fresh_idleThreads hrun hwrote⟩

/-- The scanner finds no iterator and rolls its transaction back; the IPC
thread's `markDone` of before is gone, although it returned. -/
theorem not_threads_isolated :
    ¬∀ s₀ s : DaemonDb, Fresh s₀ →
      Run (fun s s' => ∃ a, DbStep s a s') s₀ s → Isolated s := by
  intro h
  obtain ⟨s, hrun, hkept, hdurable⟩ : ∃ s : DaemonDb,
      Run (fun s s' => ∃ a, DbStep s a s') idleThreads s ∧
        s.kept = [(0, .markDone 0)] ∧ s.conn.durable = [] := by
    refine ⟨_, .tail (.tail (.tail (.tail (.tail (.tail (.single
      ⟨_, step_markingDone⟩)
      ⟨_, .start (t := .daemon) rfl
        ⟨.scanRoot "root" true none none 1 true, rfl⟩⟩)
      ⟨_, .read (t := .daemon) rfl⟩)
      ⟨_, .read (t := .daemon) rfl⟩)
      ⟨_, .began (t := .daemon) rfl rfl⟩)
      ⟨_, .wrote (t := .ipc) rfl rfl⟩)
      ⟨_, .rolledBack (t := .daemon) rfl rfl⟩, rfl, rfl⟩
  have hisolated := h idleThreads s fresh_idleThreads hrun
  have hin := hisolated.kept (0, .markDone 0) (by simp [hkept])
  rw [hdurable] at hin
  cases hin

end ArkiveSync
