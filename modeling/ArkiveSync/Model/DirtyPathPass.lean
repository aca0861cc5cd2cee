import ArkiveSync.Model.DaemonRun

/-!
# The loop over the dirty paths of a root

Within a tick `PollingDaemon::run` claims the dirty paths of a root one after
the other, at most `kMaxDirtyPathsPerRootPerTick` times, and marks each of them
done or failed before it claims the next.  No row is inserted in between.  How
the processing of a path ends is an input here, one answer for each attempt.
The rows are listed by `created_at` and `rowid`, as the claim orders them.

## Main results

* `dirtyPathLoop_turn`: what one turn of the loop claims, and what it leaves.
* `dirtyPaths_processDirtyPaths`: the daemon's loop is this one, with the
  outcomes that its calls have.
-/

namespace ArkiveSync

open Library

namespace DirtyPathRepo

/-- `markDone` or `markFailed`. -/
def mark (ps : List DirtyPath) (id : Nat) (ok : Bool) : List DirtyPath :=
  if ok then markDone ps id else markFailed ps id

/-- A row of the root with this status. -/
def isRow (syncRootId : String) (status : DirtyPathStatus) (d : DirtyPath) :
    Bool :=
  d.syncRootId == syncRootId && d.status == status

/-- The rows that `claimNextPending` chooses from, in its order. -/
def offered (syncRootId : String) (ps : List DirtyPath) : List DirtyPath :=
  ps.filter (isRow syncRootId .pending) ++ ps.filter (isRow syncRootId .failed)

theorem isRow_iff {syncRootId : String} {status : DirtyPathStatus}
    {d : DirtyPath} :
    isRow syncRootId status d = true ↔
      d.syncRootId = syncRootId ∧ d.status = status := by
  simp [isRow]

/-- Another status makes the row one of the others. -/
@[simp] theorem isRow_status (syncRootId : String)
    (status other : DirtyPathStatus) (d : DirtyPath) :
    isRow syncRootId status { d with status := other } =
      (d.syncRootId == syncRootId && other == status) := rfl

/-- An assignment to the row with an id, among rows with different ids. -/
theorem setStatus_split {A B : List DirtyPath} {d : DirtyPath}
    (hids : ((A ++ d :: B).map DirtyPath.id).Nodup)
    (status : DirtyPathStatus) (found : DirtyPathStatus) :
    setStatus (A ++ { d with status := found } :: B) d.id status =
      A ++ { d with status := status } :: B := by
  rw [List.map_append, List.map_cons, List.nodup_append] at hids
  obtain ⟨-, hB, hA⟩ := hids
  have hother : ∀ e : DirtyPath, e.id ≠ d.id →
      (if e.id == d.id then { e with status := status } else e) = e := by
    intro e he
    rw [if_neg (by simpa using he)]
  have hmapA : setStatus A d.id status = A := by
    refine (List.map_congr_left ?_).trans (List.map_id A)
    intro e he
    refine hother e ?_
    exact hA e.id (List.mem_map_of_mem he) d.id List.mem_cons_self
  have hmapB : setStatus B d.id status = B := by
    refine (List.map_congr_left ?_).trans (List.map_id B)
    intro e he
    refine hother e ?_
    intro hsame
    rw [List.nodup_cons] at hB
    exact hB.1 (hsame ▸ List.mem_map_of_mem he)
  unfold setStatus at hmapA hmapB ⊢
  rw [List.map_append, List.map_cons, hmapA, hmapB]
  simp

/-- The row that is next, with the rows on both sides of it: the first pending
one, or the first failed one when none is pending. -/
inductive IsNext (syncRootId : String) (A : List DirtyPath) (d : DirtyPath)
    (B : List DirtyPath) : Prop where
  | pending (hrow : isRow syncRootId .pending d = true)
      (hfirst : A.filter (isRow syncRootId .pending) = []) :
      IsNext syncRootId A d B
  | failed (hrow : isRow syncRootId .failed d = true)
      (hnone : (A ++ d :: B).filter (isRow syncRootId .pending) = [])
      (hfirst : A.filter (isRow syncRootId .failed) = []) :
      IsNext syncRootId A d B

/-- A search that finds something has passed over the rows in front of it. -/
theorem find?_isRow_split {syncRootId : String} {status : DirtyPathStatus}
    {ps : List DirtyPath} {d : DirtyPath}
    (h : ps.find? (isRow syncRootId status) = some d) :
    isRow syncRootId status d = true ∧ ∃ A B, ps = A ++ d :: B ∧
      A.filter (isRow syncRootId status) = [] := by
  obtain ⟨hrow, A, B, hps, hA⟩ := List.find?_eq_some_iff_append.mp h
  refine ⟨hrow, A, B, hps, List.filter_eq_nil_iff.mpr ?_⟩
  intro e he
  simpa using hA e he

theorem claimNextPending_eq (ps : List DirtyPath) (syncRootId : String) :
    claimNextPending ps syncRootId =
      ((ps.find? (isRow syncRootId .pending)).or
        (ps.find? (isRow syncRootId .failed))).map (fun d =>
          ({ d with status := .running }, setStatus ps d.id .running)) := rfl

/-- A claim returns the row that is next, or there is no row to claim. -/
theorem claimNextPending_cases (ps : List DirtyPath) (syncRootId : String) :
    (claimNextPending ps syncRootId = none ∧ offered syncRootId ps = []) ∨
      ∃ A d B, ps = A ++ d :: B ∧ IsNext syncRootId A d B ∧
        claimNextPending ps syncRootId =
          some ({ d with status := .running }, setStatus ps d.id .running) := by
  rw [claimNextPending_eq]
  cases hpending : ps.find? (isRow syncRootId .pending) with
  | some d =>
      obtain ⟨hrow, A, B, hps, hA⟩ := find?_isRow_split hpending
      exact Or.inr ⟨A, d, B, hps, .pending hrow hA, rfl⟩
  | none =>
      have hnone : ps.filter (isRow syncRootId .pending) = [] :=
        List.filter_eq_nil_iff.mpr (List.find?_eq_none.mp hpending)
      cases hfailed : ps.find? (isRow syncRootId .failed) with
      | some d =>
          obtain ⟨hrow, A, B, hps, hA⟩ := find?_isRow_split hfailed
          refine Or.inr ⟨A, d, B, hps, .failed hrow ?_ hA, rfl⟩
          rwa [hps] at hnone
      | none =>
          refine Or.inl ⟨rfl, ?_⟩
          unfold offered
          rw [hnone, List.nil_append]
          exact List.filter_eq_nil_iff.mpr (List.find?_eq_none.mp hfailed)

end DirtyPathRepo

namespace PollingDaemon

open DirtyPathRepo

/-- The loop over the dirty paths of a root, for a number of turns: the ids
that it claims one after the other, and the rows that it leaves. -/
def dirtyPathLoop (syncRootId : String) :
    Nat → (Nat → Bool) → List DirtyPath → List Nat × List DirtyPath
  | 0, _, ps => ([], ps)
  | left + 1, outcome, ps =>
      match claimNextPending ps syncRootId with
      | none => ([], ps)
      | some (d, claimed) =>
          let rest := dirtyPathLoop syncRootId left
            (fun i => outcome (i + 1)) (mark claimed d.id (outcome 0))
          (d.id :: rest.1, rest.2)

/-- What is left of a row after its turn. -/
def marked (d : DirtyPath) (ok : Bool) : DirtyPath :=
  { d with status := if ok then .done else .failed }

/-- One turn: the row that is next is claimed and marked, and the others stay
as they are. -/
theorem dirtyPathLoop_turn (syncRootId : String) {ps : List DirtyPath}
    (hids : (ps.map DirtyPath.id).Nodup) :
    (offered syncRootId ps = [] ∧ ∀ left outcome,
      dirtyPathLoop syncRootId left outcome ps = ([], ps)) ∨
    ∃ A d B, ps = A ++ d :: B ∧ IsNext syncRootId A d B ∧
      ∀ left outcome,
        dirtyPathLoop syncRootId (left + 1) outcome ps =
          let rest := dirtyPathLoop syncRootId left (fun i => outcome (i + 1))
            (A ++ marked d (outcome 0) :: B)
          (d.id :: rest.1, rest.2) := by
  rcases claimNextPending_cases ps syncRootId with
    ⟨hclaim, hnone⟩ | ⟨A, d, B, hps, hnext, hclaim⟩
  · refine Or.inl ⟨hnone, ?_⟩
    intro left outcome
    cases left with
    | zero => rfl
    | succ left => simp only [dirtyPathLoop, hclaim]
  · refine Or.inr ⟨A, d, B, hps, hnext, ?_⟩
    intro left outcome
    subst hps
    have hmark : mark (setStatus (A ++ d :: B) d.id .running) d.id
        (outcome 0) = A ++ marked d (outcome 0) :: B := by
      rw [setStatus_split hids .running d.status]
      cases hok : outcome 0 with
      | true => exact setStatus_split hids .done .running
      | false => exact setStatus_split hids .failed .running
    simp only [dirtyPathLoop, hclaim, hmark]

/-! ## The loop of the daemon -/

@[simp] theorem dirtyPaths_withScanState (s : DaemonState)
    (syncRootId : String) (c : ScanState) :
    (withScanState s syncRootId c).dirtyPaths = s.dirtyPaths := rfl

@[simp] theorem dirtyPaths_reconcileRoot (env : ReconcileEnv)
    (root : SyncRoot) (s : DaemonState) :
    (reconcileRoot env root s).1.dirtyPaths = s.dirtyPaths := rfl

@[simp] theorem dirtyPaths_scanPath (cwd : FsPath) (syncRootId rel : String)
    (found : PathState) (s : DaemonState) :
    (scanPath cwd syncRootId rel found s).1.dirtyPaths = s.dirtyPaths := by
  unfold scanPath
  split <;> rfl

/-- A claimed path is marked done or failed. -/
theorem dirtyPaths_processPath (cwd : FsPath) (env : ReconcileEnv)
    (root : SyncRoot) (found : PathState) (d : DirtyPath) (s : DaemonState) :
    ∃ ok, (processPath cwd env root found d s).dirtyPaths =
      mark s.dirtyPaths d.id ok := by
  unfold processPath
  dsimp only
  split
  next => exact ⟨false, rfl⟩
  next rel _ =>
      have hscan := dirtyPaths_scanPath cwd root.id rel found s
      split
      next scanned hcall =>
          rw [hcall] at hscan
          dsimp only at hscan
          split
          next =>
              refine ⟨true, ?_⟩
              rw [dirtyPaths_reconcileRoot, hscan]
              rfl
          next =>
              refine ⟨false, ?_⟩
              rw [dirtyPaths_reconcileRoot, hscan]
              rfl
      next scanned _ _ hcall =>
          rw [hcall] at hscan
          dsimp only at hscan
          refine ⟨false, ?_⟩
          rw [hscan]
          rfl

theorem dirtyPaths_processDirtyPath (cwd : FsPath) (env : ReconcileEnv)
    (root : SyncRoot) (found : PathState) (s : DaemonState) :
    (claimNextPending s.dirtyPaths root.id = none ∧
      processDirtyPath cwd env root found s = none) ∨
    ∃ d claimed s' ok, claimNextPending s.dirtyPaths root.id =
        some (d, claimed) ∧
      processDirtyPath cwd env root found s = some s' ∧
      s'.dirtyPaths = mark claimed d.id ok := by
  unfold processDirtyPath
  cases hclaim : claimNextPending s.dirtyPaths root.id with
  | none => exact Or.inl ⟨rfl, rfl⟩
  | some turn =>
      obtain ⟨d, claimed⟩ := turn
      right
      dsimp only
      split
      next =>
          refine ⟨d, claimed, _, true, rfl, rfl, ?_⟩
          unfold fullRescan
          dsimp only
          split <;> rfl
      next =>
          obtain ⟨ok, hok⟩ := dirtyPaths_processPath cwd env root found d
            { s with dirtyPaths := claimed }
          exact ⟨d, claimed, _, ok, rfl, rfl, hok⟩

/-- The daemon's turns over the dirty paths of a root are the loop above, with
the outcomes that the scans and the reconciliations have. -/
theorem dirtyPaths_processDirtyPaths (env : TickEnv) (root : SyncRoot)
    (left : Nat) (s : DaemonState) :
    ∃ outcome, (processDirtyPaths env root left s).dirtyPaths =
      (dirtyPathLoop root.id left outcome s.dirtyPaths).2 := by
  induction left generalizing s with
  | zero => exact ⟨fun _ => true, rfl⟩
  | succ left ih =>
      unfold processDirtyPaths
      rcases dirtyPaths_processDirtyPath env.cwd
        (env.dirtyReconcile root.id left) root (env.found root.id left) s with
        ⟨hnone, hturn⟩ | ⟨d, claimed, s', ok, hclaim, hturn, hmark⟩
      · refine ⟨fun _ => true, ?_⟩
        rw [hturn]
        simp only [dirtyPathLoop, hnone]
      · obtain ⟨outcome, hrest⟩ := ih s'
        refine ⟨fun i => Nat.casesOn i ok outcome, ?_⟩
        rw [hturn]
        simp only [dirtyPathLoop, hclaim]
        show _ = (dirtyPathLoop root.id left outcome (mark claimed d.id ok)).2
        rw [← hmark]
        exact hrest

end PollingDaemon

end ArkiveSync
