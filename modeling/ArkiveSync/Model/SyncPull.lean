import ArkiveSync.Model.RemoteSyncService
import ArkiveSync.Model.SyncRun

/-!
# The command `sync pull`

`RemoteSyncService` keeps, for every root, the time of its last remote scan, and
a tick passes over a root whose last scan is less than 30 seconds ago.
`runNow` forgets the times of the roots it is given and makes such a tick.
The command reconciles every enabled root behind it.

The command goes by the roots as it has read them before the tick.

## Main results

* `RemoteSyncService.tickRoots_eq_runTick`: with its clock, a tick is the one of
  `runTick`, in which the clock is a parameter.
* `RemoteSyncService.runNow_eq_runTick`: for `runNow` every root is due.
-/

namespace ArkiveSync

open Library

namespace RemoteSyncService

/-- `kRemoteScanInterval`, in nanoseconds. -/
def kRemoteScanInterval : Nat := 30000000000

/-- The service's map of times, with the state its calls work on. -/
structure Service where
  remote : RemoteState
  lastRemoteScanAt : String → Option Nat

/-- The last scan of the root is less than the interval ago. -/
def scannedLately (lastRemoteScanAt : String → Option Nat) (now : Nat)
    (syncRootId : String) : Bool :=
  match lastRemoteScanAt syncRootId with
  | none => false
  | some time => decide (now - time < kRemoteScanInterval)

/-- The outcome of a tick; `scanned` is missing when it leaves by an
exception. -/
structure Ticked where
  service : Service
  effects : List FsEffect
  scanned : Option Bool

/-- The loop of `runTick` over the roots still to come. -/
def tickRoots (env : RemoteEnv) (now : Nat) :
    List SyncRoot → Service → Bool → Ticked
  | [], s, scanned => { service := s, effects := [], scanned := some scanned }
  | root :: rest, s, scanned =>
      if !root.enabled || scannedLately s.lastRemoteScanAt now root.id then
        tickRoots env now rest s scanned
      else
        let turn := scanTurn env root s.remote
        if turn.returned then
          let later := tickRoots env now rest
            { remote := turn.state
              lastRemoteScanAt :=
                PollingDaemon.assign s.lastRemoteScanAt root.id (some now) }
            true
          { later with effects := turn.effects ++ later.effects }
        else
          { service := { s with remote := turn.state }
            effects := turn.effects
            scanned := none }

/-- `runTick` at a time; `none` stands for a service without a scanner. -/
def runTickAt (env : Option RemoteEnv) (now : Nat) (roots : List SyncRoot)
    (s : Service) : Ticked :=
  match env with
  | none => { service := s, effects := [], scanned := some false }
  | some env => tickRoots env now roots s false

/-- The times without those of the roots. -/
def eraseScans (roots : List SyncRoot)
    (lastRemoteScanAt : String → Option Nat) : String → Option Nat :=
  roots.foldl (fun times root => PollingDaemon.assign times root.id none)
    lastRemoteScanAt

/-- `runNow`. -/
def runNow (env : Option RemoteEnv) (now : Nat) (roots : List SyncRoot)
    (s : Service) : Ticked :=
  runTickAt env now roots
    { s with lastRemoteScanAt := eraseScans roots s.lastRemoteScanAt }

end RemoteSyncService

/-- What `sync pull` finds around it. -/
structure PullEnv where
  services : Bool := true
  remote : Option RemoteEnv
  now : Nat
  reconcile : String → ReconcileEnv

/-- How the command ends: with a count, or with an exception, whose text is
missing where it comes from the calls below. -/
inductive PullEnd where
  | answered (scannedRootCount : Nat)
  | threw (what : Option String)
  deriving DecidableEq, Repr

namespace SyncPull

open RemoteSyncService

/-- The exception of a command without its services. -/
def unavailable : PullEnd := .threw (some "Remote sync is unavailable")

/-- The outcome of the command. -/
structure Outcome where
  service : Service
  effects : List FsEffect
  ended : PullEnd

/-- The loop over the roots that are reconciled. -/
def reconcileRoots (env : String → ReconcileEnv) :
    List SyncRoot → World → Nat → Reconciled × Nat
  | [], w, reconciled =>
      ({ world := w, effects := [], returned := true }, reconciled)
  | root :: rest, w, reconciled =>
      if !root.enabled then reconcileRoots env rest w reconciled
      else
        let now := SyncReconciler.reconcileRoot (env root.id) root w
        if now.returned then
          let later := reconcileRoots env rest now.world
            (SyncRun.increment reconciled)
          ({ later.1 with effects := now.effects ++ later.1.effects }, later.2)
        else (now, reconciled)

/-- `syncPull`. -/
def syncPull (env : PullEnv) (s : Service) : Outcome :=
  if !env.services then { service := s, effects := [], ended := unavailable }
  else
    let roots := s.remote.roots
    let ticked := runNow env.remote env.now roots s
    match ticked.scanned with
    | none =>
        { service := ticked.service
          effects := ticked.effects
          ended := .threw none }
    | some false =>
        { service := ticked.service
          effects := ticked.effects
          ended := unavailable }
    | some true =>
        let done := reconcileRoots env.reconcile roots
          { entries := ticked.service.remote.entries
            disk := ticked.service.remote.disk } 0
        { service :=
            { ticked.service with
              remote :=
                { ticked.service.remote with
                  entries := done.1.world.entries
                  disk := done.1.world.disk } }
          effects := ticked.effects ++ done.1.effects
          ended :=
            if done.1.returned then .answered done.2 else .threw none }

end SyncPull

namespace RemoteSyncService

/-! ## The clock of a tick -/

theorem scannedLately_congr {times times' : String → Option Nat} {id : String}
    (h : times' id = times id) (now : Nat) :
    scannedLately times' now id = scannedLately times now id := by
  unfold scannedLately
  rw [h]

/-- A tick looks at the clock for the roots it is given. -/
theorem runTick_congr (env : RemoteEnv) {due due' : String → Bool}
    {roots : List SyncRoot} (h : ∀ root ∈ roots, due root.id = due' root.id)
    (s : RemoteState) :
    runTick env due roots s = runTick env due' roots s := by
  induction roots generalizing s with
  | nil => rfl
  | cons root rest ih =>
      have hrest : ∀ s, runTick env due rest s = runTick env due' rest s :=
        fun s => ih (fun other hother => h other (List.mem_cons_of_mem _ hother)) s
      simp only [runTick, h root List.mem_cons_self, hrest]

theorem eraseScans_of_none (roots : List SyncRoot)
    (times : String → Option Nat) {id : String} (h : times id = none) :
    eraseScans roots times id = none := by
  induction roots generalizing times with
  | nil => exact h
  | cons root rest ih =>
      apply ih (PollingDaemon.assign times root.id none)
      by_cases hid : id = root.id
      · rw [hid, PollingDaemon.assign_self]
      · rw [PollingDaemon.assign_other _ _ hid, h]

/-- The times of the roots are gone. -/
theorem eraseScans_of_mem {roots : List SyncRoot} {root : SyncRoot}
    (h : root ∈ roots) (times : String → Option Nat) :
    eraseScans roots times root.id = none := by
  induction roots generalizing times with
  | nil => cases h
  | cons first rest ih =>
      rcases List.mem_cons.mp h with hfirst | hrest
      · subst hfirst
        exact eraseScans_of_none rest (PollingDaemon.assign times root.id none)
          (PollingDaemon.assign_self _ _ _)
      · exact ih hrest _

/-- A tick over different roots is the tick of which roots are due by the times
from before it. -/
theorem tickRoots_eq_runTick (env : RemoteEnv) (now : Nat)
    {roots : List SyncRoot} (hids : (roots.map SyncRoot.id).Nodup)
    (s : Service) (scanned : Bool) :
    let ticked := tickRoots env now roots s scanned
    let turn := runTick env
      (fun id => !scannedLately s.lastRemoteScanAt now id) roots s.remote
    ticked.service.remote = turn.state ∧ ticked.effects = turn.effects ∧
      (ticked.scanned.isSome = turn.returned) := by
  induction roots generalizing s scanned with
  | nil => exact ⟨rfl, rfl, rfl⟩
  | cons root rest ih =>
      obtain ⟨hnot, hrest⟩ := List.nodup_cons.mp hids
      simp only [tickRoots, runTick, Bool.not_not]
      split
      next => exact ih hrest s scanned
      next =>
          cases hreturned : (scanTurn env root s.remote).returned with
          | false =>
              simp [hreturned]
          | true =>
              simp only [if_true]
              obtain ⟨hstate, heffects, hscanned⟩ := ih hrest
                { remote := (scanTurn env root s.remote).state
                  lastRemoteScanAt := PollingDaemon.assign s.lastRemoteScanAt
                    root.id (some now) } true
              -- The time that the turn sets is not that of a root to come.
              have hdue : runTick env (fun id => !scannedLately
                    (PollingDaemon.assign s.lastRemoteScanAt root.id (some now))
                    now id) rest (scanTurn env root s.remote).state =
                  runTick env
                    (fun id => !scannedLately s.lastRemoteScanAt now id) rest
                    (scanTurn env root s.remote).state := by
                apply runTick_congr
                intro other hother
                have hne : other.id ≠ root.id := by
                  intro hsame
                  exact hnot (hsame ▸ List.mem_map_of_mem hother)
                rw [scannedLately_congr (PollingDaemon.assign_other _ _ hne)]
              rw [hdue] at hstate heffects hscanned
              refine ⟨hstate, ?_, hscanned⟩
              rw [heffects]

/-- `runNow` is a tick for which every root is due. -/
theorem runNow_eq_runTick (env : RemoteEnv) (now : Nat)
    {roots : List SyncRoot} (hids : (roots.map SyncRoot.id).Nodup)
    (s : Service) :
    let ticked := runNow (some env) now roots s
    let turn := runTick env (fun _ => true) roots s.remote
    ticked.service.remote = turn.state ∧ ticked.effects = turn.effects ∧
      (ticked.scanned.isSome = turn.returned) := by
  have hdue : runTick env (fun id =>
        !scannedLately (eraseScans roots s.lastRemoteScanAt) now id) roots
        s.remote =
      runTick env (fun _ => true) roots s.remote := by
    apply runTick_congr
    intro root hroot
    simp [scannedLately, eraseScans_of_mem hroot]
  have htick := tickRoots_eq_runTick env now hids
    { s with lastRemoteScanAt := eraseScans roots s.lastRemoteScanAt } false
  rw [hdue] at htick
  exact htick

end RemoteSyncService

end ArkiveSync
