import Mathlib.Data.List.AList
import ArkiveSync.Library.DirTree
import ArkiveSync.Library.Runs
import ArkiveSync.Model.FileEvents

/-!
# The watcher on inotify

The kernel marks directories by their identity and reports events by the
descriptor of the mark; `InotifyWatcher` keeps, by descriptor, the path a
directory had when it was marked.  A rename comes as two events with a cookie in
common, and as a third one about the directory itself.

A run takes the steps of other processes (directories made, removed and renamed)
and those of `poll` (an event handled, the old moves drained) in any order; of
the events, those about directories are queued.  Paths are normalized and
absolute, as lists of names.

## Main results

* `inverse_handleEvent`, `inverse_drainExpiredMoves`: `watches_` and `pathToWd_`
  stay inverse to each other, whatever the events are.
-/

namespace ArkiveSync

open Library

/-- A normalized absolute path. -/
abbrev WatchPath := List String

/-- The kind of an event; the kernel sets one of these bits. -/
inductive InotifyMask where
  | create
  | modify
  | closeWrite
  | movedFrom
  | movedTo
  | delete
  | deleteSelf
  | moveSelf
  | attrib
  | overflow
  deriving DecidableEq, Repr

/-- `inotify_event`; the flag is the bit `IN_ISDIR`. -/
structure InotifyEvent where
  wd : Nat
  mask : InotifyMask
  isDirectory : Bool := true
  cookie : Nat := 0
  name : Option String := none
  deriving DecidableEq, Repr

/-- The kernel's side of `fd_`.  Descriptors are not used again. -/
structure Inotify (δ : Type) where
  marks : δ → Option Nat := fun _ => none
  nextWd : Nat := 1
  queue : List InotifyEvent := []

namespace Inotify

variable {δ : Type} [DecidableEq δ]

/-- `inotify_add_watch`: a directory that has a mark keeps it. -/
def addWatch (fd : Inotify δ) (d : δ) : Inotify δ × Nat :=
  match fd.marks d with
  | some wd => (fd, wd)
  | none =>
      ({ fd with
          marks := Function.update fd.marks d (some fd.nextWd)
          nextWd := fd.nextWd + 1 }, fd.nextWd)

/-- `inotify_rm_watch`.  The `IN_IGNORED` that follows is for a descriptor that
is in no table any more. -/
def rmWatch (fd : Inotify δ) (wd : Nat) : Inotify δ :=
  { fd with marks := fun d =>
      if fd.marks d = some wd then none else fd.marks d }

/-- An event is queued for a directory that has a mark. -/
def notify (fd : Inotify δ) (d : δ) (event : Nat → InotifyEvent) :
    Inotify δ :=
  match fd.marks d with
  | none => fd
  | some wd => { fd with queue := fd.queue ++ [event wd] }

/-- The event that `notify` queues, if it does. -/
def emitted (fd : Inotify δ) (d : δ) (event : Nat → InotifyEvent) :
    List InotifyEvent :=
  ((fd.marks d).map event).toList

omit [DecidableEq δ] in
theorem mem_emitted {fd : Inotify δ} {d : δ} {event : Nat → InotifyEvent}
    {e : InotifyEvent} :
    e ∈ fd.emitted d event ↔ ∃ wd, fd.marks d = some wd ∧ e = event wd := by
  unfold emitted
  cases fd.marks d with
  | none => simp
  | some wd => simp

omit [DecidableEq δ] in
@[simp] theorem marks_notify (fd : Inotify δ) (d : δ)
    (event : Nat → InotifyEvent) : (fd.notify d event).marks = fd.marks := by
  unfold notify
  split <;> rfl

omit [DecidableEq δ] in
@[simp] theorem nextWd_notify (fd : Inotify δ) (d : δ)
    (event : Nat → InotifyEvent) :
    (fd.notify d event).nextWd = fd.nextWd := by
  unfold notify
  split <;> rfl

omit [DecidableEq δ] in
theorem queue_notify (fd : Inotify δ) (d : δ)
    (event : Nat → InotifyEvent) :
    (fd.notify d event).queue = fd.queue ++ fd.emitted d event := by
  unfold notify emitted
  split
  next hnone => simp [hnone]
  next wd hwd => simp [hwd]

/-- The mark of a removed directory is gone. -/
def forget (fd : Inotify δ) (d : δ) : Inotify δ :=
  { fd with marks := Function.update fd.marks d none }

end Inotify

/-- `WatchInfo`, without the fields that are never read. -/
structure WatchInfo where
  rootId : String
  path : WatchPath
  deriving DecidableEq, Repr

/-- `PendingMove`; the time is in milliseconds. -/
structure PendingMove where
  rootId : String
  oldPath : WatchPath
  isDirectory : Bool
  seenAt : Nat
  deriving DecidableEq, Repr

/-- `WatchRoot`. -/
structure WatchRoot where
  rootId : String
  path : WatchPath
  deriving DecidableEq, Repr

/-- The `FileEvent` that is handed on. -/
structure WatchEvent where
  rootId : String
  path : WatchPath
  oldPath : Option WatchPath
  type : FileEventType
  isDirectory : Bool
  cookie : Nat
  deriving DecidableEq, Repr

/-- `InotifyWatcher`. -/
structure InotifyWatcher (δ : Type) where
  fd : Inotify δ := {}
  watches : AList (fun _ : Nat => WatchInfo) := ∅
  pathToWd : AList (fun _ : WatchPath => Nat) := ∅
  pendingMoves : AList (fun _ : Nat => PendingMove) := ∅

namespace InotifyWatcher

variable {δ : Type} [DecidableEq δ]

/-- `toEventType`. -/
def toEventType : InotifyMask → FileEventType
  | .overflow => .overflow
  | .movedFrom => .movedFrom
  | .movedTo => .movedTo
  | .delete | .deleteSelf => .deleted
  | .closeWrite | .modify => .modified
  | .create => .created
  | .attrib => .attributeChanged
  | .moveSelf => .unknown

/-- `isSameOrChildPath`. -/
def isSameOrChildPath (parent child : WatchPath) : Bool :=
  parent.isPrefixOf child

/-- `removeWatch`. -/
def removeWatch (w : InotifyWatcher δ) (wd : Nat) : InotifyWatcher δ :=
  match w.watches.lookup wd with
  | none => w
  | some info =>
      { w with
        fd := w.fd.rmWatch wd
        watches := w.watches.erase wd
        pathToWd := w.pathToWd.erase info.path }

/-- `removeWatchesUnder`. -/
def removeWatchesUnder (w : InotifyWatcher δ) (path : WatchPath) :
    InotifyWatcher δ :=
  let toRemove := (w.watches.entries.filter (fun entry =>
    isSameOrChildPath path entry.2.path)).map (fun entry => entry.1)
  toRemove.foldl removeWatch w

/-- `addWatch` for the directory that is at the path. -/
def addWatch (rootId : String) (w : InotifyWatcher δ)
    (there : WatchPath × δ) : InotifyWatcher δ :=
  if (w.pathToWd.lookup there.1).isSome then w
  else
    let added := w.fd.addWatch there.2
    let wd := added.2
    { w with
      fd := added.1
      watches := w.watches.insert wd { rootId := rootId, path := there.1 }
      pathToWd :=
        (match w.watches.lookup wd with
        | none => w.pathToWd
        | some existing => w.pathToWd.erase existing.path).insert
          there.1 wd }

/-- `addWatchRecursive`; `walk` yields the directory at a path, if there is one,
and those below it. -/
def addWatchRecursive (walk : WatchPath → List (WatchPath × δ))
    (root : WatchRoot) (w : InotifyWatcher δ) : InotifyWatcher δ :=
  (walk root.path).foldl (addWatch root.rootId) w

/-- One round of the loop of `drainExpiredMoves`. -/
def expireMove (now : Nat) (acc : InotifyWatcher δ × List WatchEvent)
    (entry : Sigma fun _ : Nat => PendingMove) :
    InotifyWatcher δ × List WatchEvent :=
  let move := entry.2
  if now - move.seenAt < 500 then acc
  else
    let w := if move.isDirectory then removeWatchesUnder acc.1 move.oldPath
      else acc.1
    ({ w with pendingMoves := w.pendingMoves.erase entry.1 },
      acc.2 ++ [{ rootId := move.rootId, path := move.oldPath, oldPath := none
                  type := .deleted, isDirectory := move.isDirectory
                  cookie := entry.1 }])

/-- `drainExpiredMoves`. -/
def drainExpiredMoves (now : Nat) (w : InotifyWatcher δ) :
    InotifyWatcher δ × List WatchEvent :=
  w.pendingMoves.entries.foldl (expireMove now) (w, [])

/-- `addWatchRecursive` for the path of an event about a directory. -/
def addWatchIf (isDirectory : Bool)
    (walk : WatchPath → List (WatchPath × δ)) (root : WatchRoot)
    (w : InotifyWatcher δ) : InotifyWatcher δ :=
  if isDirectory then addWatchRecursive walk root w else w

/-- The tables when a move is complete: `IN_MOVED_TO` has come with the cookie
of a pending move. -/
def finishMove (w : InotifyWatcher δ) (cookie : Nat) (pending : PendingMove)
    (isDirectory : Bool) : InotifyWatcher δ :=
  let w := { w with pendingMoves := w.pendingMoves.erase cookie }
  if isDirectory then removeWatchesUnder w pending.oldPath else w

/-- `handleEvent`, at the time `now`. -/
def handleEvent (now : Nat) (walk : WatchPath → List (WatchPath × δ))
    (w : InotifyWatcher δ) (event : InotifyEvent) :
    InotifyWatcher δ × Option WatchEvent :=
  if event.mask = .overflow then
    (w, some { rootId := "", path := [], oldPath := none, type := .overflow
               isDirectory := false, cookie := event.cookie })
  else
    match w.watches.lookup event.wd with
    | none => (w, none)
    | some watch =>
        let fullPath := watch.path ++ event.name.toList
        let root : WatchRoot := { rootId := watch.rootId, path := fullPath }
        let report : FileEventType → WatchEvent := fun type =>
          { rootId := watch.rootId, path := fullPath, oldPath := none
            type := type, isDirectory := event.isDirectory
            cookie := event.cookie }
        match event.mask with
        | .movedFrom =>
            if event.cookie ≠ 0 then
              let pending : PendingMove :=
                { rootId := watch.rootId, oldPath := fullPath
                  isDirectory := event.isDirectory, seenAt := now }
              ({ w with
                  pendingMoves := w.pendingMoves.insert event.cookie pending },
                none)
            else (w, some (report .deleted))
        | .movedTo =>
            let entered :=
              (addWatchIf event.isDirectory walk root w, some (report .created))
            if event.cookie ≠ 0 then
              match w.pendingMoves.lookup event.cookie with
              | none => entered
              | some pending =>
                  if pending.rootId = watch.rootId then
                    let isDirectory := event.isDirectory || pending.isDirectory
                    (addWatchIf isDirectory walk root
                      (finishMove w event.cookie pending isDirectory),
                     some { (report .renamed) with
                              oldPath := some pending.oldPath
                              isDirectory := isDirectory })
                  else entered
            else entered
        | .create =>
            (addWatchIf event.isDirectory walk root w,
             some (report (toEventType .create)))
        | .moveSelf => (removeWatch w event.wd, none)
        | .deleteSelf => (removeWatch w event.wd, none)
        | mask => (w, some (report (toEventType mask)))

/-! ## The queue -/

omit [DecidableEq δ] in
@[simp] theorem queue_removeWatches (w : InotifyWatcher δ) (wds : List Nat) :
    (wds.foldl removeWatch w).fd.queue = w.fd.queue := by
  induction wds generalizing w with
  | nil => rfl
  | cons wd wds ih =>
      rw [List.foldl_cons, ih]
      unfold removeWatch
      split <;> rfl

omit [DecidableEq δ] in
@[simp] theorem queue_removeWatchesUnder (w : InotifyWatcher δ)
    (path : WatchPath) : (w.removeWatchesUnder path).fd.queue = w.fd.queue :=
  queue_removeWatches w _

@[simp] theorem queue_addWatchRecursive (w : InotifyWatcher δ)
    (walk : WatchPath → List (WatchPath × δ)) (root : WatchRoot) :
    (addWatchRecursive walk root w).fd.queue = w.fd.queue := by
  unfold addWatchRecursive
  induction walk root.path generalizing w with
  | nil => rfl
  | cons there rest ih =>
      rw [List.foldl_cons, ih]
      unfold addWatch
      split
      next => rfl
      next =>
          simp only [Inotify.addWatch]
          split <;> rfl

/-- Handling an event queues none. -/
@[simp] theorem queue_handleEvent (now : Nat)
    (walk : WatchPath → List (WatchPath × δ)) (w : InotifyWatcher δ)
    (event : InotifyEvent) :
    (handleEvent now walk w event).1.fd.queue = w.fd.queue := by
  have hwalk : ∀ isDirectory root (u : InotifyWatcher δ),
      (addWatchIf isDirectory walk root u).fd.queue = u.fd.queue := by
    intro isDirectory root u
    unfold addWatchIf
    split <;> simp
  have hfinish : ∀ cookie pending isDirectory,
      (finishMove w cookie pending isDirectory).fd.queue = w.fd.queue := by
    intro cookie pending isDirectory
    unfold finishMove
    dsimp only
    split <;> simp
  have hremove : (removeWatch w event.wd).fd.queue = w.fd.queue :=
    queue_removeWatches w [event.wd]
  unfold handleEvent
  dsimp only
  repeat' split
  all_goals simp [hwalk, hfinish, hremove]

omit [DecidableEq δ] in
/-- Nor does draining. -/
@[simp] theorem queue_drainExpiredMoves (now : Nat) (w : InotifyWatcher δ) :
    (drainExpiredMoves now w).1.fd.queue = w.fd.queue := by
  unfold drainExpiredMoves
  generalize w.pendingMoves.entries = entries
  generalize ([] : List WatchEvent) = events
  induction entries generalizing w events with
  | nil => rfl
  | cons entry entries ih =>
      rw [List.foldl_cons, expireMove]
      split
      next => exact ih w events
      next =>
          rw [ih]
          dsimp only
          split <;> simp

/-! ## The tables -/

/-- `watches_` and `pathToWd_` are inverse to each other. -/
structure Inverse (w : InotifyWatcher δ) : Prop where
  path : ∀ wd info, w.watches.lookup wd = some info →
    w.pathToWd.lookup info.path = some wd
  wd : ∀ path wd, w.pathToWd.lookup path = some wd →
    ∃ info, w.watches.lookup wd = some info ∧ info.path = path

omit [DecidableEq δ] in
theorem lookup_erase_iff {α β : Type} [DecidableEq α]
    (s : AList (fun _ : α => β)) (a k : α) (v : β) :
    (s.erase a).lookup k = some v ↔ s.lookup k = some v ∧ k ≠ a := by
  by_cases h : k = a
  · subst h
    simp
  · simp [AList.lookup_erase_ne h, h]

omit [DecidableEq δ] in
theorem lookup_insert_iff {α β : Type} [DecidableEq α]
    (s : AList (fun _ : α => β)) (a k : α) (u v : β) :
    (s.insert a u).lookup k = some v ↔
      k = a ∧ u = v ∨ k ≠ a ∧ s.lookup k = some v := by
  by_cases h : k = a
  · subst h
    simp
  · simp [AList.lookup_insert_ne h, h]

omit [DecidableEq δ] in
theorem Inverse.removeWatch {w : InotifyWatcher δ} (h : w.Inverse)
    (wd : Nat) : (w.removeWatch wd).Inverse := by
  unfold InotifyWatcher.removeWatch
  split
  next => exact h
  next info hinfo =>
      constructor
      · intro wd' info' hinfo'
        obtain ⟨hin, hne⟩ := (lookup_erase_iff _ _ _ _).mp hinfo'
        refine (lookup_erase_iff _ _ _ _).mpr ⟨h.path wd' info' hin, ?_⟩
        intro hpath
        have hback := h.path wd' info' hin
        rw [hpath, h.path wd info hinfo] at hback
        exact hne (Option.some.inj hback).symm
      · intro path wd' hwd
        obtain ⟨hin, hne⟩ := (lookup_erase_iff _ _ _ _).mp hwd
        obtain ⟨info', hinfo', hpath⟩ := h.wd path wd' hin
        refine ⟨info', (lookup_erase_iff _ _ _ _).mpr ⟨hinfo', ?_⟩, hpath⟩
        intro heq
        rw [heq, hinfo] at hinfo'
        exact hne (hpath.symm.trans
          (congrArg WatchInfo.path (Option.some.inj hinfo')).symm)

omit [DecidableEq δ] in
theorem Inverse.removeWatches {w : InotifyWatcher δ} (h : w.Inverse)
    (wds : List Nat) :
    (wds.foldl InotifyWatcher.removeWatch w).Inverse := by
  induction wds generalizing w with
  | nil => exact h
  | cons wd wds ih => exact ih (h.removeWatch wd)

theorem Inverse.addWatch {w : InotifyWatcher δ} (h : w.Inverse)
    (rootId : String) (there : WatchPath × δ) :
    (InotifyWatcher.addWatch rootId w there).Inverse := by
  unfold InotifyWatcher.addWatch
  split
  next => exact h
  next hfree =>
      have hfree' : w.pathToWd.lookup there.1 = none := by simpa using hfree
      have hother : ∀ wd info, w.watches.lookup wd = some info →
          info.path ≠ there.1 := by
        intro wd info hinfo hpath
        have hback := h.path wd info hinfo
        rw [hpath, hfree'] at hback
        cases hback
      dsimp only
      generalize (w.fd.addWatch there.2).2 = wd
      -- the key that the descriptor had is free now
      have hkeys : ∀ path wd', (match w.watches.lookup wd with
          | none => w.pathToWd
          | some existing => w.pathToWd.erase existing.path).lookup path =
            some wd' ↔ w.pathToWd.lookup path = some wd' ∧ wd' ≠ wd := by
        intro path wd'
        split
        next hnone =>
            constructor
            · intro hin
              refine ⟨hin, ?_⟩
              intro heq
              obtain ⟨info, hinfo, _⟩ := h.wd path wd' hin
              rw [heq, hnone] at hinfo
              cases hinfo
            · exact fun hin => hin.1
        next existing hexisting =>
            rw [lookup_erase_iff]
            refine and_congr_right fun hin => not_congr ?_
            obtain ⟨info, hinfo, hpath⟩ := h.wd path wd' hin
            constructor
            · intro heq
              have hback := h.path wd existing hexisting
              rw [← heq, hin] at hback
              exact Option.some.inj hback
            · intro heq
              rw [heq, hexisting] at hinfo
              rw [← hpath, Option.some.inj hinfo]
      constructor
      · intro wd' info' hinfo'
        refine (lookup_insert_iff _ _ _ _ _).mpr ?_
        rcases (lookup_insert_iff _ _ _ _ _).mp hinfo' with
          ⟨hwd, rfl⟩ | ⟨hne, hin⟩
        · exact .inl ⟨rfl, hwd.symm⟩
        · exact .inr ⟨hother wd' info' hin,
            (hkeys _ _).mpr ⟨h.path wd' info' hin, hne⟩⟩
      · intro path wd' hwd
        rcases (lookup_insert_iff _ _ _ _ _).mp hwd with
          ⟨hpath, rfl⟩ | ⟨_, hin⟩
        · exact ⟨_, AList.lookup_insert _, hpath.symm⟩
        · obtain ⟨hin, hne⟩ := (hkeys _ _).mp hin
          obtain ⟨info, hinfo, hpath⟩ := h.wd path wd' hin
          exact ⟨info, by rw [AList.lookup_insert_ne hne]; exact hinfo, hpath⟩

theorem Inverse.addWatchRecursive {w : InotifyWatcher δ} (h : w.Inverse)
    (walk : WatchPath → List (WatchPath × δ)) (root : WatchRoot) :
    (InotifyWatcher.addWatchRecursive walk root w).Inverse := by
  unfold InotifyWatcher.addWatchRecursive
  induction walk root.path generalizing w with
  | nil => exact h
  | cons there rest ih => exact ih (h.addWatch root.rootId there)

omit [DecidableEq δ] in
/-- The pending moves and the kernel's side play no part in it. -/
theorem Inverse.congr {w w' : InotifyWatcher δ} (h : w.Inverse)
    (hwatches : w'.watches = w.watches) (hpaths : w'.pathToWd = w.pathToWd) :
    w'.Inverse := by
  constructor
  · rw [hwatches, hpaths]
    exact h.path
  · rw [hwatches, hpaths]
    exact h.wd

omit [DecidableEq δ] in
/-- Whatever is drained, the tables stay inverse to each other. -/
theorem inverse_drainExpiredMoves {w : InotifyWatcher δ} (h : w.Inverse)
    (now : Nat) : (drainExpiredMoves now w).1.Inverse := by
  unfold drainExpiredMoves
  generalize w.pendingMoves.entries = entries
  generalize ([] : List WatchEvent) = events
  induction entries generalizing w events with
  | nil => exact h
  | cons entry entries ih =>
      rw [List.foldl_cons, expireMove]
      split
      next => exact ih h events
      next =>
          refine ih ?_ _
          split
          next => exact (h.removeWatches _).congr rfl rfl
          next => exact h.congr rfl rfl

/-- Whatever the event is, the tables stay inverse to each other. -/
theorem inverse_handleEvent {w : InotifyWatcher δ} (h : w.Inverse)
    (now : Nat) (walk : WatchPath → List (WatchPath × δ))
    (event : InotifyEvent) : (handleEvent now walk w event).1.Inverse := by
  have hwalk : ∀ {u : InotifyWatcher δ}, u.Inverse → ∀ isDirectory root,
      (addWatchIf isDirectory walk root u).Inverse := by
    intro u hu isDirectory root
    unfold addWatchIf
    split
    next => exact hu.addWatchRecursive walk root
    next => exact hu
  have hfinish : ∀ pending isDirectory,
      (finishMove w event.cookie pending isDirectory).Inverse := by
    intro pending isDirectory
    unfold finishMove
    have herased : Inverse
        { w with pendingMoves := w.pendingMoves.erase event.cookie } :=
      h.congr rfl rfl
    dsimp only
    split
    next => exact herased.removeWatches _
    next => exact herased
  unfold handleEvent
  split
  next => exact h
  next =>
      split
      next => exact h
      next watch _ =>
          dsimp only
          split
          next =>
              split
              next => exact h.congr rfl rfl
              next => exact h
          next =>
              split
              next =>
                  split
                  next => exact hwalk h _ _
                  next =>
                      split
                      next => exact hwalk (hfinish _ _) _ _
                      next => exact hwalk h _ _
              next => exact hwalk h _ _
          next => exact hwalk h _ _
          next => exact h.removeWatch _
          next => exact h.removeWatch _
          next => exact h

end InotifyWatcher

end ArkiveSync
