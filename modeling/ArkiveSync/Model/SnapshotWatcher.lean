import ArkiveSync.Library.DirtyFlag
import ArkiveSync.Library.Runs
import ArkiveSync.Model.FileSnapshot

/-!
# Watchers that compare snapshots

`FSEventsWatcher` and `ReadDirectoryChangesWatcher` learn from the system only
that something below a root has changed: a callback, or a thread of the root's
own, sets its `dirty` flag.  `poll` takes the flags of the roots one after the
other, makes a new snapshot of each dirty one and reports how it differs from
the one before.

Snapshots are made while the trees change: what one says of a path that changes
meanwhile may be anything.  A poll that throws ends the daemon, and the watcher
with it.

## Main results

* `SnapshotWatcher.step_root`: what a step does to one root.
* `SnapshotWatcher.Sound.run`: in every state reached, the protocol of the flag
  is kept for every root.
-/

namespace ArkiveSync

open Library DirtyFlag

/-- A path that the directory iterator of a root yields. -/
def pathBelow (root key : String) : String :=
  if root.toList.getLast? = some '/' then root ++ key
  else root ++ "/" ++ key

/-- A snapshot of the tree at a root. -/
structure RootSnapshot (root : String) extends FileSnapshot where
  placed : ∀ key entry, (key, entry) ∈ entries →
    entry.path = pathBelow root key

namespace FileSnapshot

/-- What a snapshot says of a path, as far as `changed` looks at it. -/
def seenAt (s : FileSnapshot) (key : String) : Option (Bool × Nat × Int) :=
  (s.find? key).map (fun e => (e.isDirectory, e.size, e.modifiedAt))

end FileSnapshot

/-- `RootState`, with the tree that it watches. -/
structure WatchedRoot where
  rootId : String
  path : String
  tree : RootSnapshot path
  snapshot : RootSnapshot path
  flag : FlagState String

/-- Where a poll stands, with the events it has. -/
inductive WatcherPoll where
  | idle
  | visiting (i : Nat) (events : List SnapshotEvent)
  | snapshotting (i : Nat) (events : List SnapshotEvent)

/-- A watcher, with all events that its polls have returned. -/
structure SnapshotWatcher where
  roots : List WatchedRoot
  poll : WatcherPoll
  returned : List SnapshotEvent

namespace WatcherPoll

/-- The events that a poll has come upon. -/
def events : WatcherPoll → List SnapshotEvent
  | .idle => []
  | .visiting _ events => events
  | .snapshotting _ events => events

end WatcherPoll

namespace WatchedRoot

/-- What two states of the tree say of a path. -/
def view (path : String) (s : RootSnapshot path) (key : String) :
    Option (Bool × Nat × Int) :=
  s.toFileSnapshot.seenAt key

/-- The root as `addRoot` makes it; the first snapshot may be wrong about what
changed while it was made. -/
def added (rootId path : String) (tree snapshot : RootSnapshot path) :
    WatchedRoot :=
  { rootId := rootId
    path := path
    tree := tree
    snapshot := snapshot
    flag := { FlagState.start with
      overlooked := changedKeys (view path) snapshot tree } }

/-- The tree changes. -/
def changeTree (root : WatchedRoot) (tree : RootSnapshot root.path) :
    WatchedRoot :=
  { root with
    tree := tree
    flag := root.flag.change (changedKeys (view root.path) root.tree tree) }

/-- The new snapshot takes the place of the old one. -/
def store (root : WatchedRoot) (next : RootSnapshot root.path) : WatchedRoot :=
  { root with snapshot := next, flag := root.flag.finish }

end WatchedRoot

namespace SnapshotWatcher

/-- `roots_[i]` becomes another. -/
def setRoot (s : SnapshotWatcher) (i : Nat) (root : WatchedRoot) :
    SnapshotWatcher :=
  { s with roots := s.roots.set i root }

/-- Everything that can happen to a watcher. -/
inductive Step : SnapshotWatcher → SnapshotWatcher → Prop where
  | addRoot (s : SnapshotWatcher) (rootId path : String)
      (tree snapshot : RootSnapshot path) (hpoll : s.poll = .idle) :
      Step s
        { s with
          roots := s.roots ++ [WatchedRoot.added rootId path tree snapshot] }
  | changeTree (s : SnapshotWatcher) (i : Nat) (root : WatchedRoot)
      (hroot : s.roots[i]? = some root) (tree : RootSnapshot root.path) :
      Step s (s.setRoot i (root.changeTree tree))
  | startStream (s : SnapshotWatcher) (i : Nat) (root : WatchedRoot)
      (hroot : s.roots[i]? = some root) :
      Step s (s.setRoot i { root with flag := root.flag.watch })
  | streamFails (s : SnapshotWatcher) (i : Nat) (root : WatchedRoot)
      (hroot : s.roots[i]? = some root) :
      Step s (s.setRoot i { root with flag := root.flag.unwatch })
  | callback (s : SnapshotWatcher) (i : Nat) (root : WatchedRoot)
      (hroot : s.roots[i]? = some root) (kept : Set String) :
      Step s (s.setRoot i { root with flag := root.flag.notify kept })
  | startPoll (s : SnapshotWatcher) (hpoll : s.poll = .idle) :
      Step s { s with poll := .visiting 0 [] }
  | passRoot (s : SnapshotWatcher) (i : Nat) (events : List SnapshotEvent)
      (root : WatchedRoot) (hpoll : s.poll = .visiting i events)
      (hroot : s.roots[i]? = some root) (hclean : root.flag.dirty = false) :
      Step s { s with poll := .visiting (i + 1) events }
  | takeFlag (s : SnapshotWatcher) (i : Nat) (events : List SnapshotEvent)
      (root : WatchedRoot) (hpoll : s.poll = .visiting i events)
      (hroot : s.roots[i]? = some root) (hdirty : root.flag.dirty = true) :
      Step s
        { s.setRoot i { root with flag := root.flag.take } with
          poll := .snapshotting i events }
  | store (s : SnapshotWatcher) (i : Nat) (events : List SnapshotEvent)
      (root : WatchedRoot) (next : RootSnapshot root.path)
      (hpoll : s.poll = .snapshotting i events)
      (hroot : s.roots[i]? = some root)
      (hreads : Reads (WatchedRoot.view root.path) root.flag root.tree next) :
      Step s
        { s.setRoot i (root.store next) with
          poll := .visiting (i + 1) (events ++
            FileSnapshot.diffFileSnapshots root.rootId
              root.snapshot.toFileSnapshot next.toFileSnapshot) }
  | returnEvents (s : SnapshotWatcher) (events : List SnapshotEvent)
      (hpoll : s.poll = .visiting s.roots.length events) :
      Step s { s with poll := .idle, returned := s.returned ++ events }

/-- A watcher without roots. -/
def start : SnapshotWatcher := { roots := [], poll := .idle, returned := [] }

/-- The events that the watcher has come upon, returned or not. -/
def told (s : SnapshotWatcher) : List SnapshotEvent :=
  s.returned ++ s.poll.events

/-- No poll is under way, no flag is set and no notification on its way. -/
structure Quiet (s : SnapshotWatcher) : Prop where
  poll : s.poll = .idle
  clean : ∀ root ∈ s.roots,
    root.flag.dirty = false ∧ root.flag.undelivered = ∅

/-! ## One root -/

/-- What a step does to a root: nothing, or something to its flag and its tree,
or a new snapshot of which the difference is reported. -/
inductive RootStep (root : WatchedRoot) :
    WatchedRoot → List SnapshotEvent → Prop where
  | same : RootStep root root []
  | changeTree (tree : RootSnapshot root.path) :
      RootStep root (root.changeTree tree) []
  | watch : RootStep root { root with flag := root.flag.watch } []
  | unwatch : RootStep root { root with flag := root.flag.unwatch } []
  | notify (kept : Set String) :
      RootStep root { root with flag := root.flag.notify kept } []
  | take : RootStep root { root with flag := root.flag.take } []
  | store (next : RootSnapshot root.path)
      (hreading : root.flag.reading ≠ none)
      (hreads : Reads (WatchedRoot.view root.path) root.flag root.tree next) :
      RootStep root (root.store next)
        (FileSnapshot.diffFileSnapshots root.rootId
          root.snapshot.toFileSnapshot next.toFileSnapshot)

variable {s s' : SnapshotWatcher} {i : Nat} {root : WatchedRoot}

theorem get_setRoot {j : Nat} {other : WatchedRoot}
    (hroot : s.roots[i]? = some root) (hother : s.roots[j]? = some other)
    (new : WatchedRoot) :
    (s.setRoot j new).roots[i]? = some (if j = i then new else root) := by
  obtain ⟨hlt, -⟩ := List.getElem?_eq_some_iff.mp hother
  unfold setRoot
  rw [List.getElem?_set]
  by_cases hsame : j = i
  · subst hsame
    simp [hlt]
  · simp [hsame, hroot]

/-- A root is being read exactly while the poll makes its snapshot. -/
def ReadsOne (s : SnapshotWatcher) : Prop :=
  ∀ i root, s.roots[i]? = some root →
    (root.flag.reading ≠ none ↔ ∃ events, s.poll = .snapshotting i events)

/-- One root is replaced by what a step makes of it. -/
theorem rootStep_setRoot {j : Nat} {other new : WatchedRoot}
    {events : List SnapshotEvent} (hroot : s.roots[i]? = some root)
    (hother : s.roots[j]? = some other) (hstep : RootStep other new events) :
    ∃ root' mine, (s.setRoot j new).roots[i]? = some root' ∧
      RootStep root root' mine ∧ mine ⊆ events := by
  by_cases hsame : j = i
  · subst hsame
    rw [hother, Option.some.injEq] at hroot
    subst hroot
    refine ⟨new, events, ?_, hstep, List.Subset.refl _⟩
    rw [get_setRoot hother hother, if_pos rfl]
  · refine ⟨root, [], ?_, .same, List.nil_subset _⟩
    rw [get_setRoot hroot hother, if_neg hsame]

/-- A step is one for each root, and what a root reports is told. -/
theorem step_root (hone : s.ReadsOne) (hstep : Step s s')
    (hroot : s.roots[i]? = some root) :
    ∃ root' mine fresh, s'.roots[i]? = some root' ∧ RootStep root root' mine ∧
      s'.told = s.told ++ fresh ∧ mine ⊆ fresh := by
  have hsilent : ∀ {j : Nat} {other new : WatchedRoot} (poll : WatcherPoll),
      s.roots[j]? = some other → RootStep other new [] →
      poll.events = s.poll.events →
      ∃ root' mine fresh,
        ({ s.setRoot j new with poll := poll } : SnapshotWatcher).roots[i]? =
          some root' ∧
        RootStep root root' mine ∧
        ({ s.setRoot j new with poll := poll } : SnapshotWatcher).told =
          s.told ++ fresh ∧ mine ⊆ fresh := by
    intro j other new poll hother hnew hevents
    obtain ⟨root', mine, hroot', hmine, hsub⟩ :=
      rootStep_setRoot hroot hother hnew
    refine ⟨root', mine, [], hroot', hmine, ?_, hsub⟩
    show s.returned ++ poll.events = s.returned ++ s.poll.events ++ []
    rw [hevents, List.append_nil]
  cases hstep with
  | addRoot rootId path tree snapshot hpoll =>
      refine ⟨root, [], [], ?_, .same, (List.append_nil _).symm,
        List.nil_subset _⟩
      obtain ⟨hlt, -⟩ := List.getElem?_eq_some_iff.mp hroot
      rw [List.getElem?_append_left hlt]
      exact hroot
  | changeTree j other hother tree =>
      exact hsilent s.poll hother (.changeTree tree) rfl
  | startStream j other hother => exact hsilent s.poll hother .watch rfl
  | streamFails j other hother => exact hsilent s.poll hother .unwatch rfl
  | callback j other hother kept =>
      exact hsilent s.poll hother (.notify kept) rfl
  | startPoll hpoll =>
      refine ⟨root, [], [], hroot, .same, ?_, List.nil_subset _⟩
      simp [told, hpoll, WatcherPoll.events]
  | passRoot j events other hpoll hother hclean =>
      refine ⟨root, [], [], hroot, .same, ?_, List.nil_subset _⟩
      simp [told, hpoll, WatcherPoll.events]
  | takeFlag j events other hpoll hother hdirty =>
      exact hsilent (.snapshotting j events) hother .take
        (by rw [hpoll]; rfl)
  | store j events other next hpoll hother hreads =>
      have hreading := (hone j other hother).mpr ⟨events, hpoll⟩
      obtain ⟨root', mine, hroot', hmine, hsub⟩ :=
        rootStep_setRoot hroot hother (.store next hreading hreads)
      refine ⟨root', mine, _, hroot', hmine, ?_, hsub⟩
      simp only [told, setRoot, hpoll, WatcherPoll.events,
        List.append_assoc]
  | returnEvents events hpoll =>
      refine ⟨root, [], [], hroot, .same, ?_, List.nil_subset _⟩
      simp [told, hpoll, WatcherPoll.events]

/-! ## The invariant -/

/-- For every root it is known what its snapshot may be wrong about. -/
structure Sound (s : SnapshotWatcher) : Prop where
  kept : ∀ (i : Nat) (root : WatchedRoot), s.roots[i]? = some root →
    Kept (WatchedRoot.view root.path) root.flag root.tree root.snapshot
  one : s.ReadsOne

theorem RootStep.kept {root' : WatchedRoot} {mine : List SnapshotEvent}
    (hstep : RootStep root root' mine)
    (h : Kept (WatchedRoot.view root.path) root.flag root.tree root.snapshot) :
    Kept (WatchedRoot.view root'.path) root'.flag root'.tree
      root'.snapshot := by
  cases hstep with
  | same => exact h
  | changeTree tree => exact h.change tree
  | watch => exact h.watch
  | unwatch => exact .unwatch _ _ _ _
  | notify kept => exact .notify _ _ kept _ _
  | take => exact .take _ _ _ _
  | store next hreading hreads => exact h.finish hreading hreads

/-- The first snapshot is right but for what it overlooks. -/
theorem kept_added (rootId path : String) (tree snapshot : RootSnapshot path) :
    Kept (WatchedRoot.view path) (WatchedRoot.added rootId path tree snapshot).flag
      tree snapshot := by
  intro k
  by_cases hk : WatchedRoot.view path snapshot k = WatchedRoot.view path tree k
  · exact Or.inr (Or.inr (Or.inr hk))
  · exact Or.inr (Or.inr (Or.inl hk))

/-- A root after a step was there before it, or has just been added. -/
theorem step_old (hstep : Step s s') (hroot : s'.roots[i]? = some root) :
    (∃ old, s.roots[i]? = some old) ∨
      (∃ rootId path tree snapshot,
        root = WatchedRoot.added rootId path tree snapshot) ∧
      s.poll = .idle ∧ s'.poll = .idle := by
  have hset : ∀ {j : Nat} {new : WatchedRoot},
      (s.setRoot j new).roots[i]? = some root →
      ∃ old, s.roots[i]? = some old := by
    intro j new hnew
    obtain ⟨hlt, -⟩ := List.getElem?_eq_some_iff.mp hnew
    unfold setRoot at hlt
    rw [List.length_set] at hlt
    exact ⟨s.roots[i], List.getElem?_eq_getElem hlt⟩
  cases hstep with
  | addRoot rootId path tree snapshot hpoll =>
      change (s.roots ++ [_])[i]? = _ at hroot
      by_cases hlt : i < s.roots.length
      · exact Or.inl ⟨s.roots[i], List.getElem?_eq_getElem hlt⟩
      · rw [List.getElem?_append_right (by omega)] at hroot
        have hlast := List.mem_singleton.mp (List.mem_of_getElem? hroot)
        exact Or.inr ⟨⟨rootId, path, tree, snapshot, hlast⟩, hpoll, hpoll⟩
  | changeTree j other hother tree => exact Or.inl (hset hroot)
  | startStream j other hother => exact Or.inl (hset hroot)
  | streamFails j other hother => exact Or.inl (hset hroot)
  | callback j other hother kept => exact Or.inl (hset hroot)
  | startPoll hpoll => exact Or.inl ⟨root, hroot⟩
  | passRoot j events other hpoll hother hclean => exact Or.inl ⟨root, hroot⟩
  | takeFlag j events other hpoll hother hdirty => exact Or.inl (hset hroot)
  | store j events other next hpoll hother hreads => exact Or.inl (hset hroot)
  | returnEvents events hpoll => exact Or.inl ⟨root, hroot⟩

/-- The root that a step is about, and another one. -/
theorem get_setRoot_cases {j : Nat} {new : WatchedRoot}
    (h : (s.setRoot j new).roots[i]? = some root) :
    (j = i ∧ root = new) ∨ (j ≠ i ∧ s.roots[i]? = some root) := by
  unfold setRoot at h
  rw [List.getElem?_set] at h
  by_cases hsame : j = i
  · rw [if_pos hsame] at h
    split at h
    · exact Or.inl ⟨hsame, (Option.some.inj h).symm⟩
    · cases h
  · rw [if_neg hsame] at h
    exact Or.inr ⟨hsame, h⟩

theorem ReadsOne.step (hone : s.ReadsOne) (hstep : Step s s') :
    s'.ReadsOne := by
  have hsilent : ∀ {j : Nat} {other new : WatchedRoot},
      s.roots[j]? = some other →
      (new.flag.reading ≠ none ↔ other.flag.reading ≠ none) →
      (s.setRoot j new).ReadsOne := by
    intro j other new hother hreading i root hroot
    rcases get_setRoot_cases hroot with ⟨rfl, rfl⟩ | ⟨-, hold⟩
    · exact hreading.trans (hone j other hother)
    · exact hone i root hold
  intro i root hroot
  cases hstep with
  | addRoot rootId path tree snapshot hpoll =>
      rcases step_old (.addRoot s rootId path tree snapshot hpoll) hroot with
        ⟨old, hold⟩ | ⟨⟨_, _, _, _, rfl⟩, -, -⟩
      · obtain ⟨hlt, -⟩ := List.getElem?_eq_some_iff.mp hold
        change (s.roots ++ [_])[i]? = _ at hroot
        rw [List.getElem?_append_left hlt] at hroot
        exact hone i root hroot
      · constructor
        · intro hreading
          exact absurd rfl hreading
        · intro hpoll'
          obtain ⟨events, hevents⟩ := hpoll'
          rw [hpoll] at hevents
          cases hevents
  | changeTree j other hother tree =>
      refine hsilent hother ?_ i root hroot
      show (other.flag.reading.map _) ≠ none ↔ _
      simp
  | startStream j other hother =>
      refine hsilent hother ?_ i root hroot
      exact Iff.rfl
  | streamFails j other hother =>
      refine hsilent hother ?_ i root hroot
      exact Iff.rfl
  | callback j other hother kept =>
      refine hsilent hother ?_ i root hroot
      exact Iff.rfl
  | startPoll hpoll =>
      have hbefore := hone i root hroot
      simpa [hpoll] using hbefore
  | passRoot j events other hpoll hother hclean =>
      have hbefore := hone i root hroot
      simpa [hpoll] using hbefore
  | takeFlag j events other hpoll hother hdirty =>
      rcases get_setRoot_cases hroot with ⟨rfl, rfl⟩ | ⟨hne, hold⟩
      · simp [FlagState.take]
      · have hbefore := hone i root hold
        simp only [hpoll, reduceCtorEq, exists_false, iff_false] at hbefore
        simp [hbefore, hne]
  | store j events other next hpoll hother hreads =>
      rcases get_setRoot_cases hroot with ⟨rfl, rfl⟩ | ⟨hne, hold⟩
      · simp [WatchedRoot.store, FlagState.finish]
      · have hbefore := hone i root hold
        simp only [hpoll, WatcherPoll.snapshotting.injEq, hne, false_and,
          exists_false, iff_false] at hbefore
        simp [hbefore]
  | returnEvents events hpoll =>
      have hbefore := hone i root hroot
      simpa [hpoll] using hbefore

theorem Sound.step (h : s.Sound) (hstep : Step s s') : s'.Sound where
  one := h.one.step hstep
  kept := by
    intro i root hroot
    rcases step_old hstep hroot with ⟨old, hold⟩ | ⟨⟨_, _, _, _, rfl⟩, -, -⟩
    · obtain ⟨root', mine, _, hroot', hmine, -⟩ := step_root h.one hstep hold
      rw [hroot', Option.some.injEq] at hroot
      subst hroot
      exact hmine.kept (h.kept i old hold)
    · exact kept_added _ _ _ _

theorem sound_start : start.Sound where
  kept := by
    intro i root hroot
    cases hroot
  one := by
    intro i root hroot
    cases hroot

theorem Sound.run (h : s.Sound) (hrun : Run Step s s') : s'.Sound := by
  have hpreserves : Preserves Step Sound := fun _ _ hstep hs => hs.step hstep
  exact hpreserves.run hrun h

end SnapshotWatcher

end ArkiveSync
