import ArkiveSync.Model.SnapshotWatcher
import ArkiveSync.Proofs.SnapshotDiffs

/-!
# No change below a watched root is lost

A poll takes the flag of a root before it makes the snapshot.  A change that the
snapshot misses has its notification still to come, so the flag will be set
again; and what a snapshot shows different from the one before is named by the
events of the poll.

## Main results

* `diff_names`: the events of a difference name every path at which the
  snapshots differ.
* `watcher_loses_nothing`: when all is quiet, the snapshot of a root is what is
  on the disk, and every path that is not what it was at some moment has been
  named since.
-/

namespace ArkiveSync.WatcherReports

open Library DirtyFlag FileSnapshot SnapshotWatcher

/-- The event is about the path, or away from it. -/
def Names (root key : String) (event : SnapshotEvent) : Prop :=
  event.path = pathBelow root key ∨
    event.oldPath = some (pathBelow root key)

/-- No file is in the snapshot under two names. -/
def OneName (s : FileSnapshot) : Prop :=
  ∀ key entry key' entry', s.find? key = some entry →
    s.find? key' = some entry' → entry.identity = entry'.identity →
    entry.identity ≠ "" → key = key'

/-! ## One difference -/

section Difference

variable {rootId path key : String} {before after : RootSnapshot path}
  {entry : FileSnapshotEntry}

/-- What is found at a key is an entry with this key. -/
theorem mem_of_find {s : FileSnapshot} (h : s.find? key = some entry) :
    (key, entry) ∈ s.entries := by
  unfold find? findKey at h
  obtain ⟨pair, hpair, rfl⟩ := Option.map_eq_some_iff.mp h
  have hkey := List.find?_some hpair
  simp only [decide_eq_true_eq] at hkey
  rw [← hkey]
  exact List.mem_of_find?_eq_some hpair

theorem find_of_mem {s : FileSnapshot} (h : (key, entry) ∈ s.entries) :
    s.find? key = some entry := by
  unfold find?
  rw [findKey_of_mem s.nodup h]
  rfl

theorem path_of_find {s : RootSnapshot path}
    (h : s.toFileSnapshot.find? key = some entry) :
    entry.path = pathBelow path key :=
  s.placed key entry (mem_of_find h)

/-- An entry is among those whose path the other snapshot does not have. -/
theorem mem_missingFrom {s other : FileSnapshot}
    (hfind : s.find? key = some entry) (hnone : other.find? key = none) :
    entry ∈ missingFrom other s.entries := by
  refine List.mem_map.mpr ⟨(key, entry), List.mem_filter.mpr
    ⟨mem_of_find hfind, ?_⟩, rfl⟩
  simp [contains, hnone]

/-- A new path is one of a rename, or created. -/
theorem names_new {events : List SnapshotEvent} {m m' : IdentityMap}
    {pairs : List (FileSnapshotEntry × FileSnapshotEntry)}
    {alone deleted : List FileSnapshotEntry}
    (hpaired : Paired (missingFrom before.toFileSnapshot after.entries) m m'
      pairs alone)
    (hevents : events.Perm (SnapshotDiffs.events rootId
      (changedSince before.toFileSnapshot after.entries) alone deleted pairs))
    (hfind : after.toFileSnapshot.find? key = some entry)
    (hnone : before.toFileSnapshot.find? key = none) :
    ∃ event ∈ events, Names path key event := by
  have hnew := mem_missingFrom hfind hnone
  have hpath := path_of_find hfind
  rcases List.mem_append.mp (hpaired.covers.symm.subset hnew) with hin | hin
  · obtain ⟨pair, hpair, hsnd⟩ := List.mem_map.mp hin
    refine ⟨renameEvent rootId pair, hevents.symm.subset ?_, Or.inl ?_⟩
    · refine List.mem_append_right _ (List.mem_append_left _ ?_)
      exact List.mem_map_of_mem hpair
    · rw [← hpath, ← hsnd]
      rfl
  · refine ⟨eventFor rootId .created entry, hevents.symm.subset ?_,
      Or.inl hpath⟩
    refine List.mem_append_right _ (List.mem_append_right _
      (List.mem_append_left _ ?_))
    exact List.mem_map_of_mem hin

/-- A path that is gone is the old one of a rename, or deleted. -/
theorem names_gone {events : List SnapshotEvent} {m' : IdentityMap}
    {pairs : List (FileSnapshotEntry × FileSnapshotEntry)}
    {alone modified : List FileSnapshotEntry}
    (hone : OneName before.toFileSnapshot)
    (hpaired : Paired (missingFrom before.toFileSnapshot after.entries)
      (collectDeleted after.toFileSnapshot before.entries (fun _ => none)) m'
      pairs alone)
    (hevents : events.Perm (SnapshotDiffs.events rootId modified alone
      ((missingFrom after.toFileSnapshot before.entries).filter (unpaired m'))
      pairs))
    (hfind : before.toFileSnapshot.find? key = some entry)
    (hnone : after.toFileSnapshot.find? key = none) :
    ∃ event ∈ events, Names path key event := by
  have hcollected := collectDeleted_spec before.toFileSnapshot
    after.toFileSnapshot
  have hgone := mem_missingFrom hfind hnone
  have hpath := path_of_find hfind
  by_cases halone : unpaired m' entry = true
  · refine ⟨eventFor rootId .deleted entry, hevents.symm.subset ?_,
      Or.inl hpath⟩
    refine List.mem_append_right _ (List.mem_append_right _
      (List.mem_append_right _ ?_))
    exact List.mem_map_of_mem (List.mem_filter.mpr ⟨hgone, halone⟩)
  · -- a rename has taken the identity, and only this path had it
    simp only [unpaired, Bool.or_eq_true, beq_iff_eq, not_or,
      Bool.not_eq_true, Option.isSome_eq_false_iff,
      Option.isNone_iff_eq_none] at halone
    obtain ⟨hidentity, htaken⟩ := halone
    have hsome := hcollected.complete entry hgone hidentity
    rw [hpaired.left] at htaken
    split at htaken
    · rename_i hnew
      obtain ⟨new, hmem, hsame⟩ := List.mem_map.mp hnew.2
      have hin := hpaired.all new hmem (hsame ▸ hidentity)
        (by rw [hsame]; exact hsome)
      obtain ⟨pair, hpair, hid⟩ := List.mem_map.mp hin
      obtain ⟨-, hm⟩ := hpaired.taken pair hpair
      have hid : pair.2.identity = entry.identity := hid.trans hsame
      rw [hid] at hm
      obtain ⟨hmissing, hfst, -⟩ := hcollected.sound _ _ hm
      obtain ⟨⟨key', old⟩, hold, hsnd⟩ := List.mem_map.mp hmissing
      have hfind' := find_of_mem (List.mem_filter.mp hold).1
      change old = pair.1 at hsnd
      subst hsnd
      have hkey := hone key entry key' pair.1 hfind hfind' hfst.symm hidentity
      subst hkey
      refine ⟨renameEvent rootId pair, hevents.symm.subset ?_, Or.inr ?_⟩
      · refine List.mem_append_right _ (List.mem_append_left _ ?_)
        exact List.mem_map_of_mem hpair
      · exact congrArg some (path_of_find hfind')
    · rw [htaken] at hsome
      cases hsome

/-- The events of a difference name every path at which the snapshots
differ. -/
theorem diff_names (rootId : String) (hone : OneName before.toFileSnapshot)
    (hdiffer : before.toFileSnapshot.seenAt key ≠
      after.toFileSnapshot.seenAt key) :
    ∃ event ∈ diffFileSnapshots rootId before.toFileSnapshot
      after.toFileSnapshot, Names path key event := by
  obtain ⟨pairs, alone, m', hpaired, hevents⟩ :=
    SnapshotDiffs.diffFileSnapshots_events rootId before.toFileSnapshot
      after.toFileSnapshot
  cases hafter : after.toFileSnapshot.find? key with
  | none =>
      cases hbefore : before.toFileSnapshot.find? key with
      | none =>
          unfold seenAt at hdiffer
          rw [hbefore, hafter] at hdiffer
          exact absurd rfl hdiffer
      | some old => exact names_gone hone hpaired hevents hbefore hafter
  | some entry =>
      cases hbefore : before.toFileSnapshot.find? key with
      | none => exact names_new hpaired hevents hafter hbefore
      | some old =>
          unfold seenAt at hdiffer
          rw [hbefore, hafter] at hdiffer
          simp only [Option.map_some, ne_eq, Option.some.injEq,
            Prod.mk.injEq, not_and] at hdiffer
          have hchanged : changed old entry = true := by
            unfold changed
            by_cases hdirectory : old.isDirectory = entry.isDirectory
            · by_cases hsize : old.size = entry.size
              · simp [hdiffer hdirectory hsize]
              · simp [hsize]
            · simp [hdirectory]
          refine ⟨eventFor rootId .modified entry, hevents.symm.subset ?_,
            Or.inl (path_of_find hafter)⟩
          refine List.mem_append_left _ (List.mem_map_of_mem ?_)
          refine List.mem_map.mpr ⟨(key, entry), List.mem_filter.mpr
            ⟨mem_of_find hafter, ?_⟩, rfl⟩
          simp [hbefore, hchanged]

end Difference

/-! ## A run -/

/-- No root has a file under two names in its last snapshot. -/
def OneNames (s : SnapshotWatcher) : Prop :=
  ∀ root ∈ s.roots, OneName root.snapshot.toFileSnapshot

variable {m s : SnapshotWatcher} {i : Nat} {before after : WatchedRoot}
  {key : String}

/-- A root that a step gives another snapshot of a path has the path named. -/
theorem RootStep.names {root root' : WatchedRoot} {mine : List SnapshotEvent}
    (hstep : RootStep root root' mine)
    (hone : OneName root.snapshot.toFileSnapshot) (key : String) :
    root'.path = root.path ∧
      (root.snapshot.toFileSnapshot.seenAt key ≠
        root'.snapshot.toFileSnapshot.seenAt key →
        ∃ event ∈ mine, Names root.path key event) := by
  cases hstep with
  | same => exact ⟨rfl, fun h => absurd rfl h⟩
  | changeTree tree => exact ⟨rfl, fun h => absurd rfl h⟩
  | watch => exact ⟨rfl, fun h => absurd rfl h⟩
  | unwatch => exact ⟨rfl, fun h => absurd rfl h⟩
  | notify kept => exact ⟨rfl, fun h => absurd rfl h⟩
  | take => exact ⟨rfl, fun h => absurd rfl h⟩
  | store next hreading hreads => exact ⟨rfl, diff_names root.rootId hone⟩

theorem sound_of_run (hsound : m.Sound)
    (hrun : Run (fun a b => Step a b ∧ OneNames a) m s) : s.Sound := by
  have hpreserves : Preserves (fun a b => Step a b ∧ OneNames a) Sound :=
    fun _ _ hstep hs => hs.step hstep.1
  exact hpreserves.run hrun hsound

/-- Over a run a path is named when its last snapshot is not what it was. -/
theorem run_names (hsound : m.Sound)
    (hrun : Run (fun a b => Step a b ∧ OneNames a) m s)
    (hbefore : m.roots[i]? = some before) (key : String) :
    ∃ after new, s.roots[i]? = some after ∧ after.path = before.path ∧
      s.told = m.told ++ new ∧
      (before.snapshot.toFileSnapshot.seenAt key ≠
        after.snapshot.toFileSnapshot.seenAt key →
        ∃ event ∈ new, Names before.path key event) := by
  induction hrun with
  | refl =>
      exact ⟨before, [], hbefore, rfl, (List.append_nil _).symm,
        fun h => absurd rfl h⟩
  | tail hrun hlast ih =>
      rename_i mid last
      obtain ⟨middle, new, hmiddle, hpath, htold, hnamed⟩ := ih
      obtain ⟨after, mine, fresh, hafter, hmine, hfresh, hsub⟩ :=
        step_root (sound_of_run hsound hrun).one hlast.1 hmiddle
      obtain ⟨hsame, hnames⟩ := RootStep.names hmine
        (hlast.2 middle (List.mem_of_getElem? hmiddle)) key
      refine ⟨after, new ++ fresh, hafter, hsame.trans hpath, ?_, ?_⟩
      · rw [hfresh, htold, List.append_assoc]
      · intro hdiffer
        by_cases hmid : before.snapshot.toFileSnapshot.seenAt key =
            middle.snapshot.toFileSnapshot.seenAt key
        · rw [hmid] at hdiffer
          obtain ⟨event, hevent, hname⟩ := hnames hdiffer
          rw [hpath] at hname
          exact ⟨event, List.mem_append_right _ (hsub hevent), hname⟩
        · obtain ⟨event, hevent, hname⟩ := hnamed hmid
          exact ⟨event, List.mem_append_left _ hevent, hname⟩

/-- Whatever changes while snapshots are made and notifications are on their
way: when all is quiet, the snapshot of a root is right about every path that
nobody overlooked, and a path that is not on the disk as it was in the snapshot
at some moment has been named by an event since then. -/
theorem watcher_loses_nothing (hstart : Run Step start m)
    (hrun : Run (fun a b => Step a b ∧ OneNames a) m s) (hquiet : s.Quiet)
    (hbefore : m.roots[i]? = some before) (hafter : s.roots[i]? = some after)
    (hkey : key ∉ after.flag.overlooked) :
    after.snapshot.toFileSnapshot.seenAt key =
        after.tree.toFileSnapshot.seenAt key ∧
      (before.snapshot.toFileSnapshot.seenAt key ≠
          after.tree.toFileSnapshot.seenAt key →
        ∃ new, s.returned = m.told ++ new ∧
          ∃ event ∈ new, Names after.path key event) := by
  have hsound := sound_start.run hstart
  have hend := sound_of_run hsound hrun
  have hclean := hquiet.clean after (List.mem_of_getElem? hafter)
  have hreading : after.flag.reading = none := by
    by_contra hsome
    obtain ⟨events, hpoll⟩ := (hend.one i after hafter).mp hsome
    rw [hquiet.poll] at hpoll
    cases hpoll
  have hagrees : after.snapshot.toFileSnapshot.seenAt key =
      after.tree.toFileSnapshot.seenAt key :=
    (hend.kept i after hafter).agrees ⟨hclean.1, hclean.2, hreading⟩ hkey
  refine ⟨hagrees, ?_⟩
  intro hdiffer
  obtain ⟨after', new, hafter', hpath, htold, hnamed⟩ :=
    run_names hsound hrun hbefore key
  rw [hafter, Option.some.injEq] at hafter'
  subst hafter'
  rw [← hagrees] at hdiffer
  obtain ⟨event, hevent, hname⟩ := hnamed hdiffer
  refine ⟨new, ?_, event, hevent, by rw [hpath]; exact hname⟩
  rw [← htold, told, hquiet.poll]
  exact (List.append_nil _).symm

/-! ## A file that is made while a snapshot is made -/

namespace NewFile

theorem placed_nil (key : String) (entry : FileSnapshotEntry)
    (h : (key, entry) ∈ ([] : List (String × FileSnapshotEntry))) :
    entry.path = pathBelow "/r" key :=
  absurd h List.not_mem_nil

def newFile : FileSnapshotEntry :=
  { path := "/r/f", identity := "1:2", size := 3, modifiedAt := 4
    isDirectory := false }

theorem placed_newFile (key : String) (entry : FileSnapshotEntry)
    (h : (key, entry) ∈ [("f", newFile)]) :
    entry.path = pathBelow "/r" key := by
  cases List.mem_singleton.mp h
  decide

def noFiles : RootSnapshot "/r" :=
  { entries := [], nodup := List.nodup_nil, placed := placed_nil }

def oneFile : RootSnapshot "/r" :=
  { entries := [("f", newFile)]
    nodup := List.nodup_singleton "f"
    placed := placed_newFile }

theorem oneName_noFiles : OneName noFiles.toFileSnapshot := by
  intro key entry key' entry' h
  cases h

/-- The root with its stream, before anything happens. -/
def watched : WatchedRoot :=
  { WatchedRoot.added "root" "/r" noFiles noFiles with
    flag :=
      (WatchedRoot.added "root" "/r" noFiles noFiles).flag.watch }

def unseen : SnapshotWatcher :=
  { roots := [watched], poll := .idle, returned := [] }

theorem run_unseen : Run Step start unseen :=
  .tail (.tail .refl (.addRoot _ "root" "/r" noFiles noFiles rfl))
    (.startStream _ 0 _ rfl)

/-- The file is there when the callback comes; the poll takes the flag. -/
def dirty : WatchedRoot :=
  { watched.changeTree oneFile with
    flag := (watched.changeTree oneFile).flag.notify ∅ }

def reported : SnapshotWatcher :=
  { roots := [WatchedRoot.store { dirty with flag := dirty.flag.take } oneFile]
    poll := .idle
    returned := diffFileSnapshots "root" noFiles.toFileSnapshot
      oneFile.toFileSnapshot }

theorem oneNames_of_roots {root : WatchedRoot} {poll : WatcherPoll}
    (h : OneName root.snapshot.toFileSnapshot) :
    OneNames { roots := [root], poll := poll, returned := [] } := by
  intro root' hroot'
  rw [List.mem_singleton.mp hroot']
  exact h

theorem oneName_oneFile : OneName oneFile.toFileSnapshot := by
  intro key entry key' entry' h h' _ _
  have hkey := List.mem_singleton.mp (mem_of_find h)
  have hkey' := List.mem_singleton.mp (mem_of_find h')
  rw [(Prod.mk.inj hkey).1, (Prod.mk.inj hkey').1]

theorem run_reported : Run (fun a b => Step a b ∧ OneNames a) unseen reported := by
  refine .tail (.tail (.tail (.tail (.tail (.tail .refl
    ⟨.changeTree _ 0 _ rfl oneFile, ?_⟩)
    ⟨.callback _ 0 _ rfl ∅, ?_⟩)
    ⟨.startPoll _ rfl, ?_⟩)
    ⟨.takeFlag _ 0 _ _ rfl rfl rfl, ?_⟩)
    ⟨.store _ 0 _ _ oneFile rfl rfl ?_, ?_⟩)
    ⟨.returnEvents _ _ rfl, ?_⟩
  · exact oneNames_of_roots oneName_noFiles
  · exact oneNames_of_roots oneName_noFiles
  · exact oneNames_of_roots oneName_noFiles
  · exact oneNames_of_roots oneName_noFiles
  · intro touched _ k _
    rfl
  · exact oneNames_of_roots oneName_noFiles
  · exact oneNames_of_roots oneName_oneFile

end NewFile

open NewFile in
/-- The file is named. -/
theorem watcher_loses_nothing_newFile :
    ∃ event ∈ reported.returned, Names "/r" "f" event := by
  have hquiet : reported.Quiet := by
    refine ⟨rfl, ?_⟩
    intro root hroot
    cases List.mem_singleton.mp hroot
    exact ⟨rfl, Set.inter_empty _⟩
  have hkey : "f" ∉ (WatchedRoot.store { dirty with flag := dirty.flag.take }
      oneFile).flag.overlooked := Set.notMem_empty "f"
  obtain ⟨-, hnamed⟩ := watcher_loses_nothing (i := 0)
    run_unseen run_reported hquiet rfl rfl hkey
  have hdiffer : watched.snapshot.toFileSnapshot.seenAt "f" ≠
      oneFile.toFileSnapshot.seenAt "f" := by
    decide
  obtain ⟨new, hreturned, event, hevent, hname⟩ := hnamed hdiffer
  refine ⟨event, ?_, hname⟩
  rw [hreturned]
  exact List.mem_append_right _ hevent

end ArkiveSync.WatcherReports
