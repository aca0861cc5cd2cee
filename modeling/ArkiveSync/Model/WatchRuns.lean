import ArkiveSync.Model.INotifyWatcher

/-!
# What removing and adding watches does

`removeWatch`, `removeWatchesUnder` and `finishMove` drop a set of watches;
`addWatchRecursive` adds one for each directory it meets, as long as no key in
`pathToWd_` makes it pass over a directory that has none and no directory is met
that is watched under another path.

## Main results

* `drops_removeWatch`, `drops_removeWatchesUnder`: which watches go.
* `adds_addWatchRecursive`: after a walk that fits, every directory it met is
  watched under its path.
-/

namespace ArkiveSync.InotifyWatcher

open Library

variable {δ : Type}

/-! ## Watches that go -/

/-- The watches of the descriptors in `gone` are dropped, the others kept. -/
structure Drops (gone : Nat → Prop) (w w' : InotifyWatcher δ) : Prop where
  watches : ∀ wd info, w'.watches.lookup wd = some info ↔
    w.watches.lookup wd = some info ∧ ¬gone wd
  marks : ∀ d wd, w'.fd.marks d = some wd → w.fd.marks d = some wd
  kept : ∀ d wd, w.fd.marks d = some wd → ¬gone wd →
    w'.fd.marks d = some wd
  unmarked : ∀ d wd, w'.fd.marks d = some wd → gone wd →
    w.watches.lookup wd = none
  nextWd : w'.fd.nextWd = w.fd.nextWd
  pendingMoves : ∀ cookie move, w'.pendingMoves.lookup cookie = some move →
    w.pendingMoves.lookup cookie = some move

theorem Drops.congr {gone gone' : Nat → Prop} {w w' : InotifyWatcher δ}
    (h : Drops gone w w') (hiff : ∀ wd, gone wd ↔ gone' wd) :
    Drops gone' w w' := by
  have heq : gone = gone' := funext fun wd => propext (hiff wd)
  rw [← heq]
  exact h

theorem drops_removeWatch (w : InotifyWatcher δ) (wd : Nat) :
    Drops (fun wd' => wd' = wd) w (w.removeWatch wd) := by
  unfold removeWatch
  split
  next hnone =>
      refine ⟨?_, fun _ _ h => h, fun _ _ h _ => h, ?_, rfl, fun _ _ h => h⟩
      · intro wd' info
        constructor
        · intro h
          refine ⟨h, ?_⟩
          intro heq
          rw [heq, hnone] at h
          cases h
        · exact fun h => h.1
      · intro d wd' _ heq
        rw [heq]
        exact hnone
  next info hinfo =>
      refine ⟨fun wd' info' => lookup_erase_iff _ _ _ _, ?_, ?_, ?_, rfl,
        fun _ _ h => h⟩
      · intro d wd' h
        simp only [Inotify.rmWatch] at h
        split at h
        next => cases h
        next => exact h
      · intro d wd' h hne
        simp only [Inotify.rmWatch, h]
        rw [if_neg]
        intro heq
        exact hne (Option.some.inj heq)
      · intro d wd' h heq
        simp only [Inotify.rmWatch] at h
        split at h
        next => cases h
        next hmark => exact absurd (heq ▸ h) hmark

theorem drops_removeWatches (w : InotifyWatcher δ) (wds : List Nat) :
    Drops (fun wd => wd ∈ wds) w (wds.foldl removeWatch w) := by
  induction wds generalizing w with
  | nil =>
      refine ⟨?_, fun _ _ h => h, fun _ _ h _ => h, ?_, rfl, fun _ _ h => h⟩
      · simp
      · simp
  | cons x xs ih =>
      have hfirst := drops_removeWatch w x
      have hrest := ih (w.removeWatch x)
      rw [List.foldl_cons]
      constructor
      · intro wd info
        rw [hrest.watches, hfirst.watches, List.mem_cons, not_or, and_assoc]
      · intro d wd h
        exact hfirst.marks d wd (hrest.marks d wd h)
      · intro d wd h hgone
        rw [List.mem_cons, not_or] at hgone
        exact hrest.kept d wd (hfirst.kept d wd h hgone.1) hgone.2
      · intro d wd h hgone
        have hmark := hrest.marks d wd h
        by_cases hx : wd = x
        · exact hfirst.unmarked d wd hmark hx
        · have hin := (List.mem_cons.mp hgone).resolve_left hx
          have hnone := hrest.unmarked d wd h hin
          cases hw : w.watches.lookup wd with
          | none => rfl
          | some info =>
              have hsome := (hfirst.watches wd info).mpr ⟨hw, hx⟩
              rw [hnone] at hsome
              cases hsome
      · rw [hrest.nextWd, hfirst.nextWd]
      · intro cookie move h
        exact hfirst.pendingMoves cookie move (hrest.pendingMoves cookie move h)

/-- The descriptor is recorded with a path at or below `path`. -/
def RecordedUnder (w : InotifyWatcher δ) (path : WatchPath) (wd : Nat) : Prop :=
  ∃ info, w.watches.lookup wd = some info ∧ path <+: info.path

theorem drops_removeWatchesUnder (w : InotifyWatcher δ) (path : WatchPath) :
    Drops (w.RecordedUnder path) w (w.removeWatchesUnder path) := by
  refine (drops_removeWatches w _).congr ?_
  intro wd
  simp only [List.mem_map, List.mem_filter, isSameOrChildPath,
    List.isPrefixOf_iff_prefix]
  constructor
  · rintro ⟨entry, ⟨hin, hunder⟩, rfl⟩
    exact ⟨entry.2, AList.mem_lookup_iff.mpr hin, hunder⟩
  · rintro ⟨info, hinfo, hunder⟩
    exact ⟨⟨wd, info⟩, ⟨AList.mem_lookup_iff.mp hinfo, hunder⟩, rfl⟩

/-- The watches of an old path and the move from it are dropped. -/
def dropMove (w : InotifyWatcher δ) (cookie : Nat) (oldPath : WatchPath) :
    InotifyWatcher δ :=
  { removeWatchesUnder w oldPath with
    pendingMoves := w.pendingMoves.erase cookie }

theorem removeWatches_pendingMoves (w : InotifyWatcher δ) (wds : List Nat)
    (moves : AList (fun _ : Nat => PendingMove)) :
    wds.foldl removeWatch { w with pendingMoves := moves } =
      { wds.foldl removeWatch w with pendingMoves := moves } := by
  induction wds generalizing w with
  | nil => rfl
  | cons wd wds ih =>
      have hstep : removeWatch { w with pendingMoves := moves } wd =
          { removeWatch w wd with pendingMoves := moves } := by
        unfold removeWatch
        dsimp only
        split <;> rfl
      rw [List.foldl_cons, List.foldl_cons, hstep, ih]

theorem pendingMoves_removeWatches (w : InotifyWatcher δ) (wds : List Nat) :
    (wds.foldl removeWatch w).pendingMoves = w.pendingMoves := by
  have h := congrArg InotifyWatcher.pendingMoves
    (removeWatches_pendingMoves w wds w.pendingMoves)
  exact h

/-- What `handleEvent` does to the old path of a directory. -/
theorem finishMove_eq (w : InotifyWatcher δ) (cookie : Nat)
    (pending : PendingMove) :
    finishMove w cookie pending true = dropMove w cookie pending.oldPath :=
  removeWatches_pendingMoves w _ _

/-- What `drainExpiredMoves` does to the old path of a directory. -/
theorem expireMove_eq {now : Nat} (w : InotifyWatcher δ)
    (events : List WatchEvent) {entry : Sigma fun _ : Nat => PendingMove}
    (hdirectory : entry.2.isDirectory = true)
    (hold : ¬now - entry.2.seenAt < 500) :
    (expireMove now (w, events) entry).1 =
      dropMove w entry.1 entry.2.oldPath := by
  unfold expireMove
  rw [if_neg hold]
  simp only [hdirectory, if_true]
  unfold dropMove
  rw [← pendingMoves_removeWatches w]
  rfl

theorem drops_dropMove (w : InotifyWatcher δ) (cookie : Nat)
    (oldPath : WatchPath) :
    Drops (w.RecordedUnder oldPath) w (w.dropMove cookie oldPath) := by
  have h := drops_removeWatchesUnder w oldPath
  refine ⟨h.watches, h.marks, h.kept, h.unmarked, h.nextWd, ?_⟩
  intro cookie' move hmove
  exact ((lookup_erase_iff _ _ _ _).mp hmove).1

theorem Inverse.dropMove {w : InotifyWatcher δ} (h : w.Inverse) (cookie : Nat)
    (oldPath : WatchPath) : (w.dropMove cookie oldPath).Inverse :=
  (h.removeWatches _).congr rfl rfl

/-! ## Watches that come -/

/-- The directory is watched under the path. -/
def WatchedAt (w : InotifyWatcher δ) (d : δ) (path : WatchPath) : Prop :=
  ∃ wd info, w.fd.marks d = some wd ∧ w.watches.lookup wd = some info ∧
    info.path = path

/-- The directory has no watch and its path is no key, or it is watched under
that path. -/
def FitsAt (w : InotifyWatcher δ) (there : WatchPath × δ) : Prop :=
  (w.fd.marks there.2 = none ∧ w.pathToWd.lookup there.1 = none) ∨
    w.WatchedAt there.2 there.1

/-- Paths and directories determine each other. -/
structure OneToOne (seen : List (WatchPath × δ)) : Prop where
  dir : ∀ y ∈ seen, ∀ z ∈ seen, y.1 = z.1 → y.2 = z.2
  path : ∀ y ∈ seen, ∀ z ∈ seen, y.2 = z.2 → y.1 = z.1

/-- Watches for directories of `seen` are added; nothing else changes. -/
structure Adds (rootId : String) (seen : List (WatchPath × δ))
    (w w' : InotifyWatcher δ) : Prop where
  marks : ∀ d wd, w.fd.marks d = some wd → w'.fd.marks d = some wd
  watches : ∀ wd, wd < w.fd.nextWd →
    w'.watches.lookup wd = w.watches.lookup wd
  fresh : ∀ d wd, w'.fd.marks d = some wd → w.fd.marks d = some wd ∨
    w.fd.nextWd ≤ wd ∧ ∃ info, w'.watches.lookup wd = some info ∧
      (info.path, d) ∈ seen
  added : ∀ wd info, w.fd.nextWd ≤ wd → w'.watches.lookup wd = some info →
    info.rootId = rootId ∧
      ∃ d, (info.path, d) ∈ seen ∧ w'.fd.marks d = some wd
  nextWd : w.fd.nextWd ≤ w'.fd.nextWd
  pendingMoves : w'.pendingMoves = w.pendingMoves

/-- Descriptors are below the next one, and marks have watches. -/
structure WellNumbered (w : InotifyWatcher δ) : Prop where
  watch_lt : ∀ wd info, w.watches.lookup wd = some info → wd < w.fd.nextWd
  mark_watched : ∀ d wd, w.fd.marks d = some wd →
    ∃ info, w.watches.lookup wd = some info

namespace Adds

variable {rootId : String} {seen : List (WatchPath × δ)}
  {w w' w'' : InotifyWatcher δ}

theorem refl (rootId : String) (w : InotifyWatcher δ) (h : w.WellNumbered) :
    Adds rootId seen w w := by
  refine ⟨fun _ _ h => h, fun _ _ => rfl, fun _ _ h => .inl h, ?_, le_rfl, rfl⟩
  intro wd info hle hinfo
  have hlt := h.watch_lt wd info hinfo
  omega

theorem trans (h : Adds rootId seen w w') (hw : w'.WellNumbered)
    (h' : Adds rootId seen w' w'') : Adds rootId seen w w'' := by
  have hle := h.nextWd
  constructor
  · intro d wd hmark
    exact h'.marks d wd (h.marks d wd hmark)
  · intro wd hlt
    rw [h'.watches wd (by omega), h.watches wd hlt]
  · intro d wd hmark
    rcases h'.fresh d wd hmark with hold | ⟨hge, hin⟩
    · rcases h.fresh d wd hold with hold | ⟨hge, info, hinfo, hin⟩
      · exact .inl hold
      · refine .inr ⟨hge, info, ?_, hin⟩
        rw [h'.watches wd (hw.watch_lt wd info hinfo)]
        exact hinfo
    · exact .inr ⟨by omega, hin⟩
  · intro wd info hge hinfo
    by_cases hlt : wd < w'.fd.nextWd
    · rw [h'.watches wd hlt] at hinfo
      obtain ⟨hroot, d, hin, hmark⟩ := h.added wd info hge hinfo
      exact ⟨hroot, d, hin, h'.marks d wd hmark⟩
    · exact h'.added wd info (by omega) hinfo
  · exact hle.trans h'.nextWd
  · rw [h'.pendingMoves, h.pendingMoves]

theorem watchedAt (h : Adds rootId seen w w') (hw : w.WellNumbered) {d : δ}
    {path : WatchPath} (hd : w.WatchedAt d path) : w'.WatchedAt d path := by
  obtain ⟨wd, info, hmark, hinfo, hpath⟩ := hd
  refine ⟨wd, info, h.marks d wd hmark, ?_, hpath⟩
  rw [h.watches wd (hw.watch_lt wd info hinfo)]
  exact hinfo

end Adds

variable [DecidableEq δ]

/-- Adding a watch that fits: the directory is watched under its path. -/
theorem adds_addWatch {w : InotifyWatcher δ} {there : WatchPath × δ}
    {seen : List (WatchPath × δ)} (rootId : String) (hin : there ∈ seen)
    (hw : w.WellNumbered) (hinv : w.Inverse) (hfits : w.FitsAt there) :
    Adds rootId seen w (addWatch rootId w there) ∧
      (addWatch rootId w there).WellNumbered ∧
      (addWatch rootId w there).WatchedAt there.2 there.1 := by
  have hkey : w.WatchedAt there.2 there.1 →
      ∃ wd, w.pathToWd.lookup there.1 = some wd := by
    rintro ⟨wd, info, _, hinfo, hpath⟩
    exact ⟨wd, hpath ▸ hinv.path wd info hinfo⟩
  unfold addWatch
  rcases hfits with ⟨hunmarked, hfree⟩ | hwatched
  · rw [if_neg (by simp [hfree])]
    have hadd : w.fd.addWatch there.2 =
        ({ w.fd with
            marks := Function.update w.fd.marks there.2 (some w.fd.nextWd)
            nextWd := w.fd.nextWd + 1 }, w.fd.nextWd) := by
      simp only [Inotify.addWatch, hunmarked]
    rw [hadd]
    have hmarks : ∀ d wd,
        Function.update w.fd.marks there.2 (some w.fd.nextWd) d = some wd ↔
          d = there.2 ∧ w.fd.nextWd = wd ∨
            d ≠ there.2 ∧ w.fd.marks d = some wd := by
      intro d wd
      by_cases hd : d = there.2
      · subst hd
        simp
      · simp [hd]
    refine ⟨⟨?_, ?_, ?_, ?_, by simp, rfl⟩, ⟨?_, ?_⟩, ?_⟩
    · intro d wd hmark
      refine (hmarks d wd).mpr (.inr ⟨?_, hmark⟩)
      intro hd
      rw [hd, hunmarked] at hmark
      cases hmark
    · intro wd hlt
      exact AList.lookup_insert_ne (by omega)
    · intro d wd hmark
      rcases (hmarks d wd).mp hmark with ⟨rfl, rfl⟩ | ⟨_, hold⟩
      · exact .inr ⟨le_rfl, _, AList.lookup_insert _, hin⟩
      · exact .inl hold
    · intro wd info hge hinfo
      rcases (lookup_insert_iff _ _ _ _ _).mp hinfo with
        ⟨rfl, rfl⟩ | ⟨_, hold⟩
      · exact ⟨rfl, there.2, hin, (hmarks _ _).mpr (.inl ⟨rfl, rfl⟩)⟩
      · have hlt := hw.watch_lt wd info hold
        omega
    · intro wd info hinfo
      show wd < w.fd.nextWd + 1
      rcases (lookup_insert_iff _ _ _ _ _).mp hinfo with
        ⟨rfl, rfl⟩ | ⟨_, hold⟩
      · omega
      · have hlt := hw.watch_lt wd info hold
        omega
    · intro d wd hmark
      rcases (hmarks d wd).mp hmark with ⟨_, rfl⟩ | ⟨_, hold⟩
      · exact ⟨_, AList.lookup_insert _⟩
      · obtain ⟨info, hinfo⟩ := hw.mark_watched d wd hold
        have hlt := hw.watch_lt wd info hinfo
        exact ⟨info, by rw [AList.lookup_insert_ne (by omega)]; exact hinfo⟩
    · exact ⟨w.fd.nextWd, _, (hmarks _ _).mpr (.inl ⟨rfl, rfl⟩),
        AList.lookup_insert _, rfl⟩
  · obtain ⟨wd, hwd⟩ := hkey hwatched
    rw [if_pos (by simp [hwd])]
    exact ⟨.refl rootId w hw, hw, hwatched⟩

/-- Adding a watch that fits lets what is met later fit as before. -/
theorem fitsAt_addWatch {w : InotifyWatcher δ} {there z : WatchPath × δ}
    {seen : List (WatchPath × δ)} (rootId : String) (hseen : OneToOne seen)
    (hin : there ∈ seen) (hz : z ∈ seen) (hw : w.WellNumbered)
    (hinv : w.Inverse) (hfits : w.FitsAt there) (hfitsz : w.FitsAt z) :
    (addWatch rootId w there).FitsAt z := by
  obtain ⟨_, _, hwatched⟩ := adds_addWatch rootId hin hw hinv hfits
  obtain ⟨hadds, _, _⟩ := adds_addWatch rootId
    (List.mem_singleton_self there) hw hinv hfits
  have hinv' := hinv.addWatch rootId there
  rcases hfitsz with ⟨hunmarked, hfree⟩ | hwatchedz
  · by_cases hd : z.2 = there.2
    · have hp := hseen.path z hz there hin hd
      rw [← hd, ← hp] at hwatched
      exact .inr hwatched
    · refine .inl ⟨?_, ?_⟩
      · cases hmark : (addWatch rootId w there).fd.marks z.2 with
        | none => rfl
        | some wd =>
            rcases hadds.fresh z.2 wd hmark with hold | ⟨_, info, _, hpath⟩
            · rw [hunmarked] at hold
              cases hold
            · exact absurd
                (congrArg Prod.snd (List.mem_singleton.mp hpath)) hd
      · cases hkey : (addWatch rootId w there).pathToWd.lookup z.1 with
        | none => rfl
        | some wd =>
            obtain ⟨info, hinfo, hpath⟩ := hinv'.wd z.1 wd hkey
            by_cases hlt : wd < w.fd.nextWd
            · rw [hadds.watches wd hlt] at hinfo
              have hback := hinv.path wd info hinfo
              rw [hpath, hfree] at hback
              cases hback
            · obtain ⟨_, d, hd', _⟩ := hadds.added wd info (by omega) hinfo
              have hp : info.path = there.1 :=
                congrArg Prod.fst (List.mem_singleton.mp hd')
              exact absurd (hseen.dir z hz there hin (hpath.symm.trans hp)) hd
  · exact .inr (hadds.watchedAt hw hwatchedz)

/-- After a walk that fits, every directory it met is watched under its
path. -/
theorem adds_addWatchRecursive {w : InotifyWatcher δ}
    {walk : WatchPath → List (WatchPath × δ)} (root : WatchRoot)
    (hseen : OneToOne (walk root.path)) (hw : w.WellNumbered)
    (hinv : w.Inverse) (hfits : ∀ z ∈ walk root.path, w.FitsAt z) :
    Adds root.rootId (walk root.path) w (addWatchRecursive walk root w) ∧
      (addWatchRecursive walk root w).WellNumbered ∧
      ∀ z ∈ walk root.path, (addWatchRecursive walk root w).WatchedAt z.2 z.1 := by
  unfold addWatchRecursive
  -- the induction is on what is still to be met
  have main : ∀ rest : List (WatchPath × δ), rest ⊆ walk root.path →
      ∀ u : InotifyWatcher δ, u.WellNumbered → u.Inverse →
        (∀ z ∈ rest, u.FitsAt z) →
      Adds root.rootId (walk root.path) u
          (rest.foldl (addWatch root.rootId) u) ∧
        (rest.foldl (addWatch root.rootId) u).WellNumbered ∧
        ∀ z ∈ rest,
          (rest.foldl (addWatch root.rootId) u).WatchedAt z.2 z.1 := by
    intro rest
    induction rest with
    | nil =>
        intro _ u hu _ _
        exact ⟨.refl root.rootId u hu, hu, by simp⟩
    | cons there rest ih =>
        intro hsub u hu huinv hufits
        have hin : there ∈ walk root.path := hsub (by simp)
        have hfirst := hufits there (by simp)
        obtain ⟨hadds, hu', hwatched⟩ :=
          adds_addWatch root.rootId hin hu huinv hfirst
        have hrestfits : ∀ z ∈ rest,
            (addWatch root.rootId u there).FitsAt z := by
          intro z hz
          exact fitsAt_addWatch root.rootId hseen hin (hsub (by simp [hz])) hu
            huinv hfirst (hufits z (by simp [hz]))
        obtain ⟨hadds', hu'', hwatched'⟩ :=
          ih (fun z hz => hsub (by simp [hz])) _ hu'
            (huinv.addWatch root.rootId there) hrestfits
        refine ⟨hadds.trans hu' hadds', hu'', ?_⟩
        intro z hz
        rcases List.mem_cons.mp hz with rfl | hz
        · exact hadds'.watchedAt hu' hwatched
        · exact hwatched' z hz
  exact main (walk root.path) (fun _ h => h) w hw hinv hfits

/-! ## Runs -/

/-- The directories, the watcher and the clock, in milliseconds. -/
structure WatchState (δ : Type) where
  tree : DirTree δ String
  watcher : InotifyWatcher δ
  clock : Nat := 0

/-- A step of another process, or of `poll`. -/
inductive WatchAction (δ : Type) where
  | mkdir (d b : δ) (name : String)
  | rmdir (d : δ)
  | rename (d b : δ) (name : String) (replaced : Option δ) (cookie : Nat)
  | tick (ms : Nat)
  | handleEvent (walk : WatchPath → List (WatchPath × δ))
  | drainExpiredMoves

/-- The watcher with another kernel's side. -/
def withFd (w : InotifyWatcher δ) (fd : Inotify δ) : InotifyWatcher δ :=
  { w with fd := fd }

/-- The watcher when an event has been read and `rest` is still queued. -/
def afterRead (w : InotifyWatcher δ) (rest : List InotifyEvent) :
    InotifyWatcher δ :=
  w.withFd { w.fd with queue := rest }

/-- The kernel's side behind a new directory. -/
def fdMkdir (fd : Inotify δ) (b : δ) (name : String) : Inotify δ :=
  fd.notify b (fun wd => { wd := wd, mask := .create, name := some name })

/-- The kernel's side behind a directory that is removed. -/
def fdRmdir (fd : Inotify δ) (d b : δ) (name : String) : Inotify δ :=
  ((fd.notify b (fun wd =>
      { wd := wd, mask := .delete, name := some name })).notify d (fun wd =>
    { wd := wd, mask := .deleteSelf })).forget d

/-- The kernel's side behind a rename. -/
def fdRename (fd : Inotify δ) (d b₀ : δ) (name₀ : String) (b : δ)
    (name : String) (replaced : Option δ) (cookie : Nat) : Inotify δ :=
  let fd := fd.notify b₀ (fun wd =>
    { wd := wd, mask := .movedFrom, cookie := cookie, name := some name₀ })
  let fd := fd.notify b (fun wd =>
    { wd := wd, mask := .movedTo, cookie := cookie, name := some name })
  let fd := fd.notify d (fun wd => { wd := wd, mask := .moveSelf })
  match replaced with
  | none => fd
  | some e =>
      (fd.notify e (fun wd => { wd := wd, mask := .deleteSelf })).forget e

/-- The cookie of a rename is not zero and belongs to no other move. -/
structure FreshCookie (w : InotifyWatcher δ) (cookie : Nat) : Prop where
  nonzero : cookie ≠ 0
  pending : w.pendingMoves.lookup cookie = none
  queued : ∀ event ∈ w.fd.queue, event.cookie ≠ cookie

section Runs

variable (root : δ) (base : WatchPath)

/-- What a walk yields: every directory at or below the path, in the order of
the iterator. -/
def Walks (t : DirTree δ String) (walk : WatchPath → List (WatchPath × δ)) :
    Prop :=
  ∀ path, base <+: path → ∀ z, z ∈ walk path ↔
    path <+: z.1 ∧ t.At root base z.2 z.1

/-- The steps, for a watched root `root` at `base`. -/
inductive WatchStep : WatchState δ → WatchAction δ → WatchState δ → Prop where
  | mkdir {s : WatchState δ} {d b : δ} {name : String}
      {t : DirTree δ String} (h : s.tree.Makes d b name t) :
      WatchStep s (.mkdir d b name)
        { s with
          tree := t
          watcher := s.watcher.withFd (fdMkdir s.watcher.fd b name) }
  | rmdir {s : WatchState δ} {d b : δ} {name : String}
      {t : DirTree δ String} (h : s.tree.Removes d b name t) :
      WatchStep s (.rmdir d)
        { s with
          tree := t
          watcher := s.watcher.withFd (fdRmdir s.watcher.fd d b name) }
  | rename {s : WatchState δ} {d b₀ b : δ} {name₀ name : String}
      {replaced : Option δ} {cookie : Nat} {t : DirTree δ String}
      (h : s.tree.Moves d b₀ name₀ b name replaced t)
      (hcookie : s.watcher.FreshCookie cookie) :
      WatchStep s (.rename d b name replaced cookie)
        { s with
          tree := t
          watcher := s.watcher.withFd
            (fdRename s.watcher.fd d b₀ name₀ b name replaced cookie) }
  | tick {s : WatchState δ} {ms : Nat} :
      WatchStep s (.tick ms) { s with clock := s.clock + ms }
  | handleEvent {s : WatchState δ} {event : InotifyEvent}
      {rest : List InotifyEvent} {walk : WatchPath → List (WatchPath × δ)}
      (hqueue : s.watcher.fd.queue = event :: rest)
      (hwalk : Walks root base s.tree walk) :
      WatchStep s (.handleEvent walk)
        { s with
          watcher := (InotifyWatcher.handleEvent s.clock walk
            (s.watcher.afterRead rest) event).1 }
  | drainExpiredMoves {s : WatchState δ} :
      WatchStep s .drainExpiredMoves
        { s with
          watcher :=
            (InotifyWatcher.drainExpiredMoves s.clock s.watcher).1 }

/-- The state behind `addRoot` of a new watcher. -/
structure AddedRoot (rootId : String) (s : WatchState δ) : Prop where
  top : root ∈ s.tree.tops
  watcher : ∃ walk, Walks root base s.tree walk ∧
    s.watcher = addWatchRecursive walk { rootId := rootId, path := base } {}

end Runs

end ArkiveSync.InotifyWatcher
