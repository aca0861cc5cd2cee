import ArkiveSync.Model.WatchRuns

/-!
# What holds of the watches between events

A path is doomed when a move away from it, or from above it, is pending or still
in the queue: its watches will go.  Apart from the doomed ones, every watch is on
a directory that is where the watch says, and every directory in a watched one
is watched or announced by an event in the queue.

## Main results

* `Covered.at_path`: a watch on a path that is not doomed is on the directory at
  that path.
* `Covered.drops`, `Covered.adds`, `Covered.consume`: what removing watches,
  adding watches and taking an event from the queue keep.
* `Covered.emit`, `Kept.emit`: what a change of the tree keeps, once its events
  are queued.
* `Covered.complete`: with no event and no pending move left, the watches cover
  the tree.
-/

namespace ArkiveSync.InotifyWatcher

open Library

variable {δ : Type}

/-- The event says that a directory has come into a watched one. -/
structure Announces (event : InotifyEvent) (wd : Nat) (name : String) :
    Prop where
  mask : event.mask = .create ∨ event.mask = .movedTo
  wd : event.wd = wd
  name : event.name = some name

/-- The path is at or below one that a directory was moved away from. -/
def Doomed (w : InotifyWatcher δ) (queue : List InotifyEvent)
    (path : WatchPath) : Prop :=
  (∃ cookie move, w.pendingMoves.lookup cookie = some move ∧
    move.oldPath <+: path) ∨
  ∃ event ∈ queue, event.mask = .movedFrom ∧
    ∃ info name, w.watches.lookup event.wd = some info ∧
      event.name = some name ∧ info.path ++ [name] <+: path

theorem Doomed.mono {w : InotifyWatcher δ} {queue queue' : List InotifyEvent}
    {path : WatchPath} (h : Doomed w queue path) (hsub : queue ⊆ queue') :
    Doomed w queue' path := by
  rcases h with hpending | ⟨event, hin, hrest⟩
  · exact .inl hpending
  · exact .inr ⟨event, hsub hin, hrest⟩

/-- What is below a doomed path is doomed. -/
theorem Doomed.below {w : InotifyWatcher δ} {queue : List InotifyEvent}
    {path path' : WatchPath} (h : Doomed w queue path)
    (hbelow : path <+: path') : Doomed w queue path' := by
  rcases h with ⟨cookie, move, hmove, hpath⟩ |
    ⟨event, hin, hmask, info, name, hinfo, hname, hpath⟩
  · exact .inl ⟨cookie, move, hmove, hpath.trans hbelow⟩
  · exact .inr ⟨event, hin, hmask, info, name, hinfo, hname,
      hpath.trans hbelow⟩

/-- The tables and the queue, for a root at `base`. -/
structure Kept (t : DirTree δ String) (base : WatchPath) (rootId : String)
    (w : InotifyWatcher δ) (queue : List InotifyEvent) : Prop where
  numbered : w.WellNumbered
  inverse : w.Inverse
  marks_inj : ∀ d e wd, w.fd.marks d = some wd → w.fd.marks e = some wd → d = e
  marks_exist : ∀ d wd, w.fd.marks d = some wd → t.Exists d
  watch_below : ∀ wd info, w.watches.lookup wd = some info →
    base <+: info.path ∧ info.rootId = rootId
  move_below : ∀ cookie move, w.pendingMoves.lookup cookie = some move →
    base <+: move.oldPath ∧ move.oldPath ≠ base ∧ move.rootId = rootId ∧
      move.isDirectory = true
  queue_lt : ∀ event ∈ queue, event.wd < w.fd.nextWd
  queue_form : ∀ event ∈ queue, event.isDirectory = true ∧
    (event.mask = .movedFrom ∨ event.mask = .movedTo → event.cookie ≠ 0) ∧
    (event.mask = .movedFrom → ∃ name, event.name = some name)
  /- Moves that are not handled yet have cookies of their own. -/
  cookies : queue.Pairwise (fun a b => a.mask = .movedFrom →
    b.mask = .movedFrom → a.cookie ≠ b.cookie)
  cookie_free : ∀ event ∈ queue, event.mask = .movedFrom →
    w.pendingMoves.lookup event.cookie = none
  /- A removed directory has no mark, and nothing leaves it any more. -/
  deleted : ∀ event ∈ queue, event.mask = .deleteSelf →
    ∀ d, w.fd.marks d ≠ some event.wd
  deleted_last : queue.Pairwise (fun a b => a.mask = .deleteSelf →
    b.mask = .movedFrom → a.wd ≠ b.wd)

section Covered

variable (t : DirTree δ String) (root : δ) (base : WatchPath)

/-- The watch is on a directory whose parent is watched one level above. -/
def Placed (w : InotifyWatcher δ) (wd : Nat) (path : WatchPath) : Prop :=
  ∃ d, w.fd.marks d = some wd ∧ (d = root ∧ path = base ∨
    ∃ b name above, t.link d = some (b, name) ∧ w.WatchedAt b above ∧
      path = above ++ [name])

/-- The watches cover the tree, up to what the pending moves and the queue will
change. -/
structure Covered (w : InotifyWatcher δ) (queue : List InotifyEvent) :
    Prop where
  root_watched : w.WatchedAt root base
  placed : ∀ wd info, w.watches.lookup wd = some info →
    Placed t root base w wd info.path ∨ Doomed w queue info.path ∨
      ∃ event ∈ queue, event.mask = .deleteSelf ∧ event.wd = wd
  entered : ∀ b wd info, w.fd.marks b = some wd →
    w.watches.lookup wd = some info → Doomed w queue info.path ∨
      ∀ d name, t.link d = some (b, name) →
        w.WatchedAt d (info.path ++ [name]) ∨
          ∃ event ∈ queue, Announces event wd name
  moved : ∀ before event after, queue = before ++ event :: after →
    event.mask = .moveSelf → ∀ info, w.watches.lookup event.wd = some info →
      Doomed w before info.path

end Covered

variable {t : DirTree δ String} {root : δ} {base : WatchPath}
  {rootId : String} {w w' : InotifyWatcher δ}
  {queue : List InotifyEvent} {event : InotifyEvent}
  {rest : List InotifyEvent}

/-- A watch on a path that is not doomed is on the directory there. -/
theorem Covered.at_path (h : Covered t root base w queue)
    (hkept : Kept t base rootId w queue) {d : δ} {path : WatchPath}
    (hd : w.WatchedAt d path) (hdoom : ¬Doomed w queue path) :
    t.At root base d path := by
  -- by induction on the length of the path, through the parents
  induction hlen : path.length generalizing d path with
  | zero =>
      obtain ⟨wd, info, hmark, hinfo, rfl⟩ := hd
      rcases h.placed wd info hinfo with
        ⟨e, hmark', ⟨rfl, hbase⟩ | ⟨_, name, above, _, _, hpath⟩⟩ | hdoomed |
          ⟨event, hin, hmask, hwd⟩
      · rw [hkept.marks_inj d e wd hmark hmark', hbase]
        exact .top
      · rw [hpath] at hlen
        simp at hlen
      · exact absurd hdoomed hdoom
      · exact absurd (hwd ▸ hmark) (hkept.deleted event hin hmask d)
  | succ n ih =>
      obtain ⟨wd, info, hmark, hinfo, rfl⟩ := hd
      rcases h.placed wd info hinfo with
        ⟨e, hmark', ⟨rfl, hbase⟩ | ⟨b, name, above, hlink, hb, hpath⟩⟩ |
          hdoomed | ⟨event, hin, hmask, hwd⟩
      · rw [hkept.marks_inj d e wd hmark hmark', hbase]
        exact .top
      · rw [← hkept.marks_inj d e wd hmark hmark'] at hlink
        have habove : ¬Doomed w queue above := by
          intro habove
          refine hdoom (habove.below ?_)
          rw [hpath]
          exact List.prefix_append _ _
        have hparent := ih hb habove (by
          rw [hpath] at hlen
          simpa using hlen)
        rw [hpath]
        exact .child hlink hparent
      · exact absurd hdoomed hdoom
      · exact absurd (hwd ▸ hmark) (hkept.deleted event hin hmask d)

/-- With no event and no move left, the watches are on the directories under the
root, each at its path. -/
theorem Covered.complete (h : Covered t root base w [])
    (hkept : Kept t base rootId w []) (hmoves : w.pendingMoves = ∅) :
    (∀ d path, t.At root base d path → w.WatchedAt d path) ∧
    ∀ wd info, w.watches.lookup wd = some info →
      ∃ d, w.fd.marks d = some wd ∧ t.At root base d info.path := by
  have hdoom : ∀ path, ¬Doomed w [] path := by
    rintro path (⟨cookie, move, hmove, _⟩ | ⟨event, hin, _⟩)
    · rw [hmoves] at hmove
      simp at hmove
    · cases hin
  constructor
  · intro d path hat
    induction hat with
    | top => exact h.root_watched
    | @child d b name p hlink _ ih =>
        obtain ⟨wd, info, hmark, hinfo, rfl⟩ := ih
        rcases h.entered b wd info hmark hinfo with hdoomed | hchildren
        · exact absurd hdoomed (hdoom _)
        · rcases hchildren d name hlink with hwatched | ⟨event, hin, _⟩
          · exact hwatched
          · cases hin
  · intro wd info hinfo
    rcases h.placed wd info hinfo with ⟨d, hmark, _⟩ | hdoomed |
      ⟨event, hin, _⟩
    · exact ⟨d, hmark, h.at_path hkept ⟨wd, info, hmark, hinfo, rfl⟩ (hdoom _)⟩
    · exact absurd hdoomed (hdoom _)
    · cases hin

/-! ## Watches that go -/

theorem Kept.drops {gone : Nat → Prop} (h : Kept t base rootId w queue)
    (hdrops : Drops gone w w') (hinverse : w'.Inverse) :
    Kept t base rootId w' queue := by
  constructor
  · constructor
    · intro wd info hinfo
      rw [hdrops.nextWd]
      exact h.numbered.watch_lt wd info ((hdrops.watches wd info).mp hinfo).1
    · intro d wd hmark
      have hmark' := hdrops.marks d wd hmark
      obtain ⟨info, hinfo⟩ := h.numbered.mark_watched d wd hmark'
      refine ⟨info, (hdrops.watches wd info).mpr ⟨hinfo, ?_⟩⟩
      intro hgone
      rw [hdrops.unmarked d wd hmark hgone] at hinfo
      cases hinfo
  · exact hinverse
  · intro d e wd hd he
    exact h.marks_inj d e wd (hdrops.marks d wd hd) (hdrops.marks e wd he)
  · intro d wd hd
    exact h.marks_exist d wd (hdrops.marks d wd hd)
  · intro wd info hinfo
    exact h.watch_below wd info ((hdrops.watches wd info).mp hinfo).1
  · intro cookie move hmove
    exact h.move_below cookie move (hdrops.pendingMoves cookie move hmove)
  · intro event hin
    rw [hdrops.nextWd]
    exact h.queue_lt event hin
  · exact h.queue_form
  · exact h.cookies
  · intro event hin hmask
    cases hmove : w'.pendingMoves.lookup event.cookie with
    | none => rfl
    | some move =>
        have hold := hdrops.pendingMoves _ _ hmove
        rw [h.cookie_free event hin hmask] at hold
        cases hold
  · intro event hin hmask d hd
    exact h.deleted event hin hmask d (hdrops.marks d _ hd)
  · exact h.deleted_last

/-- Watches may go when what stays in a doomed path stays doomed, and what goes
below a watch that stays is doomed or announced. -/
theorem Covered.drops {gone : Nat → Prop} (h : Covered t root base w queue)
    (hdrops : Drops gone w w')
    (hroot : ∀ wd, w.fd.marks root = some wd → ¬gone wd)
    (hdoom : ∀ wd info, w'.watches.lookup wd = some info →
      ∀ before, before ⊆ queue → Doomed w before info.path →
        Doomed w' before info.path)
    (hparent : ∀ wd info, w'.watches.lookup wd = some info →
      ∀ b name above, w.WatchedAt b above → info.path = above ++ [name] →
        w'.WatchedAt b above ∨ Doomed w' queue info.path)
    (hchild : ∀ b wd info, w'.fd.marks b = some wd →
      w'.watches.lookup wd = some info → ∀ d name,
        t.link d = some (b, name) → w.WatchedAt d (info.path ++ [name]) →
          w'.WatchedAt d (info.path ++ [name]) ∨
            Doomed w' queue info.path ∨
              ∃ event ∈ queue, Announces event wd name) :
    Covered t root base w' queue := by
  constructor
  · obtain ⟨wd, info, hmark, hinfo, hpath⟩ := h.root_watched
    have hstays := hroot wd hmark
    exact ⟨wd, info, hdrops.kept root wd hmark hstays,
      (hdrops.watches wd info).mpr ⟨hinfo, hstays⟩, hpath⟩
  · intro wd info hinfo
    obtain ⟨hold, hstays⟩ := (hdrops.watches wd info).mp hinfo
    rcases h.placed wd info hold with ⟨d, hmark, hplace⟩ | hdoomed | hdeleted
    · have hmark' := hdrops.kept d wd hmark hstays
      rcases hplace with hd | ⟨b, name, above, hlink, hb, hpath⟩
      · exact .inl ⟨d, hmark', .inl hd⟩
      · rcases hparent wd info hinfo b name above hb hpath with hb' | hdoomed
        · exact .inl ⟨d, hmark', .inr ⟨b, name, above, hlink, hb', hpath⟩⟩
        · exact .inr (.inl hdoomed)
    · exact .inr (.inl (hdoom wd info hinfo queue (fun _ h => h) hdoomed))
    · exact .inr (.inr hdeleted)
  · intro b wd info hmark hinfo
    obtain ⟨hold, _⟩ := (hdrops.watches wd info).mp hinfo
    rcases h.entered b wd info (hdrops.marks b wd hmark) hold with
      hdoomed | hchildren
    · exact .inl (hdoom wd info hinfo queue (fun _ h => h) hdoomed)
    · by_cases hdoomed : Doomed w' queue info.path
      · exact .inl hdoomed
      · refine .inr ?_
        intro d name hlink
        rcases hchildren d name hlink with hwatched | hannounced
        · rcases hchild b wd info hmark hinfo d name hlink hwatched with
            hwatched' | hdoomed' | hannounced
          · exact .inl hwatched'
          · exact absurd hdoomed' hdoomed
          · exact .inr hannounced
        · exact .inr hannounced
  · intro before event after hqueue hmask info hinfo
    obtain ⟨hold, _⟩ := (hdrops.watches event.wd info).mp hinfo
    refine hdoom event.wd info hinfo before ?_
      (h.moved before event after hqueue hmask info hold)
    rw [hqueue]
    exact List.subset_append_left _ _

/-! ## Watches that come -/

theorem Doomed.adds {seen : List (WatchPath × δ)}
    (hadds : Adds rootId seen w w') (hw : w.WellNumbered) {path : WatchPath}
    (h : Doomed w queue path) : Doomed w' queue path := by
  rcases h with hpending | ⟨event, hin, hmask, info, name, hinfo, hrest⟩
  · rw [← hadds.pendingMoves] at hpending
    exact .inl hpending
  · refine .inr ⟨event, hin, hmask, info, name, ?_, hrest⟩
    rw [hadds.watches _ (hw.watch_lt _ _ hinfo)]
    exact hinfo

theorem Kept.adds {seen : List (WatchPath × δ)}
    (h : Kept t base rootId w queue) (hadds : Adds rootId seen w w')
    (hnumbered : w'.WellNumbered) (hinverse : w'.Inverse)
    (hseen : OneToOne seen)
    (hthere : ∀ z ∈ seen, base <+: z.1 ∧ t.Exists z.2) :
    Kept t base rootId w' queue := by
  have hle := hadds.nextWd
  have hlt : ∀ d wd, w.fd.marks d = some wd → wd < w.fd.nextWd := by
    intro d wd hmark
    obtain ⟨info, hinfo⟩ := h.numbered.mark_watched d wd hmark
    exact h.numbered.watch_lt wd info hinfo
  constructor
  · exact hnumbered
  · exact hinverse
  · intro d e wd hd he
    rcases hadds.fresh d wd hd with hd' | ⟨hged, infod, hinfod, hind⟩
    · rcases hadds.fresh e wd he with he' | ⟨hgee, _⟩
      · exact h.marks_inj d e wd hd' he'
      · have hltd := hlt d wd hd'
        omega
    · rcases hadds.fresh e wd he with he' | ⟨_, infoe, hinfoe, hine⟩
      · have hlte := hlt e wd he'
        omega
      · rw [hinfod] at hinfoe
        have hpath := congrArg WatchInfo.path (Option.some.inj hinfoe)
        exact hseen.dir _ hind _ hine hpath
  · intro d wd hd
    rcases hadds.fresh d wd hd with hd' | ⟨_, info, _, hin⟩
    · exact h.marks_exist d wd hd'
    · exact (hthere _ hin).2
  · intro wd info hinfo
    by_cases hold : wd < w.fd.nextWd
    · rw [hadds.watches wd hold] at hinfo
      exact h.watch_below wd info hinfo
    · obtain ⟨hroot, d, hin, _⟩ := hadds.added wd info (by omega) hinfo
      exact ⟨(hthere _ hin).1, hroot⟩
  · rw [hadds.pendingMoves]
    exact h.move_below
  · intro event hin
    have hltq := h.queue_lt event hin
    omega
  · exact h.queue_form
  · exact h.cookies
  · rw [hadds.pendingMoves]
    exact h.cookie_free
  · intro event hin hmask d hd
    rcases hadds.fresh d _ hd with hd' | ⟨hge, _⟩
    · exact h.deleted event hin hmask d hd'
    · have hltq := h.queue_lt event hin
      omega
  · exact h.deleted_last

/-- Watches may come for everything at and below a path, once the directory
above it is watched. -/
theorem Covered.adds {seen : List (WatchPath × δ)} {path : WatchPath}
    (h : Covered t root base w queue) (hkept : Kept t base rootId w queue)
    (hadds : Adds rootId seen w w') (hbase : base <+: path)
    (hseen : ∀ z, z ∈ seen ↔ path <+: z.1 ∧ t.At root base z.2 z.1)
    (hwatched : ∀ z ∈ seen, w'.WatchedAt z.2 z.1)
    (hstart : ∀ z ∈ seen, z.1 = path → ∃ b name above,
      t.link z.2 = some (b, name) ∧ w.WatchedAt b above ∧
        path = above ++ [name]) :
    Covered t root base w' queue := by
  have hkeep : ∀ d q, w.WatchedAt d q → w'.WatchedAt d q :=
    fun d q hd => hadds.watchedAt hkept.numbered hd
  have hdoom : ∀ {events q}, Doomed w events q → Doomed w' events q :=
    fun hd => hd.adds hadds hkept.numbered
  constructor
  · exact hkeep _ _ h.root_watched
  · intro wd info hinfo
    by_cases hold : wd < w.fd.nextWd
    · rw [hadds.watches wd hold] at hinfo
      rcases h.placed wd info hinfo with ⟨d, hmark, hplace⟩ | hdoomed | hdeleted
      · refine .inl ⟨d, hadds.marks d wd hmark, ?_⟩
        rcases hplace with hd | ⟨b, name, above, hlink, hb, hpath⟩
        · exact .inl hd
        · exact .inr ⟨b, name, above, hlink, hkeep b above hb, hpath⟩
      · exact .inr (.inl (hdoom hdoomed))
      · exact .inr (.inr hdeleted)
    · obtain ⟨_, d, hin, hmark⟩ := hadds.added wd info (by omega) hinfo
      refine .inl ⟨d, hmark, .inr ?_⟩
      obtain ⟨hbelow, hat⟩ := (hseen _).mp hin
      by_cases hpath : info.path = path
      · obtain ⟨b, name, above, hlink, hb, habove⟩ := hstart _ hin hpath
        exact ⟨b, name, above, hlink, hkeep b above hb, hpath.trans habove⟩
      · obtain ⟨b, name, above, hlink, hparent, heq, habove⟩ :=
          hat.below_cases hbase hbelow hpath
        have hb := hwatched (above, b) ((hseen _).mpr ⟨habove, hparent⟩)
        exact ⟨b, name, above, hlink, hb, heq⟩
  · intro b wd info hmark hinfo
    rcases hadds.fresh b wd hmark with hold | ⟨_, info', hinfo', hin⟩
    · obtain ⟨info', hinfo'⟩ := hkept.numbered.mark_watched b wd hold
      have hlt := hkept.numbered.watch_lt wd info' hinfo'
      rw [hadds.watches wd hlt] at hinfo
      rcases h.entered b wd info hold hinfo with hdoomed | hchildren
      · exact .inl (hdoom hdoomed)
      · refine .inr ?_
        intro d name hlink
        rcases hchildren d name hlink with hd | hannounced
        · exact .inl (hkeep _ _ hd)
        · exact .inr hannounced
    · rw [hinfo] at hinfo'
      rw [← Option.some.inj hinfo'] at hin
      obtain ⟨hbelow, hat⟩ := (hseen _).mp hin
      refine .inr ?_
      intro d name hlink
      refine .inl (hwatched (info.path ++ [name], d) ((hseen _).mpr ⟨?_, ?_⟩))
      · exact hbelow.trans (List.prefix_append _ _)
      · exact .child hlink hat
  · intro before event after hqueue hmask info hinfo
    have hlt := hkept.queue_lt event (by rw [hqueue]; simp)
    rw [hadds.watches _ hlt] at hinfo
    exact hdoom (h.moved before event after hqueue hmask info hinfo)

/-! ## The condition on a step -/

section Meets

variable (t : DirTree δ String) (root : δ) (base : WatchPath)

/-- The watch of a directory that is where it was recorded goes only with that
of its parent, or while an event announces the directory. -/
def Spares (w : InotifyWatcher δ) (queue : List InotifyEvent)
    (gone : Nat → Prop) : Prop :=
  ∀ d wd info b wdb above name, w.fd.marks d = some wd →
    w.watches.lookup wd = some info → t.At root base d info.path → gone wd →
    t.link d = some (b, name) → w.fd.marks b = some wdb →
    w.watches.lookup wdb = some above → info.path = above.path ++ [name] →
    ¬gone wdb → ∃ event ∈ queue, Announces event wdb name

/-- A walk that finds something starts in a directory that is watched under its
path, and meets directories without a watch whose path is no key, or watched
under that path. -/
def Fits (w : InotifyWatcher δ) (walk : WatchPath → List (WatchPath × δ))
    (path : WatchPath) : Prop :=
  ∀ z ∈ walk path, w.FitsAt z ∧ (z.1 = path → ∃ b name above,
    t.link z.2 = some (b, name) ∧ w.WatchedAt b above ∧ path = above ++ [name])

/-- The condition on the handling of an event by a watch. -/
structure MeetsHandle (w : InotifyWatcher δ)
    (walk : WatchPath → List (WatchPath × δ)) (queue : List InotifyEvent)
    (event : InotifyEvent) (path : WatchPath) : Prop where
  moveSelf : event.mask = .moveSelf →
    Spares t root base w queue (fun wd => wd = event.wd)
  create : event.mask = .create → Fits t w walk path
  enter : event.mask = .movedTo →
    w.pendingMoves.lookup event.cookie = none → Fits t w walk path
  move : event.mask = .movedTo →
    ∀ move, w.pendingMoves.lookup event.cookie = some move →
      Spares t root base w queue (w.RecordedUnder move.oldPath) ∧
        Fits t (w.dropMove event.cookie move.oldPath) walk path

/-- The condition on a step. -/
def Meets (s : WatchState δ) : WatchAction δ → Prop
  | .handleEvent walk => ∀ event rest info,
      s.watcher.fd.queue = event :: rest →
      s.watcher.watches.lookup event.wd = some info →
        MeetsHandle s.tree root base (s.watcher.afterRead rest) walk
          (event :: rest) event (info.path ++ event.name.toList)
  | .drainExpiredMoves => ∀ cookie move,
      s.watcher.pendingMoves.lookup cookie = some move →
      ¬s.clock - move.seenAt < 500 →
        Spares s.tree root base s.watcher s.watcher.fd.queue
          (s.watcher.RecordedUnder move.oldPath)
  | _ => True

end Meets

/-- Reading an event changes no table. -/
theorem Covered.afterRead (h : Covered t root base w queue)
    (rest : List InotifyEvent) :
    Covered t root base (w.afterRead rest) queue :=
  ⟨h.root_watched, h.placed, h.entered, h.moved⟩

theorem Kept.afterRead (h : Kept t base rootId w queue)
    (rest : List InotifyEvent) : Kept t base rootId (w.afterRead rest) queue :=
  ⟨⟨h.numbered.watch_lt, h.numbered.mark_watched⟩, h.inverse.congr rfl rfl,
    h.marks_inj, h.marks_exist, h.watch_below, h.move_below, h.queue_lt,
    h.queue_form, h.cookies, h.cookie_free, h.deleted, h.deleted_last⟩

/-- Watches may go when what goes is spared. -/
theorem Covered.drops_spared {gone : Nat → Prop}
    (h : Covered t root base w queue) (hkept : Kept t base rootId w queue)
    (hdrops : Drops gone w w')
    (hroot : ∀ wd, w.fd.marks root = some wd → ¬gone wd)
    (hdoom : ∀ wd info, w'.watches.lookup wd = some info →
      ∀ before, before ⊆ queue → Doomed w before info.path →
        Doomed w' before info.path)
    (hparent : ∀ wd info, w'.watches.lookup wd = some info →
      ∀ b name above, w.WatchedAt b above → info.path = above ++ [name] →
        w'.WatchedAt b above ∨ Doomed w' queue info.path)
    (hspares : Spares t root base w queue gone) :
    Covered t root base w' queue := by
  refine h.drops hdrops hroot hdoom hparent ?_
  rintro b wd info hmark hinfo d name hlink ⟨wdd, infod, hmarkd, hinfod, hpath⟩
  obtain ⟨hold, hstays⟩ := (hdrops.watches wd info).mp hinfo
  by_cases hgone : gone wdd
  · by_cases hdoomed : Doomed w queue info.path
    · exact .inr (.inl (hdoom wd info hinfo queue (fun _ h => h) hdoomed))
    · -- the parent is at its path, and so is the directory
      have hmark' := hdrops.marks b wd hmark
      have hat := h.at_path hkept ⟨wd, info, hmark', hold, rfl⟩ hdoomed
      have hatd : t.At root base d infod.path := hpath ▸ .child hlink hat
      exact .inr (.inr (hspares d wdd infod b wd info name hmarkd hinfod hatd
        hgone hlink hmark' hold hpath hstays))
  · exact .inl ⟨wdd, infod, hdrops.kept d wdd hmarkd hgone,
      (hdrops.watches wdd infod).mpr ⟨hinfod, hgone⟩, hpath⟩

/-! ## An event that is taken from the queue -/

theorem Kept.tail (h : Kept t base rootId w (event :: rest)) :
    Kept t base rootId w rest where
  numbered := h.numbered
  inverse := h.inverse
  marks_inj := h.marks_inj
  marks_exist := h.marks_exist
  watch_below := h.watch_below
  move_below := h.move_below
  queue_lt := fun e he => h.queue_lt e (by simp [he])
  queue_form := fun e he => h.queue_form e (by simp [he])
  cookies := h.cookies.tail
  cookie_free := fun e he => h.cookie_free e (by simp [he])
  deleted := fun e he => h.deleted e (by simp [he])
  deleted_last := h.deleted_last.tail

/-- An event may be taken from the queue when what it dooms stays doomed and
what it announces is watched. -/
theorem Covered.consume (h : Covered t root base w (event :: rest))
    (hmarks : w'.fd.marks = w.fd.marks) (hwatches : w'.watches = w.watches)
    (hdoom : ∀ before path, Doomed w (event :: before) path →
      Doomed w' before path)
    (hdeleted : event.mask = .deleteSelf →
      w.watches.lookup event.wd = none)
    (hwatched : ∀ b wd info d name, w.fd.marks b = some wd →
      w.watches.lookup wd = some info →
      ¬Doomed w (event :: rest) info.path → t.link d = some (b, name) →
      Announces event wd name → w.WatchedAt d (info.path ++ [name])) :
    Covered t root base w' rest := by
  have hsame : ∀ d path, w'.WatchedAt d path ↔ w.WatchedAt d path := by
    intro d path
    unfold WatchedAt
    rw [hmarks, hwatches]
  constructor
  · exact (hsame _ _).mpr h.root_watched
  · intro wd info hinfo
    rw [hwatches] at hinfo
    rcases h.placed wd info hinfo with ⟨d, hmark, hplace⟩ | hdoomed |
      ⟨e, hin, hmask, hwd⟩
    · refine .inl ⟨d, hmarks ▸ hmark, ?_⟩
      rcases hplace with hd | ⟨b, name, above, hlink, hb, hpath⟩
      · exact .inl hd
      · exact .inr ⟨b, name, above, hlink, (hsame _ _).mpr hb, hpath⟩
    · exact .inr (.inl (hdoom rest info.path hdoomed))
    · refine .inr (.inr ⟨e, ?_, hmask, hwd⟩)
      refine (List.mem_cons.mp hin).resolve_left ?_
      intro heq
      rw [heq] at hmask hwd
      rw [← hwd, hdeleted hmask] at hinfo
      cases hinfo
  · intro b wd info hmark hinfo
    rw [hmarks] at hmark
    rw [hwatches] at hinfo
    by_cases hdoomed : Doomed w (event :: rest) info.path
    · exact .inl (hdoom rest info.path hdoomed)
    · refine .inr ?_
      intro d name hlink
      have hchildren := (h.entered b wd info hmark hinfo).resolve_left hdoomed
      rcases hchildren d name hlink with hd | ⟨e, hin, hannounces⟩
      · exact .inl ((hsame _ _).mpr hd)
      · rcases List.mem_cons.mp hin with rfl | hin
        · exact .inl ((hsame _ _).mpr
            (hwatched b wd info d name hmark hinfo hdoomed hlink hannounces))
        · exact .inr ⟨e, hin, hannounces⟩
  · intro before e after hqueue hmask info hinfo
    rw [hwatches] at hinfo
    exact hdoom before info.path
      (h.moved (event :: before) e after (by rw [hqueue]; rfl) hmask info hinfo)

/-- An event that dooms nothing may be taken away. -/
theorem Doomed.tail {path : WatchPath} (h : Doomed w (event :: rest) path)
    (hnone : event.mask = .movedFrom → w.watches.lookup event.wd = none) :
    Doomed w rest path := by
  rcases h with hpending | ⟨e, hin, hmask, info, name, hinfo, hrest⟩
  · exact .inl hpending
  · refine .inr ⟨e, ?_, hmask, info, name, hinfo, hrest⟩
    refine (List.mem_cons.mp hin).resolve_left ?_
    intro heq
    rw [heq] at hmask hinfo
    rw [hnone hmask] at hinfo
    cases hinfo

/-! ## Changes of the tree -/

section Tree

variable {t' : DirTree δ String} {fd' : Inotify δ}
  {new : List InotifyEvent}

/-- The tables when events of a change are queued: they are about marked
directories, at most the first of them is `IN_MOVED_FROM`, and a directory that
is removed has no mark. -/
theorem Kept.emit (h : Kept t base rootId w w.fd.queue)
    (hnext : fd'.nextWd = w.fd.nextWd)
    (hmarks : ∀ c wd, fd'.marks c = some wd → w.fd.marks c = some wd)
    (hexist : ∀ c wd, fd'.marks c = some wd → t.Exists c → t'.Exists c)
    (hnew : ∀ e ∈ new, (∃ c, w.fd.marks c = some e.wd) ∧
      e.isDirectory = true ∧ (e.mask = .movedFrom →
        ∃ name, e.name = some name))
    (hcookie : ∀ e ∈ new, e.mask = .movedFrom ∨ e.mask = .movedTo →
      w.FreshCookie e.cookie)
    (hone : new.Pairwise (fun _ e => e.mask ≠ .movedFrom))
    (hdeleted : ∀ e ∈ new, e.mask = .deleteSelf →
      ∀ c, fd'.marks c ≠ some e.wd) :
    Kept t' base rootId (w.withFd fd') (w.fd.queue ++ new) := by
  constructor
  · refine ⟨?_, ?_⟩
    · intro wd info hinfo
      show wd < fd'.nextWd
      rw [hnext]
      exact h.numbered.watch_lt wd info hinfo
    · intro c wd hc
      exact h.numbered.mark_watched c wd (hmarks c wd hc)
  · exact h.inverse.congr rfl rfl
  · intro c e wd hc he
    exact h.marks_inj c e wd (hmarks c wd hc) (hmarks e wd he)
  · intro c wd hc
    exact hexist c wd hc (h.marks_exist c wd (hmarks c wd hc))
  · exact h.watch_below
  · exact h.move_below
  · intro e he
    show e.wd < fd'.nextWd
    rw [hnext]
    rcases List.mem_append.mp he with he | he
    · exact h.queue_lt e he
    · obtain ⟨⟨c, hc⟩, _⟩ := hnew e he
      obtain ⟨info, hinfo⟩ := h.numbered.mark_watched c e.wd hc
      exact h.numbered.watch_lt e.wd info hinfo
  · intro e he
    rcases List.mem_append.mp he with he | he
    · exact h.queue_form e he
    · exact ⟨(hnew e he).2.1, fun hmask => (hcookie e he hmask).nonzero,
        (hnew e he).2.2⟩
  · refine List.pairwise_append.mpr ⟨h.cookies, ?_, ?_⟩
    · exact hone.imp fun hne _ hmask => absurd hmask hne
    · intro e he e' he' _ hmask'
      exact (hcookie e' he' (.inl hmask')).queued e he
  · intro e he hmask
    rcases List.mem_append.mp he with he | he
    · exact h.cookie_free e he hmask
    · exact (hcookie e he (.inl hmask)).pending
  · intro e he hmask c hc
    rcases List.mem_append.mp he with he | he
    · exact h.deleted e he hmask c (hmarks c e.wd hc)
    · exact hdeleted e he hmask c hc
  · refine List.pairwise_append.mpr ⟨h.deleted_last, ?_, ?_⟩
    · exact hone.imp fun hne _ hmask => absurd hmask hne
    · intro e he e' he' hmask _ hwd
      obtain ⟨⟨c, hc⟩, _⟩ := hnew e' he'
      exact h.deleted e he hmask c (hwd ▸ hc)

/-- An event of a queue that has grown is in the old part or in the new one. -/
theorem split_append {α : Type} {before after xs ys : List α} {a : α}
    (h : xs ++ ys = before ++ a :: after) :
    (∃ rest, xs = before ++ a :: rest) ∨
      ∃ first, before = xs ++ first ∧ ys = first ++ a :: after := by
  rcases List.append_eq_append_iff.mp h with ⟨first, hbefore, hys⟩ |
    ⟨middle, hxs, hmiddle⟩
  · exact .inr ⟨first, hbefore, hys⟩
  · cases middle with
    | nil => exact .inr ⟨[], by simpa using hxs.symm, by simpa using hmiddle.symm⟩
    | cons x xs' =>
        obtain ⟨rfl, _⟩ := List.cons_eq_cons.mp hmiddle
        exact .inl ⟨xs', hxs⟩

/-- What a change of the tree has to keep: a placed watch stays so, or is doomed
or deleted by a new event; a directory in a watched one was there and keeps its
watch, or is announced. -/
theorem Covered.emit (h : Covered t root base w queue)
    (hmarks : ∀ c wd, fd'.marks c = some wd → w.fd.marks c = some wd)
    (hroot : ∀ wd, w.fd.marks root = some wd → fd'.marks root = some wd)
    (hplaced : ∀ c wd info b name above, w.fd.marks c = some wd →
      w.watches.lookup wd = some info → t.link c = some (b, name) →
      w.WatchedAt b above → info.path = above ++ [name] →
        (fd'.marks c = some wd ∧ t'.link c = some (b, name) ∧
          (w.withFd fd').WatchedAt b above) ∨
        Doomed w new info.path ∨
        ∃ e ∈ new, e.mask = .deleteSelf ∧ e.wd = wd)
    (hentered : ∀ b wd, fd'.marks b = some wd → ∀ c name,
      t'.link c = some (b, name) →
        (t.link c = some (b, name) ∧
          ∀ wd', w.fd.marks c = some wd' → fd'.marks c = some wd') ∨
        ∃ e ∈ new, Announces e wd name)
    (hmoved : ∀ first e after, new = first ++ e :: after →
      e.mask = .moveSelf → ∀ info, w.watches.lookup e.wd = some info →
        Doomed w (queue ++ first) info.path) :
    Covered t' root base (w.withFd fd') (queue ++ new) := by
  constructor
  · obtain ⟨wd, info, hmark, hrest⟩ := h.root_watched
    exact ⟨wd, info, hroot wd hmark, hrest⟩
  · intro wd info hinfo
    rcases h.placed wd info hinfo with
      ⟨c, hmark, ⟨rfl, hpath⟩ | ⟨b, name, above, hlink, hb, hpath⟩⟩ |
        hdoomed | ⟨e, hin, hrest⟩
    · exact .inl ⟨c, hroot wd hmark, .inl ⟨rfl, hpath⟩⟩
    · rcases hplaced c wd info b name above hmark hinfo hlink hb hpath with
        ⟨hmark', hlink', hb'⟩ | hdoomed | ⟨e, hin, hrest⟩
      · exact .inl ⟨c, hmark', .inr ⟨b, name, above, hlink', hb', hpath⟩⟩
      · exact .inr (.inl (Doomed.mono hdoomed (List.subset_append_right _ _)))
      · exact .inr (.inr ⟨e, List.mem_append_right _ hin, hrest⟩)
    · exact .inr (.inl (Doomed.mono hdoomed (List.subset_append_left _ _)))
    · exact .inr (.inr ⟨e, List.mem_append_left _ hin, hrest⟩)
  · intro b wd info hmark hinfo
    rcases h.entered b wd info (hmarks b wd hmark) hinfo with
      hdoomed | hchildren
    · exact .inl (Doomed.mono hdoomed (List.subset_append_left _ _))
    · refine .inr ?_
      intro c name hlink
      rcases hentered b wd hmark c name hlink with ⟨hold, hkeeps⟩ |
        ⟨e, hin, hrest⟩
      · rcases hchildren c name hold with
          ⟨wd', info', hmark', hrest⟩ | ⟨e, hin, hrest⟩
        · exact .inl ⟨wd', info', hkeeps wd' hmark', hrest⟩
        · exact .inr ⟨e, List.mem_append_left _ hin, hrest⟩
      · exact .inr ⟨e, List.mem_append_right _ hin, hrest⟩
  · intro before e after hqueue hmask info hinfo
    rcases split_append hqueue with ⟨rest, hold⟩ | ⟨first, hbefore, hin⟩
    · exact h.moved before e rest hold hmask info hinfo
    · rw [hbefore]
      exact hmoved first e after hin hmask info hinfo

/-- A watch keeps its directory when the kernel keeps the mark. -/
theorem WatchedAt.withFd {c : δ} {path : WatchPath} (h : w.WatchedAt c path)
    (hkeeps : ∀ wd, w.fd.marks c = some wd → fd'.marks c = some wd) :
    (w.withFd fd').WatchedAt c path := by
  obtain ⟨wd, info, hmark, hrest⟩ := h
  exact ⟨wd, info, hkeeps wd hmark, hrest⟩

end Tree

end ArkiveSync.InotifyWatcher
