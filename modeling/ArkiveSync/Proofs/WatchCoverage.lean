import ArkiveSync.Model.WatchCover

/-!
# The watches cover the tree

Tables keyed by path lag behind the tree: the key of a directory that has moved
away keeps a new one at that path from being watched, a directory that is met
under a new path takes its descriptor along, and what has come to a path after
a move from it is dropped with what was there.  As long as no step does one of
these, the watches cover the tree whenever nothing is queued or pending.

## Main results

* `covered_mkdir`, `covered_rmdir`, `covered_rename`, `covered_handleEvent`,
  `covered_drainExpiredMoves`: what each step keeps.
* `watches_cover_tree`: the watches in every run whose steps meet the condition.
-/

namespace ArkiveSync.InotifyWatcher

open Library

variable {δ : Type} {t t' : DirTree δ String} {root d b : δ} {base : WatchPath}
  {rootId name : String} {w : InotifyWatcher δ}

/-! ## Changes of the tree -/

/-- A new directory has no watch and is announced. -/
theorem covered_mkdir (h : Covered t root base w w.fd.queue)
    (hkept : Kept t base rootId w w.fd.queue)
    (hmakes : t.Makes d b name t') :
    Covered t' root base (w.withFd (fdMkdir w.fd b name))
        (fdMkdir w.fd b name).queue ∧
      Kept t' base rootId (w.withFd (fdMkdir w.fd b name))
        (fdMkdir w.fd b name).queue := by
  have hmarks : (fdMkdir w.fd b name).marks = w.fd.marks := by
    simp [fdMkdir]
  have hne : ∀ c wd, w.fd.marks c = some wd → c ≠ d := by
    intro c wd hc heq
    exact hmakes.absent (heq ▸ hkept.marks_exist c wd hc)
  have hqueue : (fdMkdir w.fd b name).queue = w.fd.queue ++
      w.fd.emitted b (fun wd =>
        { wd := wd, mask := .create, name := some name }) :=
    Inotify.queue_notify _ _ _
  rw [hqueue]
  constructor
  · refine h.emit ?_ ?_ ?_ ?_ ?_
    · exact fun c wd hc => hmarks ▸ hc
    · exact fun wd hc => hmarks ▸ hc
    · intro c wd info b' name' above hmark _ hlink hb' _
      refine .inl ⟨hmarks ▸ hmark, ?_, hb'.withFd fun wd hwd => hmarks ▸ hwd⟩
      rw [hmakes.rest c (hne c wd hmark)]
      exact hlink
    · intro b' wd hmark c name' hlink
      by_cases hc : c = d
      · rw [hc, hmakes.here] at hlink
        obtain ⟨rfl, rfl⟩ := Prod.mk.inj (Option.some.inj hlink)
        exact .inr ⟨_, Inotify.mem_emitted.mpr ⟨wd, hmarks ▸ hmark, rfl⟩,
          .inl rfl, rfl, rfl⟩
      · rw [hmakes.rest c hc] at hlink
        exact .inl ⟨hlink, fun wd' hwd => hmarks ▸ hwd⟩
    · intro first e after hnew hmask
      have hin : e ∈ first ++ e :: after := by simp
      rw [← hnew] at hin
      obtain ⟨wd, _, rfl⟩ := Inotify.mem_emitted.mp hin
      cases hmask
  · have hevents : ∀ e ∈ w.fd.emitted b (fun wd =>
        { wd := wd, mask := .create, name := some name }),
        ∃ wd, w.fd.marks b = some wd ∧ e =
          { wd := wd, mask := .create, name := some name } :=
      fun e he => Inotify.mem_emitted.mp he
    refine hkept.emit (by simp [fdMkdir]) (fun c wd hc => hmarks ▸ hc) ?_ ?_ ?_
      ?_ ?_
    · rintro c wd _ (htop | ⟨place, hplace⟩)
      · exact .inl (hmakes.tops ▸ htop)
      · by_cases hc : c = d
        · exact .inr ⟨_, hc ▸ hmakes.here⟩
        · exact .inr ⟨place, by rw [hmakes.rest c hc]; exact hplace⟩
    · intro e he
      obtain ⟨wd, hwd, rfl⟩ := hevents e he
      exact ⟨⟨b, hwd⟩, rfl, by simp⟩
    · intro e he hmask
      obtain ⟨wd, hwd, rfl⟩ := hevents e he
      simp at hmask
    · refine List.pairwise_of_forall_mem_list ?_
      intro _ _ e he
      obtain ⟨wd, hwd, rfl⟩ := hevents e he
      simp
    · intro e he hmask
      obtain ⟨wd, hwd, rfl⟩ := hevents e he
      cases hmask

variable [DecidableEq δ]

section Rmdir

variable {fd : Inotify δ}

/-- The events about a removed directory: one for its parent, one for itself. -/
def removedEvents (fd : Inotify δ) (d b : δ) (name : String) :
    List InotifyEvent :=
  fd.emitted b (fun wd => { wd := wd, mask := .delete, name := some name }) ++
  fd.emitted d (fun wd => { wd := wd, mask := .deleteSelf })

theorem marks_fdRmdir (fd : Inotify δ) (c : δ) :
    (fdRmdir fd d b name).marks c = if c = d then none else fd.marks c := by
  simp only [fdRmdir, Inotify.forget, Inotify.marks_notify,
    Function.update_apply]

theorem marks_of_fdRmdir {c : δ} {wd : Nat}
    (h : (fdRmdir fd d b name).marks c = some wd) :
    fd.marks c = some wd ∧ c ≠ d := by
  rw [marks_fdRmdir] at h
  split at h
  next => cases h
  next hne => exact ⟨h, hne⟩

theorem fdRmdir_marks {c : δ} {wd : Nat} (hne : c ≠ d)
    (h : fd.marks c = some wd) :
    (fdRmdir fd d b name).marks c = some wd := by
  rw [marks_fdRmdir, if_neg hne]
  exact h

theorem queue_fdRmdir (fd : Inotify δ) :
    (fdRmdir fd d b name).queue = fd.queue ++ removedEvents fd d b name := by
  simp only [fdRmdir, Inotify.forget, Inotify.queue_notify, List.append_assoc,
    removedEvents, Inotify.emitted, Inotify.marks_notify]

omit [DecidableEq δ] in
theorem removedEvents_cases {e : InotifyEvent}
    (h : e ∈ removedEvents fd d b name) :
    ∃ c wd, fd.marks c = some wd ∧
      (e = { wd := wd, mask := .delete, name := some name } ∨
        c = d ∧ e = { wd := wd, mask := .deleteSelf }) := by
  rcases List.mem_append.mp h with h | h
  · obtain ⟨wd, hwd, rfl⟩ := Inotify.mem_emitted.mp h
    exact ⟨b, wd, hwd, .inl rfl⟩
  · obtain ⟨wd, hwd, rfl⟩ := Inotify.mem_emitted.mp h
    exact ⟨d, wd, hwd, .inr ⟨rfl, rfl⟩⟩

/-- A removal leaves the tree covered: the watch on its directory is
deleted. -/
theorem Covered.rmdir (htop : root ∈ t.tops)
    (h : Covered t root base w w.fd.queue)
    (hremoves : t.Removes d b name t') :
    Covered t' root base (w.withFd (fdRmdir w.fd d b name))
      (fdRmdir w.fd d b name).queue := by
  have hroot : root ≠ d := by
    intro heq
    have hnone := t.top_link root htop
    rw [heq, hremoves.there] at hnone
    cases hnone
  rw [queue_fdRmdir]
  refine h.emit (fun c wd hc => (marks_of_fdRmdir hc).1)
    (fun wd hc => fdRmdir_marks hroot hc) ?_ ?_ ?_
  · intro c wd info b' name' above hmark _ hlink hb' _
    by_cases hc : c = d
    · refine .inr (.inr ⟨_, List.mem_append_right _
        (Inotify.mem_emitted.mpr ⟨wd, hc ▸ hmark, rfl⟩), rfl, rfl⟩)
    · have hb : b' ≠ d := by
        intro heq
        exact hremoves.childless c name' (heq ▸ hlink)
      refine .inl ⟨fdRmdir_marks hc hmark, ?_,
        hb'.withFd (fun _ => fdRmdir_marks hb)⟩
      rw [hremoves.rest c hc]
      exact hlink
  · intro b' wd hmark c name' hlink
    by_cases hc : c = d
    · rw [hc, hremoves.gone] at hlink
      cases hlink
    · rw [hremoves.rest c hc] at hlink
      exact .inl ⟨hlink, fun wd' => fdRmdir_marks hc⟩
  · intro first e after hnew hmask
    obtain ⟨c, wd, _, rfl | ⟨_, rfl⟩⟩ :=
      removedEvents_cases (show e ∈ _ by rw [hnew]; simp)
    · cases hmask
    · cases hmask

/-- A removal keeps the bookkeeping of the watches. -/
theorem Kept.rmdir (hkept : Kept t base rootId w w.fd.queue)
    (hremoves : t.Removes d b name t') :
    Kept t' base rootId (w.withFd (fdRmdir w.fd d b name))
      (fdRmdir w.fd d b name).queue := by
  rw [queue_fdRmdir]
  refine hkept.emit (by simp [fdRmdir, Inotify.forget])
    (fun c wd hc => (marks_of_fdRmdir hc).1) ?_ ?_ ?_ ?_ ?_
  · rintro c wd hc (htop' | ⟨place, hplace⟩)
    · exact .inl (hremoves.tops ▸ htop')
    · refine .inr ⟨place, ?_⟩
      rw [hremoves.rest c (marks_of_fdRmdir hc).2]
      exact hplace
  · intro e he
    obtain ⟨c, wd, hwd, rfl | ⟨_, rfl⟩⟩ := removedEvents_cases he
    · exact ⟨⟨c, hwd⟩, rfl, by simp⟩
    · exact ⟨⟨c, hwd⟩, rfl, by simp⟩
  · intro e he hmask
    obtain ⟨c, wd, hwd, rfl | ⟨_, rfl⟩⟩ := removedEvents_cases he
    · simp at hmask
    · simp at hmask
  · refine List.pairwise_of_forall_mem_list ?_
    intro _ _ e he
    obtain ⟨c, wd, hwd, rfl | ⟨_, rfl⟩⟩ := removedEvents_cases he
    · simp
    · simp
  · intro e he hmask c hc
    obtain ⟨c', wd, hwd, rfl | ⟨hd, rfl⟩⟩ := removedEvents_cases he
    · cases hmask
    · obtain ⟨hc', hne⟩ := marks_of_fdRmdir hc
      exact hne ((hkept.marks_inj c c' wd hc' hwd).trans hd)

/-- A removed directory loses its mark, and its watch is deleted. -/
theorem covered_rmdir (htop : root ∈ t.tops)
    (h : Covered t root base w w.fd.queue)
    (hkept : Kept t base rootId w w.fd.queue)
    (hremoves : t.Removes d b name t') :
    Covered t' root base (w.withFd (fdRmdir w.fd d b name))
        (fdRmdir w.fd d b name).queue ∧
      Kept t' base rootId (w.withFd (fdRmdir w.fd d b name))
        (fdRmdir w.fd d b name).queue :=
  ⟨h.rmdir htop hremoves, hkept.rmdir hremoves⟩

end Rmdir

section Rename

variable {b₀ : δ} {name₀ : String} {replaced : Option δ} {cookie : Nat}
  {fd : Inotify δ}

/-- The event about the old place of a renamed directory. -/
def movedFromEvents (fd : Inotify δ) (b₀ : δ) (name₀ : String)
    (cookie : Nat) : List InotifyEvent :=
  fd.emitted b₀ (fun wd =>
    { wd := wd, mask := .movedFrom, cookie := cookie, name := some name₀ })

/-- The events behind it: about the new place, about the directory and about the
one that it replaces. -/
def renamedEvents (fd : Inotify δ) (d b : δ) (name : String)
    (replaced : Option δ) (cookie : Nat) : List InotifyEvent :=
  fd.emitted b (fun wd =>
    { wd := wd, mask := .movedTo, cookie := cookie, name := some name }) ++
  (fd.emitted d (fun wd => { wd := wd, mask := .moveSelf }) ++
    replaced.toList.flatMap (fun e =>
      fd.emitted e (fun wd => { wd := wd, mask := .deleteSelf })))

theorem marks_fdRename (fd : Inotify δ) (c : δ) :
    (fdRename fd d b₀ name₀ b name replaced cookie).marks c =
      if replaced = some c then none else fd.marks c := by
  cases replaced with
  | none => simp [fdRename]
  | some e =>
      simp only [fdRename, Inotify.forget, Inotify.marks_notify,
        Function.update_apply]
      by_cases hc : c = e
      · simp [hc]
      · rw [if_neg hc, if_neg (fun heq => hc (Option.some.inj heq).symm)]

theorem marks_of_fdRename {c : δ} {wd : Nat}
    (h : (fdRename fd d b₀ name₀ b name replaced cookie).marks c = some wd) :
    fd.marks c = some wd ∧ replaced ≠ some c := by
  rw [marks_fdRename] at h
  split at h
  next => cases h
  next hne => exact ⟨h, hne⟩

theorem fdRename_marks {c : δ} {wd : Nat} (hne : replaced ≠ some c)
    (h : fd.marks c = some wd) :
    (fdRename fd d b₀ name₀ b name replaced cookie).marks c = some wd := by
  rw [marks_fdRename, if_neg hne]
  exact h

theorem nextWd_fdRename (fd : Inotify δ) :
    (fdRename fd d b₀ name₀ b name replaced cookie).nextWd = fd.nextWd := by
  cases replaced with
  | none => simp [fdRename]
  | some e => simp [fdRename, Inotify.forget]

theorem queue_fdRename (fd : Inotify δ) :
    (fdRename fd d b₀ name₀ b name replaced cookie).queue =
      fd.queue ++ (movedFromEvents fd b₀ name₀ cookie ++
        renamedEvents fd d b name replaced cookie) := by
  cases replaced with
  | none =>
      simp only [fdRename, Inotify.queue_notify, List.append_assoc,
        movedFromEvents, renamedEvents, Inotify.emitted,
        Inotify.marks_notify, List.append_nil, Option.toList_none,
        List.flatMap_nil]
  | some e =>
      simp only [fdRename, Inotify.forget, Inotify.queue_notify,
        List.append_assoc, movedFromEvents, renamedEvents, Inotify.emitted,
        Inotify.marks_notify, Option.toList_some, List.flatMap_singleton]

omit [DecidableEq δ] in
theorem renamedEvents_cases {e : InotifyEvent}
    (h : e ∈ renamedEvents fd d b name replaced cookie) :
    (∃ wd, fd.marks b = some wd ∧
      e = { wd := wd, mask := .movedTo, cookie := cookie
            name := some name }) ∨
    (∃ wd, fd.marks d = some wd ∧ e = { wd := wd, mask := .moveSelf }) ∨
    ∃ c wd, replaced = some c ∧ fd.marks c = some wd ∧
      e = { wd := wd, mask := .deleteSelf } := by
  rcases List.mem_append.mp h with h | h
  · exact .inl (Inotify.mem_emitted.mp h)
  · rcases List.mem_append.mp h with h | h
    · exact .inr (.inl (Inotify.mem_emitted.mp h))
    · obtain ⟨c, hc, h⟩ := List.mem_flatMap.mp h
      obtain ⟨wd, hwd, rfl⟩ := Inotify.mem_emitted.mp h
      exact .inr (.inr ⟨c, wd, Option.mem_toList.mp hc, hwd, rfl⟩)

omit [DecidableEq δ] in
/-- Only the first event of a renaming is about the old place. -/
theorem renamedEvents_later {e : InotifyEvent}
    (h : e ∈ renamedEvents fd d b name replaced cookie) :
    (∃ c, fd.marks c = some e.wd) ∧ e.isDirectory = true ∧
      e.mask ≠ .movedFrom ∧ (e.mask = .movedTo → e.cookie = cookie) := by
  rcases renamedEvents_cases h with
    ⟨wd, hwd, rfl⟩ | ⟨wd, hwd, rfl⟩ | ⟨c, wd, _, hwd, rfl⟩
  · exact ⟨⟨b, hwd⟩, rfl, by simp, fun _ => rfl⟩
  · exact ⟨⟨d, hwd⟩, rfl, by simp, by simp⟩
  · exact ⟨⟨c, hwd⟩, rfl, by simp, by simp⟩

omit [DecidableEq δ] in
/-- The first event of a renaming dooms a watch on the directory at its old
place. -/
theorem doomed_of_movedFrom {info : WatchInfo} {above : WatchPath}
    (rest : List InotifyEvent) (habove : w.WatchedAt b₀ above)
    (hpath : info.path = above ++ [name₀]) :
    Doomed w (movedFromEvents w.fd b₀ name₀ cookie ++ rest) info.path := by
  obtain ⟨wd₀, info₀, hmark₀, hinfo₀, rfl⟩ := habove
  refine .inr ⟨_, List.mem_append_left _
    (Inotify.mem_emitted.mpr ⟨wd₀, hmark₀, rfl⟩), rfl, info₀, name₀, hinfo₀,
    rfl, ?_⟩
  rw [hpath]

omit [DecidableEq δ] in
/-- The event about the renamed directory itself comes behind the one about its
old place. -/
theorem split_moveSelf {first after : List InotifyEvent} {e : InotifyEvent}
    (hnew : movedFromEvents fd b₀ name₀ cookie ++
      renamedEvents fd d b name replaced cookie = first ++ e :: after)
    (hmask : e.mask = .moveSelf) :
    ∃ rest, first = movedFromEvents fd b₀ name₀ cookie ++ rest ∧
      fd.marks d = some e.wd := by
  rcases split_append hnew with ⟨rest, hin⟩ | ⟨rest, hfirst, hin⟩
  · obtain ⟨wd, _, rfl⟩ := Inotify.mem_emitted.mp
      (show e ∈ movedFromEvents fd b₀ name₀ cookie by rw [hin]; simp)
    cases hmask
  · refine ⟨rest, hfirst, ?_⟩
    have he : e ∈ renamedEvents fd d b name replaced cookie := by
      rw [hin]
      simp
    rcases renamedEvents_cases he with
      ⟨wd, _, rfl⟩ | ⟨wd, hwd, rfl⟩ | ⟨c, wd, _, _, rfl⟩
    · cases hmask
    · exact hwd
    · cases hmask

omit [DecidableEq δ] in
/-- The watch on a renamed directory is doomed by the time its own event is
handled. -/
theorem Covered.doomed_moveSelf (h : Covered t root base w w.fd.queue)
    (htop : root ∈ t.tops) (hkept : Kept t base rootId w w.fd.queue)
    (hthere : t.link d = some (b₀, name₀)) {wd : Nat} {info : WatchInfo}
    (hmark : w.fd.marks d = some wd) (hinfo : w.watches.lookup wd = some info)
    (rest : List InotifyEvent) :
    Doomed w
      (w.fd.queue ++ (movedFromEvents w.fd b₀ name₀ cookie ++ rest))
      info.path := by
  rcases h.placed wd info hinfo with
    ⟨c, hmark', ⟨rfl, _⟩ | ⟨b', name', above, hlink, hb', hpath⟩⟩ |
      hdoomed | ⟨e, hin, hdeletes, hwd⟩
  · have hd := hkept.marks_inj d c wd hmark hmark'
    have hrootlink := t.top_link c htop
    rw [← hd, hthere] at hrootlink
    cases hrootlink
  · rw [← hkept.marks_inj d c wd hmark hmark', hthere] at hlink
    obtain ⟨rfl, rfl⟩ := Prod.mk.inj (Option.some.inj hlink)
    exact (doomed_of_movedFrom rest hb' hpath).mono
      (List.subset_append_right _ _)
  · exact hdoomed.mono (List.subset_append_left _ _)
  · exact absurd (hwd ▸ hmark) (hkept.deleted e hin hdeletes d)

/-- A renaming leaves the tree covered: its directory is doomed under the old
path and announced under the new one. -/
theorem Covered.rename (htop : root ∈ t.tops)
    (h : Covered t root base w w.fd.queue)
    (hkept : Kept t base rootId w w.fd.queue)
    (hmoves : t.Moves d b₀ name₀ b name replaced t') :
    Covered t' root base
      (w.withFd (fdRename w.fd d b₀ name₀ b name replaced cookie))
      (fdRename w.fd d b₀ name₀ b name replaced cookie).queue := by
  have hroot : replaced ≠ some root := by
    intro heq
    have hrootlink := t.top_link root htop
    rw [(hmoves.replaces root).mp heq] at hrootlink
    cases hrootlink
  rw [queue_fdRename]
  refine h.emit (fun c wd hc => (marks_of_fdRename hc).1)
    (fun wd hc => fdRename_marks hroot hc) ?_ ?_ ?_
  · intro c wd info b' name' above hmark _ hlink hb' hpath
    by_cases hc : c = d
    · rw [hc, hmoves.there] at hlink
      obtain ⟨rfl, rfl⟩ := Prod.mk.inj (Option.some.inj hlink)
      exact .inr (.inl (doomed_of_movedFrom _ hb' hpath))
    · by_cases hreplaced : replaced = some c
      · refine .inr (.inr ⟨{ wd := wd, mask := .deleteSelf }, ?_, rfl, rfl⟩)
        refine List.mem_append_right _ (List.mem_append_right _
          (List.mem_append_right _ ?_))
        exact List.mem_flatMap.mpr ⟨c, Option.mem_toList.mpr hreplaced,
          Inotify.mem_emitted.mpr ⟨wd, hmark, rfl⟩⟩
      · have hb : replaced ≠ some b' := by
          intro heq
          exact hmoves.childless b' heq c name' hlink
        refine .inl ⟨fdRename_marks hreplaced hmark, ?_,
          hb'.withFd (fun _ => fdRename_marks hb)⟩
        rw [hmoves.rest c hc hreplaced]
        exact hlink
  · intro b' wd hmark c name' hlink
    by_cases hc : c = d
    · rw [hc, hmoves.here] at hlink
      obtain ⟨rfl, rfl⟩ := Prod.mk.inj (Option.some.inj hlink)
      refine .inr ⟨{ wd := wd, mask := .movedTo, cookie := cookie
                     name := some name }, ?_, .inr rfl, rfl, rfl⟩
      exact List.mem_append_right _ (List.mem_append_left _
        (Inotify.mem_emitted.mpr ⟨wd, (marks_of_fdRename hmark).1, rfl⟩))
    · by_cases hreplaced : replaced = some c
      · rw [hmoves.gone c hreplaced] at hlink
        cases hlink
      · rw [hmoves.rest c hc hreplaced] at hlink
        exact .inl ⟨hlink, fun wd' => fdRename_marks hreplaced⟩
  · intro first e after hnew hmask info hinfo
    obtain ⟨rest, rfl, hmark⟩ := split_moveSelf hnew hmask
    exact h.doomed_moveSelf htop hkept hmoves.there hmark hinfo rest

/-- A renaming keeps the bookkeeping of the watches. -/
theorem Kept.rename (hkept : Kept t base rootId w w.fd.queue)
    (hmoves : t.Moves d b₀ name₀ b name replaced t')
    (hcookie : w.FreshCookie cookie) :
    Kept t' base rootId
      (w.withFd (fdRename w.fd d b₀ name₀ b name replaced cookie))
      (fdRename w.fd d b₀ name₀ b name replaced cookie).queue := by
  rw [queue_fdRename]
  refine hkept.emit (nextWd_fdRename w.fd)
    (fun c wd hc => (marks_of_fdRename hc).1) ?_ ?_ ?_ ?_ ?_
  · rintro c wd hc (htop' | ⟨place, hplace⟩)
    · exact .inl (hmoves.tops ▸ htop')
    · by_cases hcd : c = d
      · exact .inr ⟨_, hcd ▸ hmoves.here⟩
      · refine .inr ⟨place, ?_⟩
        rw [hmoves.rest c hcd (marks_of_fdRename hc).2]
        exact hplace
  · intro e he
    rcases List.mem_append.mp he with he | he
    · obtain ⟨wd, hwd, rfl⟩ := Inotify.mem_emitted.mp he
      exact ⟨⟨b₀, hwd⟩, rfl, fun _ => ⟨name₀, rfl⟩⟩
    · obtain ⟨hmarked, hdirectory, hne, _⟩ := renamedEvents_later he
      exact ⟨hmarked, hdirectory, fun hfrom => absurd hfrom hne⟩
  · intro e he hmask
    rcases List.mem_append.mp he with he | he
    · obtain ⟨wd, _, rfl⟩ := Inotify.mem_emitted.mp he
      exact hcookie
    · obtain ⟨_, _, hne, hto⟩ := renamedEvents_later he
      rw [hto (hmask.resolve_left hne)]
      exact hcookie
  · refine List.pairwise_append.mpr ⟨?_, ?_, ?_⟩
    · show List.Pairwise _ (((w.fd.marks b₀).map _).toList)
      cases w.fd.marks b₀ with
      | none => simp
      | some wd => simp
    · exact List.pairwise_of_forall_mem_list fun _ _ e he =>
        (renamedEvents_later he).2.2.1
    · exact fun _ _ e he => (renamedEvents_later he).2.2.1
  · intro e he hmask c hc
    obtain ⟨hc', hne⟩ := marks_of_fdRename hc
    rcases List.mem_append.mp he with he | he
    · obtain ⟨wd, _, rfl⟩ := Inotify.mem_emitted.mp he
      cases hmask
    · rcases renamedEvents_cases he with
        ⟨wd, _, rfl⟩ | ⟨wd, _, rfl⟩ | ⟨c', wd, hreplaced, hwd, rfl⟩
      · cases hmask
      · cases hmask
      · exact hne (hkept.marks_inj c c' wd hc' hwd ▸ hreplaced)

/-- A renamed directory is doomed under its old path and announced under its new
one; a directory that it replaces is deleted. -/
theorem covered_rename (htop : root ∈ t.tops)
    (h : Covered t root base w w.fd.queue)
    (hkept : Kept t base rootId w w.fd.queue)
    (hmoves : t.Moves d b₀ name₀ b name replaced t')
    (hcookie : w.FreshCookie cookie) :
    Covered t' root base
        (w.withFd (fdRename w.fd d b₀ name₀ b name replaced cookie))
        (fdRename w.fd d b₀ name₀ b name replaced cookie).queue ∧
      Kept t' base rootId
        (w.withFd (fdRename w.fd d b₀ name₀ b name replaced cookie))
        (fdRename w.fd d b₀ name₀ b name replaced cookie).queue :=
  ⟨h.rename htop hkept hmoves, hkept.rename hmoves hcookie⟩

end Rename

/-! ## Events -/

section Handle

omit [DecidableEq δ]

variable {queue rest : List InotifyEvent} {event : InotifyEvent}

/-- The watches under the old path of a move go with the move. -/
theorem covered_dropMove {cookie : Nat} {move : PendingMove}
    (h : Covered t root base w queue) (hkept : Kept t base rootId w queue)
    (hmove : w.pendingMoves.lookup cookie = some move)
    (hspares : Spares t root base w queue (w.RecordedUnder move.oldPath)) :
    Covered t root base (w.dropMove cookie move.oldPath) queue ∧
      Kept t base rootId (w.dropMove cookie move.oldPath) queue := by
  have hdrops := drops_dropMove w cookie move.oldPath
  obtain ⟨hbase, hne, _, _⟩ := hkept.move_below cookie move hmove
  refine ⟨h.drops_spared hkept hdrops ?_ ?_ ?_ hspares,
    hkept.drops hdrops (hkept.inverse.dropMove _ _)⟩
  · rintro wd hmark ⟨info, hinfo, hunder⟩
    obtain ⟨wd', info', hmark', hinfo', hpath⟩ := h.root_watched
    rw [hmark] at hmark'
    obtain rfl := Option.some.inj hmark'
    rw [hinfo] at hinfo'
    rw [Option.some.inj hinfo', hpath] at hunder
    exact hne (hunder.eq_of_length_le hbase.length_le)
  · intro wd info hinfo before hsub hdoomed
    obtain ⟨hold, hstays⟩ := (hdrops.watches wd info).mp hinfo
    have hnotunder : ¬move.oldPath <+: info.path :=
      fun hunder => hstays ⟨info, hold, hunder⟩
    rcases hdoomed with ⟨cookie', move', hmove', hpath⟩ |
      ⟨e, hin, hmask, info', name', hinfo', hname', hpath⟩
    · refine .inl ⟨cookie', move', ?_, hpath⟩
      refine (lookup_erase_iff _ _ _ _).mpr ⟨hmove', ?_⟩
      intro heq
      rw [heq, hmove] at hmove'
      exact hnotunder (Option.some.inj hmove' ▸ hpath)
    · refine .inr ⟨e, hin, hmask, info', name',
        (hdrops.watches _ _).mpr ⟨hinfo', ?_⟩, hname', hpath⟩
      rintro ⟨info'', hinfo'', hunder⟩
      rw [hinfo'] at hinfo''
      rw [← Option.some.inj hinfo''] at hunder
      exact hnotunder ((hunder.trans (List.prefix_append _ _)).trans hpath)
  · rintro wd info hinfo b name above ⟨wdb, infob, hmark, hinfob, rfl⟩ hpath
    obtain ⟨hold, hstays⟩ := (hdrops.watches wd info).mp hinfo
    have hstaysb : ¬w.RecordedUnder move.oldPath wdb := by
      rintro ⟨info', hinfo', hunder⟩
      rw [hinfob] at hinfo'
      rw [← Option.some.inj hinfo'] at hunder
      refine hstays ⟨info, hold, hunder.trans ?_⟩
      rw [hpath]
      exact List.prefix_append _ _
    exact .inl ⟨wdb, infob, hdrops.kept b wdb hmark hstaysb,
      (hdrops.watches _ _).mpr ⟨hinfob, hstaysb⟩, rfl⟩

/-- The watch of a directory that was moved goes: its path is doomed by a move
that is pending. -/
theorem covered_moveSelf {info : WatchInfo}
    (h : Covered t root base w (event :: rest))
    (hkept : Kept t base rootId w (event :: rest))
    (hmask : event.mask = .moveSelf)
    (hinfo : w.watches.lookup event.wd = some info)
    (hspares : Spares t root base w (event :: rest)
      (fun wd => wd = event.wd)) :
    Covered t root base (w.removeWatch event.wd) rest ∧
      Kept t base rootId (w.removeWatch event.wd) rest := by
  have hdrops := drops_removeWatch w event.wd
  have hmoves : (w.removeWatch event.wd).pendingMoves = w.pendingMoves :=
    pendingMoves_removeWatches w [event.wd]
  obtain ⟨cookie, move, hmove, hunder⟩ : ∃ cookie move,
      w.pendingMoves.lookup cookie = some move ∧ move.oldPath <+: info.path := by
    rcases h.moved [] event rest rfl hmask info hinfo with
      hpending | ⟨e, hin, _⟩
    · exact hpending
    · cases hin
  obtain ⟨hbase, hne, _, _⟩ := hkept.move_below cookie move hmove
  have hpending : ∀ {before path}, info.path <+: path →
      Doomed (w.removeWatch event.wd) before path := by
    intro before path hbelow
    exact .inl ⟨cookie, move, hmoves ▸ hmove, hunder.trans hbelow⟩
  have hdropped : Covered t root base (w.removeWatch event.wd)
      (event :: rest) := by
    refine h.drops_spared hkept hdrops ?_ ?_ ?_ hspares
    · intro wd hmark heq
      obtain ⟨wd', info', hmark', hinfo', hpath⟩ := h.root_watched
      rw [hmark] at hmark'
      rw [← Option.some.inj hmark', heq, hinfo] at hinfo'
      rw [Option.some.inj hinfo', hpath] at hunder
      exact hne (hunder.eq_of_length_le hbase.length_le)
    · intro wd info' hinfo' before _ hdoomed
      rcases hdoomed with hpend | ⟨e, hin, hfrom, info'', name', hinfo'', hname',
        hpath⟩
      · exact .inl (hmoves ▸ hpend)
      · by_cases heq : e.wd = event.wd
        · rw [heq, hinfo] at hinfo''
          rw [← Option.some.inj hinfo''] at hpath
          exact hpending ((List.prefix_append _ _).trans hpath)
        · exact .inr ⟨e, hin, hfrom, info'', name',
            (hdrops.watches _ _).mpr ⟨hinfo'', heq⟩, hname', hpath⟩
    · rintro wd info' hinfo' b name above ⟨wdb, infob, hmark, hinfob, rfl⟩ hpath
      by_cases heq : wdb = event.wd
      · rw [heq, hinfo] at hinfob
        refine .inr (hpending ?_)
        rw [hpath, ← Option.some.inj hinfob]
        exact List.prefix_append _ _
      · exact .inl ⟨wdb, infob, hdrops.kept b wdb hmark heq,
          (hdrops.watches _ _).mpr ⟨hinfob, heq⟩, rfl⟩
  refine ⟨hdropped.consume rfl rfl ?_ ?_ ?_,
    (hkept.drops hdrops (hkept.inverse.removeWatch _)).tail⟩
  · intro before path hdoomed
    exact hdoomed.tail (by simp [hmask])
  · simp [hmask]
  · intro b wd info' d name _ _ _ _ hannounces
    simpa [hmask] using hannounces.mask

/-- The watch of a directory that was removed goes: nothing has its mark. -/
theorem covered_deleteSelf (h : Covered t root base w (event :: rest))
    (hkept : Kept t base rootId w (event :: rest))
    (hmask : event.mask = .deleteSelf) :
    Covered t root base (w.removeWatch event.wd) rest ∧
      Kept t base rootId (w.removeWatch event.wd) rest := by
  have hdrops := drops_removeWatch w event.wd
  have hmoves : (w.removeWatch event.wd).pendingMoves = w.pendingMoves :=
    pendingMoves_removeWatches w [event.wd]
  have hunmarked : ∀ c, w.fd.marks c ≠ some event.wd :=
    hkept.deleted event (by simp) hmask
  have hdropped : Covered t root base (w.removeWatch event.wd)
      (event :: rest) := by
    refine h.drops_spared hkept hdrops ?_ ?_ ?_ ?_
    · intro wd hmark heq
      exact hunmarked root (heq ▸ hmark)
    · intro wd info _ before hsub hdoomed
      rcases hdoomed with hpend | ⟨e, hin, hfrom, info', name', hinfo', hrest⟩
      · exact .inl (hmoves ▸ hpend)
      · refine .inr ⟨e, hin, hfrom, info', name',
          (hdrops.watches _ _).mpr ⟨hinfo', ?_⟩, hrest⟩
        intro heq
        rcases List.mem_cons.mp (hsub hin) with rfl | hlater
        · rw [hmask] at hfrom
          cases hfrom
        · exact (List.pairwise_cons.mp hkept.deleted_last).1 e hlater hmask
            hfrom heq.symm
    · rintro wd info _ b name above ⟨wdb, infob, hmark, hinfob, rfl⟩ _
      have hne : wdb ≠ event.wd := fun heq => hunmarked b (heq ▸ hmark)
      exact .inl ⟨wdb, infob, hdrops.kept b wdb hmark hne,
        (hdrops.watches _ _).mpr ⟨hinfob, hne⟩, rfl⟩
    · intro d wd _ _ _ _ _ hmark _ _ heq
      exact absurd (heq ▸ hmark) (hunmarked d)
  refine ⟨hdropped.consume rfl rfl ?_ ?_ ?_,
    (hkept.drops hdrops (hkept.inverse.removeWatch _)).tail⟩
  · intro before path hdoomed
    exact hdoomed.tail (by simp [hmask])
  · intro _
    cases hlookup : (w.removeWatch event.wd).watches.lookup event.wd with
    | none => rfl
    | some info => exact absurd rfl ((hdrops.watches _ _).mp hlookup).2
  · intro b wd info' d name _ _ _ _ hannounces
    simpa [hmask] using hannounces.mask

/-- A move away from a path is pending from then on. -/
theorem covered_movedFrom {info : WatchInfo} {move : PendingMove}
    (h : Covered t root base w (event :: rest))
    (hkept : Kept t base rootId w (event :: rest))
    (hmask : event.mask = .movedFrom)
    (hinfo : w.watches.lookup event.wd = some info)
    (hmove : move.oldPath = info.path ++ event.name.toList)
    (hnamed : ∃ name, event.name = some name)
    (hroot : move.rootId = info.rootId) (hdirectory : move.isDirectory = true) :
    let w' := { w with
      pendingMoves := w.pendingMoves.insert event.cookie move }
    Covered t root base w' rest ∧ Kept t base rootId w' rest := by
  intro w'
  have hfree := hkept.cookie_free event (by simp) hmask
  obtain ⟨hbase, hrootId⟩ := hkept.watch_below event.wd info hinfo
  constructor
  · refine h.consume rfl rfl ?_ ?_ ?_
    · rintro before path (⟨cookie, move', hmove', hpath⟩ |
        ⟨e, hin, hfrom, info', name', hinfo', hname', hpath⟩)
      · refine .inl ⟨cookie, move', ?_, hpath⟩
        refine (lookup_insert_iff _ _ _ _ _).mpr (.inr ⟨?_, hmove'⟩)
        intro heq
        rw [heq, hfree] at hmove'
        cases hmove'
      · rcases List.mem_cons.mp hin with rfl | hin
        · refine .inl ⟨e.cookie, move, AList.lookup_insert _, ?_⟩
          rw [hinfo] at hinfo'
          rw [hmove, hname', Option.some.inj hinfo']
          exact hpath
        · exact .inr ⟨e, hin, hfrom, info', name', hinfo', hname', hpath⟩
    · simp [hmask]
    · intro b wd info' d name _ _ _ _ hannounces
      simpa [hmask] using hannounces.mask
  · have htail := hkept.tail
    refine { numbered := ⟨hkept.numbered.watch_lt, hkept.numbered.mark_watched⟩
             inverse := hkept.inverse.congr rfl rfl
             marks_inj := hkept.marks_inj
             marks_exist := hkept.marks_exist
             watch_below := hkept.watch_below
             move_below := ?_
             queue_lt := htail.queue_lt
             queue_form := htail.queue_form
             cookies := htail.cookies
             cookie_free := ?_
             deleted := htail.deleted
             deleted_last := htail.deleted_last }
    · intro cookie move' hmove'
      rcases (lookup_insert_iff _ _ _ _ _).mp hmove' with
        ⟨_, rfl⟩ | ⟨_, hold⟩
      · obtain ⟨name, hname⟩ := hnamed
        refine ⟨?_, ?_, hroot.trans hrootId, hdirectory⟩
        · rw [hmove]
          exact hbase.trans (List.prefix_append _ _)
        · intro heq
          have hle := hbase.length_le
          have hlen := congrArg List.length heq
          simp [hmove, hname] at hlen
          omega
      · exact hkept.move_below cookie move' hold
    · intro e he hfrom
      refine (AList.lookup_insert_ne ?_).trans (htail.cookie_free e he hfrom)
      exact ((List.pairwise_cons.mp hkept.cookies).1 e he hmask hfrom).symm

end Handle

omit [DecidableEq δ] in
/-- A walk meets a directory once, at one path. -/
theorem Walks.oneToOne {walk : WatchPath → List (WatchPath × δ)}
    (hwalk : Walks root base t walk) (htop : root ∈ t.tops) {path : WatchPath}
    (hbelow : base <+: path) : OneToOne (walk path) := by
  have hmem := hwalk path hbelow
  constructor
  · intro y hy z hz heq
    have hat := ((hmem y).mp hy).2
    rw [heq] at hat
    exact hat.dir_unique ((hmem z).mp hz).2
  · intro y hy z hz heq
    have hat := ((hmem y).mp hy).2
    rw [heq] at hat
    exact hat.path_unique (t.top_link root htop) ((hmem z).mp hz).2

/-- A walk that fits watches what the event announces. -/
theorem covered_walk {rest : List InotifyEvent} {event : InotifyEvent}
    {info : WatchInfo} {walk : WatchPath → List (WatchPath × δ)}
    (htop : root ∈ t.tops) (h : Covered t root base w (event :: rest))
    (hkept : Kept t base rootId w (event :: rest))
    (hmask : event.mask = .create ∨ event.mask = .movedTo)
    (hbase : base <+: info.path) (hrootId : info.rootId = rootId)
    (hinfo : ∀ info', w.watches.lookup event.wd = some info' → info' = info)
    (hwalk : Walks root base t walk)
    (hfits : Fits t w walk (info.path ++ event.name.toList)) :
    let w' := addWatchRecursive walk
      { rootId := info.rootId, path := info.path ++ event.name.toList } w
    Covered t root base w' rest ∧ Kept t base rootId w' rest := by
  intro w'
  subst hrootId
  let path := info.path ++ event.name.toList
  have hbelow : base <+: path := hbase.trans (List.prefix_append _ _)
  have hmem := hwalk path hbelow
  have hseen := hwalk.oneToOne htop hbelow
  obtain ⟨hadds, hnumbered, hwatched⟩ := adds_addWatchRecursive
    { rootId := info.rootId, path := path } hseen hkept.numbered
    hkept.inverse (fun z hz => (hfits z hz).1)
  have hkept' : Kept t base info.rootId w' (event :: rest) := by
    refine hkept.adds hadds hnumbered (hkept.inverse.addWatchRecursive _ _)
      hseen ?_
    intro z hz
    have hat := ((hmem z).mp hz).2
    exact ⟨hat.base_prefix, hat.exists_dir (.inl htop)⟩
  have hcovered : Covered t root base w' (event :: rest) :=
    h.adds hkept hadds hbelow hmem hwatched (fun z hz => (hfits z hz).2)
  refine ⟨hcovered.consume rfl rfl ?_ ?_ ?_, hkept'.tail⟩
  · intro before q hdoomed
    refine hdoomed.tail ?_
    intro hfrom
    rcases hmask with hmask | hmask
    · simp [hmask] at hfrom
    · simp [hmask] at hfrom
  · intro hdeletes
    rcases hmask with hmask | hmask
    · simp [hmask] at hdeletes
    · simp [hmask] at hdeletes
  · intro b wd info' d name hmark hinfo' hdoomed hlink hannounces
    have hat := hcovered.at_path hkept' ⟨wd, info', hmark, hinfo', rfl⟩ hdoomed
    have hlt := hkept.queue_lt event (by simp)
    have hinfo'' := hinfo'
    rw [← hannounces.wd, hadds.watches _ hlt] at hinfo''
    have hpath : path = info'.path ++ [name] := by
      show info.path ++ event.name.toList = _
      rw [hinfo info' hinfo'', hannounces.name]
      rfl
    rw [← hpath]
    refine hwatched (path, d) ((hmem _).mpr ⟨List.prefix_rfl, ?_⟩)
    show t.At root base d path
    rw [hpath]
    exact .child hlink hat

/-- What the handling of an event keeps. -/
theorem covered_handleEvent {rest : List InotifyEvent} {event : InotifyEvent}
    {walk : WatchPath → List (WatchPath × δ)} (now : Nat)
    (htop : root ∈ t.tops) (h : Covered t root base w (event :: rest))
    (hkept : Kept t base rootId w (event :: rest))
    (hwalk : Walks root base t walk)
    (hmeets : ∀ info, w.watches.lookup event.wd = some info →
      MeetsHandle t root base w walk (event :: rest) event
        (info.path ++ event.name.toList)) :
    Covered t root base (handleEvent now walk w event).1 rest ∧
      Kept t base rootId (handleEvent now walk w event).1 rest := by
  obtain ⟨hdirectory, hcookie, hnamed⟩ := hkept.queue_form event (by simp)
  cases hinfo : w.watches.lookup event.wd with
  | none =>
      -- the event of a watch that is gone
      have heq : (handleEvent now walk w event).1 = w := by
        unfold handleEvent
        rw [hinfo]
        split <;> rfl
      rw [heq]
      refine ⟨h.consume rfl rfl ?_ (fun _ => hinfo) ?_, hkept.tail⟩
      · exact fun _ _ hdoomed => hdoomed.tail fun _ => hinfo
      · intro b wd info d name _ hinfo' _ _ hannounces
        rw [← hannounces.wd, hinfo] at hinfo'
        cases hinfo'
  | some info =>
      have hwatch := hkept.watch_below event.wd info hinfo
      have hcondition := hmeets info hinfo
      cases hmask : event.mask with
      | movedFrom =>
          have heq : (handleEvent now walk w event).1 = { w with
              pendingMoves := w.pendingMoves.insert event.cookie
                { rootId := info.rootId
                  oldPath := info.path ++ event.name.toList
                  isDirectory := event.isDirectory, seenAt := now } } := by
            simp [handleEvent, hmask, hinfo, hcookie (.inl hmask)]
          rw [heq]
          exact covered_movedFrom h hkept hmask hinfo rfl
            (hnamed hmask) rfl hdirectory
      | movedTo =>
          cases hmove : w.pendingMoves.lookup event.cookie with
          | none =>
              have heq : (handleEvent now walk w event).1 = addWatchRecursive
                  walk { rootId := info.rootId
                         path := info.path ++ event.name.toList } w := by
                simp [handleEvent, hmask, hinfo, hmove, addWatchIf, hdirectory]
              rw [heq]
              refine covered_walk htop h hkept (.inr hmask) hwatch.1 hwatch.2
                ?_ hwalk (hcondition.enter hmask hmove)
              intro info' hinfo'
              rw [hinfo] at hinfo'
              exact (Option.some.inj hinfo').symm
          | some move =>
              obtain ⟨hspares, hfits⟩ := hcondition.move hmask move hmove
              obtain ⟨hdropped, hkept'⟩ :=
                covered_dropMove h hkept hmove hspares
              have hroot : move.rootId = info.rootId :=
                (hkept.move_below _ move hmove).2.2.1.trans hwatch.2.symm
              have heq : (handleEvent now walk w event).1 = addWatchRecursive
                  walk { rootId := info.rootId
                         path := info.path ++ event.name.toList }
                  (w.dropMove event.cookie move.oldPath) := by
                simp [handleEvent, hmask, hinfo, hmove, hroot, addWatchIf,
                  hdirectory, hcookie (.inr hmask), finishMove_eq]
              rw [heq]
              refine covered_walk htop hdropped hkept' (.inr hmask) hwatch.1
                hwatch.2 ?_ hwalk hfits
              intro info' hinfo'
              have hold := ((drops_dropMove w _ _).watches _ _).mp hinfo'
              rw [hinfo] at hold
              exact (Option.some.inj hold.1).symm
      | create =>
          have heq : (handleEvent now walk w event).1 = addWatchRecursive
              walk { rootId := info.rootId
                     path := info.path ++ event.name.toList } w := by
            simp [handleEvent, hmask, hinfo, addWatchIf, hdirectory]
          rw [heq]
          refine covered_walk htop h hkept (.inl hmask) hwatch.1 hwatch.2 ?_
            hwalk (hcondition.create hmask)
          intro info' hinfo'
          rw [hinfo] at hinfo'
          exact (Option.some.inj hinfo').symm
      | moveSelf =>
          have heq : (handleEvent now walk w event).1 =
              w.removeWatch event.wd := by
            simp [handleEvent, hmask, hinfo]
          rw [heq]
          exact covered_moveSelf h hkept hmask hinfo (hcondition.moveSelf hmask)
      | deleteSelf =>
          have heq : (handleEvent now walk w event).1 =
              w.removeWatch event.wd := by
            simp [handleEvent, hmask, hinfo]
          rw [heq]
          exact covered_deleteSelf h hkept hmask
      | _ =>
          -- the other events are only reported
          have heq : (handleEvent now walk w event).1 = w := by
            simp [handleEvent, hmask, hinfo]
          rw [heq]
          refine ⟨h.consume rfl rfl ?_ (by simp [hmask]) ?_, hkept.tail⟩
          · exact fun _ _ hdoomed => hdoomed.tail (by simp [hmask])
          · intro b wd info d name _ _ _ _ hannounces
            simpa [hmask] using hannounces.mask

/-! ## Old moves -/

omit [DecidableEq δ] in
/-- Dropping one move spares what dropping another one spares. -/
theorem Spares.dropMove {queue : List InotifyEvent} {cookie : Nat}
    {oldPath path : WatchPath}
    (h : Spares t root base w queue (w.RecordedUnder path)) :
    Spares t root base (w.dropMove cookie oldPath) queue
      ((w.dropMove cookie oldPath).RecordedUnder path) := by
  have hdrops := drops_dropMove w cookie oldPath
  intro d wd info b wdb above name hmark hinfo hat hgone hlink hmarkb habove
    hpath hstays
  have hold := ((hdrops.watches wd info).mp hinfo).1
  refine h d wd info b wdb above name (hdrops.marks d wd hmark) hold hat ?_
    hlink (hdrops.marks b wdb hmarkb) ((hdrops.watches _ _).mp habove).1 hpath ?_
  · obtain ⟨info', hinfo', hunder⟩ := hgone
    exact ⟨info', ((hdrops.watches _ _).mp hinfo').1, hunder⟩
  · rintro ⟨info', hinfo', hunder⟩
    rw [((hdrops.watches _ _).mp habove).1] at hinfo'
    exact hstays ⟨above, habove, Option.some.inj hinfo' ▸ hunder⟩

omit [DecidableEq δ] in
/-- What the draining of the old moves keeps. -/
theorem covered_drainExpiredMoves {queue : List InotifyEvent} {now : Nat}
    (h : Covered t root base w queue) (hkept : Kept t base rootId w queue)
    (hspares : ∀ cookie move, w.pendingMoves.lookup cookie = some move →
      ¬now - move.seenAt < 500 →
        Spares t root base w queue (w.RecordedUnder move.oldPath)) :
    Covered t root base (drainExpiredMoves now w).1 queue ∧
      Kept t base rootId (drainExpiredMoves now w).1 queue := by
  -- the moves that are still to be looked at are pending
  have main : ∀ (entries : List (Sigma fun _ : Nat => PendingMove))
      (u : InotifyWatcher δ) (events : List WatchEvent),
      (entries.map Sigma.fst).Nodup →
      (∀ entry ∈ entries, u.pendingMoves.lookup entry.1 = some entry.2) →
      (∀ entry ∈ entries, ¬now - entry.2.seenAt < 500 →
        Spares t root base u queue (u.RecordedUnder entry.2.oldPath)) →
      Covered t root base u queue → Kept t base rootId u queue →
        Covered t root base (entries.foldl (expireMove now) (u, events)).1
            queue ∧
          Kept t base rootId (entries.foldl (expireMove now) (u, events)).1
            queue := by
    intro entries
    induction entries with
    | nil =>
        intro u events _ _ _ hu hku
        exact ⟨hu, hku⟩
    | cons entry entries ih =>
        intro u events hnodup hlookup hspares hu hku
        obtain ⟨hnotin, hnodup'⟩ := List.nodup_cons.mp hnodup
        have hentry := hlookup entry (by simp)
        have hlookup' : ∀ e ∈ entries,
            u.pendingMoves.lookup e.1 = some e.2 :=
          fun e he => hlookup e (by simp [he])
        have hspares' : ∀ e ∈ entries, ¬now - e.2.seenAt < 500 →
            Spares t root base u queue (u.RecordedUnder e.2.oldPath) :=
          fun e he => hspares e (by simp [he])
        rw [List.foldl_cons]
        by_cases hage : now - entry.2.seenAt < 500
        · have heq : expireMove now (u, events) entry = (u, events) := by
            unfold expireMove
            exact if_pos hage
          rw [heq]
          exact ih u events hnodup' hlookup' hspares' hu hku
        · have heq := expireMove_eq u events
            (hku.move_below entry.1 entry.2 hentry).2.2.2 hage
          obtain ⟨hdropped, hkdropped⟩ := covered_dropMove hu hku hentry
            (hspares entry (by simp) hage)
          rw [← Prod.eta (expireMove now (u, events) entry), heq]
          refine ih _ _ hnodup' ?_ ?_ hdropped hkdropped
          · intro e he
            refine (lookup_erase_iff _ _ _ _).mpr ⟨hlookup' e he, ?_⟩
            intro hkey
            exact hnotin (List.mem_map.mpr ⟨e, he, hkey⟩)
          · intro e he hage'
            exact (hspares' e he hage').dropMove
  unfold drainExpiredMoves
  refine main w.pendingMoves.entries w [] w.pendingMoves.nodupKeys ?_ ?_ h hkept
  · intro entry hin
    exact AList.mem_lookup_iff.mpr hin
  · intro entry hin hage
    exact hspares entry.1 entry.2 (AList.mem_lookup_iff.mpr hin) hage

/-! ## Runs -/

/-- The start: every directory under the root is watched. -/
theorem covered_addedRoot {s : WatchState δ}
    (h : AddedRoot root base rootId s) :
    Covered s.tree root base s.watcher s.watcher.fd.queue ∧
      Kept s.tree base rootId s.watcher s.watcher.fd.queue := by
  obtain ⟨walk, hwalk, hwatcher⟩ := h.watcher
  have hmem := hwalk base List.prefix_rfl
  have hseen := hwalk.oneToOne h.top List.prefix_rfl
  have hnumbered : WellNumbered ({} : InotifyWatcher δ) := by
    refine ⟨?_, ?_⟩
    · intro wd info hinfo
      simp at hinfo
    · intro d wd hmark
      cases hmark
  have hinverse : Inverse ({} : InotifyWatcher δ) := by
    refine ⟨?_, ?_⟩
    · intro wd info hinfo
      simp at hinfo
    · intro path wd hwd
      simp at hwd
  obtain ⟨hadds, hnumbered', hwatched⟩ := adds_addWatchRecursive
    { rootId := rootId, path := base } hseen hnumbered hinverse
    (fun z hz => .inl ⟨rfl, by simp⟩)
  rw [← hwatcher] at hadds hnumbered' hwatched
  have hinverse' : s.watcher.Inverse := by
    rw [hwatcher]
    exact hinverse.addWatchRecursive _ _
  have hempty : Kept s.tree base rootId ({} : InotifyWatcher δ) [] := by
    refine ⟨hnumbered, hinverse, ?_, ?_, ?_, ?_, ?_, ?_, ?_, ?_, ?_, ?_⟩
    all_goals simp
  have hkept := hempty.adds hadds hnumbered' hinverse' hseen (by
    intro z hz
    have hat := ((hmem z).mp hz).2
    exact ⟨hat.base_prefix, hat.exists_dir (.inl h.top)⟩)
  have hqueue : s.watcher.fd.queue = [] := by
    rw [hwatcher]
    simp
  rw [hqueue]
  refine ⟨⟨?_, ?_, ?_, ?_⟩, hkept⟩
  · exact hwatched (base, root) ((hmem _).mpr ⟨List.prefix_rfl, .top⟩)
  · intro wd info hinfo
    have hlt : ({} : InotifyWatcher δ).fd.nextWd ≤ wd := by
      by_contra hlt
      rw [hadds.watches wd (by omega)] at hinfo
      simp at hinfo
    obtain ⟨_, d, hin, hmark⟩ := hadds.added wd info hlt hinfo
    refine .inl ⟨d, hmark, ?_⟩
    obtain ⟨hbelow, hat⟩ := (hmem _).mp hin
    by_cases hpath : info.path = base
    · refine .inl ⟨?_, hpath⟩
      rw [hpath] at hat
      exact hat.dir_unique .top
    · obtain ⟨b, name, above, hlink, hparent, heq, habove⟩ :=
        hat.below_cases List.prefix_rfl hbelow hpath
      exact .inr ⟨b, name, above, hlink,
        hwatched (above, b) ((hmem _).mpr ⟨habove, hparent⟩), heq⟩
  · intro b wd info hmark hinfo
    rcases hadds.fresh b wd hmark with hold | ⟨_, info', hinfo', hin⟩
    · cases hold
    · rw [hinfo] at hinfo'
      rw [← Option.some.inj hinfo'] at hin
      obtain ⟨hbelow, hat⟩ := (hmem _).mp hin
      refine .inr ?_
      intro d name hlink
      exact .inl (hwatched (info.path ++ [name], d) ((hmem _).mpr
        ⟨hbelow.trans (List.prefix_append _ _), .child hlink hat⟩))
  · intro before event after hqueue
    simp at hqueue

/-- What every step that meets the condition keeps. -/
theorem covered_step {s s' : WatchState δ} {action : WatchAction δ}
    (hstep : WatchStep root base s action s') (hmeets : Meets root base s action)
    (htop : root ∈ s.tree.tops)
    (h : Covered s.tree root base s.watcher s.watcher.fd.queue)
    (hkept : Kept s.tree base rootId s.watcher s.watcher.fd.queue) :
    root ∈ s'.tree.tops ∧
      Covered s'.tree root base s'.watcher s'.watcher.fd.queue ∧
      Kept s'.tree base rootId s'.watcher s'.watcher.fd.queue := by
  cases hstep with
  | mkdir hmakes =>
      exact ⟨hmakes.tops ▸ htop, covered_mkdir h hkept hmakes⟩
  | rmdir hremoves =>
      exact ⟨hremoves.tops ▸ htop, covered_rmdir htop h hkept hremoves⟩
  | rename hmoves hcookie =>
      exact ⟨hmoves.tops ▸ htop, covered_rename htop h hkept hmoves hcookie⟩
  | tick => exact ⟨htop, h, hkept⟩
  | @handleEvent event rest walk hqueue hwalk =>
      refine ⟨htop, ?_⟩
      rw [hqueue] at h hkept
      have hhandled := covered_handleEvent s.clock htop (h.afterRead rest)
        (hkept.afterRead rest) hwalk
        (fun info hinfo => hmeets event rest info hqueue hinfo)
      have hrest : (handleEvent s.clock walk (s.watcher.afterRead rest)
          event).1.fd.queue = rest := by
        simp [afterRead, withFd]
      dsimp only
      rw [hrest]
      exact hhandled
  | drainExpiredMoves =>
      refine ⟨htop, ?_⟩
      have hdrained := covered_drainExpiredMoves h hkept hmeets
      rw [← queue_drainExpiredMoves s.clock s.watcher] at hdrained
      exact hdrained

/-- The watches cover the tree: each directory under the root is watched under
its path, each watch is on such a directory, and the tables are inverse to each
other. -/
structure Covers (root : δ) (base : WatchPath) (s : WatchState δ) : Prop where
  watched : ∀ d path, s.tree.At root base d path → s.watcher.WatchedAt d path
  under : ∀ wd info, s.watcher.watches.lookup wd = some info →
    ∃ d, s.watcher.fd.marks d = some wd ∧ s.tree.At root base d info.path
  inverse : s.watcher.Inverse

/-- In every run from `addRoot` whose steps meet the condition, the watches cover
the tree whenever all events have been consumed and no move is pending. -/
theorem watches_cover_tree {s s' : WatchState δ}
    (hstart : AddedRoot root base rootId s)
    (hrun : Run (Guarded (WatchStep root base) (Meets root base)) s s')
    (hqueue : s'.watcher.fd.queue = [])
    (hmoves : s'.watcher.pendingMoves = ∅) : Covers root base s' := by
  have hkeeps : Preserves (Guarded (WatchStep root base) (Meets root base))
      (fun s => root ∈ s.tree.tops ∧
        Covered s.tree root base s.watcher s.watcher.fd.queue ∧
        Kept s.tree base rootId s.watcher s.watcher.fd.queue) := by
    rintro a b ⟨action, hstep, hmeets⟩ ⟨htop, hcovered, hkept⟩
    exact covered_step hstep hmeets htop hcovered hkept
  obtain ⟨_, hcovered, hkept⟩ :=
    hkeeps.run hrun ⟨hstart.top, covered_addedRoot hstart⟩
  rw [hqueue] at hcovered hkept
  obtain ⟨hwatched, hunder⟩ := hcovered.complete hkept hmoves
  exact ⟨hwatched, hunder, hkept.inverse⟩

/-! ## A directory that comes, moves out and comes again -/

/-- The tops have no link, and no place is given twice. -/
abbrev LinksValid (links : List (Nat × Nat × String)) : Prop :=
  (∀ l ∈ links, l.1 ≠ 0 ∧ l.1 ≠ 9) ∧ (links.map Prod.snd).Nodup

/-- A tree given by its links; `0` is watched and `9` is outside. -/
def treeOf (links : List (Nat × Nat × String)) (hvalid : LinksValid links) :
    DirTree Nat String where
  tops := [0, 9]
  link d := (links.find? (fun l => l.1 = d)).map Prod.snd
  top_link := by
    intro d hd
    rw [Option.map_eq_none_iff, List.find?_eq_none]
    intro l hl heq
    have hne := hvalid.1 l hl
    simp only [decide_eq_true_eq] at heq
    simp only [List.mem_cons, List.not_mem_nil, or_false] at hd
    omega
  unique := by
    intro d e place hd he
    obtain ⟨l, hl, rfl⟩ := Option.map_eq_some_iff.mp hd
    obtain ⟨m, hm, hplace⟩ := Option.map_eq_some_iff.mp he
    have heq := List.inj_on_of_nodup_map hvalid.2
      (List.mem_of_find?_eq_some hm) (List.mem_of_find?_eq_some hl) hplace
    have hkey := List.find?_some hl
    have hkey' := List.find?_some hm
    simp only [decide_eq_true_eq] at hkey hkey'
    rw [← hkey, ← hkey', heq]

/-- What a walk of the tree yields, from the directories with their paths. -/
def listed (dirs : List (WatchPath × Nat)) (path : WatchPath) :
    List (WatchPath × Nat) :=
  dirs.filter (fun z => path.isPrefixOf z.1)

theorem walks_listed {links : List (Nat × Nat × String)}
    (hvalid : LinksValid links) {dirs : List (WatchPath × Nat)}
    {base : WatchPath} (hroot : (base, 0) ∈ dirs)
    (hclosed : ∀ l ∈ links, ∀ z ∈ dirs, z.2 = l.2.1 →
      (z.1 ++ [l.2.2], l.1) ∈ dirs)
    (hat : ∀ z ∈ dirs, (treeOf links hvalid).At 0 base z.2 z.1) :
    Walks 0 base (treeOf links hvalid) (listed dirs) := by
  have hin : ∀ {d p}, (treeOf links hvalid).At 0 base d p →
      (p, d) ∈ dirs := by
    intro d p h
    induction h with
    | top => exact hroot
    | @child d b name p hlink _ ih =>
        obtain ⟨l, hl, hplace⟩ := Option.map_eq_some_iff.mp hlink
        have hkey := List.find?_some hl
        simp only [decide_eq_true_eq] at hkey
        have hchild := hclosed l (List.mem_of_find?_eq_some hl) (p, b) ih
          (by rw [hplace])
        rw [hplace, hkey] at hchild
        exact hchild
  intro path _ z
  simp only [listed, List.mem_filter, List.isPrefixOf_iff_prefix]
  constructor
  · exact fun h => ⟨h.2, hat z h.1⟩
  · exact fun h => ⟨hin h.2, h.1⟩

/-- The watched directory, empty. -/
def emptyRoot : WatchState Nat where
  tree := treeOf [] (by decide)
  watcher := addWatchRecursive (listed [(["r"], 0)])
    { rootId := "root", path := ["r"] } {}

/-- A directory `a` has been made in it. -/
def madeDir : WatchState Nat :=
  { emptyRoot with
    tree := treeOf [(1, 0, "a")] (by decide)
    watcher := emptyRoot.watcher.withFd
      (fdMkdir emptyRoot.watcher.fd 0 "a") }

/-- The first event in the queue is handled. -/
def handled (dirs : List (WatchPath × Nat)) (s : WatchState Nat) :
    WatchState Nat :=
  match s.watcher.fd.queue with
  | [] => s
  | event :: rest =>
      { s with
        watcher := (handleEvent s.clock (listed dirs)
          (s.watcher.afterRead rest) event).1 }

/-- The event about it has been handled. -/
def watchedDir : WatchState Nat :=
  handled [(["r"], 0), (["r", "a"], 1)] madeDir

/-- It is moved out of the root. -/
def movedOut : WatchState Nat :=
  { watchedDir with
    tree := treeOf [(1, 9, "a")] (by decide)
    watcher := watchedDir.watcher.withFd
      (fdRename watchedDir.watcher.fd 1 0 "a" 9 "a" none 7) }

/-- Another `a` is made. -/
def remade : WatchState Nat :=
  { movedOut with
    tree := treeOf [(2, 0, "a"), (1, 9, "a")] (by decide)
    watcher := movedOut.watcher.withFd
      (fdMkdir movedOut.watcher.fd 0 "a") }

/-- All events have been handled. -/
def polled : WatchState Nat :=
  handled [(["r"], 0), (["r", "a"], 2)]
    (handled [(["r"], 0), (["r", "a"], 2)]
      (handled [(["r"], 0), (["r", "a"], 2)] remade))

/-- Half a second later the move has expired. -/
def drained : WatchState Nat :=
  { polled with
    clock := 500
    watcher := (drainExpiredMoves 500 polled.watcher).1 }

theorem step_handled {s : WatchState Nat} {dirs : List (WatchPath × Nat)}
    {base : WatchPath} {event : InotifyEvent} {rest : List InotifyEvent}
    (hqueue : s.watcher.fd.queue = event :: rest)
    (hwalk : Walks 0 base s.tree (listed dirs)) :
    WatchStep 0 base s (.handleEvent (listed dirs)) (handled dirs s) := by
  unfold handled
  rw [hqueue]
  exact .handleEvent hqueue hwalk

theorem addedRoot_emptyRoot : AddedRoot 0 ["r"] "root" emptyRoot := by
  refine ⟨by simp [emptyRoot, treeOf], listed [(["r"], 0)], ?_, rfl⟩
  refine walks_listed (by decide) (by simp) (by simp) ?_
  intro z hz
  obtain rfl := List.mem_singleton.mp hz
  exact .top

theorem walks_madeDir : Walks 0 ["r"] madeDir.tree
    (listed [(["r"], 0), (["r", "a"], 1)]) := by
  refine walks_listed (by decide) (by simp) (by decide) ?_
  intro z hz
  rcases List.mem_cons.mp hz with rfl | hz
  · exact .top
  · obtain rfl := List.mem_singleton.mp hz
    exact .child (p := ["r"]) rfl .top

theorem step_madeDir :
    WatchStep 0 ["r"] emptyRoot (.mkdir 1 0 "a") madeDir := by
  refine .mkdir ⟨?_, .inl (by simp [emptyRoot, treeOf]), rfl, rfl, ?_⟩
  · rintro (htop | ⟨place, hplace⟩)
    · simp [emptyRoot, treeOf] at htop
    · cases hplace
  · intro c hc
    simp [emptyRoot, treeOf, Ne.symm hc]

theorem step_watchedDir : WatchStep 0 ["r"] madeDir
    (.handleEvent (listed [(["r"], 0), (["r", "a"], 1)])) watchedDir :=
  step_handled rfl walks_madeDir

/-- The watches of a new directory. -/
theorem watches_cover_tree_made : Covers 0 ["r"] watchedDir := by
  have hmade : Guarded (WatchStep 0 ["r"]) (Meets 0 ["r"]) emptyRoot madeDir :=
    ⟨_, step_madeDir, trivial⟩
  have hwatched : Guarded (WatchStep 0 ["r"]) (Meets 0 ["r"]) madeDir
      watchedDir := by
    refine ⟨_, step_watchedDir, ?_⟩
    intro event rest info hqueue hinfo
    obtain ⟨rfl, rfl⟩ := List.cons_eq_cons.mp
      (show [{ wd := 1, mask := .create, name := some "a" }] =
        event :: rest from hqueue)
    obtain rfl := Option.some.inj
      (show some info = some { rootId := "root", path := ["r"] } from
        hinfo.symm)
    refine ⟨by simp, fun _ => ?_, by simp, by simp⟩
    intro z hz
    obtain rfl := List.mem_singleton.mp
      (show z ∈ [(["r", "a"], 1)] from hz)
    refine ⟨.inl ⟨rfl, rfl⟩, fun _ => ⟨0, "a", ["r"], rfl, ?_, rfl⟩⟩
    exact ⟨1, { rootId := "root", path := ["r"] }, rfl, rfl, rfl⟩
  exact watches_cover_tree addedRoot_emptyRoot
    ((Relation.ReflTransGen.single hmade).tail hwatched) rfl rfl

theorem step_movedOut :
    WatchStep 0 ["r"] watchedDir (.rename 1 9 "a" none 7) movedOut := by
  refine .rename (⟨rfl, .inl ?_, ?_, ?_, ?_, ?_, rfl, rfl, ?_, ?_⟩ :
    watchedDir.tree.Moves 1 0 "a" 9 "a" none movedOut.tree) ⟨by decide, rfl, ?_⟩
  · show 9 ∈ [0, 9]
    simp
  · intro base p hat
    cases hat with
    | child hlink _ => cases hlink
  · decide
  · intro e
    constructor
    · intro h
      cases h
    · intro h
      have hplace := List.mem_of_find?_eq_some
        (Option.map_eq_some_iff.mp h).choose_spec.1
      have heq := (Option.map_eq_some_iff.mp h).choose_spec.2
      rw [List.mem_singleton.mp hplace] at heq
      cases heq
  · intro e he
    cases he
  · intro e he
    cases he
  · intro c hc _
    show ((List.find? _ [(1, 9, "a")]).map _ : Option (Nat × String)) =
      (List.find? _ [(1, 0, "a")]).map _
    simp [Ne.symm hc]
  · intro event hin
    cases hin

theorem step_remade : WatchStep 0 ["r"] movedOut (.mkdir 2 0 "a") remade := by
  refine .mkdir ⟨?_, .inl (by simp [movedOut, treeOf]), rfl, rfl, ?_⟩
  · rintro (htop | ⟨place, hplace⟩)
    · simp [movedOut, treeOf] at htop
    · cases hplace
  · intro c hc
    simp [movedOut, treeOf, List.find?_cons, Ne.symm hc]

/-- The new directory of that name is not watched once the old one's move has
expired: its watch is dropped with the old path. -/
theorem not_watches_cover_tree :
    ¬∀ s s' : WatchState Nat, AddedRoot 0 ["r"] "root" s →
      Run (fun a b => ∃ action, WatchStep 0 ["r"] a action b) s s' →
      s'.watcher.fd.queue = [] → s'.watcher.pendingMoves = ∅ →
        Covers 0 ["r"] s' := by
  intro h
  have hwalk : Walks 0 ["r"] remade.tree
      (listed [(["r"], 0), (["r", "a"], 2)]) := by
    refine walks_listed (by decide) (by simp) (by decide) ?_
    intro z hz
    rcases List.mem_cons.mp hz with rfl | hz
    · exact .top
    · obtain rfl := List.mem_singleton.mp hz
      exact .child (p := ["r"]) rfl .top
  have hrun : Run (fun a b => ∃ action, WatchStep 0 ["r"] a action b)
      emptyRoot drained := by
    refine (Relation.ReflTransGen.single ⟨_, step_madeDir⟩).tail
      ⟨_, step_watchedDir⟩ |>.tail ⟨_, step_movedOut⟩
      |>.tail ⟨_, step_remade⟩ |>.tail ⟨_, step_handled rfl hwalk⟩
      |>.tail ⟨_, step_handled rfl hwalk⟩
      |>.tail ⟨_, step_handled rfl hwalk⟩ |>.tail ⟨.tick 500, .tick⟩
      |>.tail ⟨_, .drainExpiredMoves⟩
  have hcovers := h emptyRoot drained addedRoot_emptyRoot hrun rfl rfl
  have hat : drained.tree.At 0 ["r"] 2 ["r", "a"] :=
    .child (p := ["r"]) rfl .top
  obtain ⟨wd, info, hmark, _⟩ := hcovers.watched 2 ["r", "a"] hat
  cases hmark

end ArkiveSync.InotifyWatcher
