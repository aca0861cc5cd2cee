import ArkiveSync.Model.WatchRuns

/-!
# The polls of the watcher on inotify

`poll` handles the records it reads, one after the other, and then drains the
moves that have waited for their other half for too long.  A record is about a
path: that of its watch at that time, with the name of the record.  The event it
becomes may come in a later poll.

## Main results

* `handled_handleEvent`: every case of handling a record.
* `Handled.tells`, `drainExpiredMoves_tells`: what is reported and what is held
  back are what was held back and what the record says.
* `lookup_drainExpiredMoves`: a drain leaves the young moves.
-/

namespace ArkiveSync

open Library

/-- A record that is read, with the time and the directories it is handled
at. -/
structure InotifyRead (δ : Type) where
  now : Nat
  walk : WatchPath → List (WatchPath × δ)
  event : InotifyEvent

/-- A call of `poll`: what it reads until there is nothing left or `read` fails,
and the time at which it drains. -/
structure InotifyPoll (δ : Type) where
  reads : List (InotifyRead δ)
  readFails : Bool := false
  drainedAt : Nat

/-- Something that has happened at a path. -/
structure Reading where
  rootId : String
  path : WatchPath
  type : FileEventType
  cookie : Nat
  deriving DecidableEq, Repr

/-- What an event says; a rename says that one path is gone and another one is
there. -/
def WatchEvent.said (e : WatchEvent) : List Reading :=
  match e.type, e.oldPath with
  | .renamed, some oldPath =>
      [{ rootId := e.rootId, path := oldPath, type := .deleted
         cookie := e.cookie },
       { rootId := e.rootId, path := e.path, type := .created
         cookie := e.cookie }]
  | type, _ =>
      [{ rootId := e.rootId, path := e.path, type := type, cookie := e.cookie }]

namespace InotifyWatcher

section Definitions

variable {δ : Type} [DecidableEq δ]

/-- One round of the inner loop of `poll`. -/
def handleRead (acc : InotifyWatcher δ × List WatchEvent)
    (read : InotifyRead δ) : InotifyWatcher δ × List WatchEvent :=
  let handled := handleEvent read.now read.walk acc.1 read.event
  (handled.1, acc.2 ++ handled.2.toList)

/-- `poll` of a watcher that has not been stopped; there are no events when it
leaves by an exception. -/
def poll (p : InotifyPoll δ) (w : InotifyWatcher δ) :
    InotifyWatcher δ × Option (List WatchEvent) :=
  let read := p.reads.foldl handleRead (w, [])
  if p.readFails then (read.1, none)
  else
    let expiredMoves := drainExpiredMoves p.drainedAt read.1
    (expiredMoves.1, some (read.2 ++ expiredMoves.2))

/-- What a record is about, when it is not about the watched directory
itself. -/
def readingType : InotifyMask → FileEventType
  | .movedFrom => .deleted
  | .movedTo => .created
  | mask => toEventType mask

/-- What a record says to a watcher. -/
def reading (w : InotifyWatcher δ) (event : InotifyEvent) : List Reading :=
  if event.mask = .overflow then
    [{ rootId := "", path := [], type := .overflow, cookie := event.cookie }]
  else if event.mask = .moveSelf ∨ event.mask = .deleteSelf then []
  else (w.watches.lookup event.wd).toList.map (fun watch =>
    { rootId := watch.rootId, path := watch.path ++ event.name.toList
      type := readingType event.mask, cookie := event.cookie })

/-- What is said by moves that are held back. -/
def held (moves : AList (fun _ : Nat => PendingMove)) : List Reading :=
  moves.entries.map (fun move =>
    { rootId := move.2.rootId, path := move.2.oldPath, type := .deleted
      cookie := move.1 })

/-- The record is the first half of a move. -/
def StartsMove (event : InotifyEvent) : Prop :=
  event.mask = .movedFrom ∧ event.cookie ≠ 0

instance (event : InotifyEvent) : Decidable (StartsMove event) :=
  inferInstanceAs (Decidable (_ ∧ _))

end Definitions

/-! ## The pending moves -/

section Pending

variable {δ : Type} [DecidableEq δ] {w : InotifyWatcher δ}

/-- A pending move is one of the list, and the others are left when it is
erased. -/
theorem perm_erase_of_lookup {s : AList (fun _ : Nat => PendingMove)}
    {cookie : Nat} {move : PendingMove} (h : s.lookup cookie = some move) :
    s.entries.Perm (⟨cookie, move⟩ :: (s.erase cookie).entries) := by
  have hnot : cookie ∉ s.erase cookie := by simp
  rw [← AList.entries_insert_of_notMem hnot]
  refine List.lookup_ext s.nodupKeys (AList.nodupKeys _) ?_
  intro c m
  show s.lookup c = some m ↔ ((s.erase cookie).insert cookie move).lookup c =
    some m
  rw [lookup_insert_iff, lookup_erase_iff]
  by_cases hc : c = cookie
  · subst hc
    simp [h]
  · simp [hc]

omit [DecidableEq δ] in
theorem pendingMoves_removeWatch (w : InotifyWatcher δ) (wd : Nat) :
    (w.removeWatch wd).pendingMoves = w.pendingMoves :=
  pendingMoves_removeWatches w [wd]

theorem pendingMoves_addWatchRecursive (w : InotifyWatcher δ)
    (walk : WatchPath → List (WatchPath × δ)) (root : WatchRoot) :
    (addWatchRecursive walk root w).pendingMoves = w.pendingMoves := by
  unfold addWatchRecursive
  induction walk root.path generalizing w with
  | nil => rfl
  | cons there rest ih =>
      rw [List.foldl_cons, ih]
      unfold addWatch
      split <;> rfl

theorem pendingMoves_addWatchIf (isDirectory : Bool) (w : InotifyWatcher δ)
    (walk : WatchPath → List (WatchPath × δ)) (root : WatchRoot) :
    (addWatchIf isDirectory walk root w).pendingMoves = w.pendingMoves := by
  unfold addWatchIf
  split
  · exact pendingMoves_addWatchRecursive w walk root
  · rfl

omit [DecidableEq δ] in
theorem pendingMoves_finishMove (w : InotifyWatcher δ) (cookie : Nat)
    (pending : PendingMove) (isDirectory : Bool) :
    (finishMove w cookie pending isDirectory).pendingMoves =
      w.pendingMoves.erase cookie := by
  unfold finishMove
  dsimp only
  split
  · exact pendingMoves_removeWatches _ _
  · rfl

end Pending

/-! ## Handling a record -/

section Handled

variable {δ : Type} [DecidableEq δ] {w : InotifyWatcher δ}
  {event : InotifyEvent} {watch : WatchInfo} {pending : PendingMove}

/-- The record is the first half of a move from a watched directory. -/
def Starts (w : InotifyWatcher δ) (event : InotifyEvent)
    (watch : WatchInfo) : Prop :=
  StartsMove event ∧ w.watches.lookup event.wd = some watch

/-- The record is the second half of a move, within the root of the first
one. -/
structure Finishes (w : InotifyWatcher δ) (event : InotifyEvent)
    (watch : WatchInfo) (pending : PendingMove) : Prop where
  mask : event.mask = .movedTo
  cookie : event.cookie ≠ 0
  watched : w.watches.lookup event.wd = some watch
  waits : w.pendingMoves.lookup event.cookie = some pending
  root : pending.rootId = watch.rootId

/-- The move that the first half leaves behind. -/
def startedMove (now : Nat) (event : InotifyEvent) (watch : WatchInfo) :
    PendingMove :=
  { rootId := watch.rootId, oldPath := watch.path ++ event.name.toList
    isDirectory := event.isDirectory, seenAt := now }

/-- The event that the second half becomes. -/
def finishedMove (event : InotifyEvent) (watch : WatchInfo)
    (pending : PendingMove) : WatchEvent :=
  { rootId := watch.rootId, path := watch.path ++ event.name.toList
    oldPath := some pending.oldPath, type := .renamed
    isDirectory := event.isDirectory || pending.isDirectory
    cookie := event.cookie }

/-- What handling a record does to the pending moves, with the event it
becomes. -/
inductive Handled (now : Nat) (w : InotifyWatcher δ) (event : InotifyEvent) :
    AList (fun _ : Nat => PendingMove) → Option WatchEvent → Prop
  | kept (reported : Option WatchEvent)
      (hstarts : ∀ watch, ¬w.Starts event watch)
      (hfinishes : ∀ watch pending, ¬w.Finishes event watch pending)
      (hsaid : reported.toList.flatMap WatchEvent.said = w.reading event) :
      Handled now w event w.pendingMoves reported
  | started (watch : WatchInfo) (hstarts : w.Starts event watch) :
      Handled now w event
        (w.pendingMoves.insert event.cookie (startedMove now event watch)) none
  | finished (watch : WatchInfo) (pending : PendingMove)
      (hfinishes : w.Finishes event watch pending) :
      Handled now w event (w.pendingMoves.erase event.cookie)
        (some (finishedMove event watch pending))

omit [DecidableEq δ] in
/-- A record that is no half of a move. -/
theorem Handled.of_mask {now : Nat} {reported : Option WatchEvent}
    (hfrom : event.mask ≠ .movedFrom) (hto : event.mask ≠ .movedTo)
    (hsaid : reported.toList.flatMap WatchEvent.said = w.reading event) :
    Handled now w event w.pendingMoves reported := by
  apply Handled.kept
  · intro watch hstarts
    exact hfrom hstarts.1.1
  · intro watch pending hfinishes
    exact hto hfinishes.mask
  · exact hsaid

omit [DecidableEq δ] in
/-- The second half of a move whose first half is not waiting, or is another
root's. -/
theorem Handled.of_movedTo {now : Nat} (hmask : event.mask = .movedTo)
    (hwatch : w.watches.lookup event.wd = some watch)
    (hnot : ∀ pending, ¬w.Finishes event watch pending) :
    Handled now w event w.pendingMoves
      (some { rootId := watch.rootId, path := watch.path ++ event.name.toList
              oldPath := none, type := .created
              isDirectory := event.isDirectory, cookie := event.cookie }) := by
  apply Handled.kept
  · intro other hstarts
    simpa [hmask] using hstarts.1.1
  · intro other pending hfinishes
    have hsame : watch = other :=
      Option.some.inj (hwatch.symm.trans hfinishes.watched)
    exact hnot pending (hsame ▸ hfinishes)
  · simp [reading, hmask, hwatch, WatchEvent.said, readingType]

/-- Every case of `handleEvent`. -/
theorem handled_handleEvent (now : Nat)
    (walk : WatchPath → List (WatchPath × δ)) (w : InotifyWatcher δ)
    (event : InotifyEvent) :
    Handled now w event (handleEvent now walk w event).1.pendingMoves
      (handleEvent now walk w event).2 := by
  unfold handleEvent
  split
  next hoverflow =>
      apply Handled.of_mask
      · simp [hoverflow]
      · simp [hoverflow]
      · simp [reading, hoverflow, WatchEvent.said]
  next hover =>
      cases hwatch : w.watches.lookup event.wd with
      | none =>
          apply Handled.kept
          · intro watch hstarts
            simp [Starts, hwatch] at hstarts
          · intro watch pending hfinishes
            simpa [hwatch] using hfinishes.watched
          · simp [reading, hwatch, hover]
      | some watch =>
          dsimp only
          cases hmask : event.mask with
          | movedFrom =>
              dsimp only
              split
              next hcookie => exact .started watch ⟨⟨hmask, hcookie⟩, hwatch⟩
              next hcookie =>
                  apply Handled.kept
                  · intro other hstarts
                    exact hcookie hstarts.1.2
                  · intro other pending hfinishes
                    simpa [hmask] using hfinishes.mask
                  · simp [reading, hmask, hwatch, WatchEvent.said, readingType]
          | movedTo =>
              dsimp only
              split
              next hcookie =>
                  cases hwaits : w.pendingMoves.lookup event.cookie with
                  | none =>
                      dsimp only
                      rw [pendingMoves_addWatchIf]
                      apply Handled.of_movedTo hmask hwatch
                      intro pending hfinishes
                      simpa [hwaits] using hfinishes.waits
                  | some pending =>
                      dsimp only
                      split
                      next hroot =>
                          rw [pendingMoves_addWatchIf, pendingMoves_finishMove]
                          exact .finished watch pending
                            ⟨hmask, hcookie, hwatch, hwaits, hroot⟩
                      next hroot =>
                          rw [pendingMoves_addWatchIf]
                          apply Handled.of_movedTo hmask hwatch
                          intro other hfinishes
                          have hsame : pending = other :=
                            Option.some.inj (hwaits.symm.trans hfinishes.waits)
                          exact hroot (hsame ▸ hfinishes.root)
              next hcookie =>
                  rw [pendingMoves_addWatchIf]
                  apply Handled.of_movedTo hmask hwatch
                  intro pending hfinishes
                  exact hcookie hfinishes.cookie
          | create =>
              dsimp only
              rw [pendingMoves_addWatchIf]
              apply Handled.of_mask
              · simp [hmask]
              · simp [hmask]
              · simp [reading, hmask, hwatch, WatchEvent.said, readingType,
                  toEventType]
          | moveSelf =>
              dsimp only
              rw [pendingMoves_removeWatch]
              apply Handled.of_mask <;> simp [hmask, reading]
          | deleteSelf =>
              dsimp only
              rw [pendingMoves_removeWatch]
              apply Handled.of_mask <;> simp [hmask, reading]
          | modify =>
              apply Handled.of_mask <;>
                simp [hmask, reading, hwatch, WatchEvent.said, readingType,
                  toEventType]
          | closeWrite =>
              apply Handled.of_mask <;>
                simp [hmask, reading, hwatch, WatchEvent.said, readingType,
                  toEventType]
          | delete =>
              apply Handled.of_mask <;>
                simp [hmask, reading, hwatch, WatchEvent.said, readingType,
                  toEventType]
          | attrib =>
              apply Handled.of_mask <;>
                simp [hmask, reading, hwatch, WatchEvent.said, readingType,
                  toEventType]
          | overflow => exact absurd hmask hover

namespace Handled

variable {now : Nat} {moves : AList (fun _ : Nat => PendingMove)}
  {reported : Option WatchEvent}

omit [DecidableEq δ] in
/-- Nothing is lost or said twice, as long as no move is pending with the cookie
of a new one. -/
theorem tells (h : Handled now w event moves reported)
    (hfresh : StartsMove event → w.pendingMoves.lookup event.cookie = none) :
    (reported.toList.flatMap WatchEvent.said ++ held moves).Perm
      (held w.pendingMoves ++ w.reading event) := by
  cases h with
  | kept _ _ _ hsaid =>
      rw [hsaid]
      exact List.perm_append_comm
  | started watch hstarts =>
      have hnot : event.cookie ∉ w.pendingMoves :=
        AList.lookup_eq_none.mp (hfresh hstarts.1)
      have hreading : w.reading event =
          [{ rootId := watch.rootId, path := watch.path ++ event.name.toList
             type := .deleted, cookie := event.cookie }] := by
        simp [reading, hstarts.1.1, hstarts.2, readingType]
      rw [hreading]
      simp only [held, AList.entries_insert_of_notMem hnot, startedMove,
        Option.toList_none, List.flatMap_nil, List.nil_append, List.map_cons]
      exact (List.perm_append_singleton _ _).symm
  | finished watch pending hfinishes =>
      have hreading : w.reading event =
          [{ rootId := watch.rootId, path := watch.path ++ event.name.toList
             type := .created, cookie := event.cookie }] := by
        simp [reading, hfinishes.mask, hfinishes.watched, readingType]
      have hperm := (perm_erase_of_lookup hfinishes.waits).map
        (fun move : Sigma fun _ : Nat => PendingMove =>
          ({ rootId := move.2.rootId, path := move.2.oldPath, type := .deleted
             cookie := move.1 } : Reading))
      rw [hreading]
      refine List.Perm.trans ?_ (hperm.symm.append_right _)
      simp only [held, finishedMove, WatchEvent.said, hfinishes.root,
        Option.toList_some, List.flatMap_cons, List.flatMap_nil,
        List.append_nil, List.cons_append, List.nil_append, List.map_cons]
      exact (List.perm_append_singleton _ _).symm.cons _

omit [DecidableEq δ] in
/-- A move with another cookie waits on. -/
theorem lookup_of_ne (h : Handled now w event moves reported) {cookie : Nat}
    (hne : event.cookie ≠ cookie) :
    moves.lookup cookie = w.pendingMoves.lookup cookie := by
  cases h with
  | kept => rfl
  | started => exact AList.lookup_insert_ne hne.symm
  | finished => exact AList.lookup_erase_ne hne.symm

omit [DecidableEq δ] in
/-- Where a pending move comes from. -/
theorem pending_of_lookup (h : Handled now w event moves reported)
    {cookie : Nat} {move : PendingMove} (hmove : moves.lookup cookie = some move) :
    w.pendingMoves.lookup cookie = some move ∨
      StartsMove event ∧ cookie = event.cookie ∧ move.seenAt = now := by
  cases h with
  | kept => exact Or.inl hmove
  | started watch hstarts =>
      rcases (lookup_insert_iff _ _ _ _ _).mp hmove with
        ⟨hcookie, hstarted⟩ | ⟨_, hold⟩
      · exact Or.inr ⟨hstarts.1, hcookie, by rw [← hstarted]; rfl⟩
      · exact Or.inl hold
  | finished => exact Or.inl ((lookup_erase_iff _ _ _ _).mp hmove).1

omit [DecidableEq δ] in
/-- The first half of a move waits. -/
theorem lookup_started (h : Handled now w event moves reported)
    (hstarts : w.Starts event watch) :
    moves.lookup event.cookie = some (startedMove now event watch) := by
  cases h with
  | kept _ hnot => exact absurd hstarts (hnot watch)
  | started other hother =>
      have hsame : other = watch :=
        Option.some.inj (hother.2.symm.trans hstarts.2)
      rw [hsame, AList.lookup_insert]
  | finished _ _ hfinishes =>
      have hmask := hfinishes.mask
      rw [hstarts.1.1] at hmask
      cases hmask

omit [DecidableEq δ] in
/-- The second half makes it one event. -/
theorem reported_finished (h : Handled now w event moves reported)
    (hfinishes : w.Finishes event watch pending) :
    reported = some (finishedMove event watch pending) := by
  cases h with
  | kept _ _ hnot => exact absurd hfinishes (hnot watch pending)
  | started _ hstarts =>
      have hmask := hstarts.1.1
      rw [hfinishes.mask] at hmask
      cases hmask
  | finished other waiting hother =>
      have hwatch : other = watch :=
        Option.some.inj (hother.watched.symm.trans hfinishes.watched)
      have hpending : waiting = pending :=
        Option.some.inj (hother.waits.symm.trans hfinishes.waits)
      rw [hwatch, hpending]

end Handled

end Handled

/-! ## Draining -/

section Drain

variable {δ : Type} {now : Nat}

theorem pendingMoves_expireMove (acc : InotifyWatcher δ × List WatchEvent)
    (entry : Sigma fun _ : Nat => PendingMove) :
    (expireMove now acc entry).1.pendingMoves =
      if now < entry.2.seenAt + 500 then acc.1.pendingMoves
      else acc.1.pendingMoves.erase entry.1 := by
  unfold expireMove
  have hyoung : now - entry.2.seenAt < 500 ↔ now < entry.2.seenAt + 500 := by
    omega
  simp only [hyoung]
  split
  next => rfl
  next =>
      dsimp only
      split
      next => rw [removeWatchesUnder, pendingMoves_removeWatches]
      next => rfl

/-- One round, for a pending move. -/
theorem expireMove_tells {acc : InotifyWatcher δ × List WatchEvent}
    {entry : Sigma fun _ : Nat => PendingMove}
    (h : acc.1.pendingMoves.lookup entry.1 = some entry.2) :
    ((expireMove now acc entry).2.flatMap WatchEvent.said ++
        held (expireMove now acc entry).1.pendingMoves).Perm
      (acc.2.flatMap WatchEvent.said ++ held acc.1.pendingMoves) := by
  rw [pendingMoves_expireMove]
  unfold expireMove
  have hyoung : now - entry.2.seenAt < 500 ↔ now < entry.2.seenAt + 500 := by
    omega
  simp only [hyoung]
  split
  next => exact List.Perm.refl _
  next =>
      have hperm := (perm_erase_of_lookup h).map
        (fun move : Sigma fun _ : Nat => PendingMove =>
          ({ rootId := move.2.rootId, path := move.2.oldPath, type := .deleted
             cookie := move.1 } : Reading))
      simp only [List.flatMap_append, List.append_assoc]
      refine List.Perm.append_left _ ?_
      exact hperm.symm

/-- The rounds for moves that are pending. -/
theorem expireMoves (now : Nat)
    {moves : List (Sigma fun _ : Nat => PendingMove)}
    (hnodup : moves.NodupKeys) (acc : InotifyWatcher δ × List WatchEvent)
    (h : ∀ entry ∈ moves, acc.1.pendingMoves.lookup entry.1 = some entry.2) :
    let done := moves.foldl (expireMove now) acc
    (done.2.flatMap WatchEvent.said ++ held done.1.pendingMoves).Perm
        (acc.2.flatMap WatchEvent.said ++ held acc.1.pendingMoves) ∧
      ∀ cookie move, done.1.pendingMoves.lookup cookie = some move ↔
        acc.1.pendingMoves.lookup cookie = some move ∧
          ∀ entry ∈ moves, entry.1 = cookie → now < entry.2.seenAt + 500 := by
  induction moves generalizing acc with
  | nil => exact ⟨List.Perm.refl _, by simp⟩
  | cons entry rest ih =>
      obtain ⟨hnot, hrest⟩ := List.nodupKeys_cons.mp hnodup
      have hself := h entry List.mem_cons_self
      have hlookup : ∀ cookie move,
          (expireMove now acc entry).1.pendingMoves.lookup cookie = some move ↔
            acc.1.pendingMoves.lookup cookie = some move ∧
              (entry.1 = cookie → now < entry.2.seenAt + 500) := by
        intro cookie move
        rw [pendingMoves_expireMove]
        split
        next hyoung => simp [hyoung]
        next hold =>
            rw [lookup_erase_iff]
            simp [hold, eq_comm]
      have hothers : ∀ other ∈ rest,
          (expireMove now acc entry).1.pendingMoves.lookup other.1 =
            some other.2 := by
        intro other hother
        refine (hlookup _ _).mpr ⟨h other (List.mem_cons_of_mem _ hother), ?_⟩
        intro hsame
        exact absurd (hsame ▸ List.mem_keys_of_mem hother) hnot
      obtain ⟨htells, hleft⟩ := ih hrest _ hothers
      refine ⟨htells.trans (expireMove_tells hself), ?_⟩
      intro cookie move
      rw [List.foldl_cons, hleft, hlookup, List.forall_mem_cons, and_assoc]

/-- A drain reports what it no longer holds back. -/
theorem drainExpiredMoves_tells (now : Nat) (w : InotifyWatcher δ) :
    ((drainExpiredMoves now w).2.flatMap WatchEvent.said ++
        held (drainExpiredMoves now w).1.pendingMoves).Perm
      (held w.pendingMoves) := by
  have h := (expireMoves now w.pendingMoves.nodupKeys (w, []) (fun _ hentry =>
    AList.mem_lookup_iff.mpr hentry)).1
  exact h

/-- A drain leaves the young moves. -/
theorem lookup_drainExpiredMoves (now : Nat) (w : InotifyWatcher δ)
    (cookie : Nat) (move : PendingMove) :
    (drainExpiredMoves now w).1.pendingMoves.lookup cookie = some move ↔
      w.pendingMoves.lookup cookie = some move ∧ now < move.seenAt + 500 := by
  have h := (expireMoves now w.pendingMoves.nodupKeys (w, []) (fun _ hentry =>
    AList.mem_lookup_iff.mpr hentry)).2 cookie move
  refine h.trans (and_congr_right ?_)
  intro hmove
  constructor
  · intro hall
    exact hall ⟨cookie, move⟩ (AList.mem_lookup_iff.mp hmove) rfl
  · intro hyoung entry hentry hsame
    have hlookup := AList.mem_lookup_iff.mpr hentry
    rw [hsame] at hlookup
    rw [Option.some.inj (hlookup.symm.trans hmove)]
    exact hyoung

end Drain

end InotifyWatcher

end ArkiveSync
