import ArkiveSync.Model.INotifyPolls

/-!
# Every record is reported once

A watcher is given roots and polled.  What the kernel has to say about a watched
directory comes in records; a move comes in two, the first of which waits for
the second for half a second.

## Main results

* `performAll_tells`: what the events of a run say, with what is held back, is
  what its records say.
* `performAll_renames`: the halves of a move, read in time, become one event.
* `records_reported`: both for the calls of a watcher, and nothing is held back
  behind a late poll.
-/

namespace ArkiveSync.InotifyWatcher

open Library

section Calls

variable {δ : Type} [DecidableEq δ]

/-- A call of the watcher. -/
inductive WatcherCall (δ : Type) where
  | addRoot (walk : WatchPath → List (WatchPath × δ)) (root : WatchRoot)
  | poll (p : InotifyPoll δ)

/-- The events of a call; missing when it leaves by an exception. -/
def WatcherCall.perform (call : WatcherCall δ) (w : InotifyWatcher δ) :
    Option (InotifyWatcher δ × List WatchEvent) :=
  match call with
  | .addRoot walk root => some (addWatchRecursive walk root w, [])
  | .poll p =>
      let polled := InotifyWatcher.poll p w
      polled.2.map (fun events => (polled.1, events))

/-- The calls, up to an exception. -/
def performCalls : List (WatcherCall δ) → InotifyWatcher δ →
    Option (InotifyWatcher δ × List WatchEvent)
  | [], w => some (w, [])
  | call :: rest, w => do
      let first ← call.perform w
      let later ← performCalls rest first.1
      return (later.1, first.2 ++ later.2)

/-! ## The actions that calls are made of -/

/-- What a watcher does in one piece. -/
inductive PollAction (δ : Type) where
  | addRoot (walk : WatchPath → List (WatchPath × δ)) (root : WatchRoot)
  | handle (read : InotifyRead δ)
  | drain (now : Nat)

namespace PollAction

def perform (action : PollAction δ) (w : InotifyWatcher δ) :
    InotifyWatcher δ × List WatchEvent :=
  match action with
  | .addRoot walk root => (addWatchRecursive walk root w, [])
  | .handle read =>
      let handled := handleEvent read.now read.walk w read.event
      (handled.1, handled.2.toList)
  | .drain now => drainExpiredMoves now w

/-- What the record says, where there is one. -/
def reading (action : PollAction δ) (w : InotifyWatcher δ) : List Reading :=
  match action with
  | .handle read => w.reading read.event
  | _ => []

/-- The cookie of the move that begins. -/
def started : PollAction δ → List Nat
  | .handle read =>
      if StartsMove read.event then [read.event.cookie] else []
  | _ => []

/-- The action leaves a move waiting that the record has begun. -/
def Spares (first : InotifyRead δ) : PollAction δ → Prop
  | .addRoot _ _ => True
  | .handle read => read.event.cookie ≠ first.event.cookie
  | .drain now => now < first.now + 500

end PollAction

/-- The actions, one after the other. -/
def performAll : List (PollAction δ) → InotifyWatcher δ →
    InotifyWatcher δ × List WatchEvent
  | [], w => (w, [])
  | action :: rest, w =>
      let first := action.perform w
      let later := performAll rest first.1
      (later.1, first.2 ++ later.2)

/-- What the records of the actions say. -/
def readings : List (PollAction δ) → InotifyWatcher δ → List Reading
  | [], _ => []
  | action :: rest, w => action.reading w ++ readings rest (action.perform w).1

omit [DecidableEq δ] in
/-- The actions of a call. -/
def WatcherCall.actions : WatcherCall δ → List (PollAction δ)
  | .addRoot walk root => [.addRoot walk root]
  | .poll p => p.reads.map .handle ++ [.drain p.drainedAt]

theorem performAll_append (xs ys : List (PollAction δ))
    (w : InotifyWatcher δ) :
    performAll (xs ++ ys) w =
      ((performAll ys (performAll xs w).1).1,
        (performAll xs w).2 ++ (performAll ys (performAll xs w).1).2) := by
  induction xs generalizing w with
  | nil => rfl
  | cons x xs ih => simp [performAll, ih]

theorem foldl_handleRead (reads : List (InotifyRead δ))
    (w : InotifyWatcher δ) (events : List WatchEvent) :
    reads.foldl handleRead (w, events) =
      ((performAll (reads.map .handle) w).1,
        events ++ (performAll (reads.map .handle) w).2) := by
  induction reads generalizing w events with
  | nil => simp [performAll]
  | cons read rest ih =>
      rw [List.foldl_cons, handleRead, ih]
      simp [performAll, PollAction.perform]

/-- A call that returns is its actions. -/
theorem perform_eq {call : WatcherCall δ} {w : InotifyWatcher δ}
    {done : InotifyWatcher δ × List WatchEvent}
    (h : call.perform w = some done) : performAll call.actions w = done := by
  cases call with
  | addRoot walk root =>
      cases h
      simp [WatcherCall.actions, performAll, PollAction.perform]
  | poll p =>
      simp only [WatcherCall.perform, InotifyWatcher.poll, foldl_handleRead] at h
      split at h
      next => cases h
      next =>
          cases h
          simp [WatcherCall.actions, performAll_append, performAll,
            PollAction.perform]

theorem performCalls_eq {calls : List (WatcherCall δ)} {w : InotifyWatcher δ}
    {done : InotifyWatcher δ × List WatchEvent}
    (h : performCalls calls w = some done) :
    performAll (calls.flatMap WatcherCall.actions) w = done := by
  induction calls generalizing w done with
  | nil =>
      cases h
      rfl
  | cons call rest ih =>
      simp only [performCalls, Option.bind_eq_bind, Option.bind_eq_some_iff] at h
      obtain ⟨first, hfirst, later, hlater, hdone⟩ := h
      rw [List.flatMap_cons, performAll_append, perform_eq hfirst, ih hlater]
      exact Option.some.inj hdone

/-! ## One action -/

section Action

variable {action : PollAction δ} {w : InotifyWatcher δ}

theorem PollAction.tells (h : ∀ cookie ∈ action.started,
      w.pendingMoves.lookup cookie = none) :
    ((action.perform w).2.flatMap WatchEvent.said ++
        held (action.perform w).1.pendingMoves).Perm
      (held w.pendingMoves ++ action.reading w) := by
  cases action with
  | addRoot walk root =>
      simp [perform, reading, pendingMoves_addWatchRecursive]
  | handle read =>
      apply (handled_handleEvent read.now read.walk w read.event).tells
      intro hstarts
      apply h
      simp [started, hstarts]
  | drain now =>
      simpa [perform, reading] using drainExpiredMoves_tells now w

/-- Where a pending move comes from. -/
theorem PollAction.pending_of_lookup {cookie : Nat} {move : PendingMove}
    (h : (action.perform w).1.pendingMoves.lookup cookie = some move) :
    w.pendingMoves.lookup cookie = some move ∨
      cookie ∈ action.started ∧
        ∃ read, action = .handle read ∧ move.seenAt = read.now := by
  cases action with
  | addRoot walk root =>
      rw [show ((PollAction.addRoot walk root).perform w).1.pendingMoves =
        w.pendingMoves from pendingMoves_addWatchRecursive w walk root] at h
      exact Or.inl h
  | handle read =>
      rcases (handled_handleEvent read.now read.walk w
        read.event).pending_of_lookup h with hold | ⟨hstarts, hcookie, hseen⟩
      · exact Or.inl hold
      · right
        exact ⟨by simp [started, hstarts, hcookie], read, rfl, hseen⟩
  | drain now =>
      exact Or.inl ((lookup_drainExpiredMoves now w cookie move).mp h).1

/-- A young move waits on. -/
theorem PollAction.lookup_of_spares {first : InotifyRead δ}
    (hspares : action.Spares first) {move : PendingMove}
    (hseen : move.seenAt = first.now)
    (h : w.pendingMoves.lookup first.event.cookie = some move) :
    (action.perform w).1.pendingMoves.lookup first.event.cookie =
      some move := by
  cases action with
  | addRoot walk root =>
      rw [← h]
      exact congrArg (AList.lookup _) (pendingMoves_addWatchRecursive w walk root)
  | handle read =>
      rw [← h]
      exact (handled_handleEvent read.now read.walk w
        read.event).lookup_of_ne hspares
  | drain now =>
      apply (lookup_drainExpiredMoves now w _ move).mpr
      rw [hseen]
      exact ⟨h, hspares⟩

end Action

/-! ## A run -/

section Run

variable {w : InotifyWatcher δ}

/-- A move begins with a cookie that no pending move has, as the kernel says. -/
def FreshCookies : List (PollAction δ) → InotifyWatcher δ → Prop
  | [], _ => True
  | action :: rest, w =>
      (∀ cookie ∈ action.started, w.pendingMoves.lookup cookie = none) ∧
        FreshCookies rest (action.perform w).1

/-- What the events of a run say, with what is held back, is what its records
say. -/
theorem performAll_tells {actions : List (PollAction δ)}
    (h : FreshCookies actions w) :
    ((performAll actions w).2.flatMap WatchEvent.said ++
        held (performAll actions w).1.pendingMoves).Perm
      (held w.pendingMoves ++ readings actions w) := by
  induction actions generalizing w with
  | nil => simp [performAll, readings]
  | cons action rest ih =>
      obtain ⟨hfree, hrest⟩ := h
      have hfirst := PollAction.tells hfree
      have hlater := ih hrest
      simp only [performAll, readings, List.flatMap_append, List.append_assoc]
      -- The later events with what is held back behind them are what the first
      -- action holds back and what is read later.
      refine (hlater.append_left _).trans ?_
      rw [← List.append_assoc, ← List.append_assoc]
      exact hfirst.append_right _

/-- Moves whose cookies are all different. -/
theorem freshCookies_of_nodup {actions : List (PollAction δ)}
    (hnodup : (actions.flatMap PollAction.started).Nodup)
    (hfree : ∀ cookie ∈ actions.flatMap PollAction.started,
      w.pendingMoves.lookup cookie = none) : FreshCookies actions w := by
  induction actions generalizing w with
  | nil => trivial
  | cons action rest ih =>
      rw [List.flatMap_cons, List.nodup_append] at hnodup
      obtain ⟨-, hrest, happart⟩ := hnodup
      refine ⟨?_, ih hrest ?_⟩
      · intro cookie hcookie
        exact hfree cookie (by simp [hcookie])
      · intro cookie hcookie
        by_contra hsome
        obtain ⟨move, hmove⟩ := Option.ne_none_iff_exists'.mp hsome
        rcases PollAction.pending_of_lookup hmove with hold | ⟨hnew, -⟩
        · rw [hfree cookie (by simp [hcookie])] at hold
          cases hold
        · exact happart cookie hnew cookie hcookie rfl

/-- What is pending behind a run was read in it. -/
theorem performAll_pending {actions : List (PollAction δ)} {cookie : Nat}
    {move : PendingMove}
    (h : (performAll actions w).1.pendingMoves.lookup cookie = some move) :
    w.pendingMoves.lookup cookie = some move ∨
      ∃ read, .handle read ∈ actions ∧ move.seenAt = read.now := by
  induction actions generalizing w with
  | nil => exact Or.inl h
  | cons action rest ih =>
      rcases ih h with hfirst | ⟨read, hread, hseen⟩
      · rcases PollAction.pending_of_lookup hfirst with
          hold | ⟨-, read, hread, hseen⟩
        · exact Or.inl hold
        · exact Or.inr ⟨read, by simp [hread], hseen⟩
      · exact Or.inr ⟨read, List.mem_cons_of_mem _ hread, hseen⟩

theorem performAll_spares {actions : List (PollAction δ)}
    {first : InotifyRead δ} (hspares : ∀ action ∈ actions, action.Spares first)
    {move : PendingMove} (hseen : move.seenAt = first.now)
    (h : w.pendingMoves.lookup first.event.cookie = some move) :
    (performAll actions w).1.pendingMoves.lookup first.event.cookie =
      some move := by
  induction actions generalizing w with
  | nil => exact h
  | cons action rest ih =>
      apply ih
      · exact fun other hother => hspares other (List.mem_cons_of_mem _ hother)
      · exact PollAction.lookup_of_spares (hspares action List.mem_cons_self)
          hseen h

/-- Two records that are the halves of a move within a root: no drain between
them comes half a second behind the first. -/
structure ReadInTime (actions : List (PollAction δ)) (w : InotifyWatcher δ)
    (first second : InotifyRead δ) (source target : WatchInfo) : Prop where
  split : ∃ front between back,
    actions = front ++ .handle first :: (between ++ .handle second :: back) ∧
    (performAll front w).1.Starts first.event source ∧
    (performAll (front ++ .handle first :: between) w).1.watches.lookup
      second.event.wd = some target ∧
    ∀ action ∈ between, action.Spares first
  mask : second.event.mask = .movedTo
  cookie : second.event.cookie = first.event.cookie
  root : source.rootId = target.rootId

/-- They become one event. -/
theorem performAll_renames {actions : List (PollAction δ)}
    {first second : InotifyRead δ} {source target : WatchInfo}
    (h : ReadInTime actions w first second source target) :
    finishedMove second.event target
        (startedMove first.now first.event source) ∈
      (performAll actions w).2 := by
  obtain ⟨front, between, back, hsplit, hstarts, htarget, hspares⟩ := h.split
  have hfirst : ((PollAction.handle first).perform
      (performAll front w).1).1.pendingMoves.lookup first.event.cookie =
        some (startedMove first.now first.event source) :=
    (handled_handleEvent first.now first.walk _ first.event).lookup_started
      hstarts
  have hwaits : (performAll (front ++ .handle first :: between)
      w).1.pendingMoves.lookup first.event.cookie =
        some (startedMove first.now first.event source) := by
    rw [performAll_append]
    exact performAll_spares hspares rfl hfirst
  have hfinishes : (performAll (front ++ .handle first :: between)
      w).1.Finishes second.event target
        (startedMove first.now first.event source) := by
    refine ⟨h.mask, ?_, htarget, ?_, h.root⟩
    · rw [h.cookie]
      exact hstarts.1.2
    · rw [h.cookie]
      exact hwaits
  have hreported := (handled_handleEvent second.now second.walk _
    second.event).reported_finished hfinishes
  have hactions : actions = (front ++ .handle first :: between) ++
      .handle second :: back := by
    rw [hsplit, List.append_assoc]
    rfl
  rw [hactions, performAll_append]
  apply List.mem_append_right
  simp only [performAll, PollAction.perform, hreported]
  exact List.mem_append_left _ (by simp)

end Run

/-- From a new watcher on: the events, with what is held back, say what the
records said, each once; a poll half a second behind the last record leaves
nothing held back; and the halves of a move that are read in time are one
event. -/
theorem records_reported {calls : List (WatcherCall δ)}
    {w : InotifyWatcher δ} {events : List WatchEvent}
    (h : performCalls calls {} = some (w, events))
    (hcookies : FreshCookies (calls.flatMap WatcherCall.actions) {}) :
    (events.flatMap WatchEvent.said ++ held w.pendingMoves).Perm
        (readings (calls.flatMap WatcherCall.actions) {}) ∧
      (∀ front p, calls = front ++ [.poll p] →
        (∀ read, .handle read ∈ calls.flatMap WatcherCall.actions →
          read.now + 500 ≤ p.drainedAt) →
        held w.pendingMoves = []) ∧
      ∀ first second source target,
        ReadInTime (calls.flatMap WatcherCall.actions) {} first second source
            target →
          finishedMove second.event target
            (startedMove first.now first.event source) ∈ events := by
  have hall := performCalls_eq h
  refine ⟨?_, ?_, ?_⟩
  · have htells := performAll_tells hcookies
    rw [hall] at htells
    exact htells
  · intro front p hlast hquiet
    have hsplit : calls.flatMap WatcherCall.actions =
        (front.flatMap WatcherCall.actions ++ p.reads.map .handle) ++
          [.drain p.drainedAt] := by
      simp [hlast, WatcherCall.actions]
    have hnone : ∀ cookie move,
        w.pendingMoves.lookup cookie ≠ some move := by
      intro cookie move hmove
      have hw : w = (performAll (calls.flatMap WatcherCall.actions) {}).1 := by
        rw [hall]
      rw [hw] at hmove
      rcases performAll_pending hmove with hold | ⟨read, hread, hseen⟩
      · cases hold
      · rw [hsplit, performAll_append] at hmove
        have hyoung := ((lookup_drainExpiredMoves _ _ _ _).mp hmove).2
        have hlate := hquiet read hread
        omega
    show w.pendingMoves.entries.map _ = []
    rw [List.map_eq_nil_iff, List.eq_nil_iff_forall_not_mem]
    intro entry hentry
    exact hnone entry.1 entry.2 (AList.mem_lookup_iff.mpr hentry)
  · intro first second source target hmove
    have hrenames := performAll_renames hmove
    rw [hall] at hrenames
    exact hrenames

end Calls

/-! ## A rename, and a move out of the root -/

namespace TwoMoves

/-- There is no directory but the root. -/
def walk (path : WatchPath) : List (WatchPath × Unit) :=
  if path = ["m"] then [(["m"], ())] else []

/-- The root's directory has the first descriptor. -/
def read (now : Nat) (mask : InotifyMask) (cookie : Nat) (name : String) :
    InotifyRead Unit :=
  { now := now, walk := walk
    event := { wd := 1, mask := mask, isDirectory := false, cookie := cookie
               name := some name } }

def first : InotifyRead Unit := read 0 .movedFrom 7 "a"

def second : InotifyRead Unit := read 1 .movedTo 7 "b"

def third : InotifyRead Unit := read 2 .movedFrom 8 "c"

def watch : WatchInfo := { rootId := "r", path := ["m"] }

def calls : List (WatcherCall Unit) :=
  [.addRoot walk { rootId := "r", path := ["m"] },
   .poll { reads := [first, second, third], drainedAt := 3 },
   .poll { reads := [], drainedAt := 502 }]

theorem fresh : FreshCookies (calls.flatMap WatcherCall.actions) {} :=
  freshCookies_of_nodup (by decide) (fun _ _ => AList.lookup_empty _)

theorem inTime : ReadInTime (calls.flatMap WatcherCall.actions) {} first second
    watch watch where
  split := by
    refine ⟨[.addRoot walk { rootId := "r", path := ["m"] }], [], _, rfl,
      ⟨?_, rfl⟩, rfl, by simp⟩
    decide
  mask := rfl
  cookie := rfl
  root := rfl

end TwoMoves

theorem records_reported_twoMoves :
    ∃ w events, performCalls TwoMoves.calls {} = some (w, events) ∧
      (events.flatMap WatchEvent.said).Perm
        [{ rootId := "r", path := ["m", "a"], type := .deleted, cookie := 7 },
         { rootId := "r", path := ["m", "b"], type := .created, cookie := 7 },
         { rootId := "r", path := ["m", "c"], type := .deleted, cookie := 8 }] ∧
      { rootId := "r", path := ["m", "b"], oldPath := some ["m", "a"]
        type := .renamed, isDirectory := false, cookie := 7 } ∈ events := by
  have hrun : ∃ done, performCalls TwoMoves.calls {} = some done := ⟨_, rfl⟩
  obtain ⟨⟨w, events⟩, hdone⟩ := hrun
  obtain ⟨hperm, hquiet, hmoved⟩ := records_reported hdone TwoMoves.fresh
  refine ⟨w, events, hdone, ?_, hmoved _ _ _ _ TwoMoves.inTime⟩
  rw [hquiet [_, _] { reads := [], drainedAt := 502 } rfl ?_,
    List.append_nil] at hperm
  · exact hperm
  · intro read hread
    have hin : read = TwoMoves.first ∨ read = TwoMoves.second ∨
        read = TwoMoves.third := by
      simpa [TwoMoves.calls, WatcherCall.actions] using hread
    rcases hin with rfl | rfl | rfl <;> decide

end ArkiveSync.InotifyWatcher
