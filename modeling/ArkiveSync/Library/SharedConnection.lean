import ArkiveSync.Library.Runs
import Mathlib.Data.List.Nodup
import Mathlib.Logic.Function.Basic

/-!
# Threads on one connection

A connection to a database has at most one open transaction, whichever thread
opened it; a write outside a transaction is durable at once, one inside when the
transaction commits.  Threads run programs of statements, one statement at a
time and in any order among each other.

A program is disciplined when it ends every transaction that it began and ends
no other.  With disciplined programs, threads are isolated from each other as
long as no thread writes while another one has a transaction open; the first
write that does so breaks the isolation.

## Main results

* `Kept.step`: what holds of the transactions, whatever the threads do.
* `isolated_iff`: the next step keeps the isolation exactly when it is no write
  into another thread's transaction.
* `tables_replay`: the tables are those that the writes counted as present make.
-/

namespace ArkiveSync.Library

/-- What a thread does: each statement comes with what follows when it returns
and, where it can fail, when it throws. -/
inductive Program (σ ω : Type) where
  | done
  | query (next : σ → Program σ ω)
  | begin (ok err : Program σ ω)
  | commit (ok err : Program σ ω)
  | rollback (next : Program σ ω)
  | write (w : ω) (ok err : Program σ ω)

namespace Program

variable {σ ω : Type}

/-- The program ends the transactions it begins, and no others; the flag says
whether one of its own is open. -/
inductive Disciplined : Bool → Program σ ω → Prop where
  | done : Disciplined false .done
  | query {inside : Bool} {next : σ → Program σ ω}
      (h : ∀ tables, Disciplined inside (next tables)) :
      Disciplined inside (.query next)
  | begin {ok err : Program σ ω} (hok : Disciplined true ok)
      (herr : Disciplined false err) : Disciplined false (.begin ok err)
  | commit {ok err : Program σ ω} (hok : Disciplined false ok)
      (herr : Disciplined true err) : Disciplined true (.commit ok err)
  | rollback {next : Program σ ω} (h : Disciplined false next) :
      Disciplined true (.rollback next)
  | write {inside : Bool} {w : ω} {ok err : Program σ ω}
      (hok : Disciplined inside ok) (herr : Disciplined inside err) :
      Disciplined inside (.write w ok err)

variable {inside : Bool} {p ok err : Program σ ω}

@[simp] theorem disciplined_done :
    Disciplined inside (.done : Program σ ω) ↔ inside = false := by
  constructor
  · intro h
    cases h
    rfl
  · rintro rfl
    exact .done

@[simp] theorem disciplined_query {next : σ → Program σ ω} :
    Disciplined inside (.query next) ↔
      ∀ tables, Disciplined inside (next tables) := by
  constructor
  · intro h
    cases h with
    | query h => exact h
  · exact .query

@[simp] theorem disciplined_begin :
    Disciplined inside (.begin ok err) ↔
      inside = false ∧ Disciplined true ok ∧ Disciplined false err := by
  constructor
  · intro h
    cases h with
    | begin hok herr => exact ⟨rfl, hok, herr⟩
  · rintro ⟨rfl, hok, herr⟩
    exact .begin hok herr

@[simp] theorem disciplined_commit :
    Disciplined inside (.commit ok err) ↔
      inside = true ∧ Disciplined false ok ∧ Disciplined true err := by
  constructor
  · intro h
    cases h with
    | commit hok herr => exact ⟨rfl, hok, herr⟩
  · rintro ⟨rfl, hok, herr⟩
    exact .commit hok herr

@[simp] theorem disciplined_rollback :
    Disciplined inside (.rollback p) ↔ inside = true ∧ Disciplined false p := by
  constructor
  · intro h
    cases h with
    | rollback h => exact ⟨rfl, h⟩
  · rintro ⟨rfl, h⟩
    exact .rollback h

@[simp] theorem disciplined_write {w : ω} :
    Disciplined inside (.write w ok err) ↔
      Disciplined inside ok ∧ Disciplined inside err := by
  constructor
  · intro h
    cases h with
    | write hok herr => exact ⟨hok, herr⟩
  · exact fun h => .write h.1 h.2

end Program

/-- A write with its number in the run. -/
abbrev Numbered (ω : Type) := Nat × ω

/-- The connection: the tables, the writes whose effects they have, and both at
the beginning of the open transaction. -/
structure Connection (σ ω : Type) where
  tables : σ
  written : List (Numbered ω)
  saved : Option (σ × List (Numbered ω))

namespace Connection

variable {σ ω : Type}

/-- The writes that a crash or a rollback leaves. -/
def durable (c : Connection σ ω) : List (Numbered ω) :=
  match c.saved with
  | none => c.written
  | some saved => saved.2

end Connection

/-- The threads on the connection.  `own` are the writes of a thread's open
transaction, `kept` the writes that returned normally and are in no transaction
of their thread that is open or rolled back. -/
structure Shared (τ σ ω : Type) where
  conn : Connection σ ω
  program : τ → Program σ ω
  own : τ → Option (List (Numbered ω))
  kept : List (Numbered ω)
  next : Nat

/-- What a thread does in a step. -/
inductive ThreadStep where
  | start
  | read
  | began
  | beginFailed
  | committed
  | commitFailed
  | rolledBack
  | wrote
  | writeFailed
  deriving DecidableEq, Repr

section Threads

variable {τ σ ω : Type} [DecidableEq τ]

/-- The next statement of a thread goes on with `p`. -/
def Shared.goOn (s : Shared τ σ ω) (t : τ) (p : Program σ ω) :
    Shared τ σ ω :=
  { s with program := Function.update s.program t p }

/-- A write of the thread has returned. -/
def Shared.record (s : Shared τ σ ω) (t : τ) (w : ω) (tables : σ) :
    Shared τ σ ω :=
  { s with
    conn := { s.conn with
      tables := tables
      written := s.conn.written ++ [(s.next, w)] }
    own := match s.own t with
      | none => s.own
      | some ws => Function.update s.own t (some (ws ++ [(s.next, w)]))
    kept := match s.own t with
      | none => s.kept ++ [(s.next, w)]
      | some _ => s.kept
    next := s.next + 1 }

variable (apply : ω → σ → Option σ) (programs : Program σ ω → Prop)

/-- The steps.  A thread that is done starts any of the given programs; `BEGIN`
fails inside a transaction, and every statement but `ROLLBACK` may fail. -/
inductive SharedStep : Shared τ σ ω → τ × ThreadStep → Shared τ σ ω → Prop where
  | start {s : Shared τ σ ω} {t : τ} {p : Program σ ω}
      (hidle : s.program t = .done) (hp : programs p) :
      SharedStep s (t, .start) (s.goOn t p)
  | read {s : Shared τ σ ω} {t : τ} {next : σ → Program σ ω}
      (hat : s.program t = .query next) :
      SharedStep s (t, .read) (s.goOn t (next s.conn.tables))
  | began {s : Shared τ σ ω} {t : τ} {ok err : Program σ ω}
      (hat : s.program t = .begin ok err) (hnone : s.conn.saved = none) :
      SharedStep s (t, .began)
        { s.goOn t ok with
          conn := { s.conn with
            saved := some (s.conn.tables, s.conn.written) }
          own := Function.update s.own t (some []) }
  | beginFailed {s : Shared τ σ ω} {t : τ} {ok err : Program σ ω}
      (hat : s.program t = .begin ok err) :
      SharedStep s (t, .beginFailed) (s.goOn t err)
  | committed {s : Shared τ σ ω} {t : τ} {ok err : Program σ ω}
      (hat : s.program t = .commit ok err)
      (hopen : s.conn.saved.isSome = true) :
      SharedStep s (t, .committed)
        { s.goOn t ok with
          conn := { s.conn with saved := none }
          own := Function.update s.own t none
          kept := s.kept ++ (s.own t).getD [] }
  | commitFailed {s : Shared τ σ ω} {t : τ} {ok err : Program σ ω}
      (hat : s.program t = .commit ok err) :
      SharedStep s (t, .commitFailed) (s.goOn t err)
  | rolledBack {s : Shared τ σ ω} {t : τ} {next : Program σ ω}
      {tables : σ} {written : List (Numbered ω)}
      (hat : s.program t = .rollback next)
      (hopen : s.conn.saved = some (tables, written)) :
      SharedStep s (t, .rolledBack)
        { s.goOn t next with
          conn := { tables := tables, written := written, saved := none }
          own := Function.update s.own t none }
  | wrote {s : Shared τ σ ω} {t : τ} {w : ω} {ok err : Program σ ω}
      {tables : σ} (hat : s.program t = .write w ok err)
      (happly : apply w s.conn.tables = some tables) :
      SharedStep s (t, .wrote) ((s.record t w tables).goOn t ok)
  | writeFailed {s : Shared τ σ ω} {t : τ} {w : ω} {ok err : Program σ ω}
      (hat : s.program t = .write w ok err) :
      SharedStep s (t, .writeFailed) (s.goOn t err)

/-- The threads before they have done anything. -/
structure Fresh (s : Shared τ σ ω) : Prop where
  saved : s.conn.saved = none
  written : s.conn.written = []
  program : ∀ t, s.program t = .done
  own : ∀ t, s.own t = none
  kept : s.kept = []

/-- Every write that was kept is durable, and the writes of an open transaction
are neither lost nor durable before its thread commits. -/
structure Isolated (s : Shared τ σ ω) : Prop where
  kept : ∀ x ∈ s.kept, x ∈ s.conn.durable
  own : ∀ t xs, s.own t = some xs → ∀ x ∈ xs,
    x ∈ s.conn.written ∧ x ∉ s.conn.durable

/-- A write is only executed while no other thread has a transaction open. -/
def Alone (s : Shared τ σ ω) : τ × ThreadStep → Prop
  | (t, .wrote) => ∀ u, u ≠ t → s.own u = none
  | _ => True

/-- The transactions: the open one is that of one thread, programs know of their
own, and numbers are not used again. -/
structure Shared.Kept (s : Shared τ σ ω) : Prop where
  disciplined : ∀ t, (s.program t).Disciplined (s.own t).isSome
  opened : ∀ t xs, s.own t = some xs → s.conn.saved.isSome = true
  owned : s.conn.saved.isSome = true → ∃ t xs, s.own t = some xs
  unique : ∀ t u xs ys, s.own t = some xs → s.own u = some ys → t = u
  written_lt : ∀ x ∈ s.conn.written, x.1 < s.next
  durable_lt : ∀ x ∈ s.conn.durable, x.1 < s.next

variable {apply programs}

omit [DecidableEq τ] in
theorem Shared.Kept.of_fresh {s : Shared τ σ ω} (h : Fresh s) : s.Kept := by
  constructor
  · intro t
    rw [h.program, h.own]
    exact .done
  · intro t xs hxs
    rw [h.own] at hxs
    cases hxs
  · intro hopen
    simp [h.saved] at hopen
  · intro t u xs ys hxs
    rw [h.own] at hxs
    cases hxs
  · simp [h.written]
  · simp [Connection.durable, h.saved, h.written]

omit [DecidableEq τ] in
/-- What a thread is about to do, as far as its own transaction goes. -/
theorem Shared.Kept.at {s : Shared τ σ ω} (h : s.Kept) {t : τ}
    {p : Program σ ω} (hat : s.program t = p) :
    p.Disciplined (s.own t).isSome := by
  rw [← hat]
  exact h.disciplined t

/-- A step that changes neither the connection nor the transactions. -/
theorem Shared.Kept.goOn {s : Shared τ σ ω} (h : s.Kept) {t : τ}
    {p : Program σ ω} (hp : p.Disciplined (s.own t).isSome) :
    (s.goOn t p).Kept := by
  refine ⟨?_, h.opened, h.owned, h.unique, h.written_lt, h.durable_lt⟩
  intro u
  show (Function.update s.program t p u).Disciplined (s.own u).isSome
  by_cases hu : u = t
  · rw [hu, Function.update_self]
    exact hp
  · rw [Function.update_of_ne hu]
    exact h.disciplined u

/-- A thread ends its transaction. -/
theorem Shared.Kept.close {s s' : Shared τ σ ω} (h : s.Kept) {t : τ}
    {p : Program σ ω} (hown : (s.own t).isSome = true)
    (hp : p.Disciplined false)
    (hprogram : s'.program = Function.update s.program t p)
    (hown' : s'.own = Function.update s.own t none)
    (hsaved : s'.conn.saved = none)
    (hwritten : ∀ x ∈ s'.conn.written, x.1 < s'.next) : s'.Kept := by
  obtain ⟨xs, hxs⟩ := Option.isSome_iff_exists.mp hown
  have hnobody : ∀ u, s'.own u = none := by
    intro u
    rw [hown']
    by_cases hu : u = t
    · rw [hu, Function.update_self]
    · rw [Function.update_of_ne hu]
      cases hother : s.own u with
      | none => rfl
      | some ys => exact absurd (h.unique u t ys xs hother hxs) hu
  refine ⟨?_, ?_, ?_, ?_, hwritten, ?_⟩
  · intro u
    rw [hnobody u, hprogram]
    by_cases hu : u = t
    · rw [hu, Function.update_self]
      exact hp
    · have hother := hnobody u
      rw [hown', Function.update_of_ne hu] at hother
      rw [Function.update_of_ne hu]
      have hold := h.disciplined u
      rw [hother] at hold
      exact hold
  · intro u ys hu
    rw [hnobody u] at hu
    cases hu
  · intro hopen
    simp [hsaved] at hopen
  · intro u v ys zs hu
    rw [hnobody u] at hu
    cases hu
  · simp only [Connection.durable, hsaved]
    exact hwritten

/-- A write adds to the transaction of its thread, if there is one. -/
theorem Shared.own_record {s : Shared τ σ ω} {t : τ} {w : ω} {tables : σ}
    (u : τ) : (s.record t w tables).own u =
      if u = t then (s.own t).map (· ++ [(s.next, w)]) else s.own u := by
  unfold Shared.record
  dsimp only
  by_cases hu : u = t
  · rw [if_pos hu, hu]
    cases hown : s.own t with
    | none => exact hown
    | some ws => exact Function.update_self _ _ _
  · rw [if_neg hu]
    cases s.own t with
    | none => rfl
    | some ws => exact Function.update_of_ne hu _ _

theorem Shared.isSome_own_record {s : Shared τ σ ω} {t : τ} {w : ω}
    {tables : σ} (u : τ) :
    ((s.record t w tables).own u).isSome = (s.own u).isSome := by
  rw [Shared.own_record]
  split
  next hu => rw [hu, Option.isSome_map]
  next => rfl

theorem Shared.durable_record {s : Shared τ σ ω} {t : τ} {w : ω} {tables : σ} :
    (s.record t w tables).conn.durable =
      if s.conn.saved.isSome then s.conn.durable
      else s.conn.durable ++ [(s.next, w)] := by
  simp only [Shared.record, Connection.durable]
  cases s.conn.saved with
  | none => rfl
  | some saved => rfl

theorem Shared.Kept.record {s : Shared τ σ ω} (h : s.Kept) (t : τ) (w : ω)
    (tables : σ) : (s.record t w tables).Kept := by
  have hback : ∀ u xs, (s.record t w tables).own u = some xs →
      ∃ ys, s.own u = some ys := by
    intro u xs hu
    rw [← Option.isSome_iff_exists, ← Shared.isSome_own_record, hu]
    rfl
  have hlast : ∀ {xs : List (Numbered ω)}, (∀ x ∈ xs, x.1 < s.next) →
      ∀ x ∈ xs ++ [(s.next, w)], x.1 < s.next + 1 := by
    intro xs hxs x hx
    rcases List.mem_append.mp hx with hx | hx
    · have hlt := hxs x hx
      omega
    · rw [List.mem_singleton.mp hx]
      exact Nat.lt_succ_self _
  refine ⟨?_, ?_, ?_, ?_, hlast h.written_lt, ?_⟩
  · intro u
    rw [Shared.isSome_own_record]
    exact h.disciplined u
  · intro u xs hu
    obtain ⟨ys, hys⟩ := hback u xs hu
    exact h.opened u ys hys
  · intro hopen
    obtain ⟨u, xs, hu⟩ := h.owned hopen
    refine ⟨u, Option.isSome_iff_exists.mp ?_⟩
    rw [Shared.isSome_own_record, hu]
    rfl
  · intro u v xs ys hu hv
    obtain ⟨xs', hu'⟩ := hback u xs hu
    obtain ⟨ys', hv'⟩ := hback v ys hv
    exact h.unique u v xs' ys' hu' hv'
  · rw [Shared.durable_record]
    split
    next =>
        intro x hx
        have hlt := h.durable_lt x hx
        exact Nat.lt_succ_of_lt hlt
    next => exact hlast h.durable_lt

/-- The transactions behind a step, whatever the other threads do. -/
theorem Shared.Kept.step {s s' : Shared τ σ ω} {a : τ × ThreadStep}
    (h : s.Kept) (hprograms : ∀ p, programs p → p.Disciplined false)
    (hstep : SharedStep apply programs s a s') : s'.Kept := by
  cases hstep with
  | @start t p hidle hp =>
      have hdone := Program.disciplined_done.mp (h.at hidle)
      refine h.goOn ?_
      rw [hdone]
      exact hprograms p hp
  | @read t next hat =>
      exact h.goOn (Program.disciplined_query.mp (h.at hat) _)
  | @began t ok err hat hnone =>
      obtain ⟨_, hok, _⟩ := Program.disciplined_begin.mp (h.at hat)
      have hnobody : ∀ u, s.own u = none := by
        intro u
        cases hu : s.own u with
        | none => rfl
        | some xs =>
            have hopen := h.opened u xs hu
            simp [hnone] at hopen
      refine ⟨?_, fun _ _ _ => rfl, ?_, ?_, h.written_lt, h.written_lt⟩
      · intro u
        show (Function.update s.program t ok u).Disciplined
          (Function.update s.own t (some []) u).isSome
        by_cases hu : u = t
        · rw [hu, Function.update_self, Function.update_self]
          exact hok
        · rw [Function.update_of_ne hu, Function.update_of_ne hu]
          exact h.disciplined u
      · exact fun _ => ⟨t, [], Function.update_self _ _ _⟩
      · intro u v xs ys hu hv
        have hone : ∀ c zs, Function.update s.own t (some []) c = some zs →
            c = t := by
          intro c zs hc
          by_contra hne
          rw [Function.update_of_ne hne, hnobody] at hc
          cases hc
        rw [hone u xs hu, hone v ys hv]
  | @beginFailed t ok err hat =>
      obtain ⟨hown, _, herr⟩ := Program.disciplined_begin.mp (h.at hat)
      exact h.goOn (hown ▸ herr)
  | @committed t ok err hat hopen =>
      obtain ⟨hown, hok, _⟩ := Program.disciplined_commit.mp (h.at hat)
      exact h.close hown hok rfl rfl rfl h.written_lt
  | @commitFailed t ok err hat =>
      obtain ⟨hown, _, herr⟩ := Program.disciplined_commit.mp (h.at hat)
      exact h.goOn (hown ▸ herr)
  | @rolledBack t next tables written hat hopen =>
      obtain ⟨hown, hnext⟩ := Program.disciplined_rollback.mp (h.at hat)
      have hdurable := h.durable_lt
      simp only [Connection.durable, hopen] at hdurable
      exact h.close hown hnext rfl rfl rfl hdurable
  | @wrote t w ok err tables hat happly =>
      obtain ⟨hok, _⟩ := Program.disciplined_write.mp (h.at hat)
      refine (h.record t w tables).goOn ?_
      rw [Shared.isSome_own_record]
      exact hok
  | @writeFailed t w ok err hat =>
      exact h.goOn (Program.disciplined_write.mp (h.at hat)).2

/-! ## Isolation -/

/-- The writes of the open transaction come behind the durable ones, and nothing
else does. -/
structure Shared.Apart (s : Shared τ σ ω) : Prop where
  kept : ∀ x ∈ s.kept, x ∈ s.conn.durable
  own : ∀ t xs, s.own t = some xs → s.conn.written = s.conn.durable ++ xs
  nodup : s.conn.written.Nodup

omit [DecidableEq τ] in
theorem Shared.Apart.isolated {s : Shared τ σ ω} (h : s.Apart) :
    Isolated s := by
  refine ⟨h.kept, ?_⟩
  intro t xs hxs x hx
  have hnodup := h.nodup
  rw [h.own t xs hxs] at hnodup ⊢
  refine ⟨List.mem_append_right _ hx, ?_⟩
  intro hdurable
  exact (List.nodup_append.mp hnodup).2.2 x hdurable x hx rfl

/-- Behind the end of a transaction no thread has one. -/
theorem Shared.Kept.nobody {s : Shared τ σ ω} (h : s.Kept) {t : τ}
    {xs : List (Numbered ω)} (hxs : s.own t = some xs) (u : τ) :
    Function.update s.own t none u = none := by
  by_cases hu : u = t
  · rw [hu, Function.update_self]
  · rw [Function.update_of_ne hu]
    cases hother : s.own u with
    | none => rfl
    | some ys => exact absurd (h.unique u t ys xs hother hxs) hu

omit [DecidableEq τ] in
theorem Shared.nodup_record {s : Shared τ σ ω} (h : s.Kept)
    (hnodup : s.conn.written.Nodup) (w : ω) :
    (s.conn.written ++ [(s.next, w)]).Nodup := by
  refine List.nodup_append.mpr ⟨hnodup, List.nodup_singleton _, ?_⟩
  intro x hx y hy heq
  have hlt := h.written_lt x hx
  rw [heq, List.mem_singleton.mp hy] at hlt
  exact Nat.lt_irrefl _ hlt

/-- A write keeps to its thread's transaction, or is durable at once. -/
theorem Shared.Apart.record {s : Shared τ σ ω} (h : s.Apart) (hkept : s.Kept)
    {t : τ} (halone : ∀ u, u ≠ t → s.own u = none) (w : ω) (tables : σ) :
    (s.record t w tables).Apart := by
  cases hown : s.own t with
  | none =>
      have hsaved : s.conn.saved.isSome = false := by
        cases hsaved : s.conn.saved.isSome with
        | false => rfl
        | true =>
            obtain ⟨u, xs, hu⟩ := hkept.owned hsaved
            by_cases hut : u = t
            · rw [hut, hown] at hu
              cases hu
            · rw [halone u hut] at hu
              cases hu
      have hdurable : (s.record t w tables).conn.durable =
          s.conn.durable ++ [(s.next, w)] := by
        rw [Shared.durable_record, hsaved]
        rfl
      refine ⟨?_, ?_, Shared.nodup_record hkept h.nodup w⟩
      · intro x hx
        rw [hdurable]
        simp only [Shared.record, hown] at hx
        rcases List.mem_append.mp hx with hx | hx
        · exact List.mem_append_left _ (h.kept x hx)
        · exact List.mem_append_right _ hx
      · intro u xs hu
        rw [Shared.own_record] at hu
        split at hu
        next =>
            rw [hown] at hu
            cases hu
        next hne =>
            rw [halone u hne] at hu
            cases hu
  | some ws =>
      have hsaved := hkept.opened t ws hown
      have hdurable : (s.record t w tables).conn.durable =
          s.conn.durable := by
        rw [Shared.durable_record, if_pos hsaved]
      refine ⟨?_, ?_, Shared.nodup_record hkept h.nodup w⟩
      · intro x hx
        rw [hdurable]
        simp only [Shared.record, hown] at hx
        exact h.kept x hx
      · intro u xs hu
        rw [hdurable]
        show s.conn.written ++ [(s.next, w)] = _
        rw [Shared.own_record] at hu
        split at hu
        next =>
            rw [hown] at hu
            obtain rfl := Option.some.inj hu
            rw [h.own t ws hown, List.append_assoc]
        next hne =>
            rw [halone u hne] at hu
            cases hu

/-- A step that is no write into another thread's transaction keeps the threads
apart. -/
theorem Shared.Apart.step {s s' : Shared τ σ ω} {a : τ × ThreadStep}
    (h : s.Apart) (hkept : s.Kept)
    (hstep : SharedStep apply programs s a s') (halone : Alone s a) :
    s'.Apart := by
  cases hstep with
  | start => exact ⟨h.kept, h.own, h.nodup⟩
  | read => exact ⟨h.kept, h.own, h.nodup⟩
  | beginFailed => exact ⟨h.kept, h.own, h.nodup⟩
  | commitFailed => exact ⟨h.kept, h.own, h.nodup⟩
  | writeFailed => exact ⟨h.kept, h.own, h.nodup⟩
  | @began t ok err hat hnone =>
      have hdurable : s.conn.durable = s.conn.written := by
        simp only [Connection.durable, hnone]
      refine ⟨?_, ?_, h.nodup⟩
      · intro x hx
        show x ∈ s.conn.written
        rw [← hdurable]
        exact h.kept x hx
      · intro u xs hu
        show s.conn.written = s.conn.written ++ xs
        have hu' : Function.update s.own t (some []) u = some xs := hu
        by_cases hut : u = t
        · rw [hut, Function.update_self] at hu'
          rw [← Option.some.inj hu', List.append_nil]
        · rw [Function.update_of_ne hut] at hu'
          have hopen := hkept.opened u xs hu'
          simp [hnone] at hopen
  | @committed t ok err hat hopen =>
      obtain ⟨hown, _, _⟩ := Program.disciplined_commit.mp (hkept.at hat)
      obtain ⟨xs, hxs⟩ := Option.isSome_iff_exists.mp hown
      refine ⟨?_, ?_, h.nodup⟩
      · intro x hx
        show x ∈ s.conn.written
        rw [h.own t xs hxs]
        rw [hxs] at hx
        rcases List.mem_append.mp hx with hx | hx
        · exact List.mem_append_left _ (h.kept x hx)
        · exact List.mem_append_right _ hx
      · intro u ys hu
        have hnone := hkept.nobody hxs u
        have hu' : Function.update s.own t none u = some ys := hu
        rw [hnone] at hu'
        cases hu'
  | @rolledBack t next tables written hat hopen =>
      obtain ⟨hown, _⟩ := Program.disciplined_rollback.mp (hkept.at hat)
      obtain ⟨xs, hxs⟩ := Option.isSome_iff_exists.mp hown
      have hdurable : s.conn.durable = written := by
        simp only [Connection.durable, hopen]
      refine ⟨?_, ?_, ?_⟩
      · intro x hx
        show x ∈ written
        rw [← hdurable]
        exact h.kept x hx
      · intro u ys hu
        have hnone := hkept.nobody hxs u
        have hu' : Function.update s.own t none u = some ys := hu
        rw [hnone] at hu'
        cases hu'
      · show written.Nodup
        have hnodup := h.nodup
        rw [h.own t xs hxs, hdurable] at hnodup
        exact (List.nodup_append.mp hnodup).1
  | @wrote t w ok err tables hat happly =>
      have hrecord := h.record hkept halone w tables
      exact ⟨hrecord.kept, hrecord.own, hrecord.nodup⟩

/-- A write into another thread's transaction has returned and is not
durable. -/
theorem not_isolated_of_intrusion {s s' : Shared τ σ ω} {t : τ}
    (hkept : s.Kept) (hstep : SharedStep apply programs s (t, .wrote) s')
    (hother : ¬∀ u, u ≠ t → s.own u = none) : ¬Isolated s' := by
  cases hstep with
  | @wrote _ w ok err tables hat happly =>
      simp only [not_forall] at hother
      obtain ⟨u, hne, hu⟩ := hother
      obtain ⟨xs, hxs⟩ := Option.ne_none_iff_exists'.mp hu
      have hown : s.own t = none := by
        cases hown : s.own t with
        | none => rfl
        | some ys => exact absurd (hkept.unique u t xs ys hxs hown) hne
      intro hisolated
      have hin : (s.next, w) ∈ (s.record t w tables).conn.durable := by
        refine hisolated.kept (s.next, w) ?_
        simp [Shared.goOn, Shared.record, hown]
      rw [Shared.durable_record, if_pos (hkept.opened u xs hxs)] at hin
      exact Nat.lt_irrefl _ (hkept.durable_lt _ hin)

/-- In a run in which no thread has written into another one's transaction, the
threads are isolated, and the next step keeps that exactly when it is no such
write. -/
theorem isolated_iff {s₀ s s' : Shared τ σ ω} {a : τ × ThreadStep}
    (hprograms : ∀ p, programs p → p.Disciplined false) (hfresh : Fresh s₀)
    (hrun : Run (Guarded (SharedStep apply programs) Alone) s₀ s)
    (hstep : SharedStep apply programs s a s') :
    Isolated s ∧ (Isolated s' ↔ Alone s a) := by
  have hkeeps : Preserves
      (Guarded (SharedStep (τ := τ) apply programs) Alone)
      (fun s => s.Kept ∧ s.Apart) := by
    rintro b c ⟨e, hbc, halone⟩ ⟨hkept, hapart⟩
    exact ⟨hkept.step hprograms hbc, hapart.step hkept hbc halone⟩
  have hstart : s₀.Kept ∧ s₀.Apart := by
    refine ⟨.of_fresh hfresh, ?_, ?_, ?_⟩
    · simp [hfresh.kept]
    · intro t xs hxs
      rw [hfresh.own] at hxs
      cases hxs
    · simp [hfresh.written]
  obtain ⟨hkept, hapart⟩ := hkeeps.run hrun hstart
  refine ⟨hapart.isolated, ?_, ?_⟩
  · intro hisolated
    obtain ⟨t, kind⟩ := a
    cases kind with
    | wrote =>
        by_contra hintrudes
        exact not_isolated_of_intrusion hkept hstep hintrudes hisolated
    | _ => trivial
  · exact fun halone => (hapart.step hkept hstep halone).isolated

/-! ## The tables -/

/-- The tables that the writes make of the first ones. -/
def replay (apply : ω → σ → Option σ) (writes : List (Numbered ω)) (tables : σ) :
    Option σ :=
  writes.foldlM (fun tables x => apply x.2 tables) tables

/-- In every run, the tables are those that the writes counted as present make,
and so are the tables that a rollback brings back. -/
theorem tables_replay {s₀ s : Shared τ σ ω} (hfresh : Fresh s₀)
    (hrun : Run (fun s s' : Shared τ σ ω =>
      ∃ a : τ × ThreadStep, SharedStep apply programs s a s') s₀ s) :
    replay apply s.conn.written s₀.conn.tables = some s.conn.tables ∧
      ∀ saved, s.conn.saved = some saved →
        replay apply saved.2 s₀.conn.tables = some saved.1 := by
  have hkeeps : Preserves
      (fun s s' : Shared τ σ ω =>
        ∃ a : τ × ThreadStep, SharedStep apply programs s a s')
      (fun s =>
        replay apply s.conn.written s₀.conn.tables = some s.conn.tables ∧
          ∀ saved, s.conn.saved = some saved →
            replay apply saved.2 s₀.conn.tables = some saved.1) := by
    rintro b c ⟨a, hstep⟩ hb
    cases hstep with
    | began hat hnone =>
        refine ⟨hb.1, ?_⟩
        intro saved hsaved
        rw [← Option.some.inj hsaved]
        exact hb.1
    | committed hat hopen =>
        refine ⟨hb.1, ?_⟩
        intro saved hsaved
        cases hsaved
    | rolledBack hat hopen =>
        refine ⟨hb.2 _ hopen, ?_⟩
        intro saved hsaved
        cases hsaved
    | @wrote t w ok err tables hat happly =>
        refine ⟨?_, hb.2⟩
        show replay apply (b.conn.written ++ [(b.next, w)]) _ = some tables
        have hfirst := hb.1
        unfold replay at hfirst ⊢
        rw [List.foldlM_append, hfirst]
        simp [happly]
    | _ => exact hb
  refine hkeeps.run hrun ⟨?_, ?_⟩
  · rw [hfresh.written]
    rfl
  · intro saved hsaved
    rw [hfresh.saved] at hsaved
    cases hsaved

end Threads

end ArkiveSync.Library
