import Mathlib.Data.Fintype.Card
import Mathlib.Data.Fintype.Pigeonhole
import ArkiveSync.Library.Runs

/-!
# Workers that share a counter

A fixed number of workers take the numbers `1, …, count` off one shared
counter, in a loop that a shared flag stops.  Whoever takes a number runs its
job, a sequence of stages over a shared state in which the stages of the other
workers may fall anywhere.  A job that throws raises the flag and records its
error, the first one only.  The pool has finished when every worker has left
its loop.

## Main results

* `Pool.Inv.step`, `Pool.Inv.run`: the proof rule of the pool.  What has to be
  shown of the jobs is listed in `Jobs.Sound`: what a job relies on while it
  runs, what it has achieved when it is done, and that no stage of a job
  disturbs what the other numbers rely on.
* `Pool.Inv.done_of_finished`: a pool with at least one worker that finishes
  without an error has done every number.
* `Pool.Inv.exists_done`: among more consecutive claimed numbers than there are
  workers, one is done, even if the pool fails.
-/

namespace ArkiveSync.Library

/-- Where a worker is: at the test of its loop, about to take a number, in
some stage of a job, on its way through the handler of an exception, or out of
the loop.  A worker that threw leaves the loop at its next test. -/
inductive Phase (τ ε : Type) where
  | looping
  | claiming
  | working (p : Nat) (t : τ)
  | throwing (p : Nat) (e : ε)
  | recording (p : Nat) (e : ε)
  | threw (p : Nat)
  | returned

/-- How a stage of a job ends. -/
inductive Outcome (τ ε : Type) where
  | next (t : τ)
  | done
  | throw (e : ε)

/-- The jobs of a pool: how many there are, which of them are skipped when
their number comes up, and their stages over the shared state. -/
structure Jobs (τ ε σ : Type) where
  count : Nat
  skip : σ → Nat → Bool
  start : τ
  stage : Nat → τ → σ → Outcome τ ε → σ → Prop

/-- The workers, what they share, and the state their jobs work on. -/
structure Pool (n : Nat) (τ ε σ : Type) where
  nextNumber : Nat := 1
  stop : Bool := false
  firstError : Option ε := none
  phase : Fin n → Phase τ ε := fun _ => .looping
  env : σ

variable {n : Nat} {τ ε σ : Type}

namespace Phase

/-- The number a worker has taken and not finished. -/
def held : Phase τ ε → Option Nat
  | looping => none
  | claiming => none
  | working p _ => some p
  | throwing p _ => some p
  | recording p _ => some p
  | threw p => some p
  | returned => none

/-- The phase after a stage of job `p`. -/
def after (p : Nat) : Outcome τ ε → Phase τ ε
  | .next t => .working p t
  | .done => .looping
  | .throw e => .throwing p e

end Phase

namespace Pool

/-- A worker moves to another phase. -/
def move (s : Pool n τ ε σ) (w : Fin n) (ph : Phase τ ε) : Pool n τ ε σ :=
  { s with phase := Function.update s.phase w ph }

/-- One step of one worker. -/
inductive Step (J : Jobs τ ε σ) : Pool n τ ε σ → Pool n τ ε σ → Prop where
  | leave (s : Pool n τ ε σ) (w : Fin n) (hphase : s.phase w = .looping)
      (hstop : s.stop = true) : Step J s (s.move w .returned)
  | loop (s : Pool n τ ε σ) (w : Fin n) (hphase : s.phase w = .looping)
      (hstop : s.stop = false) : Step J s (s.move w .claiming)
  | exhaust (s : Pool n τ ε σ) (w : Fin n) (hphase : s.phase w = .claiming)
      (hover : J.count < s.nextNumber) :
      Step J s { s.move w .returned with nextNumber := s.nextNumber + 1 }
  | skip (s : Pool n τ ε σ) (w : Fin n) (hphase : s.phase w = .claiming)
      (hle : s.nextNumber ≤ J.count)
      (hskip : J.skip s.env s.nextNumber = true) :
      Step J s { s.move w .looping with nextNumber := s.nextNumber + 1 }
  | claim (s : Pool n τ ε σ) (w : Fin n) (hphase : s.phase w = .claiming)
      (hle : s.nextNumber ≤ J.count)
      (hskip : J.skip s.env s.nextNumber = false) :
      Step J s { s.move w (.working s.nextNumber J.start) with
        nextNumber := s.nextNumber + 1 }
  | stage (s : Pool n τ ε σ) (w : Fin n) (p : Nat) (t : τ)
      (o : Outcome τ ε) (env' : σ) (hphase : s.phase w = .working p t)
      (hstage : J.stage p t s.env o env') :
      Step J s { s.move w (.after p o) with env := env' }
  | halt (s : Pool n τ ε σ) (w : Fin n) (p : Nat) (e : ε)
      (hphase : s.phase w = .throwing p e) :
      Step J s { s.move w (.recording p e) with stop := true }
  | record (s : Pool n τ ε σ) (w : Fin n) (p : Nat) (e : ε)
      (hphase : s.phase w = .recording p e) :
      Step J s { s.move w (.threw p) with
        firstError := s.firstError <|> some e }

/-- Every worker has left its loop. -/
def Finished (s : Pool n τ ε σ) : Prop :=
  ∀ w, s.phase w = .returned ∨ ∃ p, s.phase w = .threw p

theorem phase_move (s : Pool n τ ε σ) (w : Fin n) (ph : Phase τ ε)
    (v : Fin n) :
    (s.move w ph).phase v = if v = w then ph else s.phase v :=
  Function.update_apply s.phase w ph v

end Pool

/-! ## What is shown of the jobs -/

/-- An invariant `I` of the shared state, which may speak of the counter, what
holds of a number before it is taken, what its job relies on in each stage, and
what holds once it is done. -/
structure Jobs.Sound (J : Jobs τ ε σ) (I : Nat → σ → Prop)
    (Fresh : Nat → σ → Prop) (Local : Nat → τ → σ → Prop)
    (Done : Nat → σ → Prop) : Prop where
  count : ∀ m s, I m s → I (m + 1) s
  skip : ∀ m p s, I m s → Fresh p s → J.skip s p = true → Done p s
  start : ∀ m p s, I m s → Fresh p s → J.skip s p = false → Local p J.start s
  keep : ∀ m p t s o s', J.stage p t s o s' → I m s → Local p t s → p < m →
    I m s'
  next : ∀ m p t s u s', J.stage p t s (.next u) s' → I m s → Local p t s →
    Local p u s'
  done : ∀ m p t s s', J.stage p t s .done s' → I m s → Local p t s →
    Done p s'
  fresh_other : ∀ m p t s o s', J.stage p t s o s' → I m s → Local p t s →
    ∀ q, q ≠ p → Fresh q s → Fresh q s'
  local_other : ∀ m p t s o s', J.stage p t s o s' → I m s → Local p t s →
    ∀ q u, q ≠ p → Local q u s → Local q u s'
  done_other : ∀ m p t s o s', J.stage p t s o s' → I m s → Local p t s →
    ∀ q, q ≠ p → Done q s → Done q s'

namespace Pool

variable {J : Jobs τ ε σ} {I : Nat → σ → Prop} {Fresh : Nat → σ → Prop}
variable {Local : Nat → τ → σ → Prop} {Done : Nat → σ → Prop}

/-- Who holds which number: one worker at most, and only after the number was
taken off the counter. -/
structure Owned (J : Jobs τ ε σ) (s : Pool n τ ε σ) : Prop where
  first : 1 ≤ s.nextNumber
  range : ∀ w p, (s.phase w).held = some p →
    1 ≤ p ∧ p < s.nextNumber ∧ p ≤ J.count
  unique : ∀ w v p, (s.phase w).held = some p → (s.phase v).held = some p →
    w = v

/-- Why workers stop: the flag goes up with an error, and nobody returns
before the flag is up or the counter is past the end. -/
structure Signalled (J : Jobs τ ε σ) (s : Pool n τ ε σ) : Prop where
  halted : s.stop = true →
    s.firstError.isSome ∨ ∃ w p e, s.phase w = .recording p e
  threw : ∀ w p, s.phase w = .threw p → s.firstError.isSome
  returned : ∀ w, s.phase w = .returned →
    s.stop = true ∨ J.count < s.nextNumber

/-- What the jobs have achieved: numbers not yet taken are fresh, numbers that
were taken are done or in the hands of a worker. -/
structure Achieved (J : Jobs τ ε σ) (I : Nat → σ → Prop) (Fresh : Nat → σ → Prop)
    (Local : Nat → τ → σ → Prop) (Done : Nat → σ → Prop)
    (s : Pool n τ ε σ) : Prop where
  env : I s.nextNumber s.env
  fresh : ∀ p, s.nextNumber ≤ p → p ≤ J.count → Fresh p s.env
  stages : ∀ w p t, s.phase w = .working p t → Local p t s.env
  claimed : ∀ p, 1 ≤ p → p < s.nextNumber → p ≤ J.count →
    Done p s.env ∨ ∃ w, (s.phase w).held = some p

/-- The invariant of the pool. -/
structure Inv (J : Jobs τ ε σ) (I : Nat → σ → Prop) (Fresh : Nat → σ → Prop)
    (Local : Nat → τ → σ → Prop) (Done : Nat → σ → Prop)
    (s : Pool n τ ε σ) : Prop where
  owned : Owned J s
  signalled : Signalled J s
  achieved : Achieved J I Fresh Local Done s

/-! ## One worker moves -/

section Moves

variable {s : Pool n τ ε σ} {w : Fin n} {ph : Phase τ ε}

/-- A move that takes no number up. -/
theorem Owned.move (h : Owned J s)
    (hheld : ∀ p, ph.held = some p → (s.phase w).held = some p) :
    Owned J (s.move w ph) := by
  have hold : ∀ v p, ((s.move w ph).phase v).held = some p →
      (s.phase v).held = some p := by
    intro v p hp
    rw [phase_move] at hp
    by_cases hv : v = w
    · rw [if_pos hv] at hp
      rw [hv]
      exact hheld p hp
    · rwa [if_neg hv] at hp
  exact ⟨h.first, fun v p hp => h.range v p (hold v p hp),
    fun v u p hv hu => h.unique v u p (hold v p hv) (hold u p hu)⟩

/-- A worker takes the next number. -/
theorem Owned.claim (h : Owned J s) (hle : s.nextNumber ≤ J.count) (t : τ) :
    Owned J { s.move w (.working s.nextNumber t) with
      nextNumber := s.nextNumber + 1 } := by
  have hheld : ∀ v p, ((s.move w (.working s.nextNumber t)).phase v).held
      = some p → (v = w ∧ p = s.nextNumber) ∨ (s.phase v).held = some p := by
    intro v p hp
    rw [phase_move] at hp
    by_cases hv : v = w
    · rw [if_pos hv] at hp
      exact Or.inl ⟨hv, (Option.some.inj hp).symm⟩
    · rw [if_neg hv] at hp
      exact Or.inr hp
  refine ⟨Nat.le_succ_of_le h.first, ?_, ?_⟩
  · intro v p hp
    show 1 ≤ p ∧ p < s.nextNumber + 1 ∧ p ≤ J.count
    rcases hheld v p hp with ⟨-, rfl⟩ | hold
    · exact ⟨h.first, by omega, hle⟩
    · have hrange := h.range v p hold
      omega
  · intro v u p hv hu
    rcases hheld v p hv with ⟨hvw, hp⟩ | hv'
    · rcases hheld u p hu with ⟨huw, -⟩ | hu'
      · rw [hvw, huw]
      · have hrange := h.range u p hu'
        omega
    · rcases hheld u p hu with ⟨-, hp⟩ | hu'
      · have hrange := h.range v p hv'
        omega
      · exact h.unique v u p hv' hu'

/-- The counter may move on at any time. -/
theorem Owned.count (h : Owned J s) :
    Owned J { s with nextNumber := s.nextNumber + 1 } := by
  refine ⟨Nat.le_succ_of_le h.first, ?_, h.unique⟩
  intro v p hp
  have hrange := h.range v p hp
  show 1 ≤ p ∧ p < s.nextNumber + 1 ∧ p ≤ J.count
  omega

/-- A move of a worker that is not about to record an error. -/
theorem Signalled.move (h : Signalled J s)
    (hrecording : ∀ p e, s.phase w ≠ .recording p e)
    (hthrew : ∀ p, ph ≠ .threw p)
    (hreturned : ph = .returned → s.stop = true ∨ J.count < s.nextNumber) :
    Signalled J (s.move w ph) := by
  refine ⟨?_, ?_, ?_⟩
  · intro hstop
    rcases h.halted hstop with herror | ⟨v, p, e, hv⟩
    · exact Or.inl herror
    · refine Or.inr ⟨v, p, e, ?_⟩
      have hne : v ≠ w := by
        intro heq
        rw [heq] at hv
        exact hrecording p e hv
      rw [phase_move, if_neg hne, hv]
  · intro v p hv
    rw [phase_move] at hv
    by_cases hw : v = w
    · rw [if_pos hw] at hv
      exact absurd hv (hthrew p)
    · rw [if_neg hw] at hv
      exact h.threw v p hv
  · intro v hv
    rw [phase_move] at hv
    by_cases hw : v = w
    · rw [if_pos hw] at hv
      exact hreturned hv
    · rw [if_neg hw] at hv
      exact h.returned v hv

theorem Signalled.count (h : Signalled J s) :
    Signalled J { s with nextNumber := s.nextNumber + 1 } := by
  refine ⟨h.halted, h.threw, ?_⟩
  intro v hv
  rcases h.returned v hv with hstop | hover
  · exact Or.inl hstop
  · exact Or.inr (Nat.lt_succ_of_lt hover)

/-- The flag goes up while the error waits to be recorded. -/
theorem Signalled.halt (h : Signalled J s) {p : Nat} {e : ε} :
    Signalled J { s.move w (.recording p e) with stop := true } := by
  refine ⟨?_, ?_, fun _ _ => Or.inl rfl⟩
  · intro _
    refine Or.inr ⟨w, p, e, ?_⟩
    show (s.move w _).phase w = _
    rw [phase_move, if_pos rfl]
  · intro v q hv
    change (s.move w _).phase v = _ at hv
    rw [phase_move] at hv
    by_cases hw : v = w
    · rw [if_pos hw] at hv
      cases hv
    · rw [if_neg hw] at hv
      exact h.threw v q hv

/-- The first error is kept. -/
theorem Signalled.record (h : Signalled J s) {p : Nat} {e : ε} :
    Signalled J { s.move w (.threw p) with
      firstError := s.firstError <|> some e } := by
  have hsome : (s.firstError <|> some e).isSome := by
    cases s.firstError <;> rfl
  refine ⟨fun _ => Or.inl hsome, fun _ _ _ => hsome, ?_⟩
  intro v hv
  change (s.move w _).phase v = _ at hv
  rw [phase_move] at hv
  by_cases hw : v = w
  · rw [if_pos hw] at hv
    cases hv
  · rw [if_neg hw] at hv
    exact h.returned v hv

/-- A move that keeps the number and is not into a stage. -/
theorem Achieved.move (h : Achieved J I Fresh Local Done s)
    (hheld : ph.held = (s.phase w).held)
    (hstage : ∀ p t, ph ≠ .working p t) :
    Achieved J I Fresh Local Done (s.move w ph) := by
  refine ⟨h.env, h.fresh, ?_, ?_⟩
  · intro v p t hv
    rw [phase_move] at hv
    by_cases hw : v = w
    · rw [if_pos hw] at hv
      exact absurd hv (hstage p t)
    · rw [if_neg hw] at hv
      exact h.stages v p t hv
  · intro p hp hlt hle
    rcases h.claimed p hp hlt hle with hdone | ⟨v, hv⟩
    · exact Or.inl hdone
    · refine Or.inr ⟨v, ?_⟩
      rw [phase_move]
      by_cases hw : v = w
      · rw [if_pos hw, hheld, ← hw, hv]
      · rw [if_neg hw, hv]

/-- The counter moves on over a number that is past the end, done, or in the
hands of the worker that took it. -/
theorem Achieved.count (hJ : J.Sound I Fresh Local Done)
    (h : Achieved J I Fresh Local Done s)
    (hnext : s.nextNumber ≤ J.count → Done s.nextNumber s.env ∨
      ∃ v, (s.phase v).held = some s.nextNumber) :
    Achieved J I Fresh Local Done
      { s with nextNumber := s.nextNumber + 1 } := by
  refine ⟨hJ.count _ _ h.env, fun p hp => h.fresh p (Nat.le_of_succ_le hp),
    h.stages, ?_⟩
  intro p hp hlt hle
  change p < s.nextNumber + 1 at hlt
  rcases Nat.lt_succ_iff_lt_or_eq.mp hlt with hold | rfl
  · exact h.claimed p hp hold hle
  · exact hnext hle

/-- A worker takes a fresh number and starts its job. -/
theorem Achieved.claim (hJ : J.Sound I Fresh Local Done)
    (h : Achieved J I Fresh Local Done s) (hphase : s.phase w = .claiming)
    (hle : s.nextNumber ≤ J.count)
    (hskip : J.skip s.env s.nextNumber = false) :
    Achieved J I Fresh Local Done
      { s.move w (.working s.nextNumber J.start) with
        nextNumber := s.nextNumber + 1 } := by
  refine ⟨hJ.count _ _ h.env, fun p hp => h.fresh p (Nat.le_of_succ_le hp),
    ?_, ?_⟩
  · intro v p t hv
    change (s.move w _).phase v = _ at hv
    rw [phase_move] at hv
    by_cases hw : v = w
    · rw [if_pos hw] at hv
      cases hv
      exact hJ.start _ _ _ h.env (h.fresh _ (Nat.le_refl _) hle) hskip
    · rw [if_neg hw] at hv
      exact h.stages v p t hv
  · intro p hp hlt hlep
    change p < s.nextNumber + 1 at hlt
    show Done p s.env ∨ ∃ v, ((s.move w _).phase v).held = some p
    rcases Nat.lt_succ_iff_lt_or_eq.mp hlt with hold | rfl
    · rcases h.claimed p hp hold hlep with hdone | ⟨v, hv⟩
      · exact Or.inl hdone
      · refine Or.inr ⟨v, ?_⟩
        have hne : v ≠ w := by
          intro heq
          rw [heq, hphase] at hv
          cases hv
        rw [phase_move, if_neg hne, hv]
    · refine Or.inr ⟨w, ?_⟩
      rw [phase_move, if_pos rfl]
      rfl

/-- A stage of one job: what the other numbers rely on is not disturbed. -/
theorem Achieved.stage (hJ : J.Sound I Fresh Local Done)
    (h : Achieved J I Fresh Local Done s) (howned : Owned J s) {p : Nat}
    {t : τ} {o : Outcome τ ε} {env' : σ} (hphase : s.phase w = .working p t)
    (hstage : J.stage p t s.env o env') :
    Achieved J I Fresh Local Done
      { s.move w (.after p o) with env := env' } := by
  have hlocal := h.stages w p t hphase
  have hheld : (s.phase w).held = some p := by rw [hphase]; rfl
  have hrange := howned.range w p hheld
  refine ⟨hJ.keep _ p t _ o _ hstage h.env hlocal hrange.2.1, ?_, ?_, ?_⟩
  · intro q hq hle
    have hne : q ≠ p := by
      change s.nextNumber ≤ q at hq
      omega
    exact hJ.fresh_other _ p t _ o _ hstage h.env hlocal q hne (h.fresh q hq hle)
  · intro v q u hv
    change (s.move w _).phase v = _ at hv
    rw [phase_move] at hv
    by_cases hw : v = w
    · rw [if_pos hw] at hv
      cases o with
      | next t' =>
          cases hv
          exact hJ.next _ p t _ u _ hstage h.env hlocal
      | done => cases hv
      | throw e => cases hv
    · rw [if_neg hw] at hv
      have hne : q ≠ p := by
        intro heq
        have hvheld : (s.phase v).held = some p := by rw [hv, heq]; rfl
        exact hw (howned.unique v w p hvheld hheld)
      exact hJ.local_other _ p t _ o _ hstage h.env hlocal q u hne (h.stages v q u hv)
  · intro q hq hlt hle
    show Done q env' ∨ ∃ v, ((s.move w _).phase v).held = some q
    by_cases hqp : q = p
    · subst hqp
      cases o with
      | next t' =>
          refine Or.inr ⟨w, ?_⟩
          rw [phase_move, if_pos rfl]
          rfl
      | done => exact Or.inl (hJ.done _ q t _ _ hstage h.env hlocal)
      | throw e =>
          refine Or.inr ⟨w, ?_⟩
          rw [phase_move, if_pos rfl]
          rfl
    · rcases h.claimed q hq hlt hle with hdone | ⟨v, hv⟩
      · exact Or.inl (hJ.done_other _ p t _ o _ hstage h.env hlocal q hqp hdone)
      · refine Or.inr ⟨v, ?_⟩
        have hne : v ≠ w := by
          intro heq
          rw [heq, hheld] at hv
          exact hqp (Option.some.inj hv).symm
        rw [phase_move, if_neg hne, hv]

end Moves

/-! ## The proof rule -/

/-- Every step keeps the invariant. -/
theorem Inv.step (hJ : J.Sound I Fresh Local Done) {s s' : Pool n τ ε σ}
    (hstep : Step J s s') (h : Inv J I Fresh Local Done s) :
    Inv J I Fresh Local Done s' := by
  cases hstep with
  | leave w hphase hstop =>
      refine ⟨h.owned.move (by intro p hp; cases hp),
        h.signalled.move ?_ (by intro p hp; cases hp) (fun _ => Or.inl hstop),
        h.achieved.move (by rw [hphase]; rfl) (by intro p t hp; cases hp)⟩
      intro p e heq
      rw [hphase] at heq
      cases heq
  | loop w hphase hstop =>
      refine ⟨h.owned.move (by intro p hp; cases hp),
        h.signalled.move ?_ (by intro p hp; cases hp) (by intro hp; cases hp),
        h.achieved.move (by rw [hphase]; rfl) (by intro p t hp; cases hp)⟩
      intro p e heq
      rw [hphase] at heq
      cases heq
  | exhaust w hphase hover =>
      refine ⟨(h.owned.move (by intro p hp; cases hp)).count,
        (h.signalled.move ?_ (by intro p hp; cases hp)
          (fun _ => Or.inr hover)).count,
        (h.achieved.move (by rw [hphase]; rfl)
          (by intro p t hp; cases hp)).count hJ ?_⟩
      · intro p e heq
        rw [hphase] at heq
        cases heq
      · intro hle
        exact absurd hle (Nat.not_le.mpr hover)
  | skip w hphase hle hskip =>
      refine ⟨(h.owned.move (by intro p hp; cases hp)).count,
        (h.signalled.move ?_ (by intro p hp; cases hp)
          (by intro hp; cases hp)).count,
        (h.achieved.move (by rw [hphase]; rfl)
          (by intro p t hp; cases hp)).count hJ ?_⟩
      · intro p e heq
        rw [hphase] at heq
        cases heq
      · intro _
        exact Or.inl (hJ.skip _ _ _ h.achieved.env
          (h.achieved.fresh _ (Nat.le_refl _) hle) hskip)
  | claim w hphase hle hskip =>
      refine ⟨h.owned.claim hle J.start,
        (h.signalled.move ?_ (by intro p hp; cases hp)
          (by intro hp; cases hp)).count,
        h.achieved.claim hJ hphase hle hskip⟩
      intro p e heq
      rw [hphase] at heq
      cases heq
  | stage w p t o env' hphase hstage =>
      have howned : Owned J (s.move w (.after p o)) := by
        refine h.owned.move ?_
        intro q hq
        rw [hphase]
        cases o with
        | next t' => exact hq
        | done => cases hq
        | throw e => exact hq
      have hsignalled : Signalled J (s.move w (.after p o)) := by
        refine h.signalled.move ?_ ?_ ?_
        · intro q e heq
          rw [hphase] at heq
          cases heq
        · intro q hq
          cases o <;> cases hq
        · intro hq
          cases o <;> cases hq
      exact ⟨⟨howned.first, howned.range, howned.unique⟩,
        ⟨hsignalled.halted, hsignalled.threw, hsignalled.returned⟩,
        h.achieved.stage hJ h.owned hphase hstage⟩
  | halt w p e hphase =>
      have howned : Owned J (s.move w (.recording p e)) := by
        refine h.owned.move ?_
        intro q hq
        rw [hphase]
        exact hq
      have hachieved : Achieved J I Fresh Local Done
          (s.move w (.recording p e)) :=
        h.achieved.move (by rw [hphase]; rfl) (by intro q t hq; cases hq)
      exact ⟨⟨howned.first, howned.range, howned.unique⟩, h.signalled.halt,
        ⟨hachieved.env, hachieved.fresh, hachieved.stages,
          hachieved.claimed⟩⟩
  | record w p e hphase =>
      have howned : Owned J (s.move w (.threw p)) := by
        refine h.owned.move ?_
        intro q hq
        rw [hphase]
        exact hq
      have hachieved : Achieved J I Fresh Local Done (s.move w (.threw p)) :=
        h.achieved.move (by rw [hphase]; rfl) (by intro q t hq; cases hq)
      exact ⟨⟨howned.first, howned.range, howned.unique⟩, h.signalled.record,
        ⟨hachieved.env, hachieved.fresh, hachieved.stages,
          hachieved.claimed⟩⟩

/-- The pool before its workers start, on a state where every number is
fresh. -/
theorem Inv.init {env : σ} (henv : I 1 env)
    (hfresh : ∀ p, 1 ≤ p → p ≤ J.count → Fresh p env) :
    Inv J I Fresh Local Done ({ env := env } : Pool n τ ε σ) := by
  refine ⟨⟨Nat.le_refl 1, ?_, ?_⟩, ⟨?_, ?_, ?_⟩, ⟨henv, hfresh, ?_, ?_⟩⟩
  · intro w p hp
    cases hp
  · intro w v p hp
    cases hp
  · intro hstop
    cases hstop
  · intro w p hp
    cases hp
  · intro w hw
    cases hw
  · intro w p t hp
    cases hp
  · intro p hp hlt
    change p < 1 at hlt
    omega

/-- Every run of the pool keeps the invariant. -/
theorem Inv.run (hJ : J.Sound I Fresh Local Done) {s s' : Pool n τ ε σ}
    (hrun : Run (Step J) s s') (h : Inv J I Fresh Local Done s) :
    Inv J I Fresh Local Done s' := by
  have hkeeps : Preserves (Step J) (Inv J I Fresh Local Done (n := n)) := by
    intro a b hstep ha
    exact ha.step hJ hstep
  exact hkeeps.run hrun h

/-- A pool with a worker that finishes without an error has done every
number. -/
theorem Inv.done_of_finished {s : Pool n τ ε σ}
    (h : Inv J I Fresh Local Done s) (hn : 0 < n) (hfinished : s.Finished)
    (hok : s.firstError = none) {p : Nat} (hp : 1 ≤ p) (hle : p ≤ J.count) :
    Done p s.env := by
  have hnoerror : ¬ s.firstError.isSome := by
    rw [hok]
    exact Bool.false_ne_true
  have hreturned : ∀ w, s.phase w = .returned := by
    intro w
    rcases hfinished w with hw | ⟨q, hw⟩
    · exact hw
    · exact absurd (h.signalled.threw w q hw) hnoerror
  have hover : J.count < s.nextNumber := by
    rcases h.signalled.returned ⟨0, hn⟩ (hreturned _) with hstop | hover
    · rcases h.signalled.halted hstop with herror | ⟨w, q, e, hw⟩
      · exact absurd herror hnoerror
      · rw [hreturned w] at hw
        cases hw
    · exact hover
  rcases h.achieved.claimed p hp (by omega) hle with hdone | ⟨w, hw⟩
  · exact hdone
  · rw [hreturned w] at hw
    cases hw

/-- Every worker has one number in its hands at most, so more consecutive
numbers than workers are not all unfinished. -/
theorem Inv.exists_done {s : Pool n τ ε σ} (h : Inv J I Fresh Local Done s)
    {a : Nat} (ha : 1 ≤ a) (hlt : a + n < s.nextNumber)
    (hle : a + n ≤ J.count) :
    ∃ p, a ≤ p ∧ p ≤ a + n ∧ Done p s.env := by
  by_contra hnone
  have hheld : ∀ i : Fin (n + 1), ∃ w, (s.phase w).held = some (a + i) := by
    intro i
    have hi : (i : Nat) ≤ n := Nat.le_of_lt_succ i.isLt
    rcases h.achieved.claimed (a + i) (by omega) (by omega) (by omega) with
      hdone | hw
    · exact absurd ⟨a + i, by omega, by omega, hdone⟩ hnone
    · exact hw
  choose holder hholder using hheld
  obtain ⟨i, j, hij, heq⟩ := Fintype.exists_ne_map_eq_of_card_lt holder
    (by rw [Fintype.card_fin, Fintype.card_fin]; omega)
  have hsame : some (a + (i : Nat)) = some (a + (j : Nat)) := by
    rw [← hholder i, ← hholder j, heq]
  have hval : (i : Nat) = j := Nat.add_left_cancel (Option.some.inj hsame)
  exact hij (Fin.ext hval)

end Pool

end ArkiveSync.Library
