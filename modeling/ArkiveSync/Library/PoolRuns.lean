import ArkiveSync.Library.WorkerPool

/-!
# Pools with a log, and pools that read late

`Jobs.logged` are the same jobs with a log of the stages that have been gone
through.  `Jobs.late` are the same jobs, only that a worker decides whether a
number is skipped in a step of its own, some time after it has taken the
number.

A worker that has taken a number and not decided yet is in the place of one that
has decided already: what it is going to read is not changed by the others.

## Main results

* `Pool.Errors.of_finished`: a logged pool that finishes has recorded one of the
  errors that were thrown, if any was.
* `Pool.run_of_logged`: without its log, a run of a logged pool is one of the
  pool.
* `Pool.run_early`: a run of a pool that reads late is one of the pool.
-/

namespace ArkiveSync.Library

variable {n : Nat} {τ ε σ : Type}

/-! ## Logs -/

/-- The shared state, and the stages that have been gone through, each with the
number that it is about and how it has ended, the latest one last. -/
structure Logged (τ ε σ : Type) where
  state : σ
  log : List (Nat × τ × Outcome τ ε)

/-- The jobs with a log. -/
def Jobs.logged (J : Jobs τ ε σ) : Jobs τ ε (Logged τ ε σ) where
  count := J.count
  skip s p := J.skip s.state p
  start := J.start
  stage p t s o s' := J.stage p t s.state o s'.state ∧
    s'.log = s.log ++ [(p, t, o)]

/-- The error of an outcome. -/
def Outcome.error : Outcome τ ε → Option ε
  | .throw e => some e
  | .next _ => none
  | .done => none

/-- The errors that have been thrown. -/
def thrown (log : List (Nat × τ × Outcome τ ε)) : List ε :=
  log.filterMap (fun entry => entry.2.2.error)

theorem thrown_append (log : List (Nat × τ × Outcome τ ε)) (p : Nat) (t : τ)
    (o : Outcome τ ε) :
    thrown (log ++ [(p, t, o)]) = thrown log ++ o.error.toList := by
  unfold thrown
  rw [List.filterMap_append]
  cases o <;> rfl

namespace Phase

/-- The error that a worker is about to record. -/
def pending : Phase τ ε → Option ε
  | throwing _ e => some e
  | recording _ e => some e
  | looping => none
  | claiming => none
  | working _ _ => none
  | threw _ => none
  | returned => none

theorem pending_after (p : Nat) (o : Outcome τ ε) :
    (after p o).pending = o.error := by
  cases o <;> rfl

end Phase

namespace Pool

variable {J : Jobs τ ε σ}

/-- What a pool has made of the errors that were thrown: they are on their way
to be recorded, or one has been recorded. -/
structure Errors (s : Pool n τ ε (Logged τ ε σ)) : Prop where
  recorded : ∀ e, s.firstError = some e → e ∈ thrown s.env.log
  pending : ∀ w e, (s.phase w).pending = some e → e ∈ thrown s.env.log
  kept : thrown s.env.log ≠ [] →
    s.firstError.isSome ∨ ∃ w, (s.phase w).pending.isSome

/-- A move that takes no error up and loses none; the counter and the flag may
change with it. -/
theorem Errors.move {s : Pool n τ ε (Logged τ ε σ)} {w : Fin n}
    {ph : Phase τ ε} (h : Errors s) (m : Nat) (stop : Bool)
    (hsame : ph.pending = (s.phase w).pending) :
    Errors { s.move w ph with nextNumber := m, stop := stop } := by
  have hphase : ∀ v, ((s.move w ph).phase v).pending =
      (s.phase v).pending := by
    intro v
    rw [phase_move]
    by_cases hv : v = w
    · rw [if_pos hv, hsame, hv]
    · rw [if_neg hv]
  refine ⟨h.recorded, ?_, ?_⟩
  · intro v e hv
    rw [hphase] at hv
    exact h.pending v e hv
  · intro hne
    rcases h.kept hne with herror | ⟨v, hv⟩
    · exact Or.inl herror
    · exact Or.inr ⟨v, by rwa [hphase]⟩

theorem Errors.step {s s' : Pool n τ ε (Logged τ ε σ)}
    (hstep : Step J.logged s s') (h : Errors s) : Errors s' := by
  cases hstep with
  | leave w hphase _ =>
      exact h.move s.nextNumber s.stop (by rw [hphase]; rfl)
  | loop w hphase _ =>
      exact h.move s.nextNumber s.stop (by rw [hphase]; rfl)
  | exhaust w hphase _ =>
      exact h.move (s.nextNumber + 1) s.stop (by rw [hphase]; rfl)
  | skip w hphase _ _ =>
      exact h.move (s.nextNumber + 1) s.stop (by rw [hphase]; rfl)
  | claim w hphase _ _ =>
      exact h.move (s.nextNumber + 1) s.stop (by rw [hphase]; rfl)
  | stage w p t o env' hphase hstage =>
      have hlog : thrown env'.log = thrown s.env.log ++ o.error.toList := by
        rw [hstage.2, thrown_append]
      refine ⟨?_, ?_, ?_⟩
      · intro e he
        show e ∈ thrown env'.log
        rw [hlog]
        exact List.mem_append_left _ (h.recorded e he)
      · intro v e hv
        show e ∈ thrown env'.log
        rw [hlog]
        change ((s.move w (.after p o)).phase v).pending = some e at hv
        rw [phase_move] at hv
        by_cases hw : v = w
        · rw [if_pos hw, Phase.pending_after] at hv
          rw [hv]
          simp
        · rw [if_neg hw] at hv
          exact List.mem_append_left _ (h.pending v e hv)
      · intro hne
        show s.firstError.isSome ∨
          ∃ v, ((s.move w (.after p o)).phase v).pending.isSome
        change thrown env'.log ≠ [] at hne
        cases herror : o.error with
        | some e =>
            refine Or.inr ⟨w, ?_⟩
            rw [phase_move, if_pos rfl, Phase.pending_after, herror]
            rfl
        | none =>
            rw [hlog, herror, Option.toList_none, List.append_nil] at hne
            rcases h.kept hne with hrecorded | ⟨v, hv⟩
            · exact Or.inl hrecorded
            · refine Or.inr ⟨v, ?_⟩
              have hother : v ≠ w := by
                intro heq
                rw [heq, hphase] at hv
                cases hv
              rwa [phase_move, if_neg hother]
  | halt w p e hphase =>
      exact h.move s.nextNumber true (by rw [hphase]; rfl)
  | record w p e hphase =>
      have hin : e ∈ thrown s.env.log := h.pending w e (by rw [hphase]; rfl)
      refine ⟨?_, ?_, ?_⟩
      · intro e' he'
        change (s.firstError <|> some e) = some e' at he'
        cases hfirst : s.firstError with
        | none =>
            rw [hfirst] at he'
            cases he'
            exact hin
        | some first =>
            rw [hfirst] at he'
            cases he'
            exact h.recorded _ hfirst
      · intro v e' hv
        change ((s.move w (.threw p)).phase v).pending = some e' at hv
        rw [phase_move] at hv
        by_cases hw : v = w
        · rw [if_pos hw] at hv
          cases hv
        · rw [if_neg hw] at hv
          exact h.pending v e' hv
      · intro _
        refine Or.inl ?_
        show (s.firstError <|> some e).isSome
        cases s.firstError <;> rfl

theorem Errors.init {env : σ} :
    Errors ({ env := { state := env, log := [] } } :
      Pool n τ ε (Logged τ ε σ)) := by
  refine ⟨?_, ?_, ?_⟩
  · intro e he
    cases he
  · intro w e he
    cases he
  · intro hne
    exact absurd rfl hne

theorem Errors.run {s s' : Pool n τ ε (Logged τ ε σ)}
    (hrun : Run (Step J.logged) s s') (h : Errors s) : Errors s' := by
  have hkeeps : Preserves (Step J.logged (n := n)) Errors := by
    intro a b hstep ha
    exact ha.step hstep
  exact hkeeps.run hrun h

/-- A pool that finishes has recorded one of the errors, if any was thrown. -/
theorem Errors.of_finished {s : Pool n τ ε (Logged τ ε σ)} (h : Errors s)
    (hfinished : s.Finished) (hthrown : thrown s.env.log ≠ []) :
    ∃ e ∈ thrown s.env.log, s.firstError = some e := by
  rcases h.kept hthrown with herror | ⟨w, hw⟩
  · obtain ⟨e, he⟩ := Option.isSome_iff_exists.mp herror
    exact ⟨e, h.recorded e he, he⟩
  · rcases hfinished w with hphase | ⟨p, hphase⟩
    · rw [hphase] at hw
      cases hw
    · rw [hphase] at hw
      cases hw

/-- The pool without its log. -/
def unlogged (s : Pool n τ ε (Logged τ ε σ)) : Pool n τ ε σ :=
  { nextNumber := s.nextNumber, stop := s.stop, firstError := s.firstError
    phase := s.phase, env := s.env.state }

theorem step_of_logged {s s' : Pool n τ ε (Logged τ ε σ)}
    (hstep : Step J.logged s s') : Step J s.unlogged s'.unlogged := by
  cases hstep with
  | leave w hphase hstop => exact .leave s.unlogged w hphase hstop
  | loop w hphase hstop => exact .loop s.unlogged w hphase hstop
  | exhaust w hphase hover => exact .exhaust s.unlogged w hphase hover
  | skip w hphase hle hskip => exact .skip s.unlogged w hphase hle hskip
  | claim w hphase hle hskip => exact .claim s.unlogged w hphase hle hskip
  | stage w p t o env' hphase hstage =>
      exact .stage s.unlogged w p t o env'.state hphase hstage.1
  | halt w p e hphase => exact .halt s.unlogged w p e hphase
  | record w p e hphase => exact .record s.unlogged w p e hphase

/-- Without its log, a run of a logged pool is one of the pool. -/
theorem run_of_logged {s s' : Pool n τ ε (Logged τ ε σ)}
    (hrun : Run (Step J.logged) s s') :
    Run (Step J) s.unlogged s'.unlogged := by
  induction hrun with
  | refl => exact .refl
  | tail _ hlast ih => exact ih.tail (step_of_logged hlast)

end Pool

/-! ## Late reads -/

/-- The outcome of a stage, for a worker that has read its number. -/
def Outcome.late : Outcome τ ε → Outcome (Option τ) ε
  | .next t => .next (some t)
  | .done => .done
  | .throw e => .throw e

/-- The stages of a job that reads first whether its number is skipped. -/
inductive LateStage (J : Jobs τ ε σ) (p : Nat) :
    Option τ → σ → Outcome (Option τ) ε → σ → Prop where
  | skip (s : σ) (h : J.skip s p = true) : LateStage J p none s .done s
  | start (s : σ) (h : J.skip s p = false) :
      LateStage J p none s (.next (some J.start)) s
  | stage (t : τ) (s : σ) (o : Outcome τ ε) (s' : σ)
      (h : J.stage p t s o s') : LateStage J p (some t) s o.late s'

/-- The jobs whose workers read late. -/
def Jobs.late (J : Jobs τ ε σ) : Jobs (Option τ) ε σ where
  count := J.count
  skip _ _ := false
  start := none
  stage := LateStage J

/-- No stage changes whether another number is skipped. -/
def Jobs.SkipsApart (J : Jobs τ ε σ) : Prop :=
  ∀ p t s o s', J.stage p t s o s' → 1 ≤ p → p ≤ J.count →
    ∀ q, 1 ≤ q → q ≠ p → J.skip s' q = J.skip s q

/-- The place of a worker that has decided about its number. -/
def Phase.early (J : Jobs τ ε σ) (s : σ) : Phase (Option τ) ε → Phase τ ε
  | .looping => .looping
  | .claiming => .claiming
  | .working p none =>
      if J.skip s p then .looping else .working p J.start
  | .working p (some t) => .working p t
  | .throwing p e => .throwing p e
  | .recording p e => .recording p e
  | .threw p => .threw p
  | .returned => .returned

theorem Phase.early_after (J : Jobs τ ε σ) (s : σ) (p : Nat)
    (o : Outcome τ ε) :
    (Phase.after p o.late).early J s = Phase.after p o := by
  cases o <;> rfl

namespace Pool

variable {J : Jobs τ ε σ}

/-- The pool whose workers have decided. -/
def early (J : Jobs τ ε σ) (s : Pool n (Option τ) ε σ) : Pool n τ ε σ :=
  { nextNumber := s.nextNumber, stop := s.stop, firstError := s.firstError
    phase := fun w => (s.phase w).early J s.env, env := s.env }

/-- One worker moves: it moves in the other pool as well, where the others
stay in their places. -/
theorem early_move (s : Pool n (Option τ) ε σ) (w : Fin n)
    (ph : Phase (Option τ) ε) (m : Nat) (stop : Bool) (error : Option ε)
    (env : σ) (hothers : ∀ v, v ≠ w →
      (s.phase v).early J env = (s.phase v).early J s.env) :
    early J { s.move w ph with
      nextNumber := m, stop := stop, firstError := error, env := env } =
    { (early J s).move w (ph.early J env) with
      nextNumber := m, stop := stop, firstError := error, env := env } := by
  have hphase : (fun v => ((s.move w ph).phase v).early J env) =
      ((early J s).move w (ph.early J env)).phase := by
    funext v
    rw [phase_move, phase_move]
    by_cases hv : v = w
    · rw [if_pos hv, if_pos hv]
    · rw [if_neg hv, if_neg hv]
      exact hothers v hv
  unfold early
  dsimp only
  rw [hphase]
  rfl

/-- A worker that stays where it is. -/
theorem move_self {s : Pool n τ ε σ} {w : Fin n} {ph : Phase τ ε}
    (h : s.phase w = ph) : s.move w ph = s := by
  unfold move
  rw [← h, Function.update_eq_self]

/-- A step of a pool that reads late is none of the pool, or one. -/
theorem step_early (hapart : J.SkipsApart) {s s' : Pool n (Option τ) ε σ}
    (howned : Owned J.late s) (hstep : Step J.late s s') :
    Run (Step J) (early J s) (early J s') := by
  have hphase : ∀ {w ph}, s.phase w = ph →
      (early J s).phase w = ph.early J s.env := by
    intro w ph h
    show (s.phase w).early J s.env = _
    rw [h]
  have hmove := fun w ph m stop error =>
    early_move (J := J) s w ph m stop error s.env (fun _ _ => rfl)
  cases hstep with
  | leave w h hstop =>
      have heq := hmove w .returned s.nextNumber s.stop s.firstError
      exact heq ▸ .single (.leave (early J s) w (hphase h) hstop)
  | loop w h hstop =>
      have heq := hmove w .claiming s.nextNumber s.stop s.firstError
      exact heq ▸ .single (.loop (early J s) w (hphase h) hstop)
  | exhaust w h hover =>
      have heq := hmove w .returned (s.nextNumber + 1) s.stop s.firstError
      exact heq ▸ .single (.exhaust (early J s) w (hphase h) hover)
  | skip w h hle hskip => cases hskip
  | claim w h hle hskip =>
      have heq := hmove w (.working s.nextNumber none) (s.nextNumber + 1)
        s.stop s.firstError
      refine heq ▸ .single ?_
      cases hreads : J.skip s.env s.nextNumber with
      | true =>
          have hearly : Phase.early J s.env
              (.working s.nextNumber none : Phase (Option τ) ε) =
                .looping := by
            simp [Phase.early, hreads]
          rw [hearly]
          exact .skip (early J s) w (hphase h) hle hreads
      | false =>
          have hearly : Phase.early J s.env
              (.working s.nextNumber none : Phase (Option τ) ε) =
                .working s.nextNumber J.start := by
            simp [Phase.early, hreads]
          rw [hearly]
          exact .claim (early J s) w (hphase h) hle hreads
  | stage w p t o env' h hstage =>
      change LateStage J p t s.env o env' at hstage
      cases hstage with
      | skip _ hreads =>
          have heq := hmove w .looping s.nextNumber s.stop s.firstError
          have hstays : (early J s).phase w = .looping := by
            rw [hphase h]
            simp [Phase.early, hreads]
          have hsame : early J { s.move w (.after p .done) with
              env := s.env } = early J s := by
            refine heq.trans ?_
            exact move_self hstays
          exact hsame ▸ .refl
      | start _ hreads =>
          have heq := hmove w (.working p (some J.start)) s.nextNumber s.stop
            s.firstError
          have hstays : (early J s).phase w = .working p J.start := by
            rw [hphase h]
            simp [Phase.early, hreads]
          have hsame : early J { s.move w (.after p (.next (some J.start)))
              with env := s.env } = early J s := by
            refine heq.trans ?_
            exact move_self hstays
          exact hsame ▸ .refl
      | stage t' _ o' _ hstep =>
          have hrange := howned.range w p (by rw [h]; rfl)
          have hothers : ∀ v, v ≠ w → (s.phase v).early J env' =
              (s.phase v).early J s.env := by
            intro v hv
            cases hother : s.phase v with
            | working q u =>
                cases u with
                | none =>
                    have hq := howned.range v q (by rw [hother]; rfl)
                    have hne : q ≠ p := by
                      intro heq
                      refine hv (howned.unique v w p ?_ ?_)
                      · rw [hother, heq]
                        rfl
                      · rw [h]
                        rfl
                    have hsame := hapart p t' s.env o' env' hstep hrange.1
                      hrange.2.2 q hq.1 hne
                    simp only [Phase.early, hsame]
                | some u => rfl
            | _ => rfl
          have heq := early_move (J := J) s w (.after p o'.late) s.nextNumber
            s.stop s.firstError env' hothers
          rw [Phase.early_after] at heq
          exact heq ▸ .single (.stage (early J s) w p t' o' env' (hphase h)
            hstep)
  | halt w p e h =>
      have heq := hmove w (.recording p e) s.nextNumber true s.firstError
      exact heq ▸ .single (.halt (early J s) w p e (hphase h))
  | record w p e h =>
      have heq := hmove w (.threw p) s.nextNumber s.stop
        (s.firstError <|> some e)
      exact heq ▸ .single (.record (early J s) w p e (hphase h))

/-- Jobs of which nothing is shown. -/
theorem sound_trivial (J : Jobs τ ε σ) :
    J.Sound (fun _ _ => True) (fun _ _ => True) (fun _ _ _ => True)
      (fun _ _ => True) := by
  constructor <;> intros <;> trivial

/-- A run of a pool that reads late is one of the pool. -/
theorem run_early (hapart : J.SkipsApart) {env : σ}
    {s : Pool n (Option τ) ε σ}
    (hrun : Run (Step J.late) { env := env } s) :
    Run (Step J) { env := env } (early J s) := by
  have hstart : early J ({ env := env } : Pool n (Option τ) ε σ) =
      { env := env } := rfl
  have hkeeps : Preserves (Step J.late) (fun t : Pool n (Option τ) ε σ =>
      Inv J.late (fun _ _ => True) (fun _ _ => True) (fun _ _ _ => True)
        (fun _ _ => True) t ∧
      Run (Step J) { env := env } (early J t)) := by
    intro a b hstep ⟨hinv, hearly⟩
    exact ⟨hinv.step (sound_trivial J.late) hstep,
      hearly.trans (step_early hapart hinv.owned hstep)⟩
  have hinit : Inv J.late (fun _ _ => True) (fun _ _ => True)
      (fun _ _ _ => True) (fun _ _ => True)
      ({ env := env } : Pool n (Option τ) ε σ) :=
    Inv.init trivial (fun _ _ _ => trivial)
  exact (hkeeps.run hrun ⟨hinit, hstart ▸ .refl⟩).2

theorem finished_early {s : Pool n (Option τ) ε σ} (h : s.Finished) :
    (early J s).Finished := by
  intro w
  show (s.phase w).early J s.env = _ ∨ ∃ p, (s.phase w).early J s.env = _
  rcases h w with hphase | ⟨p, hphase⟩
  · exact Or.inl (by rw [hphase]; rfl)
  · exact Or.inr ⟨p, by rw [hphase]; rfl⟩

end Pool

end ArkiveSync.Library
