import Mathlib.Data.List.Induction
import Mathlib.Logic.Relation

/-!
# Runs and what they preserve

A system is a relation between the states before and after one step; a run is
any number of steps.  A property that every step keeps holds after every run.

## Main results

* `Preserves.run`: the induction over a run, done once.
* `Preserves.of_run`: a step made of smaller steps keeps what those keep.
* `safe_of_guarded`: when every step of a run meets a condition, an invariant
  that holds under the condition makes the next such step safe.
* `safe_iff_meets`: when events are safe exactly under a condition and keep the
  invariant that shows it, a run is safe exactly when its events meet it.
* `segments_iff`: a relation that composes holds of every stretch of a run of
  events exactly when it holds of every single event.
* `runEvents_induction`: the induction over a run of events that may be
  impossible, for what is said of the state and of the events so far.
-/

namespace ArkiveSync.Library

variable {σ : Type}

/-- Every step from a state with `P` leads to a state with `P`. -/
def Preserves (step : σ → σ → Prop) (P : σ → Prop) : Prop :=
  ∀ ⦃a b⦄, step a b → P a → P b

/-- Any number of steps. -/
abbrev Run (step : σ → σ → Prop) : σ → σ → Prop :=
  Relation.ReflTransGen step

namespace Preserves

variable {step : σ → σ → Prop} {P Q : σ → Prop} {a b : σ}

/-- What every step preserves, every run preserves. -/
theorem run (h : Preserves step P) (hrun : Run step a b) (ha : P a) : P b := by
  induction hrun with
  | refl => exact ha
  | tail _ hlast ih => exact h hlast ih

/-- Steps that are runs of smaller ones. -/
theorem of_run {small : σ → σ → Prop} (h : Preserves small P)
    (hruns : ∀ ⦃a b⦄, step a b → Run small a b) : Preserves step P := by
  intro a b hstep ha
  exact h.run (hruns hstep) ha

end Preserves

/-! ## Runs whose steps meet a condition -/

variable {ε : Type}

/-- The steps, each with the event it is, that meet the condition. -/
def Guarded (step : σ → ε → σ → Prop) (meets : σ → ε → Prop) :
    σ → σ → Prop :=
  fun a b => ∃ event, step a event b ∧ meets a event

/-- What a step does is safe whenever all steps before it and the step itself
meet the condition. -/
theorem safe_of_guarded {step : σ → ε → σ → Prop} {meets : σ → ε → Prop}
    {P : σ → Prop} {safe : σ → ε → σ → Prop}
    (hkeep : ∀ a event b, step a event b → meets a event → P a → P b)
    (hsafe : ∀ a event b, step a event b → meets a event → P a →
      safe a event b)
    {a b c : σ} {event : ε} (ha : P a) (hrun : Run (Guarded step meets) a b)
    (hstep : step b event c) (hmeets : meets b event) : safe b event c := by
  have hkeeps : Preserves (Guarded step meets) P := by
    intro a b hguarded hP
    obtain ⟨event, hstep, hmeets⟩ := hguarded
    exact hkeep a event b hstep hmeets hP
  exact hsafe b event c hstep hmeets (hkeeps.run hrun ha)

/-! ## Runs of events -/

section Events

variable {step : σ → ε → σ} {rel : σ → List ε → σ → Prop}

/-- All events of a run, each in the state that it finds. -/
def Along (step : σ → ε → σ) (holds : σ → ε → Prop) (s : σ)
    (events : List ε) : Prop :=
  ∀ before event after, events = before ++ event :: after →
    holds (before.foldl step s) event

theorem along_nil {holds : σ → ε → Prop} (s : σ) : Along step holds s [] := by
  intro before event after heq
  simp at heq

theorem along_cons {holds : σ → ε → Prop} {s : σ} {e : ε} {es : List ε} :
    Along step holds s (e :: es) ↔
      holds s e ∧ Along step holds (step s e) es := by
  constructor
  · intro h
    refine ⟨h [] e es rfl, ?_⟩
    intro before event after heq
    exact h (e :: before) event after (by rw [heq, List.cons_append])
  · intro h before event after heq
    cases before with
    | nil =>
        cases heq
        exact h.1
    | cons b before =>
        rw [List.cons_append] at heq
        cases heq
        exact h.2 before event after rfl

/-- An invariant under which events are safe exactly when they meet a
condition, and which safe events keep. -/
theorem safe_iff_meets {P : σ → Prop} {safe meets : σ → ε → Prop}
    {events : List ε} (hsafe : ∀ e ∈ events, ∀ s, P s → (safe s e ↔ meets s e))
    (hkeep : ∀ e ∈ events, ∀ s, P s → safe s e → P (step s e)) :
    ∀ s, P s → (Along step safe s events ↔ Along step meets s events) := by
  induction events with
  | nil =>
      intro s _
      exact iff_of_true (along_nil s) (along_nil s)
  | cons e es ih =>
      intro s hs
      have hfirst := hsafe e List.mem_cons_self s hs
      have hrest := ih (fun e' he' => hsafe e' (List.mem_cons_of_mem _ he'))
        (fun e' he' => hkeep e' (List.mem_cons_of_mem _ he'))
      rw [along_cons, along_cons]
      constructor
      · intro h
        have hnext := hkeep e List.mem_cons_self s hs h.1
        exact ⟨hfirst.mp h.1, (hrest _ hnext).mp h.2⟩
      · intro h
        have hfits := hfirst.mpr h.1
        have hnext := hkeep e List.mem_cons_self s hs hfits
        exact ⟨hfits, (hrest _ hnext).mpr h.2⟩

/-- What relates the states around each event relates those around a run. -/
theorem fold_of_events (hrefl : ∀ s, rel s [] s)
    (htrans : ∀ s xs t ys u, rel s xs t → rel t ys u → rel s (xs ++ ys) u)
    (events : List ε) : ∀ s : σ,
    (∀ before event after, events = before ++ event :: after →
      rel (before.foldl step s) [event]
        (step (before.foldl step s) event)) →
    rel s events (events.foldl step s) := by
  induction events with
  | nil =>
      intro s _
      exact hrefl s
  | cons e es ih =>
      intro s h
      have hfirst : rel s [e] (step s e) := h [] e es rfl
      have hrest : rel (step s e) es (es.foldl step (step s e)) := by
        refine ih (step s e) ?_
        intro before event after heq
        exact h (e :: before) event after (by rw [heq, List.cons_append])
      exact htrans s [e] (step s e) es _ hfirst hrest

/-- A relation that composes holds of every stretch of a run exactly when it
holds of every event. -/
theorem segments_iff (hrefl : ∀ s, rel s [] s)
    (htrans : ∀ s xs t ys u, rel s xs t → rel t ys u → rel s (xs ++ ys) u)
    (s : σ) (events : List ε) :
    (∀ before during after, events = before ++ during ++ after →
      rel (before.foldl step s) during
        (during.foldl step (before.foldl step s))) ↔
    ∀ before event after, events = before ++ event :: after →
      rel (before.foldl step s) [event]
        (step (before.foldl step s) event) := by
  constructor
  · intro h before event after heq
    exact h before [event] after (by rw [heq]; simp)
  · intro h before during after heq
    refine fold_of_events hrefl htrans during _ ?_
    intro first event rest hduring
    have hsplit : events = (before ++ first) ++ event :: (rest ++ after) := by
      rw [heq, hduring]
      simp
    have hstep := h _ _ _ hsplit
    rw [List.foldl_append] at hstep
    exact hstep

end Events

/-! ## Events that may be impossible -/

section Partial

variable {step : σ → ε → Option σ} {s : σ}

/-- A run of events, each of which has to be possible where it comes. -/
def runEvents (step : σ → ε → Option σ) (s : σ) (events : List ε) : Option σ :=
  events.foldlM step s

@[simp] theorem runEvents_nil : runEvents step s [] = some s := rfl

@[simp] theorem runEvents_cons (event : ε) (events : List ε) :
    runEvents step s (event :: events) =
      (step s event).bind (fun t => runEvents step t events) := rfl

theorem runEvents_append (xs ys : List ε) :
    runEvents step s (xs ++ ys) =
      (runEvents step s xs).bind (fun t => runEvents step t ys) :=
  List.foldlM_append

theorem runEvents_induction {P : List ε → σ → Prop} (hstart : P [] s)
    (hstep : ∀ events a event b, runEvents step s events = some a →
      P events a → step a event = some b → P (events ++ [event]) b)
    {events : List ε} {t : σ} (hrun : runEvents step s events = some t) :
    P events t := by
  induction events using List.reverseRecOn generalizing t with
  | nil =>
      cases hrun
      exact hstart
  | append_singleton events event ih =>
      rw [runEvents_append] at hrun
      obtain ⟨a, hbefore, hlast⟩ := Option.bind_eq_some_iff.mp hrun
      rw [runEvents_cons] at hlast
      obtain ⟨b, hevent, hend⟩ := Option.bind_eq_some_iff.mp hlast
      cases hend
      exact hstep events a event t hbefore (ih hbefore) hevent

end Partial

end ArkiveSync.Library
