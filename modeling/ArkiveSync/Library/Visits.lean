import Mathlib.Data.List.Nodup

/-!
# Going through things one after another

A loop does something for each of several things.  What it does for one meets a
condition that was there for that thing, and does not disturb the conditions of
the others: behind the loop all things are as they should be.

## Main results

* `exists_visits`: the loop comes through, and has done with every thing.
* `Visits.keeps`: what no turn disturbs is there behind the loop.
-/

namespace ArkiveSync.Library

variable {α σ : Type} {step : α → σ → σ → Prop}

/-- The loop takes the things in turn, each with a step of its own. -/
inductive Visits (step : α → σ → σ → Prop) : List α → σ → σ → Prop
  | nil (s : σ) : Visits step [] s s
  | cons {a : α} {rest : List α} {s mid s' : σ} (hstep : step a s mid)
      (hrest : Visits step rest mid s') : Visits step (a :: rest) s s'

/-- What no turn disturbs. -/
theorem Visits.keeps {P : σ → Prop} {things : List α} {s s' : σ}
    (h : Visits step things s s')
    (hkeeps : ∀ a ∈ things, ∀ s s', step a s s' → P s → P s') (hs : P s) :
    P s' := by
  induction h with
  | nil => exact hs
  | cons hstep _ ih =>
      apply ih
      · exact fun b hb => hkeeps b (List.mem_cons_of_mem _ hb)
      · exact hkeeps _ List.mem_cons_self _ _ hstep hs

/-- The loop over things that are ready leaves all of them done. -/
theorem exists_visits (Ready Done : α → σ → Prop) {things : List α}
    (hnodup : things.Nodup)
    (hstep : ∀ a ∈ things, ∀ s, Ready a s → ∃ s', step a s s' ∧ Done a s')
    (hready : ∀ a ∈ things, ∀ b ∈ things, a ≠ b → ∀ s s', Ready a s →
      step a s s' → Ready b s → Ready b s')
    (hdone : ∀ a ∈ things, ∀ b ∈ things, a ≠ b → ∀ s s', Ready a s →
      step a s s' → Done b s → Done b s')
    {s : σ} (h : ∀ a ∈ things, Ready a s) :
    ∃ s', Visits step things s s' ∧ ∀ a ∈ things, Done a s' := by
  suffices hrest : ∀ rest done s, things = done ++ rest →
      (∀ a ∈ done, Done a s) → (∀ a ∈ rest, Ready a s) →
      ∃ s', Visits step rest s s' ∧ ∀ a ∈ things, Done a s' from
    hrest things [] s rfl (by simp) h
  intro rest
  induction rest with
  | nil =>
      intro done s hsplit hall _
      rw [List.append_nil] at hsplit
      rw [hsplit]
      exact ⟨s, .nil s, hall⟩
  | cons a rest ih =>
      intro done s hsplit hall hleft
      have hin : ∀ b, b ∈ done ∨ b = a ∨ b ∈ rest → b ∈ things := by
        intro b hb
        rw [hsplit]
        simpa using hb
      rw [hsplit, List.nodup_append] at hnodup
      obtain ⟨-, htail, happart⟩ := hnodup
      have ha := hleft a List.mem_cons_self
      have hathing := hin a (Or.inr (Or.inl rfl))
      obtain ⟨mid, hturn, hself⟩ := hstep a hathing s ha
      obtain ⟨s', hvisits, hend⟩ := ih (done ++ [a]) mid
        (by rw [hsplit, List.append_assoc]; rfl)
        (by
          intro b hb
          rcases List.mem_append.mp hb with hb | hlast
          · exact hdone a hathing b (hin b (Or.inl hb))
              (fun hsame => happart b hb a List.mem_cons_self hsame.symm)
              s mid ha hturn (hall b hb)
          · rw [List.mem_singleton.mp hlast]
            exact hself)
        (by
          intro b hb
          apply hready a hathing b (hin b (Or.inr (Or.inr hb))) _ s mid ha hturn
            (hleft b (List.mem_cons_of_mem _ hb))
          rintro rfl
          exact (List.nodup_cons.mp htail).1 hb)
      exact ⟨s', .cons hturn hvisits, hend⟩

end ArkiveSync.Library
