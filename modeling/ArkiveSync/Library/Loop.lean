import Mathlib.Order.Basic

/-!
# Loops that a turn leaves

A loop without a condition: each turn goes on with a new state or leaves with a
result.  It is run for a number of turns and has no result yet when they do not
suffice.  A computation made of such loops has its result from some number of
turns on.

## Main results

* `loop_ends`: with an invariant and a number that every turn lowers, the loop
  is left with a result the invariant says something about.
* `loop_follows`: a loop that follows another one comes to a related result.
* `Ends.bind`: one such computation after the other.
-/

namespace ArkiveSync.Library

variable {σ ρ τ : Type}

/-- How a turn of a loop ends. -/
inductive LoopTurn (σ ρ : Type) where
  | next (s : σ)
  | leave (result : ρ)

/-- The loop; `none` when the turns do not suffice. -/
def loop (turn : σ → LoopTurn σ ρ) : Nat → σ → Option ρ
  | 0, _ => none
  | n + 1, s =>
      match turn s with
      | .next s' => loop turn n s'
      | .leave result => some result

/-- From some number of turns on the computation has this result. -/
def Ends (f : Nat → Option ρ) (result : ρ) : Prop :=
  ∃ m, ∀ n, m ≤ n → f n = some result

/-- A loop whose turns lower a number is left, and with a result for which the
invariant stands. -/
theorem loop_ends {turn : σ → LoopTurn σ ρ} {P : σ → Prop} {Q : ρ → Prop}
    (left : σ → Nat)
    (hnext : ∀ s s', P s → turn s = .next s' → P s' ∧ left s' < left s)
    (hleave : ∀ s result, P s → turn s = .leave result → Q result)
    {s : σ} (hs : P s) :
    ∃ result, Q result ∧
      ∀ n, left s < n → loop turn n s = some result := by
  induction hleft : left s using Nat.strongRecOn generalizing s with
  | _ k ih =>
      subst hleft
      cases hturn : turn s with
      | leave result =>
          refine ⟨result, hleave s result hs hturn, ?_⟩
          intro n hn
          obtain ⟨m, rfl⟩ := Nat.exists_eq_succ_of_ne_zero
            (show n ≠ 0 by omega)
          simp only [loop, hturn]
      | next s' =>
          obtain ⟨hs', hdown⟩ := hnext s s' hs hturn
          obtain ⟨result, hresult, hloop⟩ := ih (left s') hdown hs' rfl
          refine ⟨result, hresult, ?_⟩
          intro n hn
          obtain ⟨m, rfl⟩ := Nat.exists_eq_succ_of_ne_zero
            (show n ≠ 0 by omega)
          simp only [loop, hturn]
          exact hloop m (by omega)

/-- More turns do not change the result. -/
theorem ends_of_loop {turn : σ → LoopTurn σ ρ} {m : Nat} {s : σ} {result : ρ}
    (h : loop turn m s = some result) :
    Ends (fun n => loop turn n s) result := by
  refine ⟨m, ?_⟩
  induction m generalizing s with
  | zero => cases h
  | succ m ih =>
      intro n hn
      obtain ⟨k, rfl⟩ := Nat.exists_eq_succ_of_ne_zero (show n ≠ 0 by omega)
      cases hturn : turn s with
      | leave r =>
          simp only [loop, hturn] at h ⊢
          exact h
      | next s' =>
          simp only [loop, hturn] at h ⊢
          exact ih h k (by omega)

/-- A loop that follows another one turn by turn, and leaves when the other one
does or a few turns later. -/
theorem loop_follows {σ' ρ' : Type} {turn : σ → LoopTurn σ ρ}
    {turn' : σ' → LoopTurn σ' ρ'} {R : σ → σ' → Prop} {Q : ρ → ρ' → Prop}
    (hnext : ∀ s s' t, R s s' → turn s = .next t →
      ∃ t', turn' s' = .next t' ∧ R t t')
    (hleave : ∀ s s' r, R s s' → turn s = .leave r →
      ∃ m r', loop turn' m s' = some r' ∧ Q r r')
    {n : Nat} {s : σ} {s' : σ'} {r : ρ} (hR : R s s')
    (h : loop turn n s = some r) :
    ∃ r', Ends (fun n => loop turn' n s') r' ∧ Q r r' := by
  induction n generalizing s s' with
  | zero => cases h
  | succ n ih =>
      cases hturn : turn s with
      | leave left =>
          simp only [loop, hturn, Option.some.injEq] at h
          subst h
          obtain ⟨m, r', hloop, hQ⟩ := hleave s s' left hR hturn
          exact ⟨r', ends_of_loop hloop, hQ⟩
      | next t =>
          simp only [loop, hturn] at h
          obtain ⟨t', hturn', hR'⟩ := hnext s s' t hR hturn
          obtain ⟨r', ⟨m, hm⟩, hQ⟩ := ih hR' h
          refine ⟨r', ends_of_loop (m := m + 1) ?_, hQ⟩
          simp only [loop, hturn']
          exact hm m (Nat.le_refl m)

namespace Ends

variable {f g : Nat → Option ρ} {r r' : ρ}

/-- The result is fixed. -/
theorem unique (h : Ends f r) (h' : Ends f r') : r = r' := by
  obtain ⟨m, hm⟩ := h
  obtain ⟨m', hm'⟩ := h'
  have hboth := (hm (max m m') (Nat.le_max_left _ _)).symm.trans
    (hm' (max m m') (Nat.le_max_right _ _))
  exact Option.some.inj hboth

/-- One computation after the other. -/
theorem bind {next : ρ → Nat → Option τ} {t : τ} (h : Ends f r)
    (hnext : Ends (next r) t) :
    Ends (fun n => (f n).bind (fun r => next r n)) t := by
  obtain ⟨m, hm⟩ := h
  obtain ⟨m', hm'⟩ := hnext
  refine ⟨max m m', ?_⟩
  intro n hn
  show (f n).bind (fun r => next r n) = some t
  rw [hm n (by omega), Option.bind_some, hm' n (by omega)]

theorem map (g : ρ → τ) (h : Ends f r) : Ends (fun n => (f n).map g) (g r) := by
  obtain ⟨m, hm⟩ := h
  refine ⟨m, ?_⟩
  intro n hn
  show (f n).map g = some (g r)
  rw [hm n hn, Option.map_some]

end Ends

end ArkiveSync.Library
