import ArkiveSync.Model.DirtyPathPass
import Mathlib.Data.List.Dedup

/-!
# Fairness of a pass over the dirty paths

A row that fails is offered again before the pass is over: once no row is
pending, the oldest failed row is next, and it stays next for as long as it
fails.  A pass is fair exactly when every row that fails at its first turn has
a whole budget of rows in front of its second one.
-/

namespace ArkiveSync

open Library

namespace DirtyPathRepo

/-- The turns of the root before the first one of `d`, when every row is
served once: those of the pending rows in front of it, and for a failed row
those of all pending rows. -/
def turnsBefore (syncRootId : String) (A : List DirtyPath) (d : DirtyPath)
    (B : List DirtyPath) : Nat :=
  if d.status = .pending then A.countP (isRow syncRootId .pending)
  else (A ++ d :: B).countP (isRow syncRootId .pending) +
    A.countP (isRow syncRootId .failed)

/-- The rows in front of the second turn of `d`: the pending ones, and the
failed ones up to `d` itself. -/
def rowsBeforeRetry (syncRootId : String) (A : List DirtyPath) (d : DirtyPath)
    (B : List DirtyPath) : Nat :=
  (A ++ d :: B).countP (isRow syncRootId .pending) +
    (A ++ [d]).countP (isRow syncRootId .failed)

/-- Every row of the root that fails at its first turn within the budget has as
many rows as the budget in front of its second turn. -/
def RetriesWait (syncRootId : String) (budget : Nat) (outcome : Nat → Bool)
    (ps : List DirtyPath) : Prop :=
  ∀ A d B, ps = A ++ d :: B → d.syncRootId = syncRootId →
    d.status = .pending ∨ d.status = .failed →
    turnsBefore syncRootId A d B < budget →
    outcome (turnsBefore syncRootId A d B) = false →
    budget ≤ rowsBeforeRetry syncRootId A d B

/-- The place of a row in `A ++ x :: B`. -/
theorem split_cases {α : Type} {A B A' B' : List α} {x y : α}
    (h : A ++ x :: B = A' ++ y :: B') :
    (∃ M, A = A' ++ y :: M ∧ B' = M ++ x :: B) ∨
      (A = A' ∧ x = y ∧ B = B') ∨
      ∃ M, A' = A ++ x :: M ∧ B = M ++ y :: B' := by
  rcases List.append_eq_append_iff.mp h with ⟨M, hA', hB⟩ | ⟨M, hA, hB⟩
  · cases M with
    | nil =>
        rw [List.append_nil] at hA'
        rw [List.nil_append] at hB
        obtain ⟨hx, hB⟩ := List.cons.inj hB
        exact Or.inr (Or.inl ⟨hA'.symm, hx, hB⟩)
    | cons z M =>
        rw [List.cons_append] at hB
        obtain ⟨hx, hrest⟩ := List.cons.inj hB
        exact Or.inr (Or.inr ⟨M, hx ▸ hA', hrest⟩)
  · cases M with
    | nil =>
        rw [List.append_nil] at hA
        rw [List.nil_append] at hB
        obtain ⟨hx, hB⟩ := List.cons.inj hB
        exact Or.inr (Or.inl ⟨hA, hx.symm, hB.symm⟩)
    | cons z M =>
        rw [List.cons_append] at hB
        obtain ⟨hy, hrest⟩ := List.cons.inj hB
        exact Or.inl ⟨M, hy ▸ hA, hrest⟩

end DirtyPathRepo

namespace PollingDaemon

open DirtyPathRepo

/-! ## One turn -/

@[simp] theorem isRow_pending_marked (syncRootId : String) (d : DirtyPath)
    (ok : Bool) : isRow syncRootId .pending (marked d ok) = false := by
  cases ok <;> simp [isRow, marked]

@[simp] theorem isRow_failed_marked (syncRootId : String) (d : DirtyPath)
    (ok : Bool) : isRow syncRootId .failed (marked d ok) =
      (d.syncRootId == syncRootId && !ok) := by
  cases ok <;> simp [isRow, marked]

section Turn

variable {syncRootId : String} {A B : List DirtyPath} {d : DirtyPath}

/-- The row that is next is the first of those on offer. -/
theorem offered_next (h : IsNext syncRootId A d B) :
    offered syncRootId (A ++ d :: B) =
      d :: (B.filter (isRow syncRootId .pending) ++
        (A ++ B).filter (isRow syncRootId .failed)) := by
  unfold offered
  cases h with
  | pending hrow hfirst =>
      have hnot : isRow syncRootId .failed d = false := by
        obtain ⟨-, hstatus⟩ := isRow_iff.mp hrow
        simp [isRow, hstatus]
      simp [List.filter_append, hrow, hfirst, hnot]
  | failed hrow hnone hfirst =>
      have hnot : isRow syncRootId .pending d = false := by
        obtain ⟨-, hstatus⟩ := isRow_iff.mp hrow
        simp [isRow, hstatus]
      rw [List.filter_append, List.filter_cons_of_neg (by simp [hnot])] at hnone
      obtain ⟨hA, hB⟩ := List.append_eq_nil_iff.mp hnone
      simp [List.filter_append, hrow, hfirst, hnot, hA, hB]

theorem next_root (h : IsNext syncRootId A d B) :
    d.syncRootId = syncRootId ∧
      (d.status = .pending ∨ d.status = .failed) := by
  cases h with
  | pending hrow _ =>
      obtain ⟨hroot, hstatus⟩ := isRow_iff.mp hrow
      exact ⟨hroot, Or.inl hstatus⟩
  | failed hrow _ _ =>
      obtain ⟨hroot, hstatus⟩ := isRow_iff.mp hrow
      exact ⟨hroot, Or.inr hstatus⟩

/-- No pending row stands in front of the one that is next. -/
theorem front_not_pending (h : IsNext syncRootId A d B) :
    A.filter (isRow syncRootId .pending) = [] := by
  cases h with
  | pending _ hfirst => exact hfirst
  | failed _ hnone _ =>
      rw [List.filter_append] at hnone
      exact (List.append_eq_nil_iff.mp hnone).1

/-- A row that has been done is not on offer. -/
theorem offered_done (h : IsNext syncRootId A d B) :
    offered syncRootId (A ++ marked d true :: B) =
      B.filter (isRow syncRootId .pending) ++
        (A ++ B).filter (isRow syncRootId .failed) := by
  have hA := front_not_pending h
  simp [offered, List.filter_append, hA]

/-- A row that has failed waits behind the pending ones and the failed ones in
front of it. -/
theorem offered_failed (h : IsNext syncRootId A d B) :
    offered syncRootId (A ++ marked d false :: B) =
      B.filter (isRow syncRootId .pending) ++
        (A.filter (isRow syncRootId .failed) ++
          marked d false :: B.filter (isRow syncRootId .failed)) := by
  have hA := front_not_pending h
  obtain ⟨hroot, -⟩ := next_root h
  simp [offered, List.filter_append, hA, hroot]

/-- What the turn of one row does to the counts of another: its turn is one
closer, and so is its second one, or both are out of reach of the budget. -/
def Closer (syncRootId : String) (budget : Nat) (A B A' B' : List DirtyPath)
    (e : DirtyPath) : Prop :=
  (turnsBefore syncRootId A e B = turnsBefore syncRootId A' e B' + 1 ∧
    (budget + 1 ≤ rowsBeforeRetry syncRootId A e B ↔
      budget ≤ rowsBeforeRetry syncRootId A' e B')) ∨
  (budget ≤ turnsBefore syncRootId A' e B' ∧
    budget + 1 ≤ rowsBeforeRetry syncRootId A e B)

theorem countP_eq_zero_of_filter {p : DirtyPath → Bool} {ps : List DirtyPath}
    (h : ps.filter p = []) : ps.countP p = 0 := by
  rw [List.countP_eq_length_filter, h]
  rfl

/-- How a row counts, by its status. -/
theorem isRow_of_pending {e : DirtyPath} (hroot : e.syncRootId = syncRootId)
    (h : e.status = .pending) : isRow syncRootId .pending e = true ∧
      isRow syncRootId .failed e = false := by
  simp [isRow, hroot, h]

theorem isRow_of_failed {e : DirtyPath} (hroot : e.syncRootId = syncRootId)
    (h : e.status = .failed) : isRow syncRootId .pending e = false ∧
      isRow syncRootId .failed e = true := by
  simp [isRow, hroot, h]

theorem turnsBefore_pending {e : DirtyPath} (h : e.status = .pending) :
    turnsBefore syncRootId A e B = A.countP (isRow syncRootId .pending) :=
  if_pos h

theorem turnsBefore_failed {e : DirtyPath} (hroot : e.syncRootId = syncRootId)
    (h : e.status = .failed) : turnsBefore syncRootId A e B =
      A.countP (isRow syncRootId .pending) +
        B.countP (isRow syncRootId .pending) +
          A.countP (isRow syncRootId .failed) := by
  obtain ⟨hnot, -⟩ := isRow_of_failed hroot h
  unfold turnsBefore
  rw [if_neg (by simp [h]), List.countP_append, List.countP_cons_of_neg]
  simp [hnot]

/-- The rows in front of the second turn, whichever status the row has. -/
theorem rowsBeforeRetry_eq {e : DirtyPath} (hroot : e.syncRootId = syncRootId)
    (h : e.status = .pending ∨ e.status = .failed) :
    rowsBeforeRetry syncRootId A e B =
      A.countP (isRow syncRootId .pending) +
        B.countP (isRow syncRootId .pending) +
          A.countP (isRow syncRootId .failed) + 1 := by
  unfold rowsBeforeRetry
  rcases h with h | h
  · obtain ⟨hcount, hnot⟩ := isRow_of_pending hroot h
    simp [List.countP_append, hcount, hnot]
    omega
  · obtain ⟨hnot, hcount⟩ := isRow_of_failed hroot h
    simp [List.countP_append, hcount, hnot]
    omega

/-- A row in front of the one that is next: only a failed one, behind all the
pending ones. -/
theorem closer_front {M : List DirtyPath} {e : DirtyPath} (budget : Nat)
    (ok : Bool) (h : IsNext syncRootId (A ++ e :: M) d B)
    (hroot : e.syncRootId = syncRootId)
    (hstatus : e.status = .pending ∨ e.status = .failed) :
    Closer syncRootId budget A (M ++ d :: B) A (M ++ marked d ok :: B) e := by
  cases h with
  | pending hrow hfirst =>
      have hzero := countP_eq_zero_of_filter hfirst
      rcases hstatus with hpending | hfailed
      · obtain ⟨hcount, -⟩ := isRow_of_pending hroot hpending
        simp [List.countP_append, hcount] at hzero
      · refine Or.inl ?_
        rw [turnsBefore_failed hroot hfailed, turnsBefore_failed hroot hfailed,
          rowsBeforeRetry_eq hroot (Or.inr hfailed),
          rowsBeforeRetry_eq hroot (Or.inr hfailed)]
        simp [List.countP_append, hrow]
        omega
  | failed hrow hnone hfirst =>
      have hzero := countP_eq_zero_of_filter hfirst
      have hnone' := countP_eq_zero_of_filter hnone
      rcases hstatus with hpending | hfailed
      · obtain ⟨hcount, -⟩ := isRow_of_pending hroot hpending
        simp [List.countP_append, hcount] at hnone'
      · obtain ⟨-, hcount⟩ := isRow_of_failed hroot hfailed
        simp [List.countP_append, hcount] at hzero

/-- A row behind the one that is next. -/
theorem closer_behind {M B' : List DirtyPath} {e : DirtyPath} {budget : Nat}
    (ok : Bool) (h : IsNext syncRootId A d (M ++ e :: B'))
    (hd : ok = false →
      budget + 1 ≤ rowsBeforeRetry syncRootId A d (M ++ e :: B'))
    (hroot : e.syncRootId = syncRootId)
    (hstatus : e.status = .pending ∨ e.status = .failed) :
    Closer syncRootId budget (A ++ d :: M) B' (A ++ marked d ok :: M) B' e := by
  obtain ⟨hdroot, hdstatus⟩ := next_root h
  rw [rowsBeforeRetry_eq hdroot hdstatus] at hd
  unfold Closer
  rw [rowsBeforeRetry_eq hroot hstatus, rowsBeforeRetry_eq hroot hstatus]
  cases h with
  | pending hrow hfirst =>
      have hzero := countP_eq_zero_of_filter hfirst
      obtain ⟨-, hdnot⟩ := isRow_of_pending hdroot (isRow_iff.mp hrow).2
      rcases hstatus with hpending | hfailed
      · obtain ⟨hcount, -⟩ := isRow_of_pending hroot hpending
        rw [turnsBefore_pending hpending, turnsBefore_pending hpending]
        simp [List.countP_append, List.countP_cons, hrow, hdnot, hcount,
          hdroot] at hd ⊢
        cases ok with
        | true =>
            simp
            omega
        | false =>
            simp at hd ⊢
            omega
      · obtain ⟨hnot, -⟩ := isRow_of_failed hroot hfailed
        rw [turnsBefore_failed hroot hfailed, turnsBefore_failed hroot hfailed]
        simp [List.countP_append, List.countP_cons, hrow, hdnot, hnot,
          hdroot] at hd ⊢
        cases ok with
        | true =>
            simp
            omega
        | false =>
            simp at hd ⊢
            omega
  | failed hrow hnone hfirst =>
      have hzero := countP_eq_zero_of_filter hfirst
      have hnone' := countP_eq_zero_of_filter hnone
      rcases hstatus with hpending | hfailed
      · obtain ⟨hcount, -⟩ := isRow_of_pending hroot hpending
        simp only [List.countP_append, List.countP_cons, hcount,
          if_true] at hnone'
        omega
      · obtain ⟨hnot, -⟩ := isRow_of_failed hroot hfailed
        obtain ⟨hdnot, -⟩ := isRow_of_failed hdroot (isRow_iff.mp hrow).2
        rw [turnsBefore_failed hroot hfailed, turnsBefore_failed hroot hfailed]
        simp [List.countP_append, List.countP_cons, hrow, hdnot, hnot,
          hdroot] at hd hnone' ⊢
        cases ok with
        | true =>
            simp
            omega
        | false =>
            simp at hd ⊢
            omega

/-- The row that is next has no turns in front of its own. -/
theorem turnsBefore_next (h : IsNext syncRootId A d B) :
    turnsBefore syncRootId A d B = 0 := by
  unfold turnsBefore
  cases h with
  | pending hrow hfirst =>
      rw [if_pos (isRow_iff.mp hrow).2, countP_eq_zero_of_filter hfirst]
  | failed hrow hnone hfirst =>
      rw [if_neg (by simp [(isRow_iff.mp hrow).2]),
        countP_eq_zero_of_filter hnone, countP_eq_zero_of_filter hfirst]

/-- A failed row with enough rows in front of it does not come to its second
turn. -/
theorem marked_late {budget : Nat} (h : IsNext syncRootId A d B)
    (hd : budget + 1 ≤ rowsBeforeRetry syncRootId A d B) :
    budget ≤ turnsBefore syncRootId A (marked d false) B := by
  obtain ⟨hroot, hstatus⟩ := next_root h
  rw [rowsBeforeRetry_eq hroot hstatus] at hd
  have hmarked : (marked d false).syncRootId = syncRootId := hroot
  rw [turnsBefore_failed hmarked rfl]
  omega

/-- The condition on a table is one on the row that is next and one on the
table after its turn. -/
theorem retriesWait_turn {budget : Nat} {outcome : Nat → Bool}
    (h : IsNext syncRootId A d B) :
    RetriesWait syncRootId (budget + 1) outcome (A ++ d :: B) ↔
      (outcome 0 = false →
        budget + 1 ≤ rowsBeforeRetry syncRootId A d B) ∧
      RetriesWait syncRootId budget (fun i => outcome (i + 1))
        (A ++ marked d (outcome 0) :: B) := by
  obtain ⟨hroot, hstatus⟩ := next_root h
  have hfirst := turnsBefore_next h
  constructor
  · intro hwait
    have hd : outcome 0 = false →
        budget + 1 ≤ rowsBeforeRetry syncRootId A d B := by
      intro hfails
      exact hwait A d B rfl hroot hstatus (by omega) (by rwa [hfirst])
    refine ⟨hd, ?_⟩
    intro A' e B' hsplit heroot hestatus hturn hfails
    rcases split_cases hsplit with
      ⟨M, rfl, rfl⟩ | ⟨rfl, rfl, rfl⟩ | ⟨M, rfl, rfl⟩
    · rcases closer_front budget (outcome 0) h heroot hestatus with
        ⟨hcloser, hrows⟩ | ⟨hlate, -⟩
      · refine hrows.mp ?_
        exact hwait A' e (M ++ d :: B) (by simp) heroot hestatus (by omega)
          (by rwa [hcloser])
      · omega
    · cases hok : outcome 0 with
      | true =>
          rw [hok] at hestatus
          rcases hestatus with hdone | hdone <;> cases hdone
      | false =>
          have hlate := marked_late h (hd hok)
          rw [hok] at hturn
          omega
    · rcases closer_behind (outcome 0) h hd heroot hestatus with
        ⟨hcloser, hrows⟩ | ⟨hlate, -⟩
      · refine hrows.mp ?_
        exact hwait (A ++ d :: M) e B' (by simp) heroot hestatus (by omega)
          (by rwa [hcloser])
      · omega
  · rintro ⟨hd, hwait⟩ A' e B' hsplit heroot hestatus hturn hfails
    rcases split_cases hsplit with
      ⟨M, rfl, rfl⟩ | ⟨rfl, rfl, rfl⟩ | ⟨M, rfl, rfl⟩
    · rcases closer_front budget (outcome 0) h heroot hestatus with
        ⟨hcloser, hrows⟩ | ⟨-, hrows⟩
      · refine hrows.mpr ?_
        rw [hcloser] at hfails
        exact hwait A' e (M ++ marked d (outcome 0) :: B) (by simp) heroot
          hestatus (by omega) hfails
      · exact hrows
    · rw [hfirst] at hfails
      exact hd hfails
    · rcases closer_behind (outcome 0) h hd heroot hestatus with
        ⟨hcloser, hrows⟩ | ⟨-, hrows⟩
      · refine hrows.mpr ?_
        rw [hcloser] at hfails
        exact hwait (A ++ marked d (outcome 0) :: M) e B' (by simp) heroot
          hestatus (by omega) hfails
      · exact hrows

end Turn

/-! ## A whole pass -/

/-- The rows that are claimed, by id, when every row gets one turn. -/
def inTurn (syncRootId : String) (budget : Nat) (ps : List DirtyPath) :
    List Nat :=
  ((offered syncRootId ps).map DirtyPath.id).take budget

theorem ids_marked (A : List DirtyPath) (d : DirtyPath) (ok : Bool)
    (B : List DirtyPath) :
    (A ++ marked d ok :: B).map DirtyPath.id =
      (A ++ d :: B).map DirtyPath.id := by
  simp [marked]

section Offered

variable {syncRootId : String} {A B : List DirtyPath} {d : DirtyPath}

/-- The rows between the two turns of the one that is next. -/
theorem rowsBeforeRetry_next (h : IsNext syncRootId A d B) :
    rowsBeforeRetry syncRootId A d B =
      (B.filter (isRow syncRootId .pending) ++
        A.filter (isRow syncRootId .failed)).length + 1 := by
  obtain ⟨hroot, hstatus⟩ := next_root h
  have hfront := countP_eq_zero_of_filter (front_not_pending h)
  rw [rowsBeforeRetry_eq hroot hstatus, List.length_append,
    ← List.countP_eq_length_filter, ← List.countP_eq_length_filter, hfront,
    Nat.zero_add]

/-- The rows in turn, from one turn to the next. -/
theorem inTurn_next {budget : Nat} {ok : Bool} (h : IsNext syncRootId A d B)
    (hd : ok = false → budget + 1 ≤ rowsBeforeRetry syncRootId A d B) :
    inTurn syncRootId (budget + 1) (A ++ d :: B) =
      d.id :: inTurn syncRootId budget (A ++ marked d ok :: B) := by
  unfold inTurn
  rw [offered_next h, List.map_cons, List.take_succ_cons]
  cases ok with
  | true => rw [offered_done h]
  | false =>
      have hroom := hd rfl
      rw [rowsBeforeRetry_next h] at hroom
      rw [offered_failed h, List.filter_append, ← List.append_assoc,
        ← List.append_assoc]
      generalize B.filter (isRow syncRootId .pending) ++
        A.filter (isRow syncRootId .failed) = between at hroom ⊢
      have hfits : budget ≤ (between.map DirtyPath.id).length := by
        rw [List.length_map]
        omega
      rw [List.map_append, List.map_append,
        List.take_append_of_le_length hfits,
        List.take_append_of_le_length hfits]

/-- A failed row that does not come up again has room in front of it. -/
theorem room_of_not_inTurn {budget : Nat} (h : IsNext syncRootId A d B)
    (hnot : d.id ∉ inTurn syncRootId budget (A ++ marked d false :: B)) :
    budget + 1 ≤ rowsBeforeRetry syncRootId A d B := by
  rw [rowsBeforeRetry_next h]
  by_contra hlt
  refine hnot ?_
  unfold inTurn
  rw [offered_failed h, ← List.append_assoc, List.map_append, List.map_cons,
    List.take_append, List.mem_append]
  right
  obtain ⟨n, hn⟩ : ∃ n, budget - ((B.filter (isRow syncRootId .pending) ++
      A.filter (isRow syncRootId .failed)).map DirtyPath.id).length =
      n + 1 := by
    refine ⟨budget - (B.filter (isRow syncRootId .pending) ++
      A.filter (isRow syncRootId .failed)).length - 1, ?_⟩
    rw [List.length_map]
    omega
  rw [hn, List.take_succ_cons]
  exact List.mem_cons_self

end Offered

/-- No row is offered twice. -/
theorem nodup_offered {ps : List DirtyPath} (syncRootId : String)
    (hids : (ps.map DirtyPath.id).Nodup) :
    ((offered syncRootId ps).map DirtyPath.id).Nodup := by
  have hsub : ∀ status, ((ps.filter (isRow syncRootId status)).map
      DirtyPath.id).Nodup := by
    intro status
    exact hids.sublist (List.filter_sublist.map _)
  unfold offered
  rw [List.map_append, List.nodup_append]
  refine ⟨hsub .pending, hsub .failed, ?_⟩
  intro i hi j hj hij
  obtain ⟨d, hd, rfl⟩ := List.mem_map.mp hi
  obtain ⟨e, he, rfl⟩ := List.mem_map.mp hj
  obtain ⟨hdps, hdrow⟩ := List.mem_filter.mp hd
  obtain ⟨heps, herow⟩ := List.mem_filter.mp he
  have hsame : d = e := List.inj_on_of_nodup_map hids hdps heps hij
  have hpending := (isRow_iff.mp hdrow).2
  rw [hsame, (isRow_iff.mp herow).2] at hpending
  cases hpending

/-- When retries wait, a pass serves the rows on offer in their order. -/
theorem claimed_inTurn {syncRootId : String} {budget : Nat}
    {outcome : Nat → Bool} {ps : List DirtyPath}
    (hids : (ps.map DirtyPath.id).Nodup)
    (h : RetriesWait syncRootId budget outcome ps) :
    (dirtyPathLoop syncRootId budget outcome ps).1 =
      inTurn syncRootId budget ps := by
  induction budget generalizing outcome ps with
  | zero => rfl
  | succ budget ih =>
      rcases dirtyPathLoop_turn syncRootId hids with
        ⟨hnone, hloop⟩ | ⟨A, d, B, rfl, hnext, hloop⟩
      · rw [hloop]
        simp [inTurn, hnone]
      · obtain ⟨hd, hrest⟩ := (retriesWait_turn hnext).mp h
        rw [hloop, inTurn_next hnext hd]
        show d.id :: _ = _
        rw [ih (by rwa [ids_marked]) hrest]

/-- When no row is claimed twice, retries wait. -/
theorem retriesWait_of_nodup {syncRootId : String} {budget : Nat}
    {outcome : Nat → Bool} {ps : List DirtyPath}
    (hids : (ps.map DirtyPath.id).Nodup)
    (h : (dirtyPathLoop syncRootId budget outcome ps).1.Nodup) :
    RetriesWait syncRootId budget outcome ps := by
  induction budget generalizing outcome ps with
  | zero =>
      intro A d B _ _ _ hturn _
      omega
  | succ budget ih =>
      rcases dirtyPathLoop_turn syncRootId hids with
        ⟨hnone, -⟩ | ⟨A, d, B, rfl, hnext, hloop⟩
      · intro A d B hps hroot hstatus
        exfalso
        have hin : d ∈ offered syncRootId ps := by
          unfold offered
          rw [List.mem_append, List.mem_filter, List.mem_filter, hps]
          rcases hstatus with hstatus | hstatus
          · exact Or.inl ⟨by simp, isRow_iff.mpr ⟨hroot, hstatus⟩⟩
          · exact Or.inr ⟨by simp, isRow_iff.mpr ⟨hroot, hstatus⟩⟩
        rw [hnone] at hin
        cases hin
      · rw [hloop] at h
        obtain ⟨hnot, hrest⟩ := List.nodup_cons.mp h
        have hids' : ((A ++ marked d (outcome 0) :: B).map
            DirtyPath.id).Nodup := by rwa [ids_marked]
        have hwait := ih hids' hrest
        refine (retriesWait_turn hnext).mpr ⟨?_, hwait⟩
        intro hfails
        rw [claimed_inTurn hids' hwait, hfails] at hnot
        exact room_of_not_inTurn hnext hnot

/-- One pass of the daemon over the dirty paths of a root claims no row twice,
and attempts as many rows as are on offer and fit into the budget. -/
structure FairPass (syncRootId : String) (outcome : Nat → Bool)
    (ps : List DirtyPath) : Prop where
  once : (dirtyPathLoop syncRootId kMaxDirtyPathsPerRootPerTick outcome
    ps).1.Nodup
  served : (dirtyPathLoop syncRootId kMaxDirtyPathsPerRootPerTick outcome
    ps).1.dedup.length =
      min kMaxDirtyPathsPerRootPerTick (offered syncRootId ps).length

/-- A pass is fair if and only if every row that fails at its turn has at least
a hundred rows of the root in front of its second turn. -/
theorem fairPass_iff {ps : List DirtyPath}
    (hids : (ps.map DirtyPath.id).Nodup) (syncRootId : String)
    (outcome : Nat → Bool) :
    FairPass syncRootId outcome ps ↔
      RetriesWait syncRootId kMaxDirtyPathsPerRootPerTick outcome ps := by
  constructor
  · intro h
    exact retriesWait_of_nodup hids h.once
  · intro h
    have hclaimed := claimed_inTurn hids h
    have hnodup : (inTurn syncRootId kMaxDirtyPathsPerRootPerTick ps).Nodup :=
      (nodup_offered syncRootId hids).sublist (List.take_sublist _ _)
    refine ⟨hclaimed ▸ hnodup, ?_⟩
    rw [hclaimed, List.Nodup.dedup hnodup]
    unfold inTurn
    rw [List.length_take, List.length_map]

/-- Two files of a root that have failed before. -/
def twoFailed : List DirtyPath :=
  [{ id := 0, syncRootId := "docs", relativePath := some "locked.txt"
     eventType := .scan, status := .failed },
   { id := 1, syncRootId := "docs", relativePath := some "notes.txt"
     eventType := .scan, status := .failed }]

/-- When both can be processed now, the pass is fair. -/
theorem twoFailed_recovered : FairPass "docs" (fun _ => true) twoFailed := by
  refine (fairPass_iff (by decide) "docs" _).mpr ?_
  intro _ _ _ _ _ _ _ hfails
  cases hfails

/-- When the first one keeps failing, the pass is not. -/
theorem twoFailed_stuck : ¬ FairPass "docs" (fun _ => false) twoFailed := by
  intro h
  have hwait := retriesWait_of_nodup (by decide) h.once
  have hroom := hwait [] _ _ rfl rfl (Or.inr rfl) (by decide) rfl
  revert hroom
  decide

end PollingDaemon

end ArkiveSync
