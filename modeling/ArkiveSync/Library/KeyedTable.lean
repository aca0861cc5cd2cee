import Mathlib.Data.List.Nodup

/-!
# Tables with a primary key and one unique index

A relational table as a list of rows together with the two constraints its
engine maintains: the primary keys are distinct (and drawn from a counter, so
that a fresh one always exists), and no two rows share the value of the unique
index.  Both constraints are fields, so a table that breaks them cannot be
built, and every statement below carries its own proof that it keeps them.

Three statements are enough for an upserting store:

* `modify` is an `UPDATE` that assigns no key column,
* `update` is an `UPDATE` that may assign the indexed columns and is rejected
  as a whole when the index would be violated,
* `upsert` is `INSERT … ON CONFLICT (index) DO UPDATE`.

## Main results

* `lookup_modify`, `lookup_upsert_self`, `lookup_upsert_ne` say what a read by
  the indexed key sees after each statement.
* `mem_modify`, `mem_upsert`, `mem_update` list the rows a statement leaves
  behind, each with the row it came from.
* `update_isSome_iff` says exactly when an `UPDATE` of the indexed columns is
  accepted.
* `Keeps` is the relation of statements that leave an attribute of every row
  alone; it is closed under composition.
-/

namespace ArkiveSync.Library

variable {ρ κ : Type}

/-- Rows with a distinct primary key below `nextPk` and a distinct index. -/
structure KeyedTable (pk : ρ → Nat) (key : ρ → κ) where
  rows : List ρ
  nextPk : Nat
  pkUnique : (rows.map pk).Nodup
  pkFresh : ∀ r ∈ rows, pk r < nextPk
  keyUnique : (rows.map key).Nodup

namespace KeyedTable

variable {pk : ρ → Nat} {key : ρ → κ}

/-- The table without rows. -/
def empty : KeyedTable pk key :=
  { rows := []
    nextPk := 0
    pkUnique := List.nodup_nil
    pkFresh := by simp
    keyUnique := List.nodup_nil }

theorem pkUnique_one (r : ρ) : ([r].map pk).Nodup := List.nodup_singleton _

theorem pkFresh_one {r : ρ} (h : pk r = 0) : ∀ s ∈ [r], pk s < 1 := by
  intro s hs
  rw [List.mem_singleton.mp hs, h]
  exact Nat.zero_lt_one

theorem keyUnique_one (r : ρ) : ([r].map key).Nodup := List.nodup_singleton _

/-- Rows that agree on the index are one row. -/
theorem eq_of_key_eq (t : KeyedTable pk key) {r s : ρ} (hr : r ∈ t.rows)
    (hs : s ∈ t.rows) (h : key r = key s) : r = s :=
  List.inj_on_of_nodup_map t.keyUnique hr hs h

/-- Rows that agree on the primary key are one row. -/
theorem eq_of_pk_eq (t : KeyedTable pk key) {r s : ρ} (hr : r ∈ t.rows)
    (hs : s ∈ t.rows) (h : pk r = pk s) : r = s :=
  List.inj_on_of_nodup_map t.pkUnique hr hs h

/-! ## Reading -/

section Lookup

variable [DecidableEq κ]

/-- `SELECT … WHERE index = k LIMIT 1`. -/
def lookup (t : KeyedTable pk key) (k : κ) : Option ρ :=
  t.rows.find? (fun r => decide (key r = k))

theorem lookup_eq_some_iff (t : KeyedTable pk key) (k : κ) (r : ρ) :
    t.lookup k = some r ↔ r ∈ t.rows ∧ key r = k := by
  constructor
  · intro h
    exact ⟨List.mem_of_find?_eq_some h, by simpa using List.find?_some h⟩
  · rintro ⟨hr, hk⟩
    cases h : t.lookup k with
    | none =>
        have := List.find?_eq_none.mp h r hr
        simp [hk] at this
    | some s =>
        have hs : s ∈ t.rows := List.mem_of_find?_eq_some h
        have hks : key s = k := by simpa using List.find?_some h
        rw [t.eq_of_key_eq hr hs (hk.trans hks.symm)]

theorem lookup_eq_none_iff (t : KeyedTable pk key) (k : κ) :
    t.lookup k = none ↔ ∀ r ∈ t.rows, key r ≠ k := by
  simp [lookup, List.find?_eq_none]

theorem mem_of_lookup {t : KeyedTable pk key} {k : κ} {r : ρ}
    (h : t.lookup k = some r) : r ∈ t.rows :=
  ((t.lookup_eq_some_iff k r).mp h).1

theorem key_of_lookup {t : KeyedTable pk key} {k : κ} {r : ρ}
    (h : t.lookup k = some r) : key r = k :=
  ((t.lookup_eq_some_iff k r).mp h).2

end Lookup

/-- `SELECT … WHERE id = n LIMIT 1`. -/
def lookupPk (t : KeyedTable pk key) (n : Nat) : Option ρ :=
  t.rows.find? (fun r => decide (pk r = n))

theorem lookupPk_eq_some_iff (t : KeyedTable pk key) (n : Nat) (r : ρ) :
    t.lookupPk n = some r ↔ r ∈ t.rows ∧ pk r = n := by
  constructor
  · intro h
    exact ⟨List.mem_of_find?_eq_some h, by simpa using List.find?_some h⟩
  · rintro ⟨hr, hn⟩
    cases h : t.lookupPk n with
    | none =>
        have := List.find?_eq_none.mp h r hr
        simp [hn] at this
    | some s =>
        have hs : s ∈ t.rows := List.mem_of_find?_eq_some h
        have hns : pk s = n := by simpa using List.find?_some h
        rw [t.eq_of_pk_eq hr hs (hn.trans hns.symm)]

/-! ## `UPDATE` of unindexed columns -/

private theorem map_ite_eq {α β : Type} (g : α → β) (f : α → α) (p : α → Bool)
    (hg : ∀ a, g (f a) = g a) (l : List α) :
    (l.map (fun a => if p a then f a else a)).map g = l.map g := by
  rw [List.map_map]
  apply List.map_congr_left
  intro a _
  simp only [Function.comp_apply]
  split
  · exact hg a
  · rfl

/-- Apply `f`, which assigns no key column, to the rows that satisfy `p`. -/
def modify (t : KeyedTable pk key) (p : ρ → Bool) (f : ρ → ρ)
    (hpk : ∀ r, pk (f r) = pk r := by intro r; rfl)
    (hkey : ∀ r, key (f r) = key r := by intro r; rfl) : KeyedTable pk key :=
  { rows := t.rows.map (fun r => if p r then f r else r)
    nextPk := t.nextPk
    pkUnique := by rw [map_ite_eq pk f p hpk]; exact t.pkUnique
    pkFresh := by
      intro r hr
      obtain ⟨s, hs, rfl⟩ := List.mem_map.mp hr
      split
      · rw [hpk]; exact t.pkFresh s hs
      · exact t.pkFresh s hs
    keyUnique := by rw [map_ite_eq key f p hkey]; exact t.keyUnique }

section Modify

variable (t : KeyedTable pk key) (p : ρ → Bool) (f : ρ → ρ)
  (hpk : ∀ r, pk (f r) = pk r) (hkey : ∀ r, key (f r) = key r)

theorem mem_modify (r : ρ) :
    r ∈ (t.modify p f hpk hkey).rows ↔
      ∃ s ∈ t.rows, r = if p s then f s else s := by
  simp only [modify, List.mem_map]
  constructor
  · rintro ⟨s, hs, rfl⟩; exact ⟨s, hs, rfl⟩
  · rintro ⟨s, hs, rfl⟩; exact ⟨s, hs, rfl⟩

@[simp] theorem nextPk_modify :
    (t.modify p f hpk hkey).nextPk = t.nextPk := rfl

/-- An `UPDATE` that assigns what is there changes nothing. -/
theorem modify_of_fixed (h : ∀ r ∈ t.rows, p r = true → f r = r) :
    t.modify p f hpk hkey = t := by
  have hrows : t.rows.map (fun r => if p r then f r else r) = t.rows := by
    conv_rhs => rw [← List.map_id t.rows]
    apply List.map_congr_left
    intro r hr
    split
    next hp => exact h r hr hp
    next => rfl
  cases t
  simp only [modify]
  congr

theorem lookup_modify [DecidableEq κ] (k : κ) :
    (t.modify p f hpk hkey).lookup k =
      (t.lookup k).map (fun r => if p r then f r else r) := by
  have hk : ∀ s : ρ, key (if p s then f s else s) = key s := by
    intro s; split
    · exact hkey s
    · rfl
  cases h : t.lookup k with
  | none =>
      rw [lookup_eq_none_iff] at h
      simp only [Option.map_none]
      rw [lookup_eq_none_iff]
      intro r hr
      obtain ⟨s, hs, rfl⟩ := (mem_modify t p f hpk hkey r).mp hr
      rw [hk]
      exact h s hs
  | some s =>
      obtain ⟨hs, hks⟩ := (t.lookup_eq_some_iff k s).mp h
      simp only [Option.map_some]
      rw [lookup_eq_some_iff]
      refine ⟨(mem_modify t p f hpk hkey _).mpr ⟨s, hs, rfl⟩, ?_⟩
      rw [hk, hks]

end Modify

/-! ## `UPDATE` of indexed columns -/

/-- Apply `f` to the rows that satisfy `p`; `none` when the index rejects the
statement. -/
def update [DecidableEq κ] (t : KeyedTable pk key) (p : ρ → Bool) (f : ρ → ρ)
    (hpk : ∀ r, pk (f r) = pk r := by intro r; rfl) :
    Option (KeyedTable pk key) :=
  if h : ((t.rows.map (fun r => if p r then f r else r)).map key).Nodup then
    some
      { rows := t.rows.map (fun r => if p r then f r else r)
        nextPk := t.nextPk
        pkUnique := by rw [map_ite_eq pk f p hpk]; exact t.pkUnique
        pkFresh := by
          intro r hr
          obtain ⟨s, hs, rfl⟩ := List.mem_map.mp hr
          split
          · rw [hpk]; exact t.pkFresh s hs
          · exact t.pkFresh s hs
        keyUnique := h }
  else none

section Update

variable [DecidableEq κ] {t t' : KeyedTable pk key} {p : ρ → Bool} {f : ρ → ρ}
  {hpk : ∀ r, pk (f r) = pk r}

theorem rows_update (h : t.update p f hpk = some t') :
    t'.rows = t.rows.map (fun r => if p r then f r else r) := by
  unfold update at h
  split at h
  · cases h
    rfl
  · cases h

theorem mem_update (h : t.update p f hpk = some t') (r : ρ) :
    r ∈ t'.rows ↔ ∃ s ∈ t.rows, r = if p s then f s else s := by
  rw [rows_update h, List.mem_map]
  constructor
  · rintro ⟨s, hs, rfl⟩; exact ⟨s, hs, rfl⟩
  · rintro ⟨s, hs, rfl⟩; exact ⟨s, hs, rfl⟩

/-- The index accepts an `UPDATE` exactly when distinct rows keep distinct
keys. -/
theorem update_isSome_iff :
    (t.update p f hpk).isSome ↔
      ∀ r ∈ t.rows, ∀ s ∈ t.rows,
        key (if p r then f r else r) = key (if p s then f s else s) → r = s := by
  have hrows : t.rows.Nodup := List.Nodup.of_map key t.keyUnique
  have hsome : (t.update p f hpk).isSome ↔
      ((t.rows.map (fun r => if p r then f r else r)).map key).Nodup := by
    unfold update
    split
    next h => exact ⟨fun _ => h, fun _ => rfl⟩
    next h => exact ⟨fun hs => by simp at hs, fun hs => absurd hs h⟩
  rw [hsome, List.map_map, List.nodup_map_iff_inj_on hrows]
  simp only [Function.comp_apply]

/-- An `UPDATE` that rewrites every matched row to key `k` is accepted when at
most one row matches and no other row holds `k`. -/
theorem update_isSome_of_single {k : κ} {r₀ : ρ}
    (hf : ∀ r, p r = true → key (f r) = k)
    (hone : ∀ r ∈ t.rows, p r = true → r = r₀)
    (hfree : ∀ r ∈ t.rows, key r = k → r = r₀) :
    (t.update p f hpk).isSome := by
  rw [update_isSome_iff]
  intro r hr s hs heq
  by_cases hpr : p r = true <;> by_cases hps : p s = true
  · rw [hone r hr hpr, hone s hs hps]
  · simp only [hpr, hps, if_true, hf r hpr] at heq
    rw [hone r hr hpr, hfree s hs heq.symm]
  · simp only [hpr, hps, if_true, hf s hps] at heq
    rw [hone s hs hps, hfree r hr heq]
  · simp only [hpr, hps] at heq
    exact t.eq_of_key_eq hr hs heq

/-- A row moved to key `k` by an accepted `UPDATE` found that key free. -/
theorem update_key_free {k : κ} (h : t.update p f hpk = some t')
    (hf : ∀ r, p r = true → key (f r) = k) {r s : ρ} (hr : r ∈ t.rows)
    (hpr : p r = true) (hs : s ∈ t.rows) (hsk : key s = k) : s = r := by
  have hall := update_isSome_iff.mp (by rw [h]; rfl)
  refine hall s hs r hr ?_
  simp only [hpr, if_true, hf r hpr]
  split
  next hps => exact hf s hps
  next => exact hsk

end Update

/-! ## `INSERT … ON CONFLICT DO UPDATE` -/

section Upsert

variable [DecidableEq κ]

/-- Update the row that holds key `k`, or insert `new` under a fresh primary
key. -/
def upsert (t : KeyedTable pk key) (k : κ) (new : Nat → ρ) (f : ρ → ρ)
    (hnewPk : ∀ n, pk (new n) = n := by intro n; rfl)
    (hnewKey : ∀ n, key (new n) = k := by intro n; rfl)
    (hpk : ∀ r, pk (f r) = pk r := by intro r; rfl)
    (hkey : ∀ r, key (f r) = key r := by intro r; rfl) : KeyedTable pk key :=
  if h : ∃ r ∈ t.rows, key r = k then
    t.modify (fun r => decide (key r = k)) f hpk hkey
  else
    { rows := t.rows ++ [new t.nextPk]
      nextPk := t.nextPk + 1
      pkUnique := by
        rw [List.map_append, List.nodup_append]
        refine ⟨t.pkUnique, by simp, ?_⟩
        intro a ha b hb
        obtain ⟨r, hr, rfl⟩ := List.mem_map.mp ha
        simp only [List.map_cons, List.map_nil, List.mem_singleton] at hb
        rw [hb, hnewPk]
        exact Nat.ne_of_lt (t.pkFresh r hr)
      pkFresh := by
        intro r hr
        rcases List.mem_append.mp hr with hr | hr
        · exact Nat.lt_succ_of_lt (t.pkFresh r hr)
        · rw [List.mem_singleton.mp hr, hnewPk]
          exact Nat.lt_succ_self _
      keyUnique := by
        rw [List.map_append, List.nodup_append]
        refine ⟨t.keyUnique, by simp, ?_⟩
        intro a ha b hb
        obtain ⟨r, hr, rfl⟩ := List.mem_map.mp ha
        simp only [List.map_cons, List.map_nil, List.mem_singleton] at hb
        rw [hb, hnewKey]
        intro heq
        exact h ⟨r, hr, heq⟩ }

variable (t : KeyedTable pk key) (k : κ) (new : Nat → ρ) (f : ρ → ρ)
  (hnewPk : ∀ n, pk (new n) = n) (hnewKey : ∀ n, key (new n) = k)
  (hpk : ∀ r, pk (f r) = pk r) (hkey : ∀ r, key (f r) = key r)

/-- The row an upsert leaves under its key: the conflict row rewritten, or the
inserted one. -/
def upserted (t : KeyedTable pk key) (k : κ) (new : Nat → ρ) (f : ρ → ρ) : ρ :=
  match t.lookup k with
  | none => new t.nextPk
  | some r => f r

theorem upserted_of_none {t : KeyedTable pk key} {k : κ} {new : Nat → ρ}
    {f : ρ → ρ} (h : t.lookup k = none) :
    t.upserted k new f = new t.nextPk := by
  unfold upserted
  rw [h]

theorem upserted_of_some {t : KeyedTable pk key} {k : κ} {new : Nat → ρ}
    {f : ρ → ρ} {r : ρ} (h : t.lookup k = some r) :
    t.upserted k new f = f r := by
  unfold upserted
  rw [h]

/-- An upsert of a key that has a row rewrites that row in place. -/
theorem rows_upsert_of_some {r : ρ} (h : t.lookup k = some r) :
    (t.upsert k new f hnewPk hnewKey hpk hkey).rows =
      t.rows.map (fun s => if key s = k then f s else s) := by
  have hex : ∃ r ∈ t.rows, key r = k :=
    ⟨r, mem_of_lookup h, key_of_lookup h⟩
  unfold upsert
  rw [dif_pos hex]
  simp [modify]

/-- An upsert of a key without a row appends one. -/
theorem rows_upsert_of_none (h : t.lookup k = none) :
    (t.upsert k new f hnewPk hnewKey hpk hkey).rows =
      t.rows ++ [new t.nextPk] := by
  have hno : ¬∃ r ∈ t.rows, key r = k := by
    rintro ⟨r, hr, hrk⟩
    exact (t.lookup_eq_none_iff k).mp h r hr hrk
  unfold upsert
  rw [dif_neg hno]

/-- Every row after an upsert is the upserted one or an old row of another
key. -/
theorem mem_upsert (r : ρ) :
    r ∈ (t.upsert k new f hnewPk hnewKey hpk hkey).rows ↔
      r = t.upserted k new f ∨ (r ∈ t.rows ∧ key r ≠ k) := by
  unfold upsert upserted
  split
  next h =>
      obtain ⟨c, hc, hck⟩ := h
      have hl : t.lookup k = some c := (t.lookup_eq_some_iff k c).mpr ⟨hc, hck⟩
      rw [mem_modify, hl]
      constructor
      · rintro ⟨s, hs, rfl⟩
        by_cases hsk : key s = k
        · rw [t.eq_of_key_eq hs hc (hsk.trans hck.symm)]
          simp [hck]
        · simp [hsk, hs]
      · rintro (rfl | ⟨hr, hrk⟩)
        · exact ⟨c, hc, by simp [hck]⟩
        · exact ⟨r, hr, by simp [hrk]⟩
  next h =>
      have hl : t.lookup k = none := by
        rw [lookup_eq_none_iff]
        intro s hs hsk
        exact h ⟨s, hs, hsk⟩
      rw [hl]
      simp only [List.mem_append, List.mem_singleton]
      constructor
      · rintro (hr | rfl)
        · exact Or.inr ⟨hr, fun hrk => h ⟨r, hr, hrk⟩⟩
        · exact Or.inl rfl
      · rintro (rfl | ⟨hr, _⟩)
        · exact Or.inr rfl
        · exact Or.inl hr

/-- An upsert keeps every old row, the conflict row rewritten. -/
theorem survives_upsert {r : ρ} (hr : r ∈ t.rows) :
    (if key r = k then f r else r) ∈
      (t.upsert k new f hnewPk hnewKey hpk hkey).rows := by
  rw [mem_upsert]
  by_cases hrk : key r = k
  · rw [if_pos hrk, upserted_of_some ((t.lookup_eq_some_iff k r).mpr ⟨hr, hrk⟩)]
    exact Or.inl rfl
  · rw [if_neg hrk]
    exact Or.inr ⟨hr, hrk⟩

include hnewKey hkey in
theorem key_upserted : key (t.upserted k new f) = k := by
  unfold upserted
  cases h : t.lookup k with
  | none => exact hnewKey _
  | some r => exact (hkey r).trans (key_of_lookup h)

theorem lookup_upsert_self :
    (t.upsert k new f hnewPk hnewKey hpk hkey).lookup k =
      some (t.upserted k new f) := by
  rw [lookup_eq_some_iff, mem_upsert]
  exact ⟨Or.inl rfl, key_upserted t k new f hnewKey hkey⟩

theorem lookup_upsert_ne {j : κ} (hj : j ≠ k) :
    (t.upsert k new f hnewPk hnewKey hpk hkey).lookup j = t.lookup j := by
  cases h : t.lookup j with
  | none =>
      rw [lookup_eq_none_iff] at h ⊢
      intro r hr
      rw [mem_upsert] at hr
      rcases hr with rfl | ⟨hr, _⟩
      · rw [key_upserted t k new f hnewKey hkey]
        exact hj.symm
      · exact h r hr
  | some s =>
      obtain ⟨hs, hsj⟩ := (t.lookup_eq_some_iff j s).mp h
      rw [lookup_eq_some_iff, mem_upsert]
      exact ⟨Or.inr ⟨hs, by rw [hsj]; exact hj⟩, hsj⟩

end Upsert

/-! ## Statements that leave an attribute alone -/

section Keeps

variable {β : Type} (attr : ρ → β)

/-- Every row of the new table has the attribute it had before, or was not
there before. -/
structure Keeps (t t' : KeyedTable pk key) : Prop where
  nextPk : t.nextPk ≤ t'.nextPk
  rows : ∀ r ∈ t'.rows, t.nextPk ≤ pk r ∨
    ∃ s ∈ t.rows, pk s = pk r ∧ attr s = attr r

variable {attr}

theorem Keeps.refl (t : KeyedTable pk key) : Keeps attr t t :=
  { nextPk := Nat.le_refl _
    rows := fun r hr => Or.inr ⟨r, hr, rfl, rfl⟩ }

theorem Keeps.trans {t t' t'' : KeyedTable pk key} (h : Keeps attr t t')
    (h' : Keeps attr t' t'') : Keeps attr t t'' := by
  refine { nextPk := Nat.le_trans h.nextPk h'.nextPk, rows := ?_ }
  intro r hr
  rcases h'.rows r hr with hnew | ⟨s, hs, hpk, hattr⟩
  · exact Or.inl (Nat.le_trans h.nextPk hnew)
  · rcases h.rows s hs with hnew | ⟨q, hq, hpk', hattr'⟩
    · exact Or.inl (by omega)
    · exact Or.inr ⟨q, hq, hpk'.trans hpk, hattr'.trans hattr⟩

/-- An `UPDATE` that does not assign the attribute. -/
theorem keeps_modify (t : KeyedTable pk key) (p : ρ → Bool) (f : ρ → ρ)
    (hpk : ∀ r, pk (f r) = pk r) (hkey : ∀ r, key (f r) = key r)
    (hattr : ∀ r, attr (f r) = attr r) :
    Keeps attr t (t.modify p f hpk hkey) := by
  refine { nextPk := Nat.le_refl _, rows := ?_ }
  intro r hr
  obtain ⟨s, hs, rfl⟩ := (mem_modify t p f hpk hkey r).mp hr
  refine Or.inr ⟨s, hs, ?_⟩
  split
  · exact ⟨(hpk s).symm, (hattr s).symm⟩
  · exact ⟨rfl, rfl⟩

theorem keeps_update [DecidableEq κ] {t t' : KeyedTable pk key}
    {p : ρ → Bool} {f : ρ → ρ} {hpk : ∀ r, pk (f r) = pk r}
    (h : t.update p f hpk = some t') (hattr : ∀ r, attr (f r) = attr r) :
    Keeps attr t t' := by
  have hnext : t'.nextPk = t.nextPk := by
    unfold update at h
    split at h
    · cases h
      rfl
    · cases h
  refine { nextPk := Nat.le_of_eq hnext.symm, rows := ?_ }
  intro r hr
  obtain ⟨s, hs, rfl⟩ := (mem_update h r).mp hr
  refine Or.inr ⟨s, hs, ?_⟩
  split
  · exact ⟨(hpk s).symm, (hattr s).symm⟩
  · exact ⟨rfl, rfl⟩

theorem nextPk_le_upsert [DecidableEq κ] (t : KeyedTable pk key) (k : κ)
    (new : Nat → ρ) (f : ρ → ρ) (hnewPk : ∀ n, pk (new n) = n)
    (hnewKey : ∀ n, key (new n) = k) (hpk : ∀ r, pk (f r) = pk r)
    (hkey : ∀ r, key (f r) = key r) :
    t.nextPk ≤ (t.upsert k new f hnewPk hnewKey hpk hkey).nextPk := by
  unfold upsert
  split
  · exact Nat.le_refl _
  · exact Nat.le_succ _

/-- An upsert whose `DO UPDATE` does not assign the attribute. -/
theorem keeps_upsert [DecidableEq κ] (t : KeyedTable pk key) (k : κ)
    (new : Nat → ρ) (f : ρ → ρ) (hnewPk : ∀ n, pk (new n) = n)
    (hnewKey : ∀ n, key (new n) = k) (hpk : ∀ r, pk (f r) = pk r)
    (hkey : ∀ r, key (f r) = key r) (hattr : ∀ r, attr (f r) = attr r) :
    Keeps attr t (t.upsert k new f hnewPk hnewKey hpk hkey) := by
  refine { nextPk := t.nextPk_le_upsert k new f hnewPk hnewKey hpk hkey
           rows := ?_ }
  intro r hr
  rcases (t.mem_upsert k new f hnewPk hnewKey hpk hkey r).mp hr with rfl | hold
  · cases hl : t.lookup k with
    | none =>
        rw [upserted_of_none hl, hnewPk]
        exact Or.inl (Nat.le_refl _)
    | some s =>
        rw [upserted_of_some hl]
        exact Or.inr ⟨s, mem_of_lookup hl, (hpk s).symm, (hattr s).symm⟩
  · exact Or.inr ⟨r, hold.1, rfl, rfl⟩

end Keeps

end KeyedTable

end ArkiveSync.Library
