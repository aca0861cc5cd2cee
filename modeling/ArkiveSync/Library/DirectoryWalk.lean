import Mathlib.Data.List.Nodup
import Mathlib.Data.List.Infix

/-!
# Walking a directory tree

What a directory holds, entry by entry in the order in which the system lists
them, and the walk that a recursive iterator makes over it: every entry once, a
directory before what it holds.

An entry is a leaf with its data or a directory with a forest of its own.  A
path is the list of the names from the top of the walk down.

## Main results

* `mem_walk`: a walk meets exactly what the forest holds.
* `walk_nodup`: when no directory lists a name twice, no path is met twice.
* `mem_walk_below`: the walk of a directory is the part of the whole walk that
  lies below it.
-/

namespace ArkiveSync.Library

/-- What a directory holds. -/
inductive Forest (α : Type) where
  | empty
  | leaf (name : String) (data : α) (rest : Forest α)
  | directory (name : String) (children rest : Forest α)

namespace Forest

variable {α : Type}

/-- The walk over a forest that lies at `above`: paths with the data of a leaf,
or with nothing for a directory. -/
def walk (above : List String) : Forest α → List (List String × Option α)
  | empty => []
  | leaf name data rest => (above ++ [name], some data) :: rest.walk above
  | directory name children rest =>
      (above ++ [name], none) ::
        (children.walk (above ++ [name]) ++ rest.walk above)

/-- What lies at a path: a leaf with its data, or a directory. -/
inductive Holds : Forest α → List String → Option α → Prop where
  | leaf (name : String) (data : α) (rest : Forest α) :
      Holds (.leaf name data rest) [name] (some data)
  | directory (name : String) (children rest : Forest α) :
      Holds (.directory name children rest) [name] none
  | inside (name : String) (children rest : Forest α) (names : List String)
      (x : Option α) (h : Holds children names x) :
      Holds (.directory name children rest) (name :: names) x
  | pastLeaf (name : String) (data : α) (rest : Forest α)
      (names : List String) (x : Option α) (h : Holds rest names x) :
      Holds (.leaf name data rest) names x
  | pastDirectory (name : String) (children rest : Forest α)
      (names : List String) (x : Option α) (h : Holds rest names x) :
      Holds (.directory name children rest) names x

/-- The names of one level. -/
def names : Forest α → List String
  | empty => []
  | leaf name _ rest => name :: rest.names
  | directory name _ rest => name :: rest.names

/-- No directory lists a name twice. -/
def Distinct : Forest α → Prop
  | empty => True
  | leaf name _ rest => name ∉ rest.names ∧ rest.Distinct
  | directory name children rest =>
      name ∉ rest.names ∧ children.Distinct ∧ rest.Distinct

/-- All names, on every level, are of one kind. -/
def All (kind : String → Prop) : Forest α → Prop
  | empty => True
  | leaf name _ rest => kind name ∧ rest.All kind
  | directory name children rest =>
      kind name ∧ children.All kind ∧ rest.All kind

/-- What the directory at a path holds. -/
def descend : Forest α → List String → Option (Forest α)
  | f, [] => some f
  | empty, _ :: _ => none
  | leaf _ _ rest, n :: ns => rest.descend (n :: ns)
  | directory name children rest, n :: ns =>
      if name = n then children.descend ns else rest.descend (n :: ns)

instance Distinct.decidable : (f : Forest α) → Decidable f.Distinct
  | empty => isTrue trivial
  | leaf name _ rest =>
      have := Distinct.decidable rest
      inferInstanceAs (Decidable (name ∉ rest.names ∧ rest.Distinct))
  | directory name children rest =>
      have := Distinct.decidable children
      have := Distinct.decidable rest
      inferInstanceAs (Decidable (name ∉ rest.names ∧ children.Distinct ∧
        rest.Distinct))

instance All.decidable (kind : String → Prop) [DecidablePred kind] :
    (f : Forest α) → Decidable (f.All kind)
  | empty => isTrue trivial
  | leaf name _ rest =>
      have := All.decidable kind rest
      inferInstanceAs (Decidable (kind name ∧ rest.All kind))
  | directory name children rest =>
      have := All.decidable kind children
      have := All.decidable kind rest
      inferInstanceAs (Decidable (kind name ∧ children.All kind ∧
        rest.All kind))

/-! ## What lies where -/

variable {f g : Forest α} {path : List String} {x y : Option α}

theorem Holds.ne_nil (h : f.Holds path x) : path ≠ [] := by
  induction h with
  | leaf => simp
  | directory => simp
  | inside => simp
  | pastLeaf _ _ _ _ _ _ ih => exact ih
  | pastDirectory _ _ _ _ _ _ ih => exact ih

/-- The first name of a path is listed on top. -/
theorem Holds.head_mem {n : String} {ns : List String}
    (h : f.Holds (n :: ns) x) : n ∈ f.names := by
  induction f with
  | empty => cases h
  | leaf name data rest ih =>
      cases h with
      | leaf => exact List.mem_cons_self
      | pastLeaf _ _ _ _ _ h => exact List.mem_cons_of_mem _ (ih h)
  | directory name children rest _ ih =>
      cases h with
      | directory => exact List.mem_cons_self
      | inside => exact List.mem_cons_self
      | pastDirectory _ _ _ _ _ h => exact List.mem_cons_of_mem _ (ih h)

/-- Every name on the way to an entry is of the kind. -/
theorem Holds.all {kind : String → Prop} (h : f.Holds path x)
    (hall : f.All kind) : ∀ n ∈ path, kind n := by
  induction h with
  | leaf | directory =>
      intro n hn
      rw [List.mem_singleton.mp hn]
      exact hall.1
  | inside _ _ _ _ _ _ ih =>
      intro n hn
      rcases List.mem_cons.mp hn with rfl | hn
      · exact hall.1
      · exact ih hall.2.1 n hn
  | pastLeaf _ _ _ _ _ _ ih => exact ih hall.2
  | pastDirectory _ _ _ _ _ _ ih => exact ih hall.2.2

/-- At most one thing lies at a path. -/
theorem Holds.unique (hdistinct : f.Distinct) (h : f.Holds path x)
    (hy : f.Holds path y) : x = y := by
  induction h with
  | leaf name data rest =>
      cases hy with
      | leaf => rfl
      | pastLeaf _ _ _ _ _ h => exact absurd h.head_mem hdistinct.1
  | directory name children rest =>
      cases hy with
      | directory => rfl
      | inside _ _ _ _ _ h => exact absurd rfl h.ne_nil
      | pastDirectory _ _ _ _ _ h => exact absurd h.head_mem hdistinct.1
  | inside name children rest names x hin ih =>
      cases hy with
      | directory => exact absurd rfl hin.ne_nil
      | inside _ _ _ _ _ h => exact ih hdistinct.2.1 h
      | pastDirectory _ _ _ _ _ h => exact absurd h.head_mem hdistinct.1
  | pastLeaf name data rest names x hin ih =>
      cases hy with
      | leaf => exact absurd hin.head_mem hdistinct.1
      | pastLeaf _ _ _ _ _ h => exact ih hdistinct.2 h
  | pastDirectory name children rest names x hin ih =>
      cases hy with
      | directory => exact absurd hin.head_mem hdistinct.1
      | inside _ _ _ _ _ h => exact absurd hin.head_mem hdistinct.1
      | pastDirectory _ _ _ _ _ h => exact ih hdistinct.2.2 h

/-- Things lie in directories only. -/
theorem Holds.directory_above {more : List String}
    (h : f.Holds (path ++ more) x) (hpath : path ≠ []) (hmore : more ≠ []) :
    f.Holds path none := by
  induction f generalizing path with
  | empty => cases h
  | leaf name data rest ih =>
      generalize hall : path ++ more = all at h
      cases h with
      | leaf =>
          cases path with
          | nil => exact absurd rfl hpath
          | cons n ns =>
              rw [List.cons_append, List.cons.injEq] at hall
              exact absurd (List.append_eq_nil_iff.mp hall.2).2 hmore
      | pastLeaf _ _ _ _ _ h =>
          rw [← hall] at h
          exact .pastLeaf _ _ _ _ _ (ih h hpath)
  | directory name children rest ihchildren ihrest =>
      generalize hall : path ++ more = all at h
      cases h with
      | directory =>
          cases path with
          | nil => exact absurd rfl hpath
          | cons n ns =>
              rw [List.cons_append, List.cons.injEq] at hall
              exact absurd (List.append_eq_nil_iff.mp hall.2).2 hmore
      | inside _ _ _ names _ h =>
          cases path with
          | nil => exact absurd rfl hpath
          | cons n ns =>
              rw [List.cons_append, List.cons.injEq] at hall
              obtain ⟨rfl, rfl⟩ := hall
              by_cases hns : ns = []
              · rw [hns]
                exact .directory _ _ _
              · exact .inside _ _ _ _ _ (ihchildren h hns)
      | pastDirectory _ _ _ _ _ h =>
          rw [← hall] at h
          exact .pastDirectory _ _ _ _ _ (ihrest h hpath)

/-! ## The walk -/

/-- A walk meets what the forest holds. -/
theorem mem_walk {above : List String} {z : List String × Option α} :
    z ∈ f.walk above ↔
      ∃ path, z.1 = above ++ path ∧ f.Holds path z.2 := by
  obtain ⟨at', x⟩ := z
  induction f generalizing above with
  | empty =>
      constructor
      · intro h
        cases h
      · rintro ⟨path, -, h⟩
        cases h
  | leaf name data rest ih =>
      rw [walk, List.mem_cons, ih]
      constructor
      · rintro (h | ⟨path, hpath, h⟩)
        · cases h
          exact ⟨[name], rfl, .leaf _ _ _⟩
        · exact ⟨path, hpath, .pastLeaf _ _ _ _ _ h⟩
      · rintro ⟨path, hpath, h⟩
        cases h with
        | leaf => exact Or.inl (Prod.ext hpath rfl)
        | pastLeaf _ _ _ _ _ h => exact Or.inr ⟨path, hpath, h⟩
  | directory name children rest ihchildren ihrest =>
      rw [walk, List.mem_cons, List.mem_append, ihchildren, ihrest]
      constructor
      · rintro (h | ⟨path, hpath, h⟩ | ⟨path, hpath, h⟩)
        · cases h
          exact ⟨[name], rfl, .directory _ _ _⟩
        · refine ⟨name :: path, ?_, .inside _ _ _ _ _ h⟩
          rw [hpath, List.append_assoc]
          rfl
        · exact ⟨path, hpath, .pastDirectory _ _ _ _ _ h⟩
      · rintro ⟨path, hpath, h⟩
        cases h with
        | directory => exact Or.inl (Prod.ext hpath rfl)
        | inside _ _ _ names _ h =>
            refine Or.inr (Or.inl ⟨names, ?_, h⟩)
            rw [hpath, List.append_assoc]
            rfl
        | pastDirectory _ _ _ _ _ h => exact Or.inr (Or.inr ⟨path, hpath, h⟩)

/-- The paths of a walk begin with a name of the top level. -/
theorem walk_path_cases {above : List String} {at' : List String}
    (h : at' ∈ (f.walk above).map Prod.fst) :
    ∃ n ns, at' = above ++ n :: ns ∧ n ∈ f.names := by
  obtain ⟨z, hz, rfl⟩ := List.mem_map.mp h
  obtain ⟨path, hpath, hholds⟩ := mem_walk.mp hz
  cases path with
  | nil => exact absurd rfl hholds.ne_nil
  | cons n ns => exact ⟨n, ns, hpath, hholds.head_mem⟩

/-- No path is met twice. -/
theorem walk_nodup (hdistinct : f.Distinct) (above : List String) :
    ((f.walk above).map Prod.fst).Nodup := by
  induction f generalizing above with
  | empty => exact List.nodup_nil
  | leaf name data rest ih =>
      rw [walk, List.map_cons, List.nodup_cons]
      refine ⟨?_, ih hdistinct.2 above⟩
      intro hmem
      obtain ⟨n, ns, hpath, hn⟩ := walk_path_cases hmem
      have hsame := List.append_cancel_left hpath
      rw [List.cons.injEq] at hsame
      exact hdistinct.1 (by rw [hsame.1]; exact hn)
  | directory name children rest ihchildren ihrest =>
      rw [walk, List.map_cons, List.map_append, List.nodup_cons,
        List.nodup_append, List.mem_append, not_or]
      refine ⟨⟨?_, ?_⟩, ihchildren hdistinct.2.1 _, ihrest hdistinct.2.2 _,
        ?_⟩
      · intro hmem
        obtain ⟨n, ns, hpath, -⟩ := walk_path_cases hmem
        exact absurd (List.append_right_eq_self.mp hpath.symm) (by simp)
      · intro hmem
        obtain ⟨n, ns, hpath, hn⟩ := walk_path_cases hmem
        have hsame := List.append_cancel_left hpath
        rw [List.cons.injEq] at hsame
        exact hdistinct.1 (by rw [hsame.1]; exact hn)
      · intro p hp q hq heq
        obtain ⟨n, ns, hpath, -⟩ := walk_path_cases hp
        obtain ⟨m, ms, hqath, hm⟩ := walk_path_cases hq
        rw [heq, hqath, List.append_assoc] at hpath
        have hsame := List.append_cancel_left hpath
        rw [List.singleton_append, List.cons.injEq] at hsame
        exact hdistinct.1 (by rw [← hsame.1]; exact hm)

/-! ## The walk of one directory -/

/-- What the directory at a path holds lies below that path. -/
theorem descend_holds (hdistinct : f.Distinct) (hdescend : f.descend path = some g)
    {more : List String} (hmore : more ≠ []) :
    g.Holds more x ↔ f.Holds (path ++ more) x := by
  induction f generalizing path with
  | empty =>
      cases path with
      | nil =>
          cases hdescend
          rfl
      | cons n ns => cases hdescend
  | leaf name data rest ih =>
      cases path with
      | nil =>
          cases hdescend
          rfl
      | cons n ns =>
          rw [ih hdistinct.2 hdescend]
          constructor
          · exact fun h => .pastLeaf _ _ _ _ _ h
          · intro h
            generalize hall : n :: ns ++ more = all at h
            cases h with
            | leaf =>
                rw [List.cons_append, List.cons.injEq] at hall
                exact absurd (List.append_eq_nil_iff.mp hall.2).2 hmore
            | pastLeaf _ _ _ _ _ h => exact h
  | directory name children rest ihchildren ihrest =>
      cases path with
      | nil =>
          cases hdescend
          rfl
      | cons n ns =>
          rw [descend] at hdescend
          by_cases hn : name = n
          · rw [if_pos hn] at hdescend
            subst hn
            rw [ihchildren hdistinct.2.1 hdescend]
            constructor
            · exact fun h => .inside _ _ _ _ _ h
            · intro h
              generalize hall : name :: ns ++ more = all at h
              cases h with
              | directory =>
                  rw [List.cons_append, List.cons.injEq] at hall
                  exact absurd (List.append_eq_nil_iff.mp hall.2).2 hmore
              | inside _ _ _ _ _ h =>
                  rw [List.cons_append, List.cons.injEq] at hall
                  rw [hall.2]
                  exact h
              | pastDirectory _ _ _ _ _ h =>
                  rw [← hall] at h
                  exact absurd h.head_mem hdistinct.1
          · rw [if_neg hn] at hdescend
            rw [ihrest hdistinct.2.2 hdescend]
            constructor
            · exact fun h => .pastDirectory _ _ _ _ _ h
            · intro h
              generalize hall : n :: ns ++ more = all at h
              cases h with
              | directory =>
                  rw [List.cons_append, List.cons.injEq] at hall
                  exact absurd hall.1.symm hn
              | inside _ _ _ _ _ h =>
                  rw [List.cons_append, List.cons.injEq] at hall
                  exact absurd hall.1.symm hn
              | pastDirectory _ _ _ _ _ h => exact h

/-- The walk of a directory is the part of the whole walk below it. -/
theorem mem_walk_below (hdistinct : f.Distinct)
    (hdescend : f.descend path = some g) {z : List String × Option α} :
    z ∈ g.walk path ↔ z ∈ f.walk [] ∧ path <+: z.1 ∧ path ≠ z.1 := by
  rw [mem_walk, mem_walk]
  constructor
  · rintro ⟨more, hz, hholds⟩
    have hmore := hholds.ne_nil
    refine ⟨⟨path ++ more, hz, ?_⟩, ⟨more, hz.symm⟩, ?_⟩
    · exact (descend_holds hdistinct hdescend hmore).mp hholds
    · intro hsame
      rw [hz] at hsame
      exact hmore (List.append_right_eq_self.mp hsame.symm)
  · rintro ⟨⟨whole, hz, hholds⟩, ⟨more, hpath⟩, hne⟩
    rw [List.nil_append] at hz
    have hmore : more ≠ [] := by
      intro hnil
      rw [hnil, List.append_nil] at hpath
      exact hne hpath
    refine ⟨more, hpath.symm, ?_⟩
    rw [← hz, ← hpath] at hholds
    exact (descend_holds hdistinct hdescend hmore).mpr hholds

end Forest

end ArkiveSync.Library
