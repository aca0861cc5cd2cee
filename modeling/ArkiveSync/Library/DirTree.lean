import Mathlib.Data.List.Infix

/-!
# A tree of directories by parent links

A directory is known by an identity that survives a rename; where it is follows
from the links to its parent directories.  Two directories never have the same
name in one parent.

## Main results

* `At.path_unique`, `At.dir_unique`: paths below a directory and the directories
  there determine each other.
* `At.below_cases`: what is below a path is at the path or below a directory
  that is.
-/

namespace ArkiveSync.Library

/-- Directories with their parents and names; the tops have no parent. -/
structure DirTree (δ ν : Type) where
  tops : List δ
  link : δ → Option (δ × ν)
  top_link : ∀ d ∈ tops, link d = none
  unique : ∀ d e place, link d = some place → link e = some place → d = e

namespace DirTree

variable {δ ν : Type}

/-- The directory is there. -/
def Exists (t : DirTree δ ν) (d : δ) : Prop :=
  d ∈ t.tops ∨ ∃ place, t.link d = some place

/-- The directory has no directories in it. -/
def Childless (t : DirTree δ ν) (d : δ) : Prop :=
  ∀ c n, t.link c ≠ some (d, n)

/-- The path of a directory, counted from a directory `r` whose path is
`base`. -/
inductive At (t : DirTree δ ν) (r : δ) (base : List ν) : δ → List ν → Prop where
  | top : At t r base r base
  | child {d b : δ} {n : ν} {p : List ν} (hlink : t.link d = some (b, n))
      (hparent : At t r base b p) : At t r base d (p ++ [n])

variable {t : DirTree δ ν} {r : δ} {base : List ν}

theorem At.base_prefix {d : δ} {p : List ν} (h : t.At r base d p) :
    base <+: p := by
  induction h with
  | top => exact List.prefix_rfl
  | child _ _ ih => exact ih.trans (List.prefix_append _ _)

/-- A directory that is not at the start has its parent one level above. -/
theorem At.parent {d : δ} {p : List ν} (h : t.At r base d p)
    (hne : p ≠ base) :
    ∃ b n q, t.link d = some (b, n) ∧ t.At r base b q ∧ p = q ++ [n] := by
  cases h with
  | top => exact absurd rfl hne
  | @child _ b n q hlink hparent => exact ⟨b, n, q, hlink, hparent, rfl⟩

/-- The start has no other path. -/
theorem At.top_path {p : List ν} (hr : t.link r = none)
    (h : t.At r base r p) : p = base := by
  cases h with
  | top => rfl
  | child hlink _ =>
      rw [hr] at hlink
      cases hlink

theorem At.path_unique {d : δ} {p q : List ν} (hr : t.link r = none)
    (hp : t.At r base d p) (hq : t.At r base d q) : p = q := by
  induction hp generalizing q with
  | top => exact (hq.top_path hr).symm
  | @child d b n p hlink _ ih =>
      cases hq with
      | top =>
          rw [hr] at hlink
          cases hlink
      | @child _ b' n' q' hlink' hparent' =>
          rw [hlink] at hlink'
          obtain ⟨rfl, rfl⟩ := Prod.mk.inj (Option.some.inj hlink')
          rw [ih hparent']

theorem At.dir_unique {d e : δ} {p : List ν} (hd : t.At r base d p)
    (he : t.At r base e p) : d = e := by
  induction hd generalizing e with
  | top =>
      by_cases hre : e = r
      · exact hre.symm
      · exfalso
        cases he with
        | top => exact hre rfl
        | child _ hparent =>
            have hlen := hparent.base_prefix.length_le
            simp only [List.length_append, List.length_singleton] at hlen
            omega
  | @child d b n p hlink hparent ih =>
      generalize hp : p ++ [n] = whole at he
      cases he with
      | top =>
          have hlen := hparent.base_prefix.length_le
          have hlen' := congrArg List.length hp
          simp at hlen'
          omega
      | @child _ b' n' q' hlink' hparent' =>
          obtain ⟨rfl, hn⟩ := List.append_inj' hp rfl
          have hb := ih hparent'
          rw [← hb, ← List.singleton_inj.mp hn] at hlink'
          exact t.unique d e (b, n) hlink hlink'

/-- What is at or below a path is there, or in a directory at or below it. -/
theorem At.below_cases {d : δ} {p path : List ν} (h : t.At r base d p)
    (hbase : base <+: path) (hbelow : path <+: p) (hne : p ≠ path) :
    ∃ b n q, t.link d = some (b, n) ∧ t.At r base b q ∧ p = q ++ [n] ∧
      path <+: q := by
  have hp : p ≠ base := by
    intro hp
    rw [hp] at hbelow hne
    exact hne (hbase.eq_of_length_le hbelow.length_le)
  obtain ⟨b, n, q, hlink, hparent, rfl⟩ := h.parent hp
  refine ⟨b, n, q, hlink, hparent, rfl, ?_⟩
  rcases List.prefix_concat_iff.mp hbelow with heq | hq
  · exact absurd heq.symm hne
  · exact hq

/-- The directories between a path and one below it are all there. -/
theorem At.above {d : δ} {p path : List ν} (h : t.At r base d p)
    (hbase : base <+: path) (hbelow : path <+: p) :
    ∃ e, t.At r base e path := by
  induction h with
  | top =>
      have heq := hbase.eq_of_length_le hbelow.length_le
      exact ⟨r, heq ▸ .top⟩
  | @child d b n p hlink hparent ih =>
      rcases List.prefix_concat_iff.mp hbelow with heq | hq
      · exact ⟨d, heq ▸ .child hlink hparent⟩
      · exact ih hq

/-- A directory with a path is there. -/
theorem At.exists_dir {d : δ} {p : List ν} (hr : t.Exists r)
    (h : t.At r base d p) : t.Exists d := by
  cases h with
  | top => exact hr
  | child hlink _ => exact .inr ⟨_, hlink⟩

/-! ## Changes of the tree -/

/-- A new directory `d` named `n` in `b`. -/
structure Makes (t : DirTree δ ν) (d b : δ) (n : ν) (t' : DirTree δ ν) :
    Prop where
  absent : ¬t.Exists d
  parent : t.Exists b
  tops : t'.tops = t.tops
  here : t'.link d = some (b, n)
  rest : ∀ c, c ≠ d → t'.link c = t.link c

/-- The directory `d` in `b` is removed. -/
structure Removes (t : DirTree δ ν) (d b : δ) (n : ν) (t' : DirTree δ ν) :
    Prop where
  there : t.link d = some (b, n)
  childless : t.Childless d
  tops : t'.tops = t.tops
  gone : t'.link d = none
  rest : ∀ c, c ≠ d → t'.link c = t.link c

/-- The directory `d`, named `n₀` in `b₀`, becomes `n` in `b`; an empty
directory that was there is replaced. -/
structure Moves (t : DirTree δ ν) (d b₀ : δ) (n₀ : ν) (b : δ) (n : ν)
    (replaced : Option δ) (t' : DirTree δ ν) : Prop where
  there : t.link d = some (b₀, n₀)
  parent : t.Exists b
  outside : ∀ base p, ¬t.At d base b p
  other : t.link d ≠ some (b, n)
  replaces : ∀ e, replaced = some e ↔ t.link e = some (b, n)
  childless : ∀ e ∈ replaced, t.Childless e
  tops : t'.tops = t.tops
  here : t'.link d = some (b, n)
  gone : ∀ e ∈ replaced, t'.link e = none
  rest : ∀ c, c ≠ d → replaced ≠ some c → t'.link c = t.link c

end DirTree

end ArkiveSync.Library
