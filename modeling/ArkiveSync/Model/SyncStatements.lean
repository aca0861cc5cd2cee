import ArkiveSync.Model.SyncSystem

/-!
# The statements of the client

Whatever an operation does to the rows of entries, it does with one of eight
kinds of statements.  What holds of a row over a run is shown once for each
kind.

## Main results

* `Statement.keeps_root`: no statement moves a row to another root.
* `Statement.Runs.sameRows`: statements for other roots leave the rows of a
  root alone.
* `SyncSystem.perform_statements`: the rows after an operation are those before
  it with statements executed that the operation can issue.
-/

namespace ArkiveSync

open Library

/-! ## Statements on the rows -/

/-- The statements that operations execute on the rows. -/
inductive Statement where
  | scanned (syncRootId : String) (jobId : Nat) (items : List DirItem)
  | listed (u : RemoteEntryUpsert)
  | rootDeleted (syncRootId now : String)
  | uploaded (entryId : Nat) (remoteId : String) (parent : Option String)
  | folderCreated (entryId : Nat) (remoteId : String) (parent : Option String)
  | conflict (entryId : Nat)
  | downloaded (entryId : Nat)
  | downloadedAs (entryId : Nat) (size mtime : Int) (contentHash : String)

namespace Statement

/-- A statement and the tables around it. -/
inductive Executes : EntryTable → Statement → EntryTable → Prop where
  | scanned {t t' : EntryTable} {syncRootId : String} {jobId : Nat}
      {items : List DirItem}
      (hstep : RootScanner.LocalStep syncRootId jobId items t t') :
      Executes t (.scanned syncRootId jobId items) t'
  | listed {t t' : EntryTable} {u : RemoteEntryUpsert}
      (hu : RemoteEntryRepo.upsertRemoteEntry t u = some t') :
      Executes t (.listed u) t'
  | rootDeleted (t : EntryTable) (syncRootId now : String) :
      Executes t (.rootDeleted syncRootId now)
        (RemoteEntryRepo.markRootRemoteDeleted t syncRootId now)
  | uploaded (t : EntryTable) (entryId : Nat) (remoteId : String)
      (parent : Option String) :
      Executes t (.uploaded entryId remoteId parent)
        (RemoteEntryRepo.markEntryUploaded t entryId remoteId parent)
  | folderCreated (t : EntryTable) (entryId : Nat) (remoteId : String)
      (parent : Option String) :
      Executes t (.folderCreated entryId remoteId parent)
        (RemoteEntryRepo.markFolderCreated t entryId remoteId parent)
  | conflict (t : EntryTable) (entryId : Nat) :
      Executes t (.conflict entryId)
        (ConflictRepo.markConflict t entryId "local_remote_modified")
  | downloaded (t : EntryTable) (entryId : Nat) :
      Executes t (.downloaded entryId)
        (RemoteEntryRepo.markEntryDownloaded t entryId)
  | downloadedAs (t : EntryTable) (entryId : Nat) (size mtime : Int)
      (contentHash : String) :
      Executes t (.downloadedAs entryId size mtime contentHash)
        (RemoteEntryRepo.markEntryDownloadedAs t entryId size mtime
          contentHash)

/-- Statements of one kind, one after the other. -/
abbrev Runs (issued : Statement → Prop) : EntryTable → EntryTable → Prop :=
  Run (Guarded Executes (fun _ st => issued st))

theorem Runs.single {issued : Statement → Prop} {t t' : EntryTable}
    {st : Statement} (h : Executes t st t') (hst : issued st) :
    Runs issued t t' :=
  Relation.ReflTransGen.single ⟨st, h, hst⟩

/-- The statements of a local scan. -/
theorem Runs.of_localSteps {issued : Statement → Prop} {syncRootId : String}
    {jobId : Nat} {items : List DirItem} {t t' : EntryTable}
    (h : RootScanner.LocalSteps syncRootId jobId items t t')
    (hst : issued (.scanned syncRootId jobId items)) : Runs issued t t' :=
  h.lift id (fun _ _ hstep => ⟨_, Executes.scanned hstep, hst⟩)

/-- The statements of a remote scan. -/
theorem Runs.of_applyAll {issued : Statement → Prop}
    {us : List RemoteEntryUpsert} {t t' : EntryTable}
    (h : RemoteScanner.applyAll us t = some t')
    (hst : ∀ u ∈ us, issued (.listed u)) : Runs issued t t' := by
  induction us generalizing t with
  | nil =>
      cases h
      exact .refl
  | cons u us ih =>
      rw [RemoteScanner.applyAll_cons, Option.bind_eq_some_iff] at h
      obtain ⟨mid, hu, hrest⟩ := h
      have hfirst : Runs issued t mid :=
        Runs.single (.listed hu) (hst u (by simp))
      exact hfirst.trans (ih hrest (fun v hv => hst v (by simp [hv])))

/-- No statement moves a row to another root. -/
theorem keeps_root {t t' : EntryTable} {st : Statement}
    (h : Executes t st t') : KeyedTable.Keeps Entry.syncRootId t t' := by
  cases h with
  | scanned hstep =>
      cases hstep with
      | directory rel hitem =>
          exact KeyedTable.keeps_upsert t _ _ _ _ _ _ _ (fun _ => rfl)
      | file _ rel probe hitem hstored =>
          obtain ⟨_, _, _, _, _, _, _, _, _, _, rfl⟩ :=
            RootScanner.handleFileEntry_stored hstored
          exact KeyedTable.keeps_upsert t _ _ _ _ _ _ _ (fun _ => rfl)
      | mark p => exact KeyedTable.keeps_modify t p _ _ _ (fun _ => rfl)
  | listed hu =>
      exact RemoteEntryRepo.keeps_upsertRemoteEntry hu (fun _ => rfl)
        (fun _ => rfl)
  | rootDeleted syncRootId now =>
      unfold RemoteEntryRepo.markRootRemoteDeleted
      exact KeyedTable.keeps_modify t _ _ _ _ (fun _ => rfl)
  | uploaded entryId remoteId parent =>
      exact RemoteEntryRepo.keeps_updateById entryId (fun _ => rfl)
  | folderCreated entryId remoteId parent =>
      exact RemoteEntryRepo.keeps_updateById entryId (fun _ => rfl)
  | conflict entryId =>
      exact RemoteEntryRepo.keeps_updateById entryId (fun _ => rfl)
  | downloaded entryId =>
      exact RemoteEntryRepo.keeps_updateById entryId (fun _ => rfl)
  | downloadedAs entryId size mtime contentHash =>
      exact RemoteEntryRepo.keeps_updateById entryId (fun _ => rfl)

theorem Runs.keeps_root {issued : Statement → Prop} {t t' : EntryTable}
    (h : Runs issued t t') : KeyedTable.Keeps Entry.syncRootId t t' := by
  induction h with
  | refl => exact .refl t
  | tail _ hlast ih =>
      obtain ⟨st, hst, _⟩ := hlast
      exact ih.trans (Statement.keeps_root hst)

/-- A row that has the id of an earlier row is of the same root. -/
theorem root_of_keeps {t t' : EntryTable} {e f : Entry}
    (hkeeps : KeyedTable.Keeps Entry.syncRootId t t') (he : e ∈ t.rows)
    (hf : f ∈ t'.rows) (hid : f.id = e.id) : f.syncRootId = e.syncRootId := by
  rcases hkeeps.rows f hf with hnew | ⟨g, hg, hgid, hgroot⟩
  · have hold := t.pkFresh e he
    omega
  · rw [t.eq_of_pk_eq hg he (hgid.trans hid)] at hgroot
    exact hgroot.symm

/-! ## Every row of a root -/

/-- Every row of the root has the property. -/
def OfRoot (syncRootId : String) (P : Entry → Prop) (t : EntryTable) : Prop :=
  ∀ e ∈ t.rows, e.syncRootId = syncRootId → P e

section OfRoot

variable {syncRootId : String} {P : Entry → Prop} {t : EntryTable}

/-- An update under a condition, by the rows that it changes. -/
theorem ofRoot_modify {p : Entry → Bool} {f : Entry → Entry}
    {hpk : ∀ e, (f e).id = e.id} {hkey : ∀ e, (f e).key = e.key}
    (h : OfRoot syncRootId P t)
    (hf : ∀ e ∈ t.rows, e.syncRootId = syncRootId → p e = true → P e →
      P (f e)) :
    OfRoot syncRootId P (t.modify p f hpk hkey) := by
  intro e he hroot
  obtain ⟨g, hg, rfl⟩ := (t.mem_modify _ _ _ _ e).mp he
  by_cases hp : p g = true
  · rw [if_pos hp] at hroot ⊢
    have hgroot : g.syncRootId = syncRootId := by
      rw [← hroot]
      exact (congrArg Prod.fst (hkey g)).symm
    exact hf g hg hgroot hp (h g hg hgroot)
  · rw [if_neg hp] at hroot ⊢
    exact h g hg hroot

theorem ofRoot_updateById {n : Nat} {f : Entry → Entry}
    {hid : ∀ e, (f e).id = e.id} {hkey : ∀ e, (f e).key = e.key}
    (h : OfRoot syncRootId P t)
    (hf : ∀ e ∈ t.rows, e.syncRootId = syncRootId → e.id = n → P e →
      P (f e)) :
    OfRoot syncRootId P (RemoteEntryRepo.updateById t n f hid hkey) := by
  refine ofRoot_modify h ?_
  intro e he hroot hn
  exact hf e he hroot (by simpa using hn)

/-! The rows that a statement changes decide about the rows behind it. -/

theorem ofRoot_modify_iff {p : Entry → Bool} {f : Entry → Entry}
    {hpk : ∀ e, (f e).id = e.id} {hkey : ∀ e, (f e).key = e.key}
    (h : OfRoot syncRootId P t) :
    OfRoot syncRootId P (t.modify p f hpk hkey) ↔
      ∀ e ∈ t.rows, e.syncRootId = syncRootId → p e = true → P (f e) := by
  constructor
  · intro hafter e he hroot hp
    have hmem : f e ∈ (t.modify p f hpk hkey).rows :=
      (t.mem_modify _ _ _ _ _).mpr ⟨e, he, by rw [if_pos hp]⟩
    exact hafter _ hmem ((congrArg Prod.fst (hkey e)).trans hroot)
  · intro hf
    exact ofRoot_modify h (fun e he hroot hp _ => hf e he hroot hp)

theorem ofRoot_updateById_iff {n : Nat} {f : Entry → Entry}
    {hid : ∀ e, (f e).id = e.id} {hkey : ∀ e, (f e).key = e.key}
    (h : OfRoot syncRootId P t) :
    OfRoot syncRootId P (RemoteEntryRepo.updateById t n f hid hkey) ↔
      ∀ e ∈ t.rows, e.syncRootId = syncRootId → e.id = n → P (f e) := by
  unfold RemoteEntryRepo.updateById
  rw [ofRoot_modify_iff h]
  simp only [beq_iff_eq]

theorem ofRoot_upsert_iff {k : String × String} {new : Nat → Entry}
    {f : Entry → Entry} {hnewPk : ∀ n, (new n).id = n}
    {hnewKey : ∀ n, (new n).key = k} {hpk : ∀ e, (f e).id = e.id}
    {hkey : ∀ e, (f e).key = e.key} (h : OfRoot syncRootId P t)
    (hnew : t.lookup k = none → P (new t.nextPk)) :
    OfRoot syncRootId P (t.upsert k new f hnewPk hnewKey hpk hkey) ↔
      ∀ e, t.lookup k = some e → e.syncRootId = syncRootId → P (f e) := by
  constructor
  · intro hafter e he hroot
    have hmem : f e ∈ (t.upsert k new f hnewPk hnewKey hpk hkey).rows := by
      rw [t.mem_upsert, KeyedTable.upserted_of_some he]
      exact Or.inl rfl
    exact hafter _ hmem ((congrArg Prod.fst (hkey e)).trans hroot)
  · intro hf e he hroot
    rcases (t.mem_upsert _ _ _ _ _ _ _ e).mp he with rfl | ⟨hold, _⟩
    · cases hl : t.lookup k with
      | none =>
          rw [KeyedTable.upserted_of_none hl]
          exact hnew hl
      | some g =>
          rw [KeyedTable.upserted_of_some hl] at hroot ⊢
          exact hf g hl ((congrArg Prod.fst (hkey g)).symm.trans hroot)
    · exact h e hold hroot

theorem ofRoot_upsert {k : String × String} {new : Nat → Entry}
    {f : Entry → Entry} {hnewPk : ∀ n, (new n).id = n}
    {hnewKey : ∀ n, (new n).key = k} {hpk : ∀ e, (f e).id = e.id}
    {hkey : ∀ e, (f e).key = e.key} (h : OfRoot syncRootId P t)
    (hnew : ∀ n, P (new n)) (hf : ∀ e, P e → P (f e)) :
    OfRoot syncRootId P (t.upsert k new f hnewPk hnewKey hpk hkey) := by
  refine (ofRoot_upsert_iff h (fun _ => hnew _)).mpr ?_
  intro e he hroot
  exact hf e (h e (KeyedTable.mem_of_lookup he) hroot)

/-- The row that an accepted listing writes: the row of the object, or else the
row at its path. -/
def TakesListing (t : EntryTable) (u : RemoteEntryUpsert) (e : Entry) : Prop :=
  RemoteEntryRepo.carries u e = true ∨
    t.rows.any (RemoteEntryRepo.carries u) = false ∧
      e.key = (u.syncRootId, u.localPath)

theorem ofRoot_listed_iff {t' : EntryTable} {u : RemoteEntryUpsert}
    (hu : RemoteEntryRepo.upsertRemoteEntry t u = some t')
    (h : OfRoot syncRootId P t) (hnew : ∀ n, P (RemoteEntryRepo.newRemote u n)) :
    OfRoot syncRootId P t' ↔
      ∀ e ∈ t.rows, e.syncRootId = syncRootId → TakesListing t u e →
        P (if RemoteEntryRepo.carries u e then RemoteEntryRepo.updateCarrier u e
          else RemoteEntryRepo.takeOver u e) := by
  unfold RemoteEntryRepo.upsertRemoteEntry at hu
  split at hu
  next hany =>
      constructor
      · intro hafter e he hroot htakes
        have hcarries : RemoteEntryRepo.carries u e = true := by
          rcases htakes with hcarries | ⟨hnone, -⟩
          · exact hcarries
          · rw [hany] at hnone
            cases hnone
        rw [if_pos hcarries]
        refine hafter _ ((KeyedTable.mem_update hu _).mpr ⟨e, he, ?_⟩) hroot
        rw [if_pos hcarries]
      · intro hf e he hroot
        obtain ⟨g, hg, rfl⟩ := (KeyedTable.mem_update hu e).mp he
        split at hroot
        next hcarries =>
            have hafter := hf g hg hroot (Or.inl hcarries)
            rw [if_pos hcarries] at hafter ⊢
            exact hafter
        next hother =>
            rw [if_neg hother]
            exact h g hg hroot
  next hnone =>
      have hfree := Bool.eq_false_iff.mpr hnone
      cases hu
      refine (ofRoot_upsert_iff h (fun _ => hnew _)).trans ?_
      constructor
      · intro hf e he hroot htakes
        have hother : RemoteEntryRepo.carries u e ≠ true :=
          fun hcarries => hnone (List.any_eq_true.mpr ⟨e, he, hcarries⟩)
        rw [if_neg hother]
        rcases htakes with hcarries | ⟨-, hkey⟩
        · exact absurd hcarries hother
        · exact hf e ((t.lookup_eq_some_iff _ e).mpr ⟨he, hkey⟩) hroot
      · intro hf e he hroot
        have hmem := KeyedTable.mem_of_lookup he
        have hafter := hf e hmem hroot
          (Or.inr ⟨hfree, KeyedTable.key_of_lookup he⟩)
        rwa [if_neg (fun hcarries =>
          hnone (List.any_eq_true.mpr ⟨e, hmem, hcarries⟩))] at hafter

end OfRoot

/-! ## Statements for other roots -/

/-- Both tables have the same rows of the root. -/
def SameRows (syncRootId : String) (t t' : EntryTable) : Prop :=
  ∀ e : Entry, e.syncRootId = syncRootId → (e ∈ t.rows ↔ e ∈ t'.rows)

/-- The id belongs to a row of another root, or to none any more. -/
def IdElsewhere (syncRootId : String) (t : EntryTable) (n : Nat) : Prop :=
  n < t.nextPk ∧ ∀ e ∈ t.rows, e.id = n → e.syncRootId ≠ syncRootId

/-- The statement is for another root. -/
def Elsewhere (syncRootId : String) (t : EntryTable) : Statement → Prop
  | .scanned id _ _ => id ≠ syncRootId
  | .listed u => u.syncRootId ≠ syncRootId
  | .rootDeleted id _ => id ≠ syncRootId
  | .uploaded n _ _ => IdElsewhere syncRootId t n
  | .folderCreated n _ _ => IdElsewhere syncRootId t n
  | .conflict n => IdElsewhere syncRootId t n
  | .downloaded n => IdElsewhere syncRootId t n
  | .downloadedAs n _ _ _ => IdElsewhere syncRootId t n

section Elsewhere

variable {syncRootId : String} {t t' : EntryTable}

theorem idElsewhere_of_mem {e : Entry} (he : e ∈ t.rows)
    (hroot : e.syncRootId ≠ syncRootId) : IdElsewhere syncRootId t e.id := by
  refine ⟨t.pkFresh e he, ?_⟩
  intro f hf hid
  rw [t.eq_of_pk_eq hf he hid]
  exact hroot

theorem IdElsewhere.of_keeps {n : Nat} (h : IdElsewhere syncRootId t n)
    (hkeeps : KeyedTable.Keeps Entry.syncRootId t t') :
    IdElsewhere syncRootId t' n := by
  refine ⟨lt_of_lt_of_le h.1 hkeeps.nextPk, ?_⟩
  intro e he hid
  rcases hkeeps.rows e he with hnew | ⟨f, hf, hfid, hfroot⟩
  · have hlt := h.1
    omega
  · rw [← hfroot]
    exact h.2 f hf (hfid.trans hid)

theorem Elsewhere.of_keeps {st : Statement} (h : Elsewhere syncRootId t st)
    (hkeeps : KeyedTable.Keeps Entry.syncRootId t t') :
    Elsewhere syncRootId t' st := by
  cases st with
  | scanned id jobId items => exact h
  | listed u => exact h
  | rootDeleted id now => exact h
  | uploaded n remoteId parent => exact IdElsewhere.of_keeps h hkeeps
  | folderCreated n remoteId parent => exact IdElsewhere.of_keeps h hkeeps
  | conflict n => exact IdElsewhere.of_keeps h hkeeps
  | downloaded n => exact IdElsewhere.of_keeps h hkeeps
  | downloadedAs n size mtime hash => exact IdElsewhere.of_keeps h hkeeps

/-- A statement that changes rows of other roots only, and keeps their root. -/
theorem sameRows_modify {p : Entry → Bool} {f : Entry → Entry}
    {hpk : ∀ e, (f e).id = e.id} {hkey : ∀ e, (f e).key = e.key}
    (hp : ∀ e ∈ t.rows, p e = true → e.syncRootId ≠ syncRootId) :
    SameRows syncRootId t (t.modify p f hpk hkey) := by
  have hroot : ∀ e, (f e).syncRootId = e.syncRootId := by
    intro e
    exact congrArg Prod.fst (hkey e)
  intro e he
  rw [t.mem_modify]
  constructor
  · intro hmem
    refine ⟨e, hmem, ?_⟩
    split
    next hpe => exact absurd he (hp e hmem hpe)
    next => rfl
  · rintro ⟨g, hg, rfl⟩
    split at he
    next hpg =>
        rw [hroot] at he
        exact absurd he (hp g hg hpg)
    next hpg =>
        rw [if_neg hpg]
        exact hg

theorem sameRows_updateById {n : Nat} {f : Entry → Entry}
    {hid : ∀ e, (f e).id = e.id} {hkey : ∀ e, (f e).key = e.key}
    (h : IdElsewhere syncRootId t n) :
    SameRows syncRootId t (RemoteEntryRepo.updateById t n f hid hkey) := by
  refine sameRows_modify ?_
  intro e he hn
  exact h.2 e he (by simpa using hn)

theorem sameRows_upsert {k : String × String} {new : Nat → Entry}
    {f : Entry → Entry} {hnewPk : ∀ n, (new n).id = n}
    {hnewKey : ∀ n, (new n).key = k} {hpk : ∀ e, (f e).id = e.id}
    {hkey : ∀ e, (f e).key = e.key} (h : k.1 ≠ syncRootId) :
    SameRows syncRootId t (t.upsert k new f hnewPk hnewKey hpk hkey) := by
  intro e he
  rw [t.mem_upsert]
  constructor
  · intro hmem
    refine Or.inr ⟨hmem, ?_⟩
    intro hk
    exact h ((congrArg Prod.fst hk).symm.trans he)
  · rintro (hup | ⟨hmem, _⟩)
    · have hk := t.key_upserted k new f hnewKey hkey
      rw [← hup] at hk
      exact absurd ((congrArg Prod.fst hk).symm.trans he) h
    · exact hmem

theorem sameRows_upsertRemoteEntry {u : RemoteEntryUpsert}
    (hu : RemoteEntryRepo.upsertRemoteEntry t u = some t')
    (h : u.syncRootId ≠ syncRootId) : SameRows syncRootId t t' := by
  intro e he
  have hc : ∀ f : Entry, f.syncRootId = syncRootId →
      RemoteEntryRepo.carries u f = false := by
    intro f hf
    cases hcarries : RemoteEntryRepo.carries u f with
    | false => rfl
    | true =>
        have hroot := ((RemoteEntryRepo.carries_iff u f).mp hcarries).1
        exact absurd (hroot.symm.trans hf) h
  constructor
  · intro hmem
    refine RemoteEntryRepo.upsertRemoteEntry_other hu hmem (hc e he) ?_
    intro hk
    exact h ((congrArg Prod.fst hk).symm.trans he)
  · intro hmem
    rcases RemoteEntryRepo.mem_upsertRemoteEntry hu e hmem with
      ⟨f, _, hcf, rfl⟩ | ⟨f, _, hk, rfl⟩ | ⟨rfl, _⟩ | ⟨hold, _⟩
    · exact absurd hcf (by rw [hc f he]; exact Bool.false_ne_true)
    · exact absurd ((congrArg Prod.fst hk).symm.trans he) h
    · exact absurd he h
    · exact hold

/-- A statement for another root leaves the rows of the root alone. -/
theorem sameRows_of_elsewhere {st : Statement} (hst : Executes t st t')
    (h : Elsewhere syncRootId t st) : SameRows syncRootId t t' := by
  cases hst with
  | scanned hstep =>
      cases hstep with
      | directory rel hitem => exact sameRows_upsert h
      | file _ rel probe hitem hstored =>
          obtain ⟨_, _, _, _, _, _, _, _, _, _, rfl⟩ :=
            RootScanner.handleFileEntry_stored hstored
          exact sameRows_upsert h
      | mark p hroot =>
          refine sameRows_modify ?_
          intro e _ hp
          rw [hroot e hp]
          exact h
  | listed hu => exact sameRows_upsertRemoteEntry hu h
  | rootDeleted id now =>
      unfold RemoteEntryRepo.markRootRemoteDeleted
      refine sameRows_modify ?_
      intro e _ hid
      have heq : e.syncRootId = id := by simpa using hid
      rw [heq]
      exact h
  | uploaded n remoteId parent => exact sameRows_updateById h
  | folderCreated n remoteId parent => exact sameRows_updateById h
  | conflict n => exact sameRows_updateById h
  | downloaded n => exact sameRows_updateById h
  | downloadedAs n size mtime hash => exact sameRows_updateById h

/-- Statements for other roots leave the rows of the root alone. -/
theorem Runs.sameRows {issued : Statement → Prop} (h : Runs issued t t')
    (hst : ∀ st, issued st → Elsewhere syncRootId t st) :
    SameRows syncRootId t t' := by
  induction h with
  | refl => exact fun _ _ => Iff.rfl
  | tail hrun hlast ih =>
      obtain ⟨st, hexec, hissued⟩ := hlast
      have hkeeps := Runs.keeps_root hrun
      have hstep := sameRows_of_elsewhere hexec
        (Elsewhere.of_keeps (hst st hissued) hkeeps)
      intro e he
      exact (ih e he).trans (hstep e he)

end Elsewhere

end Statement

/-! ## The statements of an operation -/

namespace SyncSystem

/-- The statements that an operation can issue. -/
inductive Issues (s : SyncSystem) : Operation → Statement → Prop where
  | scanRoot {id : String} {isDirectory : Bool} {listing : Option DirStream}
      {jobId : Nat} {items : List DirItem} (root : SyncRoot)
      (hroot : SyncRepo.findSyncRootById s.roots id = some root)
      (henabled : root.enabled = true) :
      Issues s (.scanRoot id isDirectory listing) (.scanned id jobId items)
  | scanPath {cwd : FsPath} {id rel : String} {found : PathState}
      {jobId : Nat} {items : List DirItem} :
      Issues s (.scanPath cwd id rel found) (.scanned id jobId items)
  | folderJob {env : QueueEnv} {remoteId : String} {parent : Option String}
      (e : Entry) (hmem : e ∈ s.entries.rows)
      (hpending : QueueRepo.Pending s.queue .createFolder e.id)
      (hdir : e.isDirectory = true)
      (hcreated : (e.syncRootId, remoteId) ∈ s.created (.folderJob env)) :
      Issues s (.folderJob env) (.folderCreated e.id remoteId parent)
  | uploadBatch {env : QueueEnv} {remoteId : String} {parent : Option String}
      (e : Entry) (hmem : e ∈ s.entries.rows)
      (hpending : QueueRepo.Pending s.queue .uploadFile e.id) (root : SyncRoot)
      (hroot : SyncRepo.findSyncRootById s.roots e.syncRootId = some root)
      (hdec : decideEntry root.mode e = .upload)
      (hcreated : (e.syncRootId, remoteId) ∈ s.created (.uploadBatch env)) :
      Issues s (.uploadBatch env) (.uploaded e.id remoteId parent)
  | listed {env : RemoteEnv} {root : SyncRoot} (u : RemoteEntryUpsert)
      (hissued : RemoteScanner.Issued root.id u) (bound : SyncRoot)
      (hbound : SyncRepo.findSyncRootById s.roots root.id = some bound)
      (hmem : u ∈ (RemoteScanner.scanRoot env.getJson env.vault bound env.fuel
        s.entries).upserts) :
      Issues s (.remoteTurn env root) (.listed u)
  | rootDeleted {env : RemoteEnv} {root : SyncRoot}
      (hfound : RemoteSyncService.FoundDeleted env s.roots root.id) :
      Issues s (.remoteTurn env root) (.rootDeleted root.id env.now)
  | conflict {env : ReconcileEnv} {root : SyncRoot} (e : Entry)
      (hmem : e ∈ s.entries.rows) (hroot : e.syncRootId = root.id)
      (hdec : decideEntry root.mode e = .conflict) :
      Issues s (.reconcileRoot env root) (.conflict e.id)
  | downloaded {env : ReconcileEnv} {root : SyncRoot} (e : Entry)
      (hmem : e ∈ s.entries.rows) (hroot : e.syncRootId = root.id)
      (hdec : decideEntry root.mode e = .download) :
      Issues s (.reconcileRoot env root) (.downloaded e.id)
  | downloadedAs {env : ReconcileEnv} {root : SyncRoot} (e : Entry)
      (hmem : e ∈ s.entries.rows) (hroot : e.syncRootId = root.id)
      (hdec : decideEntry root.mode e = .download) (size mtime : Int)
      (contentHash : String) :
      Issues s (.reconcileRoot env root)
        (.downloadedAs e.id size mtime contentHash)

section Statements

variable (s : SyncSystem)

theorem scanRoot_statements (id : String) (isDirectory : Bool)
    (listing : Option DirStream) :
    Statement.Runs (s.Issues (.scanRoot id isDirectory listing)) s.entries
      (s.perform (.scanRoot id isDirectory listing)).entries := by
  show Statement.Runs _ _
    (PollingDaemon.scanRoot id isDirectory listing s.daemon).store.entries
  unfold PollingDaemon.scanRoot
  split
  next => exact .refl
  next root hroot =>
      have hid : root.id = id := SyncRepo.id_of_find hroot
      cases henabled : root.enabled with
      | false =>
          simp only [PollingDaemon.withScanState, RootScanner.scanRoot,
            henabled, Bool.not_false, Bool.true_or, if_true]
          exact .refl
      | true =>
          obtain ⟨jobId, hsteps⟩ := RootScanner.scanRoot_steps root isDirectory
            listing (PollingDaemon.scanState s.daemon id)
          rw [hid] at hsteps
          exact Statement.Runs.of_localSteps hsteps (.scanRoot root hroot henabled)

theorem scanPath_statements (cwd : FsPath) (id rel : String)
    (found : PathState) :
    Statement.Runs (s.Issues (.scanPath cwd id rel found)) s.entries
      (s.perform (.scanPath cwd id rel found)).entries := by
  show Statement.Runs _ _
    (PollingDaemon.scanPath cwd id rel found s.daemon).1.store.entries
  unfold PollingDaemon.scanPath
  split
  next => exact .refl
  next root hroot =>
      have hid : root.id = id := SyncRepo.id_of_find hroot
      simp only [PollingDaemon.withScanState]
      rcases RootScanner.scanPath_steps cwd root rel found
          (PollingDaemon.scanState s.daemon id) with hsame | ⟨_, _, hsteps⟩
      · rw [hsame]
        exact .refl
      · rw [hid] at hsteps
        exact Statement.Runs.of_localSteps hsteps .scanPath

theorem folderJob_statements (env : QueueEnv) :
    Statement.Runs (s.Issues (.folderJob env)) s.entries
      (s.perform (.folderJob env)).entries := by
  unfold perform
  dsimp only
  split
  next => exact .refl
  next job queue hclaim =>
      rcases QueueService.runFolderJob_cases env job
          { s.store with queue := queue } with hfailed | hcreated
      · rw [hfailed]
        exact .refl
      · obtain ⟨id, parent, row, hrow, hdir, hanswer, hrun⟩ := hcreated
        rw [hrun]
        obtain ⟨hmem, hrowId⟩ := (KeyedTable.lookupPk_eq_some_iff _ _ _).mp hrow
        have hpending := (QueueRepo.pending_of_claim hclaim).1
        rw [← hrowId] at hpending ⊢
        have hnew : (row.syncRootId, id) ∈ s.created (.folderJob env) := by
          unfold created
          simp only [hclaim]
          rw [show FolderCreateWorker.created env job s.store =
            some (row.syncRootId, id) from hanswer]
          simp
        exact Statement.Runs.single (.folderCreated _ _ _ _)
          (.folderJob row hmem hpending hdir hnew)

theorem reconcileRoot_statements (env : ReconcileEnv) (root : SyncRoot) :
    Statement.Runs (s.Issues (.reconcileRoot env root)) s.entries
      (s.perform (.reconcileRoot env root)).entries := by
  show Statement.Runs _ _ (SyncReconciler.reconcileRoot env root
    { entries := s.entries, disk := s.disk }).world.entries
  unfold SyncReconciler.reconcileRoot
  refine SyncReconciler.reconcileRows_induction
    (P := fun w => Statement.Runs _ s.entries w.entries) _ _ .refl ?_
  intro e he w hw
  obtain ⟨hmem, hroot⟩ := (EntryRepo.mem_listEntries _ _ _).mp he
  have hwritten := SyncReconciler.reconcileEntry_written env root e w
  generalize (SyncReconciler.reconcileEntry env root e w).world.entries = t'
    at hwritten ⊢
  cases hwritten with
  | untouched => exact hw
  | conflict hdec =>
      exact hw.trans (Statement.Runs.single (.conflict _ _)
        (.conflict e hmem hroot hdec))
  | downloaded hdec =>
      exact hw.trans (Statement.Runs.single (.downloaded _ _)
        (.downloaded e hmem hroot hdec))
  | downloadedAs hdec size mtime contentHash =>
      exact hw.trans (Statement.Runs.single (.downloadedAs _ _ _ _ _)
        (.downloadedAs e hmem hroot hdec size mtime contentHash))

theorem remoteTurn_statements (env : RemoteEnv) (root : SyncRoot) :
    Statement.Runs (s.Issues (.remoteTurn env root)) s.entries
      (s.perform (.remoteTurn env root)).entries := by
  obtain ⟨us, entries, happly, hissued, hfrom, hturn⟩ :=
    RemoteSyncService.scanned_upserts env root s.remoteState
  have hlisted : Statement.Runs (s.Issues (.remoteTurn env root)) s.entries
      entries := by
    refine Statement.Runs.of_applyAll happly ?_
    intro u hu
    obtain ⟨bound, hbound, hus⟩ := hfrom (List.ne_nil_of_mem hu)
    rw [hus] at hu
    exact .listed u (hissued u (by rw [hus]; exact hu)) bound hbound hu
  show Statement.Runs _ _
    (RemoteSyncService.scanTurn env root s.remoteState).state.entries
  generalize RemoteSyncService.scanTurn env root s.remoteState = turn at hturn ⊢
  cases hturn with
  | scanned returned => exact hlisted
  | deleted hfound =>
      refine hlisted.trans ?_
      unfold RemoteSyncService.deleteRoot
      dsimp only
      split
      · exact Statement.Runs.single (.rootDeleted _ _ _) (.rootDeleted hfound)
      · exact Statement.Runs.single (.rootDeleted _ _ _) (.rootDeleted hfound)

/-- The rows that a batch marks are those of prepared items. -/
theorem markUploaded_statements {issued : Statement → Prop}
    {response : Nat → Option String} {items : List (TransferJob × Entry)}
    (h : ∀ item ∈ items, ∀ fileId parent, response item.1.id = some fileId →
      issued (.uploaded item.1.entryId fileId parent)) (t : EntryTable) :
    Statement.Runs issued t
      (UploadJobRunner.markUploaded response items t) := by
  unfold UploadJobRunner.markUploaded
  induction items generalizing t with
  | nil => exact .refl
  | cons item items ih =>
      rw [List.foldl_cons]
      have hrest := fun t => ih (fun i hi => h i (List.mem_cons_of_mem _ hi)) t
      cases hresponse : response item.1.id with
      | none => exact hrest t
      | some fileId =>
          refine Relation.ReflTransGen.trans ?_ (hrest _)
          exact Statement.Runs.single (.uploaded _ _ _ _)
            (h item (by simp) fileId _ hresponse)

/-- An answer to an item of a batch is recorded as created. -/
theorem mem_created_upload {env : QueueEnv} {response : Nat → Option String}
    {item : TransferJob × Entry} {fileId : String}
    (hresponse : env.uploadFilesBatch (startedUploads env s.disk s.store) =
      some response)
    (hitem : item ∈ startedUploads env s.disk s.store)
    (hid : response item.1.id = some fileId) :
    (item.2.syncRootId, fileId) ∈ s.created (.uploadBatch env) := by
  unfold created
  simp only [hresponse]
  refine List.mem_filterMap.mpr ⟨item, hitem, ?_⟩
  rw [hid]
  rfl

theorem uploadBatch_statements (env : QueueEnv) :
    Statement.Runs (s.Issues (.uploadBatch env)) s.entries
      (s.perform (.uploadBatch env)).entries := by
  show Statement.Runs _ _ (UploadJobRunner.runBatch env s.disk
    (QueueService.claimUploads kUploadBatchSize s.queue).1
    { s.store with
      queue := (QueueService.claimUploads kUploadBatchSize s.queue).2 }).1.entries
  have hpending := (QueueService.claimUploads_pending kUploadBatchSize
    s.queue).1
  unfold UploadJobRunner.runBatch
  simp only
  split
  next => exact .refl
  next =>
      split
      next => exact .refl
      next response hresponse =>
          refine markUploaded_statements ?_ s.entries
          intro item hitem fileId parent hid
          have hcreated := mem_created_upload s hresponse hitem hid
          have hmem := QueueService.mem_itemsOf.mp hitem
          obtain ⟨job, hjob, hprepared⟩ := List.mem_map.mp hmem
          have hjobEq : job = item.1 := congrArg Prod.fst hprepared
          have hitemEq := congrArg Prod.snd hprepared
          rw [hjobEq] at hjob hitemEq
          obtain ⟨row, root, _, _, hrow, hroot, hdec, _, _, heq⟩ :=
            QueueService.prepareUploadItem_item hitemEq
          obtain ⟨hmemRow, hrowId⟩ :=
            (KeyedTable.lookupPk_eq_some_iff _ _ _).mp hrow
          have hrowPending := hpending _ hjob
          rw [heq] at hcreated
          rw [← hrowId] at hrowPending ⊢
          exact .uploadBatch row hmemRow hrowPending root hroot hdec hcreated

theorem buildPage_entries (env : QueueEnv) (id : String)
    (after : Option String) (complete : Bool) :
    (s.perform (.buildPage env id after complete)).entries = s.entries := by
  unfold perform
  dsimp only
  split
  next => rfl
  next store page hbuild =>
      obtain ⟨s₁, root, hensure, _, rfl, _⟩ := QueueService.buildPage_cases hbuild
      show (QueueService.enqueuePage root _ s₁).entries = _
      rw [QueueService.entries_enqueuePage]
      exact (QueueService.ensureRootFolder_frame hensure).1

theorem enqueueEntry_entries (id rel : String) :
    (s.perform (.enqueueEntry id rel)).entries = s.entries := by
  show (QueueService.enqueueEntryAt id rel s.store).entries = _
  unfold QueueService.enqueueEntryAt
  split
  next => rfl
  next =>
      split
      next => rfl
      next => exact QueueService.entries_enqueueEntry

/-- The rows after an operation are those before it with statements executed
that the operation can issue. -/
theorem perform_statements (op : Operation) :
    Statement.Runs (s.Issues op) s.entries (s.perform op).entries := by
  cases op with
  | readRoots => exact .refl
  | restart => exact .refl
  | editDisk disk => exact .refl
  | scanRoot id isDirectory listing => exact scanRoot_statements s _ _ _
  | scanPath cwd id rel found => exact scanPath_statements s _ _ _ _
  | enqueueEntry id rel =>
      rw [enqueueEntry_entries]
  | buildPage env id after complete =>
      rw [buildPage_entries]
  | folderJob env => exact folderJob_statements s env
  | uploadBatch env => exact uploadBatch_statements s env
  | remoteTurn env root => exact remoteTurn_statements s env root
  | reconcileRoot env root => exact reconcileRoot_statements s env root
  | addSyncRoot env localPath folderId enabled mode =>
      have hsame : (s.perform (.addSyncRoot env localPath folderId enabled
          mode)).entries = s.entries := by
        unfold perform
        dsimp only
        split <;> rfl
      rw [hsame]
  | removeSyncRoot id =>
      have hsame : (s.perform (.removeSyncRoot id)).entries = s.entries := by
        unfold perform
        dsimp only
        split <;> rfl
      rw [hsame]

end Statements

end SyncSystem

end ArkiveSync
