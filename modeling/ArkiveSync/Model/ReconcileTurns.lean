import ArkiveSync.Model.SyncReconciler

/-!
# The turns of a whole call

What a call of `reconcileRoot` does to a location or to a row is what the turn
of one row does to it, with the turns before and after that leave it alone.
The predicates here say, from a row alone, what its turn is after: a file to
fetch, a tree or a file to remove.

## Main results

* `reconcileRoot_split`: a call that returns, cut at the turn of a row.
* `row_before` and `row_after`: only its own turn writes a row.
* `absent_turn` and `present_turn`: which turns put something at a location
  and which take something away.
-/

namespace ArkiveSync

/-- The effect creates or overwrites a file. -/
def FsEffect.writes : FsEffect → Bool
  | .remove _ => false
  | .removeAll _ => false
  | .writeTemp _ => true
  | .replace _ _ => true

end ArkiveSync

namespace ArkiveSync.SyncReconciler

open Library

/-- The row makes a call fetch a file. -/
structure Fetching (env : ReconcileEnv) (root : SyncRoot) (e : Entry) :
    Prop where
  placed : (absolutePath env root e).isSome = true
  service : env.downloadFile.isSome = true
  isFile : e.isDirectory = false
  fileId : e.remoteFileId.isSome = true
  decided : decideEntry root.mode e = .download ∨
    (decideEntry root.mode e = .conflict ∧ e.remoteDeletedAt = none)

/-- The download of the row can be recorded in the row. -/
def Recordable (env : ReconcileEnv) (e : Entry) : Prop :=
  env.remoteEntryRepo = true ∧
    (env.hashFile.isSome = true → ∀ download fileId content,
      env.downloadFile = some download → e.remoteFileId = some fileId →
        download e.id fileId = .delivered content →
          content.length ≤ int64Max)

/-- The row's download makes something at `l`: the file itself, or a directory
on the way to it. -/
def Fills (env : ReconcileEnv) (root : SyncRoot) (e : Entry) (l : Loc) : Prop :=
  Fetching env root e ∧ ∃ path, absolutePath env root e = some path ∧
    (l <+: path.loc ∨ l <+: path.parentPath.loc)

/-- The row makes a call remove `l` with everything below. -/
def RemovesTree (env : ReconcileEnv) (root : SyncRoot) (e : Entry) (l : Loc) :
    Prop :=
  decideEntry root.mode e = .deleteLocal ∧ e.isDirectory = true ∧
    (absolutePath env root e).map FsPath.loc = some l

/-- The row makes a call remove `l`, if nothing is below. -/
def RemovesFile (env : ReconcileEnv) (root : SyncRoot) (e : Entry) (l : Loc) :
    Prop :=
  decideEntry root.mode e = .deleteLocal ∧ e.isDirectory = false ∧
    (absolutePath env root e).map FsPath.loc = some l

/-- The row can take away what is at `l`. -/
def Sweeps (env : ReconcileEnv) (root : SyncRoot) (e : Entry) (l : Loc) :
    Prop :=
  (∃ k, RemovesTree env root e k ∧ k <+: l) ∨ RemovesFile env root e l

/-- The rows of a call. -/
abbrev rowsOf (root : SyncRoot) (w : World) : List Entry :=
  EntryRepo.listEntriesBySyncRootId w.entries root.id

theorem reconcileRoot_eq (env : ReconcileEnv) (root : SyncRoot) (w : World) :
    reconcileRoot env root w = reconcileRows env root (rowsOf root w) w := rfl

/-- Every file the call goes to fetch arrives. -/
def DownloadsSucceed (env : ReconcileEnv) (root : SyncRoot) (w : World) :
    Prop :=
  ∀ turn ∈ turns env root (rowsOf root w) w, Fetching env root turn.1 →
    ∃ fileId target, .replace fileId target ∈ turn.2

/-! ## Calls that place no row -/

section Placing

variable {env : ReconcileEnv} {root : SyncRoot}

theorem placed_iff (e : Entry) :
    (absolutePath env root e).isSome =
      (normalizeFsPath env.cwd root.localPath).isSome := by
  simp [absolutePath]

/-- A turn that leaves by an exception was looking for the name of a conflict
copy. -/
theorem fetching_of_threw {e : Entry} {w : World}
    (hplaced : (absolutePath env root e).isSome = true)
    (h : (reconcileEntry env root e w).returned = false) :
    Fetching env root e ∧ (reconcileEntry env root e w).effects = [] := by
  obtain ⟨path, hpath⟩ := Option.isSome_iff_exists.mp hplaced
  unfold reconcileEntry at h ⊢
  rw [hpath] at h ⊢
  simp only at h ⊢
  split at h
  next => cases h
  next hdec =>
      unfold applyConflict at h ⊢
      simp only at h ⊢
      split at h
      next => cases h
      next hdir =>
          rw [if_neg hdir]
          split at h
          next => cases h
          next hlive =>
              rw [if_neg hlive]
              split at h
              next download fileId hservice hfile =>
                  split at h
                  next =>
                      refine ⟨?_, rfl⟩
                      exact
                        { placed := hplaced
                          service := by rw [hservice]; rfl
                          isFile := by simpa using hdir
                          fileId := by rw [hfile]; rfl
                          decided := Or.inr ⟨hdec, by simpa using hlive⟩ }
                  next => cases h
              next => cases h
  next hdec =>
      unfold applyDownload at h
      split at h
      next => cases h
      next =>
          split at h
          next => cases h
          next => cases h
  next => cases h

/-- A call whose downloads succeed works through all rows. -/
theorem returned_of_succeed
    (hplaced : (normalizeFsPath env.cwd root.localPath).isSome = true)
    {es : List Entry} {w : World}
    (h : ∀ turn ∈ turns env root es w, Fetching env root turn.1 →
      ∃ fileId target, .replace fileId target ∈ turn.2) :
    (reconcileRows env root es w).returned = true := by
  induction es generalizing w with
  | nil => rfl
  | cons e es ih =>
      simp only [turns] at h
      have hnow : (reconcileEntry env root e w).returned = true := by
        by_contra hthrew
        obtain ⟨hfetching, heffects⟩ := fetching_of_threw
          (by rw [placed_iff, hplaced]) (Bool.not_eq_true _ ▸ hthrew)
        obtain ⟨fileId, target, hmem⟩ := h _ List.mem_cons_self hfetching
        rw [heffects] at hmem
        cases hmem
      rw [if_pos hnow] at h
      simp only [reconcileRows]
      rw [if_pos hnow]
      exact ih (fun turn hturn => h turn (List.mem_cons_of_mem _ hturn))

end Placing

/-! ## A call cut at one row -/

section Cut

variable {env : ReconcileEnv} {root : SyncRoot} {w : World}

/-- The turns of a list of rows that returns. -/
theorem turns_append {es fs : List Entry} {v : World}
    (h : (reconcileRows env root es v).returned = true) :
    turns env root (es ++ fs) v =
      turns env root es v ++
        turns env root fs (reconcileRows env root es v).world := by
  induction es generalizing v with
  | nil => rfl
  | cons e es ih =>
      simp only [List.cons_append, turns, reconcileRows] at h ⊢
      by_cases hnow : (reconcileEntry env root e v).returned = true
      · rw [if_pos hnow] at h ⊢
        rw [if_pos hnow, if_pos hnow, ih h]
      · rw [if_neg hnow] at h
        exact absurd h hnow

/-- After a turn that returned come the other rows. -/
theorem reconcileRows_cons {e : Entry} {es : List Entry} {v : World}
    (h : (reconcileEntry env root e v).returned = true) :
    reconcileRows env root (e :: es) v =
      { reconcileRows env root es (reconcileEntry env root e v).world with
        effects := (reconcileEntry env root e v).effects ++
          (reconcileRows env root es
            (reconcileEntry env root e v).world).effects } := by
  rw [reconcileRows]
  simp only
  rw [if_pos h]

/-- A list of rows that returns does so behind each of its parts. -/
theorem returned_behind {es fs : List Entry} {v : World}
    (h : (reconcileRows env root (es ++ fs) v).returned = true) :
    (reconcileRows env root fs
      (reconcileRows env root es v).world).returned = true := by
  induction es generalizing v with
  | nil => exact h
  | cons e es ih =>
      simp only [List.cons_append, reconcileRows] at h ⊢
      by_cases hnow : (reconcileEntry env root e v).returned = true
      · rw [if_pos hnow] at h ⊢
        exact ih h
      · rw [if_neg hnow] at h
        exact absurd h hnow

/-- The call around the turn of the row `e`: the rows before and after it, the
world the turn finds, and the world it leaves. -/
structure Cut (env : ReconcileEnv) (root : SyncRoot) (w : World) (e : Entry)
    where
  pre : List Entry
  post : List Entry
  rows : rowsOf root w = pre ++ e :: post
  before : World
  found : before = (reconcileRows env root pre w).world
  after : World
  left : after = (reconcileEntry env root e before).world
  rest : (reconcileRoot env root w).world =
    (reconcileRows env root post after).world
  effects : (reconcileRoot env root w).effects =
    (reconcileRows env root pre w).effects ++
      ((reconcileEntry env root e before).effects ++
        (reconcileRows env root post after).effects)
  turn : (e, (reconcileEntry env root e before).effects) ∈
    turns env root (rowsOf root w) w

/-- A call that returns can be cut at any of its rows. -/
theorem exists_cut (hret : (reconcileRoot env root w).returned = true)
    {e : Entry} (he : e ∈ rowsOf root w) : Nonempty (Cut env root w e) := by
  obtain ⟨pre, post, hrows⟩ := List.append_of_mem he
  rw [reconcileRoot_eq, hrows] at hret
  have hpre := returned_of_append pre (e :: post) w hret
  have hworld := reconcileRows_append pre (e :: post) w hpre
  have heffects := effects_eq_turns env root (pre ++ e :: post) w
  rw [turns_append hpre, List.flatMap_append, ← effects_eq_turns,
    ← effects_eq_turns] at heffects
  have hnow : (reconcileEntry env root e
      (reconcileRows env root pre w).world).returned = true := by
    have htail := returned_behind hret
    simp only [reconcileRows] at htail
    split at htail
    next hnow => exact hnow
    next hnow => exact htail
  rw [reconcileRows_cons hnow] at hworld heffects
  refine ⟨⟨pre, post, hrows, _, rfl, _, rfl, ?_, ?_, ?_⟩⟩
  · rw [reconcileRoot_eq, hrows]
    exact hworld
  · rw [reconcileRoot_eq, hrows]
    exact heffects
  · rw [hrows, turns_append hpre]
    exact List.mem_append_right _ List.mem_cons_self

namespace Cut

variable {e f : Entry} (c : Cut env root w e)
include c

theorem mem_pre (hf : f ∈ c.pre) : f ∈ rowsOf root w := by
  rw [c.rows]
  exact List.mem_append_left _ hf

theorem mem_post (hf : f ∈ c.post) : f ∈ rowsOf root w := by
  rw [c.rows]
  exact List.mem_append_right _ (List.mem_cons_of_mem _ hf)

/-- The rows before it come earlier in path order. -/
theorem pre_lt (hf : f ∈ c.pre) : f.relativePath < e.relativePath := by
  have hsorted := EntryRepo.strictlySorted_listEntries w.entries root.id
  rw [show EntryRepo.listEntriesBySyncRootId w.entries root.id =
    c.pre ++ e :: c.post from c.rows] at hsorted
  exact (List.pairwise_append.mp hsorted).2.2 f hf e List.mem_cons_self

/-- The rows after it come later in path order. -/
theorem lt_post (hf : f ∈ c.post) : e.relativePath < f.relativePath := by
  have hsorted := EntryRepo.strictlySorted_listEntries w.entries root.id
  rw [show EntryRepo.listEntriesBySyncRootId w.entries root.id =
    c.pre ++ e :: c.post from c.rows] at hsorted
  have htail := (List.pairwise_append.mp hsorted).2.1
  exact (List.pairwise_cons.mp htail).1 f hf

theorem mem : e ∈ rowsOf root w := by
  rw [c.rows]
  simp

/-- No row but `e` has its id. -/
theorem id_ne (hf : f ∈ rowsOf root w) (hne : f.relativePath ≠ e.relativePath) :
    f.id ≠ e.id := by
  intro hid
  have hfrow := ((EntryRepo.mem_listEntries _ _ _).mp hf).1
  have herow := ((EntryRepo.mem_listEntries _ _ _).mp c.mem).1
  exact hne (by rw [w.entries.eq_of_pk_eq hfrow herow hid])

end Cut

/-- Turns of other rows leave a row alone. -/
theorem row_kept {es : List Entry} {v : World} {r p : String} {g : Entry}
    (hes : ∀ f ∈ es, g.id ≠ f.id)
    (hg : EntryRepo.findEntryByPath v.entries r p = some g) :
    EntryRepo.findEntryByPath (reconcileRows env root es v).world.entries r p =
      some g := by
  refine reconcileRows_induction (P := fun x =>
    EntryRepo.findEntryByPath x.entries r p = some g) es v hg ?_
  intro f hf x hx
  exact (reconcileEntry_written env root f x).other hx (hes f hf)

/-- The turn of a row finds the row as the call has read it. -/
theorem row_before {e : Entry} (c : Cut env root w e) :
    EntryRepo.findEntryByPath c.before.entries root.id e.relativePath =
      some e := by
  rw [c.found]
  apply row_kept
  · intro f hf
    exact (c.id_ne (c.mem_pre hf) (ne_of_lt (c.pre_lt hf))).symm
  · have hrow := (EntryRepo.mem_listEntries _ _ _).mp c.mem
    exact (EntryRepo.findEntryByPath_eq_some_iff _ _ _ _).mpr
      ⟨hrow.1, hrow.2, rfl⟩

/-- What the turn of a row makes of the row is what the call makes of it. -/
theorem row_after {e g : Entry} (c : Cut env root w e) (hid : g.id = e.id)
    (hg : EntryRepo.findEntryByPath c.after.entries root.id e.relativePath =
      some g) :
    EntryRepo.findEntryByPath (reconcileRoot env root w).world.entries root.id
      e.relativePath = some g := by
  rw [c.rest]
  apply row_kept _ hg
  intro f hf
  rw [hid]
  exact (c.id_ne (c.mem_post hf) (ne_of_gt (c.lt_post hf))).symm

/-- A call neither adds rows nor moves them. -/
theorem path_of_row_after {g : Entry}
    (hg : g ∈ rowsOf root (reconcileRoot env root w).world) :
    ∃ f ∈ rowsOf root w, f.relativePath = g.relativePath := by
  have hkeys : ∀ h ∈ (reconcileRoot env root w).world.entries.rows,
      ∃ f ∈ w.entries.rows, f.key = h.key := by
    refine reconcileRows_induction (P := fun v => ∀ h ∈ v.entries.rows,
      ∃ f ∈ w.entries.rows, f.key = h.key) _ w (fun h hh => ⟨h, hh, rfl⟩) ?_
    intro e _ v hv h hh
    have hback : ∃ k ∈ v.entries.rows, k.key = h.key := by
      have hwritten := reconcileEntry_written env root e v
      generalize (reconcileEntry env root e v).world.entries = t at hwritten hh
      cases hwritten with
      | untouched => exact ⟨h, hh, rfl⟩
      | conflict =>
          obtain ⟨k, hk, rfl⟩ := (RemoteEntryRepo.mem_updateById h).mp hh
          exact ⟨k, hk, by split <;> rfl⟩
      | downloaded =>
          obtain ⟨k, hk, rfl⟩ := (RemoteEntryRepo.mem_updateById h).mp hh
          exact ⟨k, hk, by split <;> rfl⟩
      | downloadedAs =>
          obtain ⟨k, hk, rfl⟩ := (RemoteEntryRepo.mem_updateById h).mp hh
          exact ⟨k, hk, by split <;> rfl⟩
    obtain ⟨k, hk, hkey⟩ := hback
    obtain ⟨f, hf, hfkey⟩ := hv k hk
    exact ⟨f, hf, hfkey.trans hkey⟩
  obtain ⟨hrow, hroot⟩ := (EntryRepo.mem_listEntries _ _ _).mp hg
  obtain ⟨f, hf, hkey⟩ := hkeys g hrow
  obtain ⟨hfroot, hfpath⟩ := Prod.mk.injEq _ _ _ _ ▸ hkey
  exact ⟨f, (EntryRepo.mem_listEntries _ _ _).mpr ⟨hf, hfroot.trans hroot⟩,
    hfpath⟩

end Cut

/-! ## What a turn does -/

section Turns

variable {env : ReconcileEnv} {root : SyncRoot} {e : Entry} {v : World}

/-- A conflict without a copy to fetch is marked. -/
theorem turn_of_conflict (hplaced : (absolutePath env root e).isSome = true)
    (hdec : decideEntry root.mode e = .conflict)
    (hnot : ¬Fetching env root e) :
    reconcileEntry env root e v =
      { world :=
          { v with
            entries :=
              if env.conflictRepo then
                ConflictRepo.markConflict v.entries e.id "local_remote_modified"
              else v.entries }
        effects := []
        returned := true } := by
  obtain ⟨path, hpath⟩ := Option.isSome_iff_exists.mp hplaced
  unfold reconcileEntry
  rw [hpath]
  simp only [hdec]
  unfold applyConflict
  simp only
  split
  next => rfl
  next hdir =>
      split
      next => rfl
      next hlive =>
          split
          next download fileId hservice hfile =>
              apply absurd _ hnot
              exact
                { placed := hplaced
                  service := by rw [hservice]; rfl
                  isFile := by simpa using hdir
                  fileId := by rw [hfile]; rfl
                  decided := Or.inr ⟨hdec, by simpa using hlive⟩ }
          next => rfl

/-- The turn of a row that has nothing to fetch, mark or remove. -/
theorem turn_of_rest (hplaced : (absolutePath env root e).isSome = true)
    (hnot : ¬Fetching env root e)
    (hconflict : decideEntry root.mode e ≠ .conflict)
    (hdelete : decideEntry root.mode e ≠ .deleteLocal) :
    reconcileEntry env root e v =
      { world := v, effects := [], returned := true } := by
  obtain ⟨path, hpath⟩ := Option.isSome_iff_exists.mp hplaced
  unfold reconcileEntry
  rw [hpath]
  simp only
  split
  next hdec => exact absurd hdec hdelete
  next hdec => exact absurd hdec hconflict
  next hdec =>
      unfold applyDownload
      split
      next => rfl
      next hdir =>
          split
          next download fileId hservice hfile =>
              apply absurd _ hnot
              exact
                { placed := hplaced
                  service := by rw [hservice]; rfl
                  isFile := by simpa using hdir
                  fileId := by rw [hfile]; rfl
                  decided := Or.inl hdec }
          next => rfl
  next => rfl

/-- A removal leaves the table alone. -/
theorem turn_of_deleteLocal {path : FsPath}
    (hpath : absolutePath env root e = some path)
    (hdec : decideEntry root.mode e = .deleteLocal) :
    reconcileEntry env root e v =
      { world :=
          { v with disk := (applyDeleteLocal v.disk path e.isDirectory).1 }
        effects := (applyDeleteLocal v.disk path e.isDirectory).2
        returned := true } := by
  unfold reconcileEntry
  rw [hpath]
  simp only [hdec]

/-- A download that arrived is at the row's path and in the row. -/
theorem turn_of_download {path : FsPath}
    (hpath : absolutePath env root e = some path)
    (hdec : decideEntry root.mode e = .download) {fileId : String}
    {target : FsPath}
    (hdone : .replace fileId target ∈ (reconcileEntry env root e v).effects) :
    ∃ download fileId file, env.downloadFile = some download ∧
      e.remoteFileId = some fileId ∧
      download e.id fileId = .delivered file.content ∧
      (reconcileEntry env root e v).world.entries =
        recordDownload env e file v.entries ∧
      (reconcileEntry env root e v).world.disk.get path.loc =
        some (.file file) := by
  unfold reconcileEntry at hdone ⊢
  rw [hpath] at hdone ⊢
  simp only [hdec] at hdone ⊢
  unfold applyDownload at hdone ⊢
  split at hdone
  next => simp at hdone
  next hdir =>
      rw [if_neg hdir]
      split at hdone
      next download fileId' hservice hfile =>
          refine ⟨download, fileId', ?_⟩
          cases htransfer : download e.id fileId' with
          | unavailable => simp [htransfer, downloadFile] at hdone
          | interrupted =>
              rw [htransfer] at hdone
              unfold downloadFile at hdone
              simp only at hdone
              split at hdone
              next => simp at hdone
              next => simp at hdone
          | delivered content =>
              rw [htransfer] at hdone
              unfold downloadFile at hdone ⊢
              simp only at hdone ⊢
              split at hdone
              next => simp at hdone
              next made hmade =>
                  split at hdone
                  next => simp at hdone
                  next written hwritten =>
                      refine ⟨{ content := content, mtime := env.clock e.id },
                        hservice, hfile, rfl, rfl, ?_⟩
                      rw [FileTree.get_writeFile hwritten, if_pos rfl]
      next => simp at hdone

end Turns

/-! ## Locations -/

section Locations

variable {env : ReconcileEnv} {root : SyncRoot} {e : Entry} {v : World}
  {l m : Loc}

/-- A download takes nothing away. -/
theorem Fetched.present {rowId : Nat} {fileId : String} {target : FsPath}
    {disk : Disk} {got : Downloaded}
    (h : Fetched env rowId fileId target disk got) (hm : disk.get m ≠ none) :
    got.disk.get m ≠ none := by
  have hkept : ∀ made, disk.makeDirectories target.parentPath.loc = some made →
      made.get m ≠ none := by
    intro made hmade
    rw [FileTree.get_makeDirectories hmade]
    split
    · simp
    · exact hm
  cases h with
  | nothing => exact hm
  | made made hmade => exact hkept made hmade
  | wrote made written file hmade hwritten =>
      show written.get m ≠ none
      rw [FileTree.get_writeFile hwritten]
      split
      · simp
      · exact hkept made hmade

/-- A download makes its target and the directories down to it. -/
theorem Fetched.absent {rowId : Nat} {fileId : String} {target : FsPath}
    {disk : Disk} {got : Downloaded}
    (h : Fetched env rowId fileId target disk got)
    (htarget : ¬m <+: target.loc) (hparent : ¬m <+: target.parentPath.loc)
    (hm : disk.get m = none) : got.disk.get m = none := by
  have hkept : ∀ made, disk.makeDirectories target.parentPath.loc = some made →
      made.get m = none := by
    intro made hmade
    rw [FileTree.get_makeDirectories hmade, if_neg hparent]
    exact hm
  cases h with
  | nothing => exact hm
  | made made hmade => exact hkept made hmade
  | wrote made written file hmade hwritten =>
      have hne : m ≠ target.loc := by
        intro heq
        exact htarget (heq ▸ List.prefix_refl _)
      show written.get m = none
      rw [FileTree.get_writeFile hwritten, if_neg hne]
      exact hkept made hmade

theorem Fills.above (h : Fills env root e m) (hlm : l <+: m) :
    Fills env root e l := by
  obtain ⟨hfetching, path, hpath, hbelow⟩ := h
  exact ⟨hfetching, path, hpath,
    hbelow.imp (fun h => hlm.trans h) (fun h => hlm.trans h)⟩

namespace Cut

variable {w : World} (c : Cut env root w e)
  (hwrites : ∀ x ∈ (reconcileRoot env root w).effects, x.writes = false)
include hwrites

end Cut

end Locations

/-! ## Rows -/

section Rows

variable {env : ReconcileEnv} {root : SyncRoot} {w : World} {e g : Entry}

/-- The row `e` with its download recorded. -/
inductive Recorded (e : Entry) : Entry → Prop where
  | plain :
      Recorded e
        { e with
          syncedRemoteUpdatedAt := e.remoteUpdatedAt
          syncState := .unchanged }
  | hashed (size mtime : Int) (contentHash : String) :
      Recorded e
        { e with
          size := some size
          mtime := some mtime
          contentHash := some contentHash
          syncedContentHash := some contentHash
          syncedRemoteUpdatedAt := e.remoteUpdatedAt
          syncState := .unchanged }

/-- A recorded download is not due again. -/
theorem Recorded.decided {mode : SyncMode} (h : Recorded e g)
    (hdec : decideEntry mode e = .download) (hpresent : e.localDeletedAt = none) :
    decideEntry mode g = .noop := by
  have hlocal : (classify e).localDeleted = false := by
    simp [classify, hpresent]
  have hdue : ∀ localDirty : Bool,
      (localDirty = true → (classify e).localDirty = true) → _ :=
    fun _ => SyncPolicy.decide_of_downloaded (classify_consistent e) hdec hlocal
  cases h with
  | plain => simpa [decideEntry, classify] using hdue _ id
  | hashed size mtime contentHash =>
      have hclean := hdue false (fun h => by cases h)
      simpa [decideEntry, classify] using hclean

/-- A turn that does not write its row leaves it as the call has read it. -/
theorem row_same (c : Cut env root w e)
    (h : c.after.entries = c.before.entries) :
    EntryRepo.findEntryByPath (reconcileRoot env root w).world.entries root.id
      e.relativePath = some e := by
  apply row_after c rfl
  rw [h]
  exact row_before c

/-- A row with nothing to fetch or mark is left as it is. -/
theorem row_of_rest (c : Cut env root w e)
    (hplaced : (absolutePath env root e).isSome = true)
    (hnot : ¬Fetching env root e)
    (hconflict : decideEntry root.mode e ≠ .conflict) :
    EntryRepo.findEntryByPath (reconcileRoot env root w).world.entries root.id
      e.relativePath = some e := by
  apply row_same c
  rw [c.left]
  by_cases hdelete : decideEntry root.mode e = .deleteLocal
  · obtain ⟨path, hpath⟩ := Option.isSome_iff_exists.mp hplaced
    rw [turn_of_deleteLocal hpath hdelete]
  · rw [turn_of_rest hplaced hnot hconflict hdelete]

/-- A conflict without a copy to fetch is marked in its row. -/
theorem row_of_conflict (c : Cut env root w e)
    (hplaced : (absolutePath env root e).isSome = true)
    (hnot : ¬Fetching env root e)
    (hconflict : decideEntry root.mode e = .conflict) :
    EntryRepo.findEntryByPath (reconcileRoot env root w).world.entries root.id
      e.relativePath = some
        (if env.conflictRepo then
          { e with conflictState := some "local_remote_modified" }
        else e) := by
  split
  next hrepo =>
      apply row_after c
      · rfl
      rw [c.left, turn_of_conflict hplaced hconflict hnot]
      simp only [hrepo, if_true]
      exact RemoteEntryRepo.findEntryByPath_updateById_self (row_before c) rfl
  next hrepo =>
      apply row_same c
      rw [c.left, turn_of_conflict hplaced hconflict hnot]
      simp only [hrepo]
      rfl

/-- A download that arrived is recorded in its row, when it can be. -/
theorem row_of_download (c : Cut env root w e) {path : FsPath}
    (hpath : absolutePath env root e = some path)
    (hdec : decideEntry root.mode e = .download) {fileId : String}
    {target : FsPath}
    (hdone : .replace fileId target ∈
      (reconcileEntry env root e c.before).effects) :
    (Recordable env e → ∃ g, Recorded e g ∧
      EntryRepo.findEntryByPath (reconcileRoot env root w).world.entries root.id
        e.relativePath = some g) ∧
    (¬Recordable env e →
      EntryRepo.findEntryByPath (reconcileRoot env root w).world.entries root.id
        e.relativePath = some e) := by
  obtain ⟨download, fileId', file, hservice, hfile, htransfer, hentries, _⟩ :=
    turn_of_download hpath hdec hdone
  constructor
  · intro ⟨hrepo, hfits⟩
    rw [← c.left] at hentries
    unfold recordDownload at hentries
    rw [hrepo] at hentries
    cases hhash : env.hashFile with
    | none =>
        rw [hhash] at hentries
        simp only [Bool.not_true, Bool.false_eq_true, if_false] at hentries
        refine ⟨_, .plain, ?_⟩
        apply row_after c
        · rfl
        rw [hentries]
        exact RemoteEntryRepo.findEntryByPath_updateById_self (row_before c) rfl
    | some hash =>
        have hlength : ¬file.content.length > int64Max := by
          have := hfits (by rw [hhash]; rfl) download fileId' file.content
            hservice hfile htransfer
          omega
        rw [hhash] at hentries
        simp only [Bool.not_true, Bool.false_eq_true, if_false] at hentries
        rw [if_neg hlength] at hentries
        refine ⟨_, .hashed file.content.length (toMtimeMs file.mtime)
          (hash file.content), ?_⟩
        apply row_after c
        · rfl
        rw [hentries]
        exact RemoteEntryRepo.findEntryByPath_updateById_self (row_before c) rfl
  · intro hnot
    apply row_same c
    rw [c.left, hentries]
    unfold recordDownload
    split
    next => rfl
    next hrepo =>
        split
        next hhash =>
            apply absurd _ hnot
            refine ⟨by simpa using hrepo, ?_⟩
            intro hsome
            rw [hhash] at hsome
            cases hsome
        next hash hhash =>
            split
            next => rfl
            next hlength =>
                apply absurd _ hnot
                refine ⟨by simpa using hrepo, ?_⟩
                intro _ download' fileId'' content hservice' hfile' hcontent
                rw [hservice] at hservice'
                rw [hfile] at hfile'
                cases hservice'
                cases hfile'
                rw [htransfer] at hcontent
                cases hcontent
                omega

end Rows

end ArkiveSync.SyncReconciler
