import ArkiveSync.Model.ReconcileTurns
import ArkiveSync.Proofs.PulledListings

/-!
# Reconciling a root whose listing has been taken up

Every row of the root is in order, so no turn of the call comes upon a conflict:
a turn removes what is shown as deleted, fetches a file that the listing has in
another version, or does nothing.  Where a file is fetched the listing has live
folders above it, so the way is clear, and no removal reaches what is live.

## Main results

* `Underway.turn`: one row.
* `Listed.pulled`: behind the call the directory of the root is what the listing
  shows.
-/

namespace ArkiveSync.Pulls

open Library RemoteEntryRepo SyncReconciler

/-- What reconciling the root finds: its directory, and a service that delivers
each live file in the version that was shown. -/
structure Delivers (r : Replica) (env : ReconcileEnv) (root : SyncRoot)
    (us : List RemoteEntryUpsert) : Prop where
  cwd : env.cwd.isAbsolute = true
  base : ∃ text, normalizeFsPath env.cwd root.localPath = some text ∧
    (FsPath.parse text).loc = r.base
  repo : env.remoteEntryRepo = true
  hash : env.hashFile = some r.hash
  transfers : ∃ download, env.downloadFile = some download ∧
    ∀ u ∈ us, u.remoteType ≠ "folder" → u.remoteDeletedAt = none →
      ∃ fileId, u.remoteFileId = some fileId ∧ ∀ rowId,
        download rowId fileId =
          .delivered (r.content u.remoteId u.remoteUpdatedAt)
  sizes : ∀ u ∈ us, u.remoteType ≠ "folder" → u.remoteDeletedAt = none →
    (r.content u.remoteId u.remoteUpdatedAt).length ≤ int64Max

/-- Where a row leads. -/
def placeOf (r : Replica) (e : Entry) : Loc :=
  r.base ++ namesOf e.relativePath

/-! ## The rows of the call -/

/-- The rows that a call goes through, with what they say. -/
structure Rows (us : List RemoteEntryUpsert) (rows : List Entry) : Prop where
  inOrder : ∀ e ∈ rows, InOrder e ∧
    ((∃ u ∈ us, Records u e) ∨ (Lost us e ∧ Settled e))
  listed : ∀ u ∈ us, ∃ e ∈ rows, Records u e
  places : ∀ e ∈ rows, ∀ f ∈ rows,
    namesOf e.relativePath = namesOf f.relativePath → e = f
  ids : ∀ e ∈ rows, ∀ f ∈ rows, e.id = f.id → e = f

/-- The disk has nothing below the directory of the root that no row names. -/
structure Mapped (r : Replica) (rows : List Entry) (disk : Disk) : Prop where
  base : OpenBase r disk
  below : ∀ names node, names ≠ [] → disk.get (r.base ++ names) = some node →
    ∃ e ∈ rows, namesOf e.relativePath = names ∧
      ((node = .directory ∧ e.isDirectory = true) ∨
        ((∃ file, node = .file file) ∧ e.isDirectory = false))

section Rows

variable {r : Replica} {syncRootId : String} {us : List RemoteEntryUpsert}
  {rows : List Entry} {e f : Entry} {u : RemoteEntryUpsert} {disk : Disk}

theorem Rows.placeOf_ne (h : Rows us rows) (he : e ∈ rows) :
    placeOf r e ≠ [] := by
  intro hnil
  exact (h.inOrder e he).1.plain.names.1 (List.append_eq_nil_iff.mp hnil).2

theorem Rows.eq_of_place (h : Rows us rows) (he : e ∈ rows) (hf : f ∈ rows)
    (hplace : placeOf r e = placeOf r f) : e = f :=
  h.places e he f hf (List.append_cancel_left hplace)

/-- A row above a shown object is that of a live folder. -/
theorem Rows.above (h : Rows us rows) (hs : ShowsTree syncRootId us)
    (hu : u ∈ us) (hrecords : Records u f) (he : e ∈ rows)
    (habove : StrictlyBelow (placeOf r e) (placeOf r f)) :
    e.isDirectory = true ∧ e.remoteDeletedAt = none := by
  obtain ⟨hinit, hne⟩ := habove
  have hnames : StrictlyBelow (namesOf e.relativePath)
      (namesOf u.localPath) := by
    rw [← hrecords.path]
    refine ⟨(List.prefix_append_right_inj _).mp hinit, ?_⟩
    intro hsame
    apply hne
    unfold placeOf
    rw [hsame]
  obtain ⟨d, hd, hdnames, hfolder, hlive⟩ :=
    hs.parents u hu _ (h.inOrder e he).1.plain.names.1 hnames
  obtain ⟨g, hg, hdrecords⟩ := h.listed d hd
  have hsame : g = e := h.places g hg e he (by rw [hdrecords.path, hdnames])
  rw [← hsame, hdrecords.directory, hdrecords.deletedAt, hfolder]
  exact ⟨rfl, hlive⟩

/-- What is at or above a shown object is its row, or a live folder. -/
theorem Rows.reaches (h : Rows us rows) (hs : ShowsTree syncRootId us)
    (hu : u ∈ us) (hrecords : Records u f) (hf : f ∈ rows) (he : e ∈ rows)
    (hbelow : placeOf r e <+: placeOf r f) (hne : e ≠ f) :
    e.isDirectory = true ∧ e.remoteDeletedAt = none := by
  refine h.above hs hu hrecords he ⟨hbelow, ?_⟩
  intro hplace
  exact hne (h.eq_of_place he hf hplace)

end Rows

/-! ## What one row does -/

/-- The disk after a turn: as it was, without what is at the row's place, or
with a file there. -/
inductive DiskTurn (r : Replica) (us : List RemoteEntryUpsert) (e : Entry)
    (disk : Disk) : Disk → Prop where
  | same : DiskTurn r us e disk disk
  | swept (disk' : Disk) (hdeleted : e.remoteDeletedAt.isSome = true)
      (hget : ∀ l, l ≠ [] → disk'.get l =
        if placeOf r e <+: l then none else disk.get l) :
      DiskTurn r us e disk disk'
  | put (disk' : Disk) (file : LocalFile) (u : RemoteEntryUpsert) (hu : u ∈ us)
      (hrecords : Records u e) (hfile : e.isDirectory = false)
      (hget : ∀ l, disk'.get l = if l = placeOf r e then some (.file file)
        else if l <+: (placeOf r e).dropLast then some .directory
        else disk.get l) :
      DiskTurn r us e disk disk'

section Turn

variable {r : Replica} {env : ReconcileEnv} {root : SyncRoot}
  {us : List RemoteEntryUpsert} {rows : List Entry} {e f : Entry}
  {u : RemoteEntryUpsert} {v : World}

theorem Delivers.path (hd : Delivers r env root us) (h : InOrder e) :
    ∃ path, absolutePath env root e = some path ∧ path.loc = placeOf r e ∧
      path.parentPath.loc = (placeOf r e).dropLast := by
  obtain ⟨text, htext, hbase⟩ := hd.base
  obtain ⟨hne, hplain, hpath⟩ := h.plain.names
  have habsolute : (FsPath.parse text).isAbsolute = true := by
    unfold normalizeFsPath at htext
    split at htext
    next => cases htext
    next =>
        cases htext
        apply FsPath.parse_genericString_isAbsolute
        apply FsPath.lexicallyNormal_isAbsolute
        exact FsPath.append_isAbsolute _ _ hd.cwd
  obtain ⟨hloc, hparent⟩ := FsPath.loc_append_relativeText habsolute hne
    (fun n hn => (hplain n hn).1) (fun n hn => (hplain n hn).2)
  rw [← hpath, hbase] at hloc hparent
  refine ⟨_, by simp [absolutePath, htext], hloc, ?_⟩
  rw [hparent]
  unfold placeOf
  rw [List.dropLast_append_of_ne_nil hne]

/-- The turn of a row that is shown as deleted. -/
theorem turn_swept (hd : Delivers r env root us) (hmode : root.mode ≠ .uploadOnly)
    (hrows : Rows us rows) (he : e ∈ rows) (hmapped : Mapped r rows v.disk)
    (hdeleted : e.remoteDeletedAt.isSome = true) :
    ∃ disk' effects, reconcileEntry env root e v =
        { world := { v with disk := disk' }
          effects := effects
          returned := true } ∧
      (∀ l, l ≠ [] → disk'.get l =
        if placeOf r e <+: l then none else v.disk.get l) := by
  have horder := (hrows.inOrder e he).1
  obtain ⟨path, hpath, hloc, -⟩ := hd.path horder
  have hdecided : decideEntry root.mode e = .deleteLocal := by
    rw [decideEntry_inOrder hmode horder, if_pos hdeleted]
  rw [turn_of_deleteLocal hpath hdecided]
  cases hdirectory : e.isDirectory with
  | true =>
      refine ⟨_, _, rfl, ?_⟩
      intro l hl
      simp only [applyDeleteLocal, if_true]
      rw [FileTree.get_removeAll _ _ _ hl, hloc]
  | false =>
      -- What holds something is a directory, and its row would be one's.
      have hbare : ∀ l, StrictlyBelow (placeOf r e) l → v.disk.get l = none := by
        intro l hbelow
        by_contra hthere
        have hget := FileTree.get_of_below hbelow hthere
        obtain ⟨g, hg, hnames, hkind⟩ :=
          hmapped.below _ _ horder.plain.names.1 hget
        have hsame := hrows.places g hg e he hnames
        rw [hsame, hdirectory] at hkind
        simp at hkind
      refine ⟨_, _, rfl, ?_⟩
      intro l hl
      obtain ⟨disk', hremoved⟩ := Option.isSome_iff_exists.mp
        (FileTree.remove_of_bare hbare)
      simp only [applyDeleteLocal, Bool.false_eq_true, if_false, hloc, hremoved,
        Option.getD_some]
      rw [FileTree.get_remove hremoved l hl]
      by_cases hself : l = placeOf r e
      · rw [if_pos hself, hself, if_pos (List.prefix_refl _)]
      · rw [if_neg hself]
        split
        next hinit => exact hbare l ⟨hinit, fun h => hself h.symm⟩
        next => rfl

/-- The turn of a live row that is not to be fetched. -/
theorem turn_same (hd : Delivers r env root us) (hmode : root.mode ≠ .uploadOnly)
    (horder : InOrder e) (hlive : e.remoteDeletedAt = none)
    (hidle : e.isDirectory = false →
      e.remoteUpdatedAt = e.syncedRemoteUpdatedAt) :
    reconcileEntry env root e v =
      { world := v, effects := [], returned := true } := by
  obtain ⟨path, hpath, -, -⟩ := hd.path horder
  have hdecided := decideEntry_inOrder hmode horder
  simp only [hlive, Option.isSome_none, Bool.false_eq_true, if_false] at hdecided
  unfold reconcileEntry
  rw [hpath]
  by_cases hsynced : e.remoteUpdatedAt = e.syncedRemoteUpdatedAt
  · rw [if_pos hsynced] at hdecided
    simp only [hdecided]
  · rw [if_neg hsynced] at hdecided
    have hdirectory : e.isDirectory = true := by
      rw [← Bool.not_eq_false]
      exact fun hfile => hsynced (hidle hfile)
    simp only [hdecided, applyDownload, hdirectory, if_true]

/-- The row of a file that has been fetched. -/
def fetchedRow (r : Replica) (file : LocalFile) (e : Entry) : Entry :=
  { e with
    size := some (file.content.length : Int)
    mtime := some (toMtimeMs file.mtime)
    contentHash := some (r.hash file.content)
    syncedContentHash := some (r.hash file.content)
    syncedRemoteUpdatedAt := e.remoteUpdatedAt
    syncState := .unchanged }

/-- The turn of a live file that is shown in another version. -/
theorem turn_put (hd : Delivers r env root us) (hmode : root.mode ≠ .uploadOnly)
    {syncRootId : String} (hs : ShowsTree syncRootId us) (hrows : Rows us rows)
    (he : e ∈ rows) (hmapped : Mapped r rows v.disk) (hu : u ∈ us)
    (hrecords : Records u e) (hfile : e.isDirectory = false)
    (hlive : e.remoteDeletedAt = none)
    (hbehind : e.remoteUpdatedAt ≠ e.syncedRemoteUpdatedAt) :
    ∃ disk' effects file, reconcileEntry env root e v =
        { world :=
            { entries := markEntryDownloadedAs v.entries e.id
                file.content.length (toMtimeMs file.mtime)
                (r.hash file.content)
              disk := disk' }
          effects := effects
          returned := true } ∧
      file.content = r.content u.remoteId u.remoteUpdatedAt ∧
      ∀ l, disk'.get l = if l = placeOf r e then some (.file file)
        else if l <+: (placeOf r e).dropLast then some .directory
        else v.disk.get l := by
  have horder := (hrows.inOrder e he).1
  obtain ⟨path, hpath, hloc, hparent⟩ := hd.path horder
  have hdecided : decideEntry root.mode e = .download := by
    rw [decideEntry_inOrder hmode horder, hlive, if_neg hbehind]
    rfl
  have hnot : u.remoteType ≠ "folder" := by
    have hdirectory := hrecords.directory
    rw [hfile] at hdirectory
    simpa using hdirectory.symm
  have hulive : u.remoteDeletedAt = none := hrecords.deletedAt.symm.trans hlive
  obtain ⟨download, hdownload, hdelivers⟩ := hd.transfers
  obtain ⟨fileId, hfileId, hdelivered⟩ := hdelivers u hu hnot hulive
  -- The way is clear: what a row names above the file is a live folder.
  have hway : ∀ k, k <+: (placeOf r e).dropLast →
      v.disk.get k = none ∨ v.disk.get k = some .directory := by
    intro k hk
    unfold placeOf at hk
    rw [List.dropLast_append_of_ne_nil horder.plain.names.1] at hk
    rcases List.prefix_or_prefix_of_prefix hk (List.prefix_append _ _) with
      hbase | ⟨names, hsplit⟩
    · exact hmapped.base k hbase
    · subst hsplit
      have hnames := (List.prefix_append_right_inj _).mp hk
      by_cases hnil : names = []
      · rw [hnil, List.append_nil]
        exact hmapped.base _ (List.prefix_refl _)
      · cases hnode : v.disk.get (r.base ++ names) with
        | none => exact Or.inl rfl
        | some node =>
            obtain ⟨g, hg, hgnames, hkind⟩ := hmapped.below _ _ hnil hnode
            have hgplace : placeOf r g = r.base ++ names := by
              unfold placeOf
              rw [hgnames]
            have habove : StrictlyBelow (placeOf r g) (placeOf r e) := by
              rw [hgplace]
              refine ⟨(List.prefix_append_right_inj _).mpr
                (hnames.trans (List.dropLast_prefix _)), ?_⟩
              intro hsame
              have hlength := hnames.length_le
              rw [List.append_cancel_left hsame, List.length_dropLast] at hlength
              have hpos := List.length_pos_of_ne_nil horder.plain.names.1
              omega
            obtain ⟨hdirectory, -⟩ := hrows.above hs hu hrecords hg habove
            rw [hdirectory] at hkind
            right
            simpa using hkind
  have hfree : v.disk.get (placeOf r e) ≠ some .directory := by
    intro hdirectory
    obtain ⟨g, hg, hnames, hkind⟩ :=
      hmapped.below _ _ horder.plain.names.1 hdirectory
    rw [hrows.places g hg e he hnames, hfile] at hkind
    simp at hkind
  obtain ⟨made, disk', hmade, hwritten, hget⟩ := FileTree.exists_placed
    { content := r.content u.remoteId u.remoteUpdatedAt, mtime := env.clock e.id }
    (hrows.placeOf_ne he) hway hfree
  refine ⟨disk', [.writeTemp (tempPathFor (env.tempHex e.id) path),
    .replace fileId path], { content := r.content u.remoteId u.remoteUpdatedAt
                             mtime := env.clock e.id }, ?_, rfl, hget⟩
  have hsize := hd.sizes u hu hnot hulive
  unfold reconcileEntry
  rw [hpath]
  simp only [hdecided, applyDownload, hfile, Bool.false_eq_true, if_false,
    hdownload, hrecords.remoteFileId.trans hfileId, hdelivered, downloadFile,
    hparent, hmade, hloc, hwritten, recordDownload, hd.repo, hd.hash,
    Bool.not_true, gt_iff_lt, Nat.not_lt.mpr hsize]

end Turn

/-! ## What the turn of another row leaves alone -/

section Others

variable {r : Replica} {syncRootId : String} {us : List RemoteEntryUpsert}
  {rows : List Entry} {e f : Entry} {u : RemoteEntryUpsert} {disk disk' : Disk}

theorem prefix_of_dropLast {l m : Loc} (hm : m ≠ []) (h : l <+: m.dropLast) :
    StrictlyBelow l m := by
  refine ⟨h.trans (List.dropLast_prefix m), ?_⟩
  intro hsame
  have hlength := h.length_le
  rw [hsame, List.length_dropLast] at hlength
  have hpos := List.length_pos_of_ne_nil hm
  omega

/-- What is at the place of a live file stays. -/
theorem DiskTurn.get_live (h : DiskTurn r us e disk disk')
    (hrows : Rows us rows) (hs : ShowsTree syncRootId us) (he : e ∈ rows)
    (hf : f ∈ rows) (hne : f ≠ e) (hu : u ∈ us) (hrecords : Records u f)
    (hfile : f.isDirectory = false) :
    disk'.get (placeOf r f) = disk.get (placeOf r f) := by
  cases h with
  | same => rfl
  | swept _ hdeleted hget =>
      rw [hget _ (hrows.placeOf_ne hf), if_neg]
      intro hbelow
      obtain ⟨-, helive⟩ :=
        hrows.reaches hs hu hrecords hf he hbelow (fun h => hne h.symm)
      rw [helive] at hdeleted
      cases hdeleted
  | put _ file v hv hvrecords _ hget =>
      rw [hget, if_neg (fun h => hne (hrows.eq_of_place hf he h)), if_neg]
      intro hbelow
      obtain ⟨hdirectory, -⟩ := hrows.above hs hv hvrecords hf
        (prefix_of_dropLast (hrows.placeOf_ne he) hbelow)
      rw [hfile] at hdirectory
      cases hdirectory

/-- What is gone from the place of a deleted row does not come back. -/
theorem DiskTurn.get_gone (h : DiskTurn r us e disk disk')
    (hrows : Rows us rows) (hs : ShowsTree syncRootId us) (he : e ∈ rows)
    (hf : f ∈ rows) (hne : f ≠ e) (hdeleted : f.remoteDeletedAt.isSome = true)
    (hgone : disk.get (placeOf r f) = none) :
    disk'.get (placeOf r f) = none := by
  cases h with
  | same => exact hgone
  | swept _ _ hget =>
      rw [hget _ (hrows.placeOf_ne hf), hgone]
      split <;> rfl
  | put _ file v hv hvrecords _ hget =>
      rw [hget, if_neg (fun h => hne (hrows.eq_of_place hf he h)), if_neg, hgone]
      intro hbelow
      obtain ⟨-, hlive⟩ := hrows.above hs hv hvrecords hf
        (prefix_of_dropLast (hrows.placeOf_ne he) hbelow)
      rw [hlive] at hdeleted
      cases hdeleted

/-- The disk keeps to the rows. -/
theorem DiskTurn.mapped (h : DiskTurn r us e disk disk') (hrows : Rows us rows)
    (hs : ShowsTree syncRootId us) (he : e ∈ rows)
    (hmapped : Mapped r rows disk) : Mapped r rows disk' := by
  have hnames := (hrows.inOrder e he).1.plain.names.1
  cases h with
  | same => exact hmapped
  | swept _ _ hget =>
      constructor
      · intro l hl
        by_cases hnil : l = []
        · rw [hnil, FileTree.get_nil]
          exact Or.inr rfl
        · rw [hget l hnil, if_neg]
          · exact hmapped.base l hl
          · intro hbelow
            have hlength := (hbelow.trans hl).length_le
            unfold placeOf at hlength
            rw [List.length_append] at hlength
            have hpos := List.length_pos_of_ne_nil hnames
            omega
      · intro names node hne hnode
        rw [hget _ (by simp [hne])] at hnode
        split at hnode
        next => cases hnode
        next => exact hmapped.below names node hne hnode
  | put _ file v hv hrecords hfile hget =>
      constructor
      · intro l hl
        rw [hget]
        split
        next hself =>
            rw [hself] at hl
            have hlength := hl.length_le
            unfold placeOf at hlength
            rw [List.length_append] at hlength
            have hpos := List.length_pos_of_ne_nil hnames
            omega
        next =>
            split
            next => exact Or.inr rfl
            next => exact hmapped.base l hl
      · intro names node hne hnode
        rw [hget] at hnode
        split at hnode
        next hself =>
            refine ⟨e, he, (List.append_cancel_left hself).symm, Or.inr ⟨?_, hfile⟩⟩
            exact ⟨file, (Option.some.inj hnode).symm⟩
        next =>
            split at hnode
            next habove =>
                -- A directory that is made on the way is that of a folder.
                have hstrict := prefix_of_dropLast (hrows.placeOf_ne he) habove
                have hstrictly : StrictlyBelow names (namesOf v.localPath) := by
                  rw [← hrecords.path]
                  refine ⟨(List.prefix_append_right_inj _).mp hstrict.1, ?_⟩
                  intro hsame
                  exact hstrict.2 (by rw [hsame]; rfl)
                obtain ⟨d, hd, hdnames, hfolder, -⟩ :=
                  hs.parents v hv names hne hstrictly
                obtain ⟨g, hg, hgrecords⟩ := hrows.listed d hd
                refine ⟨g, hg, by rw [hgrecords.path, hdnames], Or.inl ⟨?_, ?_⟩⟩
                · exact (Option.some.inj hnode).symm
                · rw [hgrecords.directory, hfolder]
                  rfl
            next => exact hmapped.below names node hne hnode

end Others

/-! ## The loop -/

/-- A row that the loop has not come to. -/
structure Ahead (r : Replica) (us : List RemoteEntryUpsert)
    (syncRootId : String) (v : World) (e : Entry) : Prop where
  row : EntryRepo.findEntryByPath v.entries syncRootId e.relativePath = some e
  version : ∀ u ∈ us, Records u e → u.remoteType ≠ "folder" →
    u.remoteDeletedAt = none →
    e.syncedRemoteUpdatedAt = some u.remoteUpdatedAt → HasVersion r v.disk e u

/-- What the row `e` has become, and its place on the disk. -/
structure Became (r : Replica) (us : List RemoteEntryUpsert) (disk : Disk)
    (e g : Entry) : Prop where
  id : g.id = e.id
  path : g.relativePath = e.relativePath
  settled : Settled g
  records : ∀ u, Records u e → Records u g
  version : ∀ u ∈ us, Records u e → u.remoteType ≠ "folder" →
    u.remoteDeletedAt = none → HasVersion r disk g u
  gone : e.remoteDeletedAt.isSome = true → disk.get (placeOf r e) = none

/-- A row that the loop is done with. -/
def Behind (r : Replica) (us : List RemoteEntryUpsert) (syncRootId : String)
    (v : World) (e : Entry) : Prop :=
  ∃ g, EntryRepo.findEntryByPath v.entries syncRootId e.relativePath = some g ∧
    Became r us v.disk e g

/-- Where the loop stands. -/
structure Underway (r : Replica) (us : List RemoteEntryUpsert)
    (syncRootId : String) (rows done rest : List Entry) (v : World) : Prop where
  mapped : Mapped r rows v.disk
  behind : ∀ e ∈ done, Behind r us syncRootId v e
  ahead : ∀ e ∈ rest, Ahead r us syncRootId v e

section Loop

variable {r : Replica} {env : ReconcileEnv} {root : SyncRoot}
  {us : List RemoteEntryUpsert} {rows done rest : List Entry} {e f : Entry}
  {u : RemoteEntryUpsert} {v : World}

theorem settled_fetchedRow {file : LocalFile} (h : InOrder e)
    (hrecords : Records u e) : Settled (fetchedRow r file e) where
  present := h.present
  calm := h.calm
  hashes := rfl
  hashed := fun _ => by
    show e.remoteUpdatedAt.isSome = true
    rw [hrecords.updatedAt]
    rfl
  known := h.known
  plain := h.plain
  current := fun _ _ => rfl

theorem records_fetchedRow {file : LocalFile} (h : Records u e) :
    Records u (fetchedRow r file e) :=
  { root := h.root, path := h.path, remoteId := h.remoteId
    remoteFileId := h.remoteFileId, deletedAt := h.deletedAt
    updatedAt := h.updatedAt, directory := h.directory }

theorem find_fetchedRow {t : EntryTable} {syncRootId path : String}
    (hrow : EntryRepo.findEntryByPath t syncRootId path = some e)
    (file : LocalFile) :
    EntryRepo.findEntryByPath (markEntryDownloadedAs t e.id file.content.length
      (toMtimeMs file.mtime) (r.hash file.content)) syncRootId path =
        some (fetchedRow r file e) := by
  unfold markEntryDownloadedAs
  exact findEntryByPath_updateById_self hrow rfl

/-- A row that stays as it is. -/
theorem became_self {disk : Disk} (hsettled : Settled e)
    (hversion : ∀ u ∈ us, Records u e → u.remoteType ≠ "folder" →
      u.remoteDeletedAt = none → HasVersion r disk e u)
    (hgone : e.remoteDeletedAt.isSome = true → disk.get (placeOf r e) = none) :
    Became r us disk e e :=
  ⟨rfl, rfl, hsettled, fun _ h => h, hversion, hgone⟩

/-- The turn of a row. -/
theorem row_turn (hd : Delivers r env root us) (hmode : root.mode ≠ .uploadOnly)
    {syncRootId : String} (hs : ShowsTree syncRootId us) (hrows : Rows us rows)
    (he : e ∈ rows) (hmapped : Mapped r rows v.disk)
    (hahead : Ahead r us root.id v e) :
    (reconcileEntry env root e v).returned = true ∧
      DiskTurn r us e v.disk (reconcileEntry env root e v).world.disk ∧
      Behind r us root.id (reconcileEntry env root e v).world e := by
  obtain ⟨horder, hlisted⟩ := hrows.inOrder e he
  cases hdeletedAt : e.remoteDeletedAt with
  | some time =>
      have hdeleted : e.remoteDeletedAt.isSome = true := by
        rw [hdeletedAt]
        rfl
      obtain ⟨disk', effects, hturn, hget⟩ :=
        turn_swept (v := v) hd hmode hrows he hmapped hdeleted
      rw [hturn]
      refine ⟨rfl, .swept disk' hdeleted hget, e, hahead.row, ?_⟩
      refine became_self ⟨horder, ?_⟩ ?_ ?_
      · intro _ hlive
        rw [hlive] at hdeleted
        cases hdeleted
      · intro u _ hrecords _ hlive
        rw [hrecords.deletedAt, hlive] at hdeleted
        cases hdeleted
      · intro _
        show disk'.get (placeOf r e) = none
        rw [hget _ (hrows.placeOf_ne he), if_pos (List.prefix_refl _)]
  | none =>
      by_cases hidle : e.isDirectory = false →
          e.remoteUpdatedAt = e.syncedRemoteUpdatedAt
      · rw [turn_same hd hmode horder hdeletedAt hidle]
        refine ⟨rfl, .same, e, hahead.row, ?_⟩
        refine became_self ⟨horder, fun hfile _ => hidle hfile⟩ ?_ ?_
        · intro u hu hrecords hfile hlive
          have hkind : e.isDirectory = false := by
            rw [hrecords.directory]
            simpa using hfile
          apply hahead.version u hu hrecords hfile hlive
          rw [← hidle hkind, hrecords.updatedAt]
        · intro hdeleted
          rw [hdeletedAt] at hdeleted
          cases hdeleted
      · obtain ⟨hfile, hbehind⟩ := Classical.not_imp.mp hidle
        obtain ⟨u, hu, hrecords⟩ : ∃ u ∈ us, Records u e := by
          rcases hlisted with hlisted | ⟨-, hsettled⟩
          · exact hlisted
          · exact absurd (hsettled.current hfile hdeletedAt) hbehind
        obtain ⟨disk', effects, file, hturn, hcontent, hget⟩ :=
          turn_put (v := v) hd hmode hs hrows he hmapped hu hrecords hfile
            hdeletedAt hbehind
        rw [hturn]
        refine ⟨rfl, .put disk' file u hu hrecords hfile hget,
          fetchedRow r file e, find_fetchedRow hahead.row file, rfl, rfl,
          settled_fetchedRow horder hrecords,
          fun _ => records_fetchedRow, ?_, ?_⟩
        · intro w hw hwrecords _ _
          have hsame : w = u := by
            apply hs.eq_of_id hw hu
            have hid := hwrecords.remoteId
            rw [hrecords.remoteId, Option.some.injEq] at hid
            exact hid.symm
          rw [hsame]
          refine ⟨file, ?_, hcontent, rfl, rfl, rfl⟩
          show disk'.get (placeOf r e) = _
          rw [hget, if_pos rfl]
        · intro hdeleted
          rw [hdeletedAt] at hdeleted
          cases hdeleted

/-- One turn of the loop. -/
theorem Underway.turn (h : Underway r us root.id rows done (e :: rest) v)
    (hd : Delivers r env root us) (hmode : root.mode ≠ .uploadOnly)
    (hs : ShowsTree root.id us) (hrows : Rows us rows)
    (hsplit : rows = done ++ e :: rest) (hnodup : rows.Nodup) :
    (reconcileEntry env root e v).returned = true ∧
      DiskTurn r us e v.disk (reconcileEntry env root e v).world.disk ∧
      Underway r us root.id rows (done ++ [e]) rest
        (reconcileEntry env root e v).world := by
  have he : e ∈ rows := by
    rw [hsplit]
    exact List.mem_append_right _ List.mem_cons_self
  have hahead := h.ahead e List.mem_cons_self
  obtain ⟨hreturned, hdisk, hbehind⟩ :=
    row_turn hd hmode hs hrows he h.mapped hahead
  have hwritten := reconcileEntry_written env root e v
  have hapart : ∀ f ∈ rows, f ≠ e → f.id ≠ e.id :=
    fun f hf hne hid => hne (hrows.ids f hf e he hid)
  rw [hsplit, List.nodup_append] at hnodup
  obtain ⟨-, htail, hdisjoint⟩ := hnodup
  have hversion : ∀ f ∈ rows, f ≠ e → ∀ g, g.relativePath = f.relativePath →
      ∀ u ∈ us, Records u f → u.remoteType ≠ "folder" →
        HasVersion r v.disk g u →
        HasVersion r (reconcileEntry env root e v).world.disk g u := by
    intro f hf hne g hpath u hu hrecords hfile hold
    obtain ⟨file, hget, hrest⟩ := hold
    have hkind : f.isDirectory = false := by
      rw [hrecords.directory]
      simpa using hfile
    have hsame := hdisk.get_live hrows hs he hf hne hu hrecords hkind
    refine ⟨file, ?_, hrest⟩
    rw [hpath] at hget ⊢
    exact hsame.trans hget
  refine ⟨hreturned, hdisk, hdisk.mapped hrows hs he h.mapped, ?_, ?_⟩
  · intro f hf
    rcases List.mem_append.mp hf with hf | hlast
    · have hfrows : f ∈ rows := by
        rw [hsplit]
        exact List.mem_append_left _ hf
      have hne : f ≠ e := hdisjoint f hf e List.mem_cons_self
      obtain ⟨g, hg, hbecame⟩ := h.behind f hf
      refine ⟨g, ?_, hbecame.id, hbecame.path, hbecame.settled,
        hbecame.records, ?_, ?_⟩
      · apply hwritten.other hg
        rw [hbecame.id]
        exact hapart f hfrows hne
      · intro u hu hrecords hfile hlive
        exact hversion f hfrows hne g hbecame.path u hu hrecords hfile
          (hbecame.version u hu hrecords hfile hlive)
      · intro hdeleted
        exact hdisk.get_gone hrows hs he hfrows hne hdeleted
          (hbecame.gone hdeleted)
    · rw [List.mem_singleton.mp hlast]
      exact hbehind
  · intro f hf
    have hfrows : f ∈ rows := by
      rw [hsplit]
      exact List.mem_append_right _ (List.mem_cons_of_mem _ hf)
    have hne : f ≠ e := by
      rintro rfl
      exact (List.nodup_cons.mp htail).1 hf
    have hold := h.ahead f (List.mem_cons_of_mem _ hf)
    refine ⟨hwritten.other hold.row (hapart f hfrows hne), ?_⟩
    intro u hu hrecords hfile hlive hsynced
    exact hversion f hfrows hne f rfl u hu hrecords hfile
      (hold.version u hu hrecords hfile hlive hsynced)

/-- The whole loop. -/
theorem Underway.whole (h : Underway r us root.id rows done rest v)
    (hd : Delivers r env root us) (hmode : root.mode ≠ .uploadOnly)
    (hs : ShowsTree root.id us) (hrows : Rows us rows)
    (hsplit : rows = done ++ rest) (hnodup : rows.Nodup) :
    (reconcileRows env root rest v).returned = true ∧
      Underway r us root.id rows rows []
        (reconcileRows env root rest v).world ∧
      ∀ P : Disk → Prop,
        (∀ e ∈ rows, ∀ disk disk', DiskTurn r us e disk disk' → P disk →
          P disk') →
        P v.disk → P (reconcileRows env root rest v).world.disk := by
  induction rest generalizing done v with
  | nil =>
      rw [List.append_nil] at hsplit
      rw [← hsplit] at h
      exact ⟨rfl, h, fun _ _ hstart => hstart⟩
  | cons e rest ih =>
      obtain ⟨hreturned, hdisk, hnext⟩ := h.turn hd hmode hs hrows hsplit hnodup
      rw [reconcileRows_cons hreturned]
      obtain ⟨hret, hend, hkeeps⟩ :=
        ih hnext (by rw [hsplit, List.append_assoc]; rfl)
      refine ⟨hret, hend, ?_⟩
      intro P hP hstart
      have he : e ∈ rows := by
        rw [hsplit]
        exact List.mem_append_right _ List.mem_cons_self
      exact hkeeps P hP (hP e he _ _ hdisk hstart)

end Loop

/-! ## The call -/

section Call

variable {r : Replica} {env : ReconcileEnv} {root : SyncRoot}
  {us : List RemoteEntryUpsert} {w : World}

theorem rows_of_listed (h : Listed r us root.id w)
    (hs : ShowsTree root.id us) : Rows us (rowsOf root w) where
  inOrder := by
    intro e he
    obtain ⟨hin, hroot⟩ := (EntryRepo.mem_listEntries _ _ _).mp he
    exact h.rows e hin hroot
  listed := by
    intro u hu
    obtain ⟨e, he, hrecords, -⟩ := h.listed u hu
    refine ⟨e, (EntryRepo.mem_listEntries _ _ _).mpr ⟨he, ?_⟩, hrecords⟩
    exact hrecords.root.trans (hs.root u hu)
  places := by
    intro e he f hf hnames
    obtain ⟨hein, heroot⟩ := (EntryRepo.mem_listEntries _ _ _).mp he
    obtain ⟨hfin, hfroot⟩ := (EntryRepo.mem_listEntries _ _ _).mp hf
    apply EntryRepo.eq_of_path_eq w.entries hein hfin
    · rw [heroot, hfroot]
    · exact (h.rows e hein heroot).1.plain.inj (h.rows f hfin hfroot).1.plain
        hnames
  ids := by
    intro e he f hf hid
    exact w.entries.eq_of_pk_eq ((EntryRepo.mem_listEntries _ _ _).mp he).1
      ((EntryRepo.mem_listEntries _ _ _).mp hf).1 hid

/-- Before the first turn. -/
theorem underway_of_listed (h : Listed r us root.id w) :
    Underway r us root.id (rowsOf root w) [] (rowsOf root w) w where
  mapped := by
    refine ⟨h.base, ?_⟩
    intro names node hne hnode
    obtain ⟨e, he, hroot, hrest⟩ := h.mapped names node hne hnode
    exact ⟨e, (EntryRepo.mem_listEntries _ _ _).mpr ⟨he, hroot⟩, hrest⟩
  behind := by
    intro e he
    cases he
  ahead := by
    intro e he
    obtain ⟨hin, hroot⟩ := (EntryRepo.mem_listEntries _ _ _).mp he
    refine ⟨(EntryRepo.findEntryByPath_eq_some_iff _ _ _ _).mpr
      ⟨hin, hroot, rfl⟩, ?_⟩
    intro u hu hrecords hfile hlive hsynced
    obtain ⟨g, hg, hgrecords, hversion⟩ := h.listed u hu
    have hsame : g = e := by
      apply EntryRepo.eq_of_path_eq w.entries hg hin
      · rw [hgrecords.root, hrecords.root]
      · rw [hgrecords.path, hrecords.path]
    rw [hsame] at hversion
    exact hversion hfile hlive hsynced

/-- What the turns keep of the disk, the call keeps. -/
theorem Listed.keeps (h : Listed r us root.id w) (hd : Delivers r env root us)
    (hmode : root.mode ≠ .uploadOnly) (hs : ShowsTree root.id us)
    {P : Disk → Prop}
    (hP : ∀ e ∈ rowsOf root w, ∀ disk disk', DiskTurn r us e disk disk' →
      P disk → P disk') (hstart : P w.disk) :
    P (reconcileRoot env root w).world.disk := by
  obtain ⟨-, -, hkeeps⟩ := (underway_of_listed h).whole hd hmode hs
    (rows_of_listed h hs) rfl (EntryRepo.nodup_listEntries w.entries root.id)
  exact hkeeps P hP hstart

/-- The call returns, and the directory of the root is what the listing
shows. -/
theorem Listed.pulled (h : Listed r us root.id w) (hd : Delivers r env root us)
    (hmode : root.mode ≠ .uploadOnly) (hs : ShowsTree root.id us) :
    (reconcileRoot env root w).returned = true ∧
      Pulled r us root.id (reconcileRoot env root w).world := by
  have hrows := rows_of_listed h hs
  obtain ⟨hreturned, hend, -⟩ := (underway_of_listed h).whole hd hmode hs hrows
    rfl (EntryRepo.nodup_listEntries w.entries root.id)
  rw [reconcileRoot_eq]
  refine ⟨hreturned, hs.root, ?_, ?_, ?_, hend.mapped.base⟩
  · intro g hg hroot
    have hafter : g ∈ rowsOf root (reconcileRoot env root w).world :=
      (EntryRepo.mem_listEntries _ _ _).mpr ⟨hg, hroot⟩
    obtain ⟨e, he, hpath⟩ := path_of_row_after hafter
    obtain ⟨g', hg', hbecame⟩ := hend.behind e he
    have hsame : g' = g := by
      rw [hpath] at hg'
      obtain ⟨hin, hroot', hpath'⟩ :=
        (EntryRepo.findEntryByPath_eq_some_iff _ _ _ _).mp hg'
      exact EntryRepo.eq_of_path_eq _ hin hg (hroot'.trans hroot.symm) hpath'
    rw [← hsame]
    refine ⟨hbecame.settled, ?_⟩
    rcases (hrows.inOrder e he).2 with ⟨u, hu, hrecords⟩ | ⟨hlost, -⟩
    · exact Or.inl ⟨u, hu, hbecame.records u hrecords⟩
    · right
      obtain ⟨d, hd, hfolder, hdeleted, hbelow⟩ := hlost
      refine ⟨d, hd, hfolder, hdeleted, ?_⟩
      rw [hbecame.path]
      exact hbelow
  · intro u hu
    obtain ⟨e, he, hrecords⟩ := hrows.listed u hu
    obtain ⟨g, hg, hbecame⟩ := hend.behind e he
    exact ⟨g, ((EntryRepo.findEntryByPath_eq_some_iff _ _ _ _).mp hg).1,
      hbecame.records u hrecords, hbecame.version u hu hrecords⟩
  · intro names node hne hnode
    obtain ⟨e, he, hnames, hkind⟩ := hend.mapped.below names node hne hnode
    have hplace : placeOf r e = r.base ++ names := by
      unfold placeOf
      rw [hnames]
    -- What a row shows as deleted is not there, nor what lies below it.
    have hgone : ∀ f ∈ rowsOf root w, f.remoteDeletedAt.isSome = true →
        ¬placeOf r f <+: r.base ++ names := by
      intro f hf hdeleted hbelow
      obtain ⟨_, _, hbecame⟩ := hend.behind f hf
      rw [FileTree.get_below_of_absent (hbecame.gone hdeleted) hbelow] at hnode
      cases hnode
    rcases (hrows.inOrder e he).2 with ⟨u, hu, hrecords⟩ | ⟨hlost, -⟩
    · refine ⟨u, hu, by rw [← hrecords.path, hnames], ?_, ?_⟩
      · cases hdeleted : u.remoteDeletedAt with
        | none => rfl
        | some time =>
            refine absurd ?_ (hgone e he ?_)
            · rw [hplace]
            · rw [hrecords.deletedAt, hdeleted]
              rfl
      · rw [hrecords.directory] at hkind
        simpa using hkind
    · obtain ⟨d, hd, -, hdeleted, hbelow⟩ := hlost
      obtain ⟨f, hf, hrecords⟩ := hrows.listed d hd
      refine absurd ?_ (hgone f hf (by rw [hrecords.deletedAt]; exact hdeleted))
      rw [← hplace]
      unfold placeOf
      rw [hrecords.path]
      exact (List.prefix_append_right_inj _).mpr hbelow.1

end Call

end ArkiveSync.Pulls
