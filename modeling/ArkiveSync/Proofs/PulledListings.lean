import ArkiveSync.Model.SyncStatements
import ArkiveSync.Model.SyncPull
import ArkiveSync.Proofs.Tombstones

/-!
# The rows of a root that is only pulled

Between two pulls nobody but the remote side changes anything.  Every row of the
root then is in order: what it says of the file is what it says was last
synchronised, and the next listing moves it to another version, or marks it, or
does not show it because a folder above it has been deleted.

## Main results

* `visitFolder_shows`: the upserts of a scan over plain names show a tree.
* `Pulled.takes_up`: a listing that continues the one before is taken up
  without an exception, and each of its objects gets a row.
-/

namespace ArkiveSync.Pulls

open Library RemoteScanner RemoteEntryRepo

/-! ## Plain paths -/

/-- A path that a scan joins from proper names. -/
def PlainPath (path : String) : Prop :=
  ∃ names, names ≠ [] ∧ (∀ n ∈ names, FsPath.Plain n ∧ FsPath.Proper n) ∧
    path = FsPath.relativeText names

/-- The names on a path. -/
def namesOf (path : String) : List String := (FsPath.parse path).names

theorem namesOf_relativeText {names : List String}
    (h : ∀ n ∈ names, FsPath.Plain n) :
    namesOf (FsPath.relativeText names) = names := by
  unfold namesOf
  rw [FsPath.parse_relativeText h]

section PlainPath

variable {path path' : String}

theorem PlainPath.names (h : PlainPath path) :
    namesOf path ≠ [] ∧
      (∀ n ∈ namesOf path, FsPath.Plain n ∧ FsPath.Proper n) ∧
      path = FsPath.relativeText (namesOf path) := by
  obtain ⟨names, hne, hplain, hpath⟩ := h
  have hnames : namesOf path = names := by
    rw [hpath]
    exact namesOf_relativeText (fun n hn => (hplain n hn).1)
  rw [hnames]
  exact ⟨hne, hplain, hpath⟩

theorem PlainPath.inj (h : PlainPath path) (h' : PlainPath path')
    (hnames : namesOf path = namesOf path') : path = path' := by
  rw [h.names.2.2, h'.names.2.2, hnames]

end PlainPath

/-! ## Listings -/

/-- What a scan of the root's folder shows: objects at plain paths, each once,
in folders that it shows as well. -/
structure ShowsTree (syncRootId : String) (us : List RemoteEntryUpsert) :
    Prop where
  root : ∀ u ∈ us, u.syncRootId = syncRootId
  plain : ∀ u ∈ us, PlainPath u.localPath
  paths : (us.map RemoteEntryUpsert.localPath).Nodup
  ids : (us.map RemoteEntryUpsert.remoteId).Nodup
  parents : ∀ u ∈ us, ∀ names, names ≠ [] →
    StrictlyBelow names (namesOf u.localPath) →
    ∃ d ∈ us, namesOf d.localPath = names ∧ d.remoteType = "folder" ∧
      d.remoteDeletedAt = none

section ShowsTree

variable {syncRootId : String} {us : List RemoteEntryUpsert}
  {u v : RemoteEntryUpsert}

theorem ShowsTree.eq_of_path (h : ShowsTree syncRootId us) (hu : u ∈ us)
    (hv : v ∈ us) (hpath : u.localPath = v.localPath) : u = v :=
  List.inj_on_of_nodup_map h.paths hu hv hpath

theorem ShowsTree.eq_of_id (h : ShowsTree syncRootId us) (hu : u ∈ us)
    (hv : v ∈ us) (hid : u.remoteId = v.remoteId) : u = v :=
  List.inj_on_of_nodup_map h.ids hu hv hid

theorem ShowsTree.eq_of_names (h : ShowsTree syncRootId us) (hu : u ∈ us)
    (hv : v ∈ us) (hnames : namesOf u.localPath = namesOf v.localPath) :
    u = v :=
  h.eq_of_path hu hv ((h.plain u hu).inj (h.plain v hv) hnames)

/-- What lies above a shown object is a live folder. -/
theorem ShowsTree.above (h : ShowsTree syncRootId us) (hu : u ∈ us)
    (hv : v ∈ us)
    (habove : StrictlyBelow (namesOf v.localPath) (namesOf u.localPath)) :
    v.remoteType = "folder" ∧ v.remoteDeletedAt = none := by
  obtain ⟨d, hd, hnames, hfolder, hlive⟩ :=
    h.parents u hu _ (h.plain v hv).names.1 habove
  rw [h.eq_of_names hv hd hnames.symm]
  exact ⟨hfolder, hlive⟩

end ShowsTree

/-! ## The server -/

/-- The listings below a folder arrive, the recursion ends, and every listed
name decrypts to a plain one. -/
def PlainlyNamed (getJson : String → Option Json) (vault : NameVault) :
    Nat → Option String → Prop
  | 0, _ => False
  | fuel + 1, folderId =>
      ∃ response, fetchEntries getJson folderId = some response ∧
        ∀ entry ∈ response.entries,
          (∃ name, decryptEntryName vault entry = some (some name) ∧
            FsPath.Plain name ∧ FsPath.Proper name) ∧
          ∀ sub, subfolder entry = some sub →
            PlainlyNamed getJson vault fuel (some sub)

section Server

variable {getJson : String → Option Json} {vault : NameVault}

theorem readable_of_plainlyNamed {fuel : Nat} {folderId : Option String}
    (h : PlainlyNamed getJson vault fuel folderId) :
    Readable getJson vault fuel folderId := by
  induction fuel generalizing folderId with
  | zero => exact h.elim
  | succ fuel ih =>
      obtain ⟨response, hresponse, hentries⟩ := h
      refine ⟨response, hresponse, ?_⟩
      intro entry hentry
      obtain ⟨⟨name, hname, -⟩, hsub⟩ := hentries entry hentry
      exact ⟨⟨name, hname⟩, fun sub hin => ih (hsub sub hin)⟩

/-- A folder that a scan goes into is shown as a live folder. -/
theorem subfolder_live {entry : SyncEntryResponse} {sub : String}
    (h : subfolder entry = some sub) :
    entry.type = "folder" ∧ entry.deletedAt = none := by
  unfold subfolder at h
  split at h
  next hlive => simpa using hlive
  next => cases h

/-- Where the upserts for a folder at `front` lie. -/
theorem visitFolder_below (syncRootId : String) {fuel : Nat}
    {folderId : Option String}
    (h : PlainlyNamed getJson vault fuel folderId) (front : List String)
    (hfront : ∀ n ∈ front, FsPath.Plain n ∧ FsPath.Proper n)
    {u : RemoteEntryUpsert}
    (hu : u ∈ visitFolder getJson vault syncRootId fuel folderId
      (FsPath.parse (FsPath.relativeText front))) :
    ∃ rest, rest ≠ [] ∧ (∀ n ∈ rest, FsPath.Plain n ∧ FsPath.Proper n) ∧
      u.localPath = FsPath.relativeText (front ++ rest) ∧
      ∀ names, names ≠ [] → StrictlyBelow names rest →
        ∃ d ∈ visitFolder getJson vault syncRootId fuel folderId
            (FsPath.parse (FsPath.relativeText front)),
          d.localPath = FsPath.relativeText (front ++ names) ∧
          d.remoteType = "folder" ∧ d.remoteDeletedAt = none := by
  induction fuel generalizing folderId front u with
  | zero => exact h.elim
  | succ fuel ih =>
      obtain ⟨response, hresponse, hentries⟩ := h
      simp only [visitFolder, hresponse, List.mem_flatMap] at hu ⊢
      obtain ⟨entry, hentry, hu⟩ := hu
      obtain ⟨⟨name, hname, hplain, hproper⟩, hsub⟩ := hentries entry hentry
      have hread : entryName vault entry = some name := by
        simp [entryName, hname]
      have hboth : ∀ n ∈ front ++ [name],
          FsPath.Plain n ∧ FsPath.Proper n := by
        intro n hn
        rcases List.mem_append.mp hn with hin | hlast
        · exact hfront n hin
        · rw [List.mem_singleton.mp hlast]
          exact ⟨hplain, hproper⟩
      have hjoin : joinName (FsPath.parse (FsPath.relativeText front)) name =
          FsPath.relativeText (front ++ [name]) :=
        FsPath.append_name_relativeText (fun n hn => (hboth n hn).1)
      have hvisit : ∀ w, w ∈ visitEntry vault syncRootId
            (visitFolder getJson vault syncRootId fuel)
            (FsPath.parse (FsPath.relativeText front)) entry ↔
          w = upsertOf syncRootId (FsPath.relativeText (front ++ [name]))
              entry ∨
            ∃ sub, subfolder entry = some sub ∧
              w ∈ visitFolder getJson vault syncRootId fuel (some sub)
                (FsPath.parse (FsPath.relativeText (front ++ [name]))) := by
        intro w
        simp only [visitEntry, hread, hjoin]
        cases subfolder entry <;> simp
      rcases (hvisit u).mp hu with hself | ⟨sub, hin, hbelow⟩
      · -- The object itself, with nothing between it and the folder.
        refine ⟨[name], by simp, ?_, by rw [hself]; rfl, ?_⟩
        · intro n hn
          exact hboth n (List.mem_append_right _ hn)
        · intro names hne habove
          obtain ⟨hinit, hnot⟩ := habove
          rcases List.prefix_concat_iff.mp
            (show names <+: [] ++ [name] from hinit) with hsame | hnil
          · exact absurd hsame hnot
          · exact absurd (List.prefix_nil.mp hnil) hne
      · obtain ⟨rest, hne, hrest, hpath, hparents⟩ :=
          ih (hsub sub hin) _ hboth hbelow
        refine ⟨name :: rest, by simp, ?_, ?_, ?_⟩
        · intro n hn
          rcases List.mem_cons.mp hn with hfirst | hin
          · rw [hfirst]
            exact ⟨hplain, hproper⟩
          · exact hrest n hin
        · rw [hpath, List.append_assoc]
          rfl
        · intro names hnil habove
          obtain ⟨⟨tail, htail⟩, hnot⟩ := habove
          cases names with
          | nil => exact absurd rfl hnil
          | cons first names =>
              obtain ⟨rfl, hnames⟩ := List.cons.inj htail
              by_cases hlast : names = []
              · -- The folder that the scan has gone into.
                obtain ⟨hfolder, hlive⟩ := subfolder_live hin
                refine ⟨_, ⟨entry, hentry, (hvisit _).mpr (Or.inl rfl)⟩, ?_,
                  hfolder, hlive⟩
                rw [hlast]
                rfl
              · obtain ⟨d, hd, hdpath, hdfolder, hdlive⟩ :=
                  hparents names hlast
                    ⟨⟨tail, hnames⟩, fun hsame => hnot (by rw [hsame])⟩
                refine ⟨d, ⟨entry, hentry,
                  (hvisit d).mpr (Or.inr ⟨sub, hin, hd⟩)⟩, ?_, hdfolder, hdlive⟩
                rw [hdpath, List.append_assoc]
                rfl

/-- The upserts of a scan over plain names show a tree, if no two objects have
a path or an id in common. -/
theorem visitFolder_shows (root : SyncRoot) {fuel : Nat}
    {folderId : Option String}
    (h : PlainlyNamed getJson vault fuel folderId)
    (hpaths : ((visitFolder getJson vault root.id fuel folderId
      (FsPath.parse "")).map RemoteEntryUpsert.localPath).Nodup)
    (hids : ((visitFolder getJson vault root.id fuel folderId
      (FsPath.parse "")).map RemoteEntryUpsert.remoteId).Nodup) :
    ShowsTree root.id
      (visitFolder getJson vault root.id fuel folderId (FsPath.parse "")) where
  root := visitFolder_root fuel folderId _
  plain := by
    intro u hu
    obtain ⟨names, hne, hplain, hpath, -⟩ :=
      visitFolder_below root.id h [] (by simp) hu
    exact ⟨names, hne, hplain, hpath⟩
  paths := hpaths
  ids := hids
  parents := by
    intro u hu names hnames habove
    obtain ⟨rest, hne, hplain, hpath, hparents⟩ :=
      visitFolder_below root.id h [] (by simp) hu
    have hrest : namesOf u.localPath = rest := by
      rw [hpath]
      exact namesOf_relativeText (fun n hn => (hplain n hn).1)
    rw [hrest] at habove
    obtain ⟨d, hd, hdpath, hfolder, hlive⟩ := hparents names hnames habove
    refine ⟨d, hd, ?_, hfolder, hlive⟩
    rw [hdpath]
    apply namesOf_relativeText
    intro n hn
    exact (hplain n (habove.1.subset hn)).1

end Server

/-! ## Rows in order -/

/-- Nothing has happened to what the row speaks of since it was synchronised, as
far as the local side goes. -/
structure InOrder (e : Entry) : Prop where
  present : e.localDeletedAt = none
  calm : e.conflictState = some "none"
  hashes : e.contentHash = e.syncedContentHash
  hashed : e.contentHash.isSome = true → e.syncedRemoteUpdatedAt.isSome = true
  known : e.remoteId.isSome = true
  plain : PlainPath e.relativePath

/-- There is nothing to fetch for the row either. -/
structure Settled (e : Entry) : Prop extends InOrder e where
  current : e.isDirectory = false → e.remoteDeletedAt = none →
    e.remoteUpdatedAt = e.syncedRemoteUpdatedAt

/-- What is decided about a row that is in order. -/
theorem decideEntry_inOrder {mode : SyncMode} (hmode : mode ≠ .uploadOnly)
    {e : Entry} (h : InOrder e) :
    decideEntry mode e =
      if e.remoteDeletedAt.isSome then .deleteLocal
      else if e.remoteUpdatedAt = e.syncedRemoteUpdatedAt then .noop
      else .download := by
  have hclass : classify e =
      { localExists := true
        remoteExists := !e.remoteDeletedAt.isSome
        localDeleted := false
        remoteDeleted := e.remoteDeletedAt.isSome
        localDirty := false
        remoteDirty := !e.remoteDeletedAt.isSome &&
          e.remoteUpdatedAt != e.syncedRemoteUpdatedAt
        isDirectory := e.isDirectory
        hasConflict := false } := by
    simp [classify, h.present, h.calm, h.hashes, h.known]
  unfold decideEntry
  rw [hclass]
  cases mode with
  | uploadOnly => exact absurd rfl hmode
  | remoteMirror =>
      cases e.remoteDeletedAt <;>
        simp [SyncPolicy.decide, SyncPolicy.decideRemoteMirror]
  | twoWay =>
      cases e.remoteDeletedAt <;>
        simp [SyncPolicy.decide, SyncPolicy.decideTwoWay]

/-- The row lies below a folder that is shown as deleted. -/
def Lost (us : List RemoteEntryUpsert) (e : Entry) : Prop :=
  ∃ d ∈ us, d.remoteType = "folder" ∧ d.remoteDeletedAt.isSome = true ∧
    StrictlyBelow (namesOf d.localPath) (namesOf e.relativePath)

/-- What a version of an object contains, how content is hashed, and where the
directory of the root is. -/
structure Replica where
  content : (remoteId updatedAt : String) → Bytes
  hash : Bytes → String
  base : Loc

/-- The disk has this version at the place of the row, and the row knows the
file. -/
def HasVersion (r : Replica) (disk : Disk) (e : Entry)
    (u : RemoteEntryUpsert) : Prop :=
  ∃ file, disk.get (r.base ++ namesOf e.relativePath) = some (.file file) ∧
    file.content = r.content u.remoteId u.remoteUpdatedAt ∧
    e.size = some (file.content.length : Int) ∧
    e.mtime = some (toMtimeMs file.mtime) ∧
    e.contentHash = some (r.hash file.content)

/-- The directory of the root is one, as far as it is there. -/
def OpenBase (r : Replica) (disk : Disk) : Prop :=
  ∀ l, l <+: r.base → disk.get l = none ∨ disk.get l = some .directory

/-- A root behind a pull that was shown `us`: the regular files of its directory
are the live files, each with the version that was shown, and the directories
are live folders. -/
structure Pulled (r : Replica) (us : List RemoteEntryUpsert)
    (syncRootId : String) (w : World) : Prop where
  own : ∀ u ∈ us, u.syncRootId = syncRootId
  rows : ∀ e ∈ w.entries.rows, e.syncRootId = syncRootId →
    Settled e ∧ ((∃ u ∈ us, Records u e) ∨ Lost us e)
  listed : ∀ u ∈ us, ∃ e ∈ w.entries.rows, Records u e ∧
    (u.remoteType ≠ "folder" → u.remoteDeletedAt = none →
      HasVersion r w.disk e u)
  shown : ∀ names node, names ≠ [] →
    w.disk.get (r.base ++ names) = some node →
    ∃ u ∈ us, namesOf u.localPath = names ∧ u.remoteDeletedAt = none ∧
      ((node = .directory ∧ u.remoteType = "folder") ∨
        ((∃ file, node = .file file) ∧ u.remoteType ≠ "folder"))
  base : OpenBase r w.disk

/-- A root whose listing `us` has been taken up, and not what it shows. -/
structure Listed (r : Replica) (us : List RemoteEntryUpsert)
    (syncRootId : String) (w : World) : Prop where
  rows : ∀ e ∈ w.entries.rows, e.syncRootId = syncRootId →
    InOrder e ∧ ((∃ u ∈ us, Records u e) ∨ (Lost us e ∧ Settled e))
  listed : ∀ u ∈ us, ∃ e ∈ w.entries.rows, Records u e ∧
    (u.remoteType ≠ "folder" → u.remoteDeletedAt = none →
      e.syncedRemoteUpdatedAt = some u.remoteUpdatedAt →
        HasVersion r w.disk e u)
  mapped : ∀ names node, names ≠ [] →
    w.disk.get (r.base ++ names) = some node →
    ∃ e ∈ w.entries.rows, e.syncRootId = syncRootId ∧
      namesOf e.relativePath = names ∧
      ((node = .directory ∧ e.isDirectory = true) ∨
        ((∃ file, node = .file file) ∧ e.isDirectory = false))
  base : OpenBase r w.disk

/-- The listing goes on from the one before: no object has been moved or has
become another kind of thing, none has vanished without a sign, and a file that
the listing before did not show as live has another time than it was last
synchronised at. -/
structure Continues (before us : List RemoteEntryUpsert) (syncRootId : String)
    (t : EntryTable) : Prop where
  unmoved : ∀ u ∈ us, ∀ e ∈ t.rows, carries u e = true →
    e.relativePath = u.localPath ∧ e.isDirectory = (u.remoteType == "folder")
  covered : ∀ e ∈ t.rows, e.syncRootId = syncRootId →
    (∃ u ∈ us, carries u e = true) ∨ Lost us e
  restored : ∀ u ∈ us, ∀ e ∈ t.rows, carries u e = true →
    u.remoteType ≠ "folder" → u.remoteDeletedAt = none →
    e.syncedRemoteUpdatedAt = some u.remoteUpdatedAt →
    ∃ v ∈ before, v.remoteId = u.remoteId ∧ v.remoteDeletedAt = none

/-! ## Taking up a listing -/

/-- An upsert does not take what it writes for a synchronised state. -/
theorem synced_updateCarrier {e : Entry} (h : InOrder e)
    (u : RemoteEntryUpsert) :
    (updateCarrier u e).syncedRemoteUpdatedAt = e.syncedRemoteUpdatedAt := by
  simp only [updateCarrier]
  split
  next htaken =>
      simp only [Bool.and_eq_true] at htaken
      have hsynced := h.hashed htaken.1.2
      rw [Option.isNone_iff_eq_none.mp htaken.1.1.1] at hsynced
      cases hsynced
  next => rfl

theorem inOrder_updateCarrier {e : Entry} (h : InOrder e)
    {u : RemoteEntryUpsert} (hplain : PlainPath u.localPath) :
    InOrder (updateCarrier u e) where
  present := h.present
  calm := h.calm
  hashes := h.hashes
  hashed := by
    rw [synced_updateCarrier h]
    exact h.hashed
  known := h.known
  plain := hplain

theorem inOrder_newRemote {u : RemoteEntryUpsert}
    (hplain : PlainPath u.localPath) (n : Nat) : InOrder (newRemote u n) where
  present := rfl
  calm := rfl
  hashes := rfl
  hashed := fun hsome => by cases hsome
  known := rfl
  plain := hplain

/-- What an upsert leaves at its path: the object's row moved on, or a new
one. -/
def Taken (t : EntryTable) (u : RemoteEntryUpsert) (e : Entry) : Prop :=
  (∃ f ∈ t.rows, carries u f = true ∧ e = updateCarrier u f) ∨
    ((∀ f ∈ t.rows, carries u f = false) ∧ ∃ n, e = newRemote u n)

/-- The table after some of the upserts. -/
structure Midway (syncRootId : String) (done : List RemoteEntryUpsert)
    (t t' : EntryTable) : Prop where
  rows : ∀ e ∈ t'.rows, e.syncRootId = syncRootId →
    (∃ u ∈ done, Records u e ∧ Taken t u e) ∨
      (e ∈ t.rows ∧ ∀ u ∈ done, carries u e = false)
  listed : ∀ u ∈ done, ∃ e ∈ t'.rows, Records u e ∧ Taken t u e
  kept : ∀ e ∈ t.rows, e.syncRootId = syncRootId →
    (∀ u ∈ done, carries u e = false) → e ∈ t'.rows

section TakeUp

variable {syncRootId : String} {before us done : List RemoteEntryUpsert}
  {u : RemoteEntryUpsert} {t t' : EntryTable}

/-- An object that lies below a deleted folder is not shown. -/
theorem ShowsTree.not_lost (h : ShowsTree syncRootId us) (hu : u ∈ us)
    {e : Entry} (hpath : e.relativePath = u.localPath) : ¬Lost us e := by
  rintro ⟨d, hd, -, hdeleted, hbelow⟩
  rw [hpath] at hbelow
  rw [(h.above hu hd hbelow).2] at hdeleted
  cases hdeleted

/-- The row at the path of an object is the object's. -/
theorem Continues.carried_of_path (hc : Continues before us syncRootId t)
    (h : ShowsTree syncRootId us) (hu : u ∈ us) {e : Entry} (he : e ∈ t.rows)
    (hroot : e.syncRootId = syncRootId)
    (hpath : e.relativePath = u.localPath) : carries u e = true := by
  rcases hc.covered e he hroot with ⟨v, hv, hcarries⟩ | hlost
  · have hsame : v = u := h.eq_of_path hv hu
      ((hc.unmoved v hv e he hcarries).1.symm.trans hpath)
    rw [← hsame]
    exact hcarries
  · exact absurd hlost (h.not_lost hu hpath)

/-- One upsert. -/
theorem Midway.step (hm : Midway syncRootId done t t')
    (hc : Continues before us syncRootId t) (h : ShowsTree syncRootId us)
    (hu : u ∈ us) (hdone : ∀ v ∈ done, v ∈ us ∧ v ≠ u) :
    ∃ t'', upsertRemoteEntry t' u = some t'' ∧
      Midway syncRootId (done ++ [u]) t t'' := by
  have huroot := h.root u hu
  -- No row that has been written carries the object or stands at its path.
  have hold : ∀ e ∈ t'.rows, e.syncRootId = syncRootId →
      carries u e = true ∨ e.relativePath = u.localPath →
        e ∈ t.rows ∧ e.relativePath = u.localPath ∧ carries u e = true := by
    intro e he hroot hboth
    rcases hm.rows e he hroot with ⟨v, hv, hrecords, -⟩ | ⟨hin, -⟩
    · exfalso
      obtain ⟨hvus, hne⟩ := hdone v hv
      rcases hboth with hcarries | hpath
      · have hid := ((carries_iff u e).mp hcarries).2
        rw [hrecords.remoteId, Option.some.injEq] at hid
        exact hne (h.eq_of_id hvus hu hid)
      · exact hne (h.eq_of_path hvus hu (hrecords.path.symm.trans hpath))
    · rcases hboth with hcarries | hpath
      · exact ⟨hin, (hc.unmoved u hu e hin hcarries).1, hcarries⟩
      · exact ⟨hin, hpath, hc.carried_of_path h hu hin hroot hpath⟩
  have hcarrier : ∀ e ∈ t'.rows, carries u e = true →
      e ∈ t.rows ∧ e.relativePath = u.localPath := by
    intro e he hcarries
    have hroot := ((carries_iff u e).mp hcarries).1.trans huroot
    obtain ⟨hin, hpath, -⟩ := hold e he hroot (Or.inl hcarries)
    exact ⟨hin, hpath⟩
  have hatPath : ∀ e ∈ t'.rows, e.key = (u.syncRootId, u.localPath) →
      carries u e = true := by
    intro e he hkey
    obtain ⟨hroot, hpath⟩ := Prod.mk.inj hkey
    exact (hold e he (hroot.trans huroot) (Or.inr hpath)).2.2
  have hkeyOf : ∀ e ∈ t'.rows, carries u e = true →
      e.key = (u.syncRootId, u.localPath) := by
    intro e he hcarries
    have hroot := ((carries_iff u e).mp hcarries).1
    rw [Entry.key, hroot, (hcarrier e he hcarries).2]
  have hsome : (upsertRemoteEntry t' u).isSome := by
    apply upsertRemoteEntry_isSome
    intro e he hcarries f hf hboth
    apply t'.eq_of_key_eq hf he
    rw [hkeyOf e he hcarries]
    rcases hboth with hcarries' | hkey
    · exact hkeyOf f hf hcarries'
    · exact hkey
  obtain ⟨t'', ht''⟩ := Option.isSome_iff_exists.mp hsome
  have hnot : ∀ e, (∀ v ∈ done ++ [u], carries v e = false) ↔
      (∀ v ∈ done, carries v e = false) ∧ carries u e = false := by
    intro e
    simp only [List.mem_append, List.mem_singleton]
    constructor
    · intro hall
      exact ⟨fun v hv => hall v (Or.inl hv), hall u (Or.inr rfl)⟩
    · rintro ⟨hall, hself⟩ v (hv | rfl)
      · exact hall v hv
      · exact hself
  -- A row of the old table that carries the object is still there.
  have hfound : ∀ f ∈ t.rows, carries u f = true → f ∈ t'.rows := by
    intro f hf hcarries
    apply hm.kept f hf (((carries_iff u f).mp hcarries).1.trans huroot)
    intro v hv
    cases hother : carries v f with
    | false => rfl
    | true =>
        obtain ⟨hvus, hne⟩ := hdone v hv
        have hid := ((carries_iff v f).mp hother).2
        rw [((carries_iff u f).mp hcarries).2, Option.some.injEq] at hid
        exact absurd (h.eq_of_id hvus hu hid.symm) hne
  have hrow : ∀ e ∈ t''.rows, (Records u e ∧ Taken t u e) ∨
      (e ∈ t'.rows ∧ carries u e = false) := by
    intro e he
    unfold upsertRemoteEntry at ht''
    split at ht''
    next hany =>
        obtain ⟨f, hf, hfe⟩ := (KeyedTable.mem_update ht'' e).mp he
        split at hfe
        next hcarries =>
            left
            rw [hfe]
            exact ⟨updateCarrier_records hcarries,
              Or.inl ⟨f, (hcarrier f hf hcarries).1, hcarries, rfl⟩⟩
        next hcarries =>
            right
            rw [hfe]
            exact ⟨hf, by simpa using hcarries⟩
    next hany =>
        have hnone : ∀ f ∈ t'.rows, carries u f = false := by
          intro f hf
          cases hcarries : carries u f with
          | false => rfl
          | true => exact absurd (List.any_eq_true.mpr ⟨f, hf, hcarries⟩) hany
        have hfree : t'.lookup (u.syncRootId, u.localPath) = none := by
          rw [t'.lookup_eq_none_iff]
          intro f hf hkey
          have hcarries := hatPath f hf hkey
          rw [hnone f hf] at hcarries
          cases hcarries
        cases ht''
        rcases (t'.mem_upsert _ _ _ _ _ _ _ e).mp he with hnew | ⟨hin, -⟩
        · left
          rw [KeyedTable.upserted_of_none hfree] at hnew
          rw [hnew]
          refine ⟨newRemote_records u _, Or.inr ⟨?_, _, rfl⟩⟩
          intro f hf
          cases hcarries : carries u f with
          | false => rfl
          | true =>
              have hmissing := hnone f (hfound f hf hcarries)
              rw [hcarries] at hmissing
              cases hmissing
        · exact Or.inr ⟨hin, hnone e hin⟩
  have hother : ∀ e ∈ t'.rows, carries u e = false → e ∈ t''.rows := by
    intro e he hcarries
    apply upsertRemoteEntry_other ht'' he hcarries
    intro hkey
    rw [hatPath e he hkey] at hcarries
    cases hcarries
  refine ⟨t'', ht'', ?_, ?_, ?_⟩
  · intro e he hroot
    rcases hrow e he with hnew | ⟨hin, hcarries⟩
    · exact Or.inl ⟨u, by simp, hnew⟩
    · rcases hm.rows e hin hroot with ⟨v, hv, hrecords⟩ | ⟨hin', hrest⟩
      · exact Or.inl ⟨v, List.mem_append_left _ hv, hrecords⟩
      · exact Or.inr ⟨hin', (hnot e).mpr ⟨hrest, hcarries⟩⟩
  · intro v hv
    rcases List.mem_append.mp hv with hv | hlast
    · obtain ⟨e, he, hrecords, htaken⟩ := hm.listed v hv
      refine ⟨e, hother e he ?_, hrecords, htaken⟩
      cases hcarries : carries u e with
      | false => rfl
      | true =>
          have hid := ((carries_iff u e).mp hcarries).2
          rw [hrecords.remoteId, Option.some.injEq] at hid
          obtain ⟨hvus, hne⟩ := hdone v hv
          exact absurd (h.eq_of_id hvus hu hid) hne
    · rw [List.mem_singleton.mp hlast]
      obtain ⟨e, hfind, hrecords⟩ := upsertRemoteEntry_self ht''
      have he := ((EntryRepo.findEntryByPath_eq_some_iff _ _ _ _).mp hfind).1
      refine ⟨e, he, hrecords, ?_⟩
      rcases hrow e he with ⟨-, htaken⟩ | ⟨-, hcarries⟩
      · exact htaken
      · rw [(carries_iff u e).mpr ⟨hrecords.root, hrecords.remoteId⟩] at hcarries
        cases hcarries
  · intro e he hroot hrest
    obtain ⟨hall, hcarries⟩ := (hnot e).mp hrest
    exact hother e (hm.kept e he hroot hall) hcarries

/-- All of them. -/
theorem midway_applyAll (hc : Continues before us syncRootId t)
    (h : ShowsTree syncRootId us) :
    ∃ t', applyAll us t = some t' ∧ Midway syncRootId us t t' := by
  suffices hrest : ∀ rest done t', us = done ++ rest →
      Midway syncRootId done t t' →
      ∃ t'', applyAll rest t' = some t'' ∧ Midway syncRootId us t t'' by
    refine hrest us [] t rfl ⟨?_, by simp, ?_⟩
    · intro e he _
      exact Or.inr ⟨he, by simp⟩
    · intro e he _ _
      exact he
  intro rest
  induction rest with
  | nil =>
      intro done t' hsplit hm
      rw [List.append_nil] at hsplit
      rw [hsplit]
      exact ⟨t', rfl, hm⟩
  | cons u rest ih =>
      intro done t' hsplit hm
      have hu : u ∈ us := by
        rw [hsplit]
        exact List.mem_append_right _ List.mem_cons_self
      have hdone : ∀ v ∈ done, v ∈ us ∧ v ≠ u := by
        intro v hv
        have hids := h.ids
        rw [hsplit, List.map_append, List.nodup_append] at hids
        refine ⟨by rw [hsplit]; exact List.mem_append_left _ hv, ?_⟩
        intro hsame
        exact hids.2.2 _ (List.mem_map_of_mem hv) _
          (List.mem_map_of_mem List.mem_cons_self) (by rw [hsame])
      obtain ⟨t'', ht'', hm'⟩ := hm.step hc h hu hdone
      obtain ⟨last, hlast, hfinal⟩ := ih (done ++ [u]) t''
        (by rw [hsplit, List.append_assoc]; rfl) hm'
      refine ⟨last, ?_, hfinal⟩
      rw [applyAll_cons, ht'']
      exact hlast

end TakeUp

section TakeUp

variable {r : Replica} {syncRootId : String}
  {before us : List RemoteEntryUpsert} {w : World}

/-- A row that is at the version of a live file already has the file. -/
theorem Pulled.version_of_taken (hp : Pulled r before syncRootId w)
    (hc : Continues before us syncRootId w.entries) {u : RemoteEntryUpsert}
    (hu : u ∈ us) {e : Entry} (htaken : Taken w.entries u e)
    (hfile : u.remoteType ≠ "folder") (hlive : u.remoteDeletedAt = none)
    (hsynced : e.syncedRemoteUpdatedAt = some u.remoteUpdatedAt)
    (huroot : u.syncRootId = syncRootId) : HasVersion r w.disk e u := by
  rcases htaken with ⟨f, hf, hcarries, hfe⟩ | ⟨-, n, hnew⟩
  · obtain ⟨hfroot, hfid⟩ := (carries_iff u f).mp hcarries
    have hfin := (hp.rows f hf (hfroot.trans huroot)).1.toInOrder
    rw [hfe, synced_updateCarrier hfin] at hsynced
    obtain ⟨v, hv, hvid, hvlive⟩ :=
      hc.restored u hu f hf hcarries hfile hlive hsynced
    obtain ⟨g, hg, hrecords, hversion⟩ := hp.listed v hv
    -- The row of the object from before is the one that is taken up.
    have hgcarries : carries u g = true := by
      rw [carries_iff, hrecords.root, hp.own v hv, huroot, hrecords.remoteId,
        hvid]
      exact ⟨rfl, rfl⟩
    obtain ⟨hfpath, hfkind⟩ := hc.unmoved u hu f hf hcarries
    obtain ⟨hgpath, -⟩ := hc.unmoved u hu g hg hgcarries
    have hsame : g = f := by
      apply EntryRepo.eq_of_path_eq w.entries hg hf
      · rw [((carries_iff u g).mp hgcarries).1, hfroot]
      · rw [hgpath, hfpath]
    subst hsame
    have hkind : g.isDirectory = false := by
      rw [hfkind]
      simpa using hfile
    have hvfile : v.remoteType ≠ "folder" := by
      have hdirectory := hrecords.directory
      rw [hkind] at hdirectory
      simpa using hdirectory.symm
    have hdeleted : g.remoteDeletedAt = none := hrecords.deletedAt.trans hvlive
    have hcurrent := (hp.rows g hg (hfroot.trans huroot)).1.current hkind
      hdeleted
    rw [hrecords.updatedAt, hsynced, Option.some.injEq] at hcurrent
    obtain ⟨file, hget, hcontent, hsize, hmtime, hhash⟩ :=
      hversion hvfile hvlive
    rw [hfe]
    refine ⟨file, ?_, ?_, hsize, hmtime, hhash⟩
    · rw [← hget]
      show w.disk.get (r.base ++ namesOf u.localPath) = _
      rw [hfpath]
    · rw [hcontent, hvid, hcurrent]
  · rw [hnew] at hsynced
    cases hsynced

/-- A listing that continues the one before is taken up, and its objects have
rows. -/
theorem Pulled.takes_up (hp : Pulled r before syncRootId w)
    (hc : Continues before us syncRootId w.entries)
    (h : ShowsTree syncRootId us) :
    ∃ t', applyAll us w.entries = some t' ∧
      Listed r us syncRootId { w with entries := t' } := by
  obtain ⟨t', ht', hm⟩ := midway_applyAll hc h
  refine ⟨t', ht', ?_, ?_, ?_, hp.base⟩
  · intro e he hroot
    rcases hm.rows e he hroot with ⟨u, hu, hrecords, htaken⟩ | ⟨hin, hrest⟩
    · refine ⟨?_, Or.inl ⟨u, hu, hrecords⟩⟩
      rcases htaken with ⟨f, hf, hcarries, hfe⟩ | ⟨-, n, hnew⟩
      · have hfroot := ((carries_iff u f).mp hcarries).1.trans (h.root u hu)
        rw [hfe]
        exact inOrder_updateCarrier (hp.rows f hf hfroot).1.toInOrder
          (h.plain u hu)
      · rw [hnew]
        exact inOrder_newRemote (h.plain u hu) n
    · have hsettled := (hp.rows e hin hroot).1
      rcases hc.covered e hin hroot with ⟨u, hu, hcarries⟩ | hlost
      · rw [hrest u hu] at hcarries
        cases hcarries
      · exact ⟨hsettled.toInOrder, Or.inr ⟨hlost, hsettled⟩⟩
  · intro u hu
    obtain ⟨e, he, hrecords, htaken⟩ := hm.listed u hu
    refine ⟨e, he, hrecords, ?_⟩
    intro hfile hlive hsynced
    exact hp.version_of_taken hc hu htaken hfile hlive hsynced (h.root u hu)
  · intro names node hne hnode
    obtain ⟨v, hv, hnames, -, hkind⟩ := hp.shown names node hne hnode
    obtain ⟨g, hg, hrecords, -⟩ := hp.listed v hv
    have hgroot : g.syncRootId = syncRootId := hrecords.root.trans (hp.own v hv)
    -- Its row has gone on to the new listing, or is as it was.
    have hrow : ∃ e ∈ t'.rows, e.syncRootId = syncRootId ∧
        e.relativePath = g.relativePath ∧ e.isDirectory = g.isDirectory := by
      by_cases hcarried : ∃ u ∈ us, carries u g = true
      · obtain ⟨u, hu, hcarries⟩ := hcarried
        obtain ⟨e, he, herecords, -⟩ := hm.listed u hu
        obtain ⟨hpath, hdirectory⟩ := hc.unmoved u hu g hg hcarries
        exact ⟨e, he, herecords.root.trans (h.root u hu),
          herecords.path.trans hpath.symm,
          herecords.directory.trans hdirectory.symm⟩
      · refine ⟨g, hm.kept g hg hgroot ?_, hgroot, rfl, rfl⟩
        intro u hu
        cases hcarries : carries u g with
        | false => rfl
        | true => exact absurd ⟨u, hu, hcarries⟩ hcarried
    obtain ⟨e, he, hroot, hpath, hdirectory⟩ := hrow
    refine ⟨e, he, hroot, ?_, ?_⟩
    · rw [hpath, hrecords.path, hnames]
    · rw [hdirectory, hrecords.directory]
      simpa using hkind

end TakeUp

end ArkiveSync.Pulls
