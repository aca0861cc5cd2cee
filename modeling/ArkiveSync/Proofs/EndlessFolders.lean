import ArkiveSync.Proofs.Pagination
import Mathlib.Order.WellFounded

/-!
# Folders that contain themselves

`scanFolder` goes on into whatever folder the server names, and keeps no list
of the folders it is in.  So it comes to an end when the listings allow only
finite descents, whatever the vault and the table are; and where they allow an
endless one, there are a vault and a table for which it never does.

A scan may also stop early, when the table rejects an upsert or a name does
not decrypt.  For the second half the vault and the table are therefore chosen
so that this cannot happen: every row stays at the place of its object.

## Main results

* `scanFolder_finishes`: finite descents bound the depth of every scan.
* `Unfailing.scanFolder_exhausted`: a scan that nothing stops follows an
  endless descent.
* `scanRoot_finishes_iff`: the two together.
-/

namespace ArkiveSync.RemoteScanner

open Library

/-! ## Descents -/

section Descents

variable (getJson : String → Option Json)

/-- The listing of `folderId` shows the live folder `sub`. -/
def Leads (sub folderId : Option String) : Prop :=
  ∃ entry ∈ firstPage getJson folderId, ∃ id,
    subfolder entry = some id ∧ sub = some id

/-- A chain of folders, each shown by the one before, that goes on for ever.
A folder that is listed below itself gives one. -/
def Endless (folderId : Option String) : Prop :=
  ∃ chain : Nat → Option String, chain 0 = folderId ∧
    ∀ n, Leads getJson (chain (n + 1)) (chain n)

/-- The scan makes finitely many requests and then returns or throws. -/
def Finishes (v : NameVault) (root : SyncRoot) (t : EntryTable) : Prop :=
  ∃ depth, ∀ fuel ≥ depth, (scanRoot getJson v root fuel t).status ≠ .exhausted

end Descents

variable {getJson : String → Option Json} {v : NameVault} {syncRootId : String}

theorem endless_of_self {folderId : Option String}
    (h : Leads getJson folderId folderId) : Endless getJson folderId :=
  ⟨fun _ => folderId, rfl, fun _ => h⟩

theorem Endless.step {folderId : Option String} (h : Endless getJson folderId) :
    ∃ entry ∈ firstPage getJson folderId, ∃ id,
      subfolder entry = some id ∧ Endless getJson (some id) := by
  obtain ⟨chain, hzero, hchain⟩ := h
  obtain ⟨entry, hentry, id, hsub, hnext⟩ := hchain 0
  rw [hzero] at hentry
  refine ⟨entry, hentry, id, hsub, fun n => chain (n + 1), hnext, ?_⟩
  intro n
  exact hchain (n + 1)

theorem acc_of_not_endless {folderId : Option String}
    (h : ¬ Endless getJson folderId) : Acc (Leads getJson) folderId := by
  by_contra hacc
  exact h (not_acc_iff_exists_descending_chain.mp hacc)

theorem mem_firstPage_iff {folderId : Option String}
    {entry : SyncEntryResponse} :
    entry ∈ firstPage getJson folderId ↔
      ∃ response, fetchEntries getJson folderId = some response ∧
        entry ∈ response.entries := by
  unfold firstPage
  cases fetchEntries getJson folderId with
  | none => simp
  | some response => simp

/-! ## Finite descents -/

/-- Bounds of finitely many entries have a common one. -/
theorem exists_common_bound {α : Type} {P : α → Nat → Prop} (xs : List α)
    (h : ∀ x ∈ xs, ∃ bound, ∀ n ≥ bound, P x n) :
    ∃ bound, ∀ x ∈ xs, ∀ n ≥ bound, P x n := by
  induction xs with
  | nil => exact ⟨0, by simp⟩
  | cons x xs ih =>
      obtain ⟨first, hfirst⟩ := h x (by simp)
      obtain ⟨rest, hrest⟩ := ih (fun y hy => h y (by simp [hy]))
      refine ⟨max first rest, ?_⟩
      intro y hy n hn
      rcases List.mem_cons.mp hy with rfl | hy
      · exact hfirst n (by omega)
      · exact hrest y hy n (by omega)

theorem andThen_not_exhausted {first : Scanned} {next : EntryTable → Scanned}
    (hfirst : first.status ≠ .exhausted)
    (hnext : (next first.entries).status ≠ .exhausted) :
    (first.andThen next).status ≠ .exhausted := by
  unfold Scanned.andThen
  split
  · exact hnext
  · exact hfirst

theorem issue_not_exhausted (u : RemoteEntryUpsert) (t : EntryTable) :
    (issue u t).status ≠ .exhausted := by
  unfold issue
  split
  · simp
  · simp

theorem scanEntry_not_exhausted {sub : FolderScan} {parent : FsPath}
    {entry : SyncEntryResponse} {t : EntryTable}
    (hsub : ∀ id, subfolder entry = some id → ∀ path t,
      (sub (some id) path t).status ≠ .exhausted) :
    (scanEntry v syncRootId sub parent entry t).status ≠ .exhausted := by
  unfold scanEntry
  simp only
  split
  · simp
  · split
    · simp
    · split
      · exact issue_not_exhausted _ _
      next id hid =>
          exact andThen_not_exhausted (issue_not_exhausted _ _)
            (hsub id hid _ _)

theorem scanEntries_not_exhausted {sub : FolderScan} {parent : FsPath}
    {entries : List SyncEntryResponse} {t : EntryTable}
    (hsub : ∀ entry ∈ entries, ∀ id, subfolder entry = some id → ∀ path t,
      (sub (some id) path t).status ≠ .exhausted) :
    (scanEntries v syncRootId sub parent entries t).status ≠ .exhausted := by
  induction entries generalizing t with
  | nil => simp [scanEntries]
  | cons entry rest ih =>
      apply andThen_not_exhausted
      · exact scanEntry_not_exhausted (hsub entry (by simp))
      · exact ih (fun e he => hsub e (by simp [he]))

/-- Finite descents bound the depth of a scan, for every vault and every
table. -/
theorem scanFolder_finishes {folderId : Option String}
    (h : Acc (Leads getJson) folderId) :
    ∃ depth, ∀ fuel ≥ depth, ∀ v syncRootId parent t,
      (scanFolder getJson v syncRootId fuel folderId parent t).status ≠
        .exhausted := by
  induction h with
  | intro folderId _ ih =>
      have hbelow : ∀ entry ∈ firstPage getJson folderId, ∃ depth,
          ∀ fuel ≥ depth, ∀ id, subfolder entry = some id →
            ∀ v syncRootId parent t,
              (scanFolder getJson v syncRootId fuel (some id) parent t).status
                ≠ .exhausted := by
        intro entry hentry
        cases hsub : subfolder entry with
        | none => exact ⟨0, by simp⟩
        | some id =>
            obtain ⟨depth, hdepth⟩ :=
              ih (some id) ⟨entry, hentry, id, hsub, rfl⟩
            refine ⟨depth, ?_⟩
            intro fuel hfuel id' hid'
            cases hid'
            exact hdepth fuel hfuel
      obtain ⟨depth, hdepth⟩ := exists_common_bound _ hbelow
      refine ⟨depth + 1, ?_⟩
      intro fuel hfuel v syncRootId parent t
      obtain ⟨less, rfl⟩ : ∃ less, fuel = less + 1 := ⟨fuel - 1, by omega⟩
      simp only [scanFolder]
      split
      · simp
      next response hresponse =>
          apply scanEntries_not_exhausted
          intro entry hentry id hid path t
          have hmem : entry ∈ firstPage getJson folderId :=
            mem_firstPage_iff.mpr ⟨response, hresponse, hentry⟩
          exact hdepth entry hmem less (by omega) id hid _ _ _ _

/-! ## Scans that nothing stops -/

/-- Every request is answered, every name decrypts, and as long as the table
is `Fit` every upsert is accepted and leaves it so; the entries that show a
folder are never skipped. -/
structure Unfailing (getJson : String → Option Json) (v : NameVault)
    (syncRootId : String) (Fit : EntryTable → Prop) : Prop where
  answered : ∀ folderId, (fetchEntries getJson folderId).isSome = true
  decrypted : ∀ folderId, ∀ entry ∈ firstPage getJson folderId,
    (decryptEntryName v entry).isSome = true
  accepted : ∀ folderId, ∀ entry ∈ firstPage getJson folderId,
    ∀ t, Fit t → ∀ parent name path,
      decryptEntryName v entry = some name →
      localPathOf parent name
        (EntryRepo.findEntryByRemoteId t syncRootId entry.remoteId) =
          some path →
      ∃ t', RemoteEntryRepo.upsertRemoteEntry t
        (upsertOf syncRootId path entry) = some t' ∧ Fit t'
  followed : ∀ folderId, ∀ entry ∈ firstPage getJson folderId,
    ∀ t, Fit t → ∀ parent name,
      decryptEntryName v entry = some name → (subfolder entry).isSome = true →
      (localPathOf parent name (EntryRepo.findEntryByRemoteId t syncRootId
        entry.remoteId)).isSome = true

section Unfailing

variable {Fit : EntryTable → Prop}

/-- A scan either runs on for ever or returns with a fit table. -/
def RunsOn (Fit : EntryTable → Prop) (r : Scanned) : Prop :=
  r.status = .exhausted ∨ (r.status = .returned ∧ Fit r.entries)

theorem RunsOn.andThen {first : Scanned} {next : EntryTable → Scanned}
    (hfirst : RunsOn Fit first) (hnext : ∀ t, Fit t → RunsOn Fit (next t)) :
    RunsOn Fit (first.andThen next) := by
  rcases hfirst with hstop | ⟨hreturned, hfit⟩
  · left
    unfold Scanned.andThen
    rw [hstop]
    exact hstop
  · have hrest := hnext first.entries hfit
    unfold Scanned.andThen
    rw [hreturned]
    exact hrest

theorem andThen_exhausted_left {first : Scanned} {next : EntryTable → Scanned}
    (h : first.status = .exhausted) :
    (first.andThen next).status = .exhausted := by
  unfold Scanned.andThen
  rw [h]
  exact h

theorem andThen_exhausted_right {first : Scanned}
    {next : EntryTable → Scanned} (hfirst : RunsOn Fit first)
    (hnext : ∀ t, Fit t → (next t).status = .exhausted) :
    (first.andThen next).status = .exhausted := by
  rcases hfirst with hstop | ⟨hreturned, hfit⟩
  · exact andThen_exhausted_left hstop
  · unfold Scanned.andThen
    rw [hreturned]
    exact hnext first.entries hfit

variable (h : Unfailing getJson v syncRootId Fit)
  (sub : FolderScan) {folderId : Option String} (parent : FsPath)
include h

/-- One entry: it is skipped, or its upsert is accepted and its folder
scanned. -/
theorem Unfailing.scanEntry_cases {entry : SyncEntryResponse}
    (hentry : entry ∈ firstPage getJson folderId) {t : EntryTable}
    (ht : Fit t) :
    (subfolder entry = none ∧
      RunsOn Fit (scanEntry v syncRootId sub parent entry t)) ∨
    ∃ id path t', subfolder entry = some id ∧ Fit t' ∧
      ∃ here : Scanned, here.status = .returned ∧ here.entries = t' ∧
        scanEntry v syncRootId sub parent entry t =
          here.andThen (sub (some id) path) := by
  obtain ⟨name, hname⟩ :=
    Option.isSome_iff_exists.mp (h.decrypted folderId entry hentry)
  unfold scanEntry
  simp only [hname]
  cases hpath : localPathOf parent name
      (EntryRepo.findEntryByRemoteId t syncRootId entry.remoteId) with
  | none =>
      left
      constructor
      · cases hsub : subfolder entry with
        | none => rfl
        | some id =>
            have hplaced := h.followed folderId entry hentry t ht parent name
              hname (by simp [hsub])
            rw [hpath] at hplaced
            cases hplaced
      · exact Or.inr ⟨rfl, ht⟩
  | some path =>
      obtain ⟨t', hupsert, hfit⟩ :=
        h.accepted folderId entry hentry t ht parent name path hname hpath
      have hissue : issue (upsertOf syncRootId path entry) t =
          { entries := t', upserts := [upsertOf syncRootId path entry]
            status := .returned } := by
        simp [issue, hupsert]
      cases hsub : subfolder entry with
      | none =>
          left
          simp only [hissue]
          exact ⟨trivial, Or.inr ⟨rfl, hfit⟩⟩
      | some id =>
          right
          exact ⟨id, FsPath.parse path, t', rfl, hfit, _, by simp [hissue],
            by simp [hissue], rfl⟩

theorem Unfailing.scanEntry_runsOn
    (hsub : ∀ id path t, Fit t → RunsOn Fit (sub (some id) path t))
    {entry : SyncEntryResponse} (hentry : entry ∈ firstPage getJson folderId)
    {t : EntryTable} (ht : Fit t) :
    RunsOn Fit (scanEntry v syncRootId sub parent entry t) := by
  rcases h.scanEntry_cases sub parent hentry ht with
    ⟨_, hrun⟩ | ⟨id, path, t', _, hfit, here, hreturned, hentries, heq⟩
  · exact hrun
  · rw [heq]
    have hhere : RunsOn Fit here := Or.inr ⟨hreturned, by rwa [hentries]⟩
    exact hhere.andThen (hsub id path)

theorem Unfailing.scanEntries_runsOn
    (hsub : ∀ id path t, Fit t → RunsOn Fit (sub (some id) path t))
    {entries : List SyncEntryResponse}
    (hentries : ∀ entry ∈ entries, entry ∈ firstPage getJson folderId)
    {t : EntryTable} (ht : Fit t) :
    RunsOn Fit (scanEntries v syncRootId sub parent entries t) := by
  induction entries generalizing t with
  | nil => exact Or.inr ⟨rfl, ht⟩
  | cons entry rest ih =>
      have hfirst := h.scanEntry_runsOn sub parent hsub
        (hentries entry (by simp)) ht
      apply hfirst.andThen
      intro t' ht'
      exact ih (fun e he => hentries e (by simp [he])) ht'

/-- Past an entry whose folder is never left, nothing is scanned. -/
theorem Unfailing.scanEntries_exhausted
    (hsub : ∀ id path t, Fit t → RunsOn Fit (sub (some id) path t))
    {entries : List SyncEntryResponse}
    (hentries : ∀ entry ∈ entries, entry ∈ firstPage getJson folderId)
    {entry : SyncEntryResponse} (hentry : entry ∈ entries) {id : String}
    (hid : subfolder entry = some id)
    (hstuck : ∀ path t, Fit t → (sub (some id) path t).status = .exhausted)
    {t : EntryTable} (ht : Fit t) :
    (scanEntries v syncRootId sub parent entries t).status = .exhausted := by
  induction entries generalizing t with
  | nil => cases hentry
  | cons first rest ih =>
      have hfirst := h.scanEntry_runsOn sub parent hsub
        (hentries first (by simp)) ht
      rcases List.mem_cons.mp hentry with rfl | hrest
      · apply andThen_exhausted_left
        rcases h.scanEntry_cases sub parent
            (hentries entry (by simp)) ht with
          ⟨hnone, _⟩ | ⟨id', path, t', hid', hfit, here, hreturned, heq, hscan⟩
        · rw [hid] at hnone
          cases hnone
        · rw [hid] at hid'
          cases hid'
          have hhere : RunsOn Fit here := Or.inr ⟨hreturned, by rwa [heq]⟩
          rw [hscan]
          exact andThen_exhausted_right hhere (hstuck path)
      · apply andThen_exhausted_right hfirst
        intro t' ht'
        exact ih (fun e he => hentries e (by simp [he])) hrest ht'

theorem Unfailing.scanFolder_runsOn (fuel : Nat) {t : EntryTable}
    (ht : Fit t) :
    RunsOn Fit (scanFolder getJson v syncRootId fuel folderId parent t) := by
  induction fuel generalizing folderId parent t with
  | zero => exact Or.inl rfl
  | succ fuel ih =>
      obtain ⟨response, hresponse⟩ :=
        Option.isSome_iff_exists.mp (h.answered folderId)
      simp only [scanFolder, hresponse]
      have hshown : ∀ entry ∈ response.entries,
          entry ∈ firstPage getJson folderId := fun entry hentry =>
        mem_firstPage_iff.mpr ⟨response, hresponse, hentry⟩
      exact h.scanEntries_runsOn _ parent (fun id path t ht => ih _ ht) hshown ht

/-- A scan that nothing stops follows an endless descent for ever. -/
theorem Unfailing.scanFolder_exhausted (hendless : Endless getJson folderId)
    (fuel : Nat) {t : EntryTable} (ht : Fit t) :
    (scanFolder getJson v syncRootId fuel folderId parent t).status =
      .exhausted := by
  induction fuel generalizing folderId parent t with
  | zero => rfl
  | succ fuel ih =>
      obtain ⟨entry, hentry, id, hid, hbelow⟩ := hendless.step
      obtain ⟨response, hresponse, hmem⟩ := mem_firstPage_iff.mp hentry
      simp only [scanFolder, hresponse]
      have hshown : ∀ entry ∈ response.entries,
          entry ∈ firstPage getJson folderId := fun entry hentry =>
        mem_firstPage_iff.mpr ⟨response, hresponse, hentry⟩
      exact h.scanEntries_exhausted _ parent
        (fun id path t ht => h.scanFolder_runsOn path fuel ht) hshown hmem hid
        (fun path t ht => ih path hbelow ht) ht

end Unfailing

/-! ## Rows that stay at the place of their object -/

/-- Every row of the root belongs to an object and is at its place. -/
def AtPlaces (place : String → String) (syncRootId : String) (t : EntryTable) :
    Prop :=
  ∀ row ∈ t.rows, row.syncRootId = syncRootId →
    ∃ id, row.remoteId = some id ∧ row.relativePath = place id

section AtPlaces

variable {place : String → String} {t : EntryTable} {u : RemoteEntryUpsert}

/-- An upsert at the place of its object is accepted. -/
theorem AtPlaces.upsert (h : AtPlaces place syncRootId t)
    (hroot : u.syncRootId = syncRootId) (hpath : u.localPath = place u.remoteId) :
    ∃ t', RemoteEntryRepo.upsertRemoteEntry t u = some t' ∧
      AtPlaces place syncRootId t' := by
  have hkey : ∀ row ∈ t.rows, RemoteEntryRepo.carries u row = true →
      row.key = (u.syncRootId, u.localPath) := by
    intro row hrow hcarries
    obtain ⟨hrowRoot, hrowId⟩ := (RemoteEntryRepo.carries_iff u row).mp hcarries
    obtain ⟨id, hid, hplace⟩ := h row hrow (hrowRoot.trans hroot)
    rw [hrowId] at hid
    cases hid
    simp [Entry.key, hrowRoot, hplace, hpath]
  have hsome : (RemoteEntryRepo.upsertRemoteEntry t u).isSome := by
    apply RemoteEntryRepo.upsertRemoteEntry_isSome
    intro row hrow hcarries other hother hsame
    apply t.eq_of_key_eq hother hrow
    rw [hkey row hrow hcarries]
    rcases hsame with hsame | hsame
    · exact hkey other hother hsame
    · exact hsame
  obtain ⟨t', ht'⟩ := Option.isSome_iff_exists.mp hsome
  refine ⟨t', ht', ?_⟩
  have hrecords : ∀ row, RemoteEntryRepo.Records u row →
      ∃ id, row.remoteId = some id ∧ row.relativePath = place id :=
    fun row hrow => ⟨u.remoteId, hrow.remoteId, hrow.path.trans hpath⟩
  intro row hrow hrowRoot
  rcases RemoteEntryRepo.mem_upsertRemoteEntry ht' row hrow with
    ⟨old, _, hcarries, rfl⟩ | ⟨old, _, hold, rfl⟩ | ⟨rfl, _⟩ | ⟨hold, _, _⟩
  · exact hrecords _ (RemoteEntryRepo.updateCarrier_records hcarries)
  · simp only [Entry.key, Prod.mk.injEq] at hold
    exact hrecords _ (RemoteEntryRepo.takeOver_records hold.1 hold.2)
  · exact hrecords _ (RemoteEntryRepo.newRemote_records u _)
  · exact h row hold hrowRoot

/-- The row of an object is at its place. -/
theorem AtPlaces.found (h : AtPlaces place syncRootId t) {remoteId : String}
    {row : Entry}
    (hrow : EntryRepo.findEntryByRemoteId t syncRootId remoteId = some row) :
    row.relativePath = place remoteId := by
  have hmem := List.mem_of_find?_eq_some hrow
  have hfits := List.find?_some hrow
  simp only [decide_eq_true_eq] at hfits
  obtain ⟨id, hid, hplace⟩ := h row hmem hfits.1
  rw [hfits.2] at hid
  cases hid
  exact hplace

end AtPlaces

/-! ## Vaults in which all plaintexts are one -/

/-- A vault that is open and finds one text in every ciphertext. -/
def vaultOf (json : Json) : NameVault :=
  { unlocked := true
    userId := some "user"
    folderPlaintext := fun _ => some ""
    filePlaintext := fun _ _ _ _ => some ""
    parseJson := fun _ => some json }

theorem decryptEntryName_vaultOf (json : Json) (entry : SyncEntryResponse) :
    decryptEntryName (vaultOf json) entry = some none ∨
      decryptEntryName (vaultOf json) entry = some (nameOfJson json) := by
  have hopen : (vaultOf json).unlocked = true := rfl
  have hfolder : ∀ name, (vaultOf json).folderPlaintext name = some "" :=
    fun _ => rfl
  have hfile : ∀ user id key metadata,
      (vaultOf json).filePlaintext user id key metadata = some "" :=
    fun _ _ _ _ => rfl
  have hparse : ∀ text, (vaultOf json).parseJson text = some json :=
    fun _ => rfl
  unfold decryptEntryName
  simp only [hopen, hfolder, hfile, Option.bind_some, hparse, Option.map_some]
  split
  · exact Or.inl rfl
  · split
    · rename_i h
      cases h
    · split
      · exact Or.inr rfl
      · split
        · split
          · exact Or.inl rfl
          · exact Or.inr rfl
        · exact Or.inl rfl

theorem decryptEntryName_vaultOf_folder (json : Json)
    {entry : SyncEntryResponse} (hfolder : entry.type = "folder")
    (hname : entry.encryptedName.getD "" ≠ "") :
    decryptEntryName (vaultOf json) entry = some (nameOfJson json) := by
  have hempty : (entry.encryptedName.getD "").isEmpty = false := by
    simpa using hname
  have hopen : (vaultOf json).unlocked = true := rfl
  have hplain : ∀ name, (vaultOf json).folderPlaintext name = some "" :=
    fun _ => rfl
  have hparse : ∀ text, (vaultOf json).parseJson text = some json :=
    fun _ => rfl
  unfold decryptEntryName
  simp [hfolder, hempty, hopen, hplain, hparse]

theorem folder_of_subfolder {entry : SyncEntryResponse}
    (h : (subfolder entry).isSome = true) : entry.type = "folder" := by
  by_contra hne
  simp [subfolder, hne] at h

/-! ## Servers of finitely many objects

A vault that finds no name in any plaintext, and a table with a row for every
object: each entry is then met at the path of its row. -/

theorem nameOfJson_empty : nameOfJson (.object []) = none := rfl

theorem decryptEntryName_nameless (entry : SyncEntryResponse) :
    decryptEntryName (vaultOf (.object [])) entry = some none := by
  rcases decryptEntryName_vaultOf (.object []) entry with h | h
  · exact h
  · rw [h, nameOfJson_empty]

/-- The place of an object. -/
def ownPlace (remoteId : String) : String := "at " ++ remoteId

theorem ownPlace_injective {a b : String} (h : ownPlace a = ownPlace b) :
    a = b := by
  have hlists := congrArg String.toList h
  simp only [ownPlace, String.toList_append] at hlists
  exact String.toList_inj.mp (List.append_cancel_left hlists)

theorem ownPlace_isEmpty (remoteId : String) :
    (ownPlace remoteId).isEmpty = false := by
  by_contra h
  have hempty : ownPlace remoteId = "" := by simpa using h
  have hlists := congrArg String.toList hempty
  simp [ownPlace, String.toList_append] at hlists

/-- Each of the objects has a row, and every row is at its place. -/
structure Housed (ids : List String) (syncRootId : String) (t : EntryTable) :
    Prop where
  placed : AtPlaces ownPlace syncRootId t
  housed : ∀ id ∈ ids, ∃ row ∈ t.rows,
    row.syncRootId = syncRootId ∧ row.remoteId = some id

theorem Housed.upsert {ids : List String} {t : EntryTable}
    {u : RemoteEntryUpsert} (h : Housed ids syncRootId t)
    (hroot : u.syncRootId = syncRootId)
    (hpath : u.localPath = ownPlace u.remoteId) :
    ∃ t', RemoteEntryRepo.upsertRemoteEntry t u = some t' ∧
      Housed (u.remoteId :: ids) syncRootId t' := by
  obtain ⟨t', ht', hplaced⟩ := h.placed.upsert hroot hpath
  refine ⟨t', ht', hplaced, ?_⟩
  obtain ⟨self, hself, hrecords⟩ := RemoteEntryRepo.upsertRemoteEntry_self ht'
  have hown : ∃ row ∈ t'.rows,
      row.syncRootId = syncRootId ∧ row.remoteId = some u.remoteId :=
    ⟨self, KeyedTable.mem_of_lookup hself, hrecords.root.trans hroot,
      hrecords.remoteId⟩
  intro id hid
  rcases List.mem_cons.mp hid with rfl | hid
  · exact hown
  · obtain ⟨row, hrow, hrowRoot, hrowId⟩ := h.housed id hid
    rcases RemoteEntryRepo.survives_upsertRemoteEntry ht' hrow with
      hkept | ⟨_, hkept⟩ | ⟨hkey, _⟩
    · exact ⟨row, hkept, hrowRoot, hrowId⟩
    · exact ⟨_, hkept, hrowRoot, hrowId⟩
    · obtain ⟨id', hid', hplace⟩ := h.placed row hrow hrowRoot
      rw [hrowId] at hid'
      cases hid'
      simp only [Entry.key, Prod.mk.injEq] at hkey
      have hsame : id = u.remoteId := by
        apply ownPlace_injective
        rw [← hplace, hkey.2, hpath]
      rw [hsame]
      exact hown

theorem exists_housed (ids : List String) (syncRootId : String) :
    ∃ t : EntryTable, Housed ids syncRootId t := by
  induction ids with
  | nil =>
      refine ⟨KeyedTable.empty, ?_, by simp⟩
      intro row hrow
      cases hrow
  | cons id ids ih =>
      obtain ⟨t, ht⟩ := ih
      obtain ⟨t', _, ht'⟩ := ht.upsert (u :=
        { syncRootId := syncRootId, remoteId := id, localPath := ownPlace id
          remoteType := "folder", remoteFileId := none, remoteDeletedAt := none
          remoteUpdatedAt := "" }) rfl rfl
      exact ⟨t', ht'⟩

theorem unfailing_nameless {ids : List String}
    (hanswered : ∀ folderId, (fetchEntries getJson folderId).isSome = true)
    (hids : ∀ folderId, ∀ entry ∈ firstPage getJson folderId,
      entry.remoteId ∈ ids) :
    Unfailing getJson (vaultOf (.object [])) syncRootId (Housed ids syncRootId) := by
  refine
    { answered := hanswered, decrypted := ?_, accepted := ?_, followed := ?_ }
  · intro folderId entry _
    rw [decryptEntryName_nameless]
    rfl
  · intro folderId entry hentry t ht parent name path hname hpath
    rw [decryptEntryName_nameless] at hname
    cases hname
    cases hrow : EntryRepo.findEntryByRemoteId t syncRootId entry.remoteId with
    | none =>
        rw [hrow] at hpath
        cases hpath
    | some row =>
        have hplace := ht.placed.found hrow
        simp only [hrow, localPathOf, hplace, ownPlace_isEmpty] at hpath
        cases hpath
        obtain ⟨t', ht', hhoused⟩ :=
          ht.upsert (u := upsertOf syncRootId (ownPlace entry.remoteId) entry)
            rfl rfl
        exact ⟨t', ht', hhoused.placed, fun id hid =>
          hhoused.housed id (List.mem_cons_of_mem _ hid)⟩
  · intro folderId entry hentry t ht parent name hname _
    rw [decryptEntryName_nameless] at hname
    cases hname
    obtain ⟨row, hrow, hroot, hid⟩ :=
      ht.housed entry.remoteId (hids folderId entry hentry)
    cases hfound : EntryRepo.findEntryByRemoteId t syncRootId
        entry.remoteId with
    | none =>
        have hnone := List.find?_eq_none.mp hfound row hrow
        simp [hroot, hid] at hnone
    | some found =>
        have hplace := ht.placed.found hfound
        simp [localPathOf, hplace, ownPlace_isEmpty]

/-! ## Servers whose folders all have names

A vault that finds the one name `/x` everywhere: all objects then meet at the
one path `/x`, where each takes the row over from the one before. -/

/-- The plaintext of that vault. -/
def oneName : Json := .object [("name", .string "/x")]

theorem nameOfJson_oneName : nameOfJson oneName = some "/x" := by decide

theorem joinName_absolute (parent : FsPath) : joinName parent "/x" = "/x" := by
  have habs : (FsPath.parse "/x").isAbsolute = true := by decide
  unfold joinName FsPath.append
  simp only [habs, Bool.true_or, if_true]
  decide

theorem unfailing_oneName
    (hanswered : ∀ folderId, (fetchEntries getJson folderId).isSome = true)
    (hnamed : ∀ folderId, ∀ entry ∈ firstPage getJson folderId,
      (subfolder entry).isSome = true → entry.encryptedName.getD "" ≠ "") :
    Unfailing getJson (vaultOf oneName) syncRootId
      (AtPlaces (fun _ => "/x") syncRootId) := by
  refine
    { answered := hanswered, decrypted := ?_, accepted := ?_, followed := ?_ }
  · intro folderId entry _
    rcases decryptEntryName_vaultOf oneName entry with h | h
    · rw [h]
      rfl
    · rw [h]
      rfl
  · intro folderId entry hentry t ht parent name path hname hpath
    have hx : path = "/x" := by
      rcases decryptEntryName_vaultOf oneName entry with h | h
      · rw [h] at hname
        cases hname
        cases hrow : EntryRepo.findEntryByRemoteId t syncRootId
            entry.remoteId with
        | none =>
            rw [hrow] at hpath
            cases hpath
        | some row =>
            have hplace := ht.found hrow
            simp [hrow, localPathOf, hplace] at hpath
            exact hpath.symm
      · rw [h, nameOfJson_oneName] at hname
        cases hname
        simp only [localPathOf, joinName_absolute] at hpath
        cases hpath
        rfl
    exact ht.upsert (u := upsertOf syncRootId path entry) rfl hx
  · intro folderId entry hentry t ht parent name hname hsub
    have hencrypted := hnamed folderId entry hentry hsub
    rw [decryptEntryName_vaultOf_folder oneName (folder_of_subfolder hsub)
      hencrypted, nameOfJson_oneName] at hname
    cases hname
    rfl

/-! ## When scans come to an end -/

/-- The server holds finitely many objects. -/
def FewObjects (getJson : String → Option Json) : Prop :=
  ∃ ids : List String, ∀ folderId, ∀ entry ∈ firstPage getJson folderId,
    entry.remoteId ∈ ids

/-- The live folders of the server all have an encrypted name. -/
def NamedFolders (getJson : String → Option Json) : Prop :=
  ∀ folderId, ∀ entry ∈ firstPage getJson folderId,
    (subfolder entry).isSome = true → entry.encryptedName.getD "" ≠ ""

theorem exists_unfailing
    (hanswered : ∀ folderId, (fetchEntries getJson folderId).isSome = true)
    (hserver : FewObjects getJson ∨ NamedFolders getJson)
    (syncRootId : String) :
    ∃ v Fit t, Unfailing getJson v syncRootId Fit ∧ Fit t := by
  rcases hserver with ⟨ids, hids⟩ | hnamed
  · obtain ⟨t, ht⟩ := exists_housed ids syncRootId
    exact ⟨_, _, t, unfailing_nameless hanswered hids, ht⟩
  · refine ⟨_, _, KeyedTable.empty, unfailing_oneName hanswered hnamed, ?_⟩
    intro row hrow
    cases hrow

/-- When no chain of folders below the root's goes on for ever, each scan
makes finitely many requests and returns or throws.  A server that answers
every request, and holds finitely many objects or names all its folders, has
otherwise a vault and a table for which the scan never ends. -/
theorem scanRoot_finishes_iff (getJson : String → Option Json)
    (root : SyncRoot) :
    (¬ Endless getJson (topFolder root) →
      ∀ v t, Finishes getJson v root t) ∧
    ((∀ folderId, (fetchEntries getJson folderId).isSome = true) →
      FewObjects getJson ∨ NamedFolders getJson →
      (∀ v t, Finishes getJson v root t) →
      ¬ Endless getJson (topFolder root)) := by
  constructor
  · intro hfinite v t
    obtain ⟨depth, hdepth⟩ := scanFolder_finishes (acc_of_not_endless hfinite)
    exact ⟨depth, fun fuel hfuel => hdepth fuel hfuel v root.id _ t⟩
  · intro hanswered hserver hfinishes hendless
    obtain ⟨v, Fit, t, hunfailing, hfit⟩ :=
      exists_unfailing hanswered hserver root.id
    obtain ⟨depth, hdepth⟩ := hfinishes v t
    exact hdepth depth (Nat.le_refl _)
      (hunfailing.scanFolder_exhausted _ hendless depth hfit)

/-! ## A folder in itself -/

namespace SelfListed

def folderJson : Json :=
  .object [("entries", .array [
    .object [("id", .string "A"), ("type", .string "folder"),
      ("encrypted_name", .string "c"), ("updated_at", .string "t1")]])]

/-- Whatever is asked for, there is one folder, `A`. -/
def server (_ : String) : Option Json := some folderJson

def entry : SyncEntryResponse :=
  { remoteId := "A"
    type := "folder"
    remoteFileId := none
    remoteFolderId := some "A"
    encryptedName := some "c"
    updatedAt := "t1" }

def root : SyncRoot :=
  { id := "root", localPath := "/r", folderId := "A", mode := .twoWay }

def vault : NameVault := vaultOf (.object [("name", .string "loop")])

theorem firstPage_eq (folderId : Option String) :
    firstPage server folderId = [entry] := by
  have hdecode : ArkiveApi.decodeListSyncEntriesResponse folderJson =
      some { entries := [entry] } := by rfl
  simp [firstPage, fetchEntries, ArkiveApi.listSyncEntries,
    ArkiveApi.listSyncEntriesRequest, server, hdecode]

/-- The table holds at most the row of `A`. -/
structure OneRow (t : EntryTable) : Prop where
  own : ∀ row ∈ t.rows, row.syncRootId = "root" ∧ row.remoteId = some "A"
  one : ∀ row ∈ t.rows, ∀ row' ∈ t.rows, row = row'

theorem OneRow.upsert {t : EntryTable} (h : OneRow t) (path : String) :
    ∃ t', RemoteEntryRepo.upsertRemoteEntry t (upsertOf "root" path entry) =
      some t' ∧ OneRow t' := by
  have hsome : (RemoteEntryRepo.upsertRemoteEntry t
      (upsertOf "root" path entry)).isSome := by
    apply RemoteEntryRepo.upsertRemoteEntry_isSome
    intro row hrow _ other hother _
    exact h.one other hother row hrow
  obtain ⟨t', ht'⟩ := Option.isSome_iff_exists.mp hsome
  have hrecords : ∀ row ∈ t'.rows,
      RemoteEntryRepo.Records (upsertOf "root" path entry) row := by
    intro row hrow
    rcases RemoteEntryRepo.mem_upsertRemoteEntry ht' row hrow with
      ⟨old, _, hcarries, rfl⟩ | ⟨old, _, hold, rfl⟩ | ⟨rfl, _⟩ | ⟨hold, hno, _⟩
    · exact RemoteEntryRepo.updateCarrier_records hcarries
    · simp only [Entry.key, Prod.mk.injEq] at hold
      exact RemoteEntryRepo.takeOver_records hold.1 hold.2
    · exact RemoteEntryRepo.newRemote_records _ _
    · have hcarries : RemoteEntryRepo.carries (upsertOf "root" path entry)
          row = true := (RemoteEntryRepo.carries_iff _ _).mpr (h.own row hold)
      rw [hno] at hcarries
      cases hcarries
  refine ⟨t', ht', ?_, ?_⟩
  · intro row hrow
    exact ⟨(hrecords row hrow).root, (hrecords row hrow).remoteId⟩
  · intro row hrow row' hrow'
    apply t'.eq_of_key_eq hrow hrow'
    simp [Entry.key, (hrecords row hrow).root, (hrecords row hrow).path,
      (hrecords row' hrow').root, (hrecords row' hrow').path]

theorem unfailing : Unfailing server vault root.id OneRow := by
  have hname : decryptEntryName vault entry = some (some "loop") := by decide
  refine
    { answered := ?_, decrypted := ?_, accepted := ?_, followed := ?_ }
  · intro folderId
    have hmem : entry ∈ firstPage server folderId := by simp [firstPage_eq]
    obtain ⟨response, hresponse, _⟩ := mem_firstPage_iff.mp hmem
    simp [hresponse]
  · intro folderId e he
    rw [firstPage_eq, List.mem_singleton] at he
    rw [he, hname]
    rfl
  · intro folderId e he t ht parent name path _ _
    rw [firstPage_eq, List.mem_singleton] at he
    rw [he]
    exact ht.upsert path
  · intro folderId e he t _ parent name hname' _
    rw [firstPage_eq, List.mem_singleton] at he
    rw [he, hname] at hname'
    cases hname'
    rfl

theorem endless : Endless server (topFolder root) := by
  apply endless_of_self
  exact ⟨entry, by simp [firstPage_eq], "A", by decide, by decide⟩

end SelfListed

/-- A scan of a root whose folder lists itself never ends. -/
theorem not_scanRoot_finishes :
    ¬ ∀ (getJson : String → Option Json) (v : NameVault) (root : SyncRoot)
        (t : EntryTable),
      (∀ folderId, (fetchEntries getJson folderId).isSome = true) →
      Finishes getJson v root t := by
  intro h
  obtain ⟨depth, hdepth⟩ := h SelfListed.server SelfListed.vault
    SelfListed.root KeyedTable.empty SelfListed.unfailing.answered
  have hfit : SelfListed.OneRow KeyedTable.empty :=
    { own := by intro row hrow; cases hrow
      one := by intro row hrow; cases hrow }
  exact hdepth depth (Nat.le_refl _)
    (SelfListed.unfailing.scanFolder_exhausted _ SelfListed.endless depth hfit)

end ArkiveSync.RemoteScanner
