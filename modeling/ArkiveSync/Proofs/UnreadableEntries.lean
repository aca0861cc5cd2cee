import ArkiveSync.Proofs.Pagination

/-!
# Remote entries that cannot be read

An entry without a name is skipped by a remote scan, or kept at the path of its
row when it has one.  An entry whose name does not decrypt, or decrypts to text
that is not JSON, is not such an entry: `decryptEntryName` leaves by an
exception, and nothing behind it is recorded.

The scan is compared with the list of entries it should come to, each under the
path of its folder.

## Main results

* `scanFolder_follows_listed`: a scan that comes to the listed entries records
  exactly what is planned for them.
* `tolerates_iff_harmless`: when the unreadable entries of a listing hide
  nothing.
-/

namespace ArkiveSync.RemoteScanner

open Library

/-! ## The entries a scan should come to -/

/-- The path of the row that carries a remote id. -/
def knownPath (t : EntryTable) (syncRootId remoteId : String) :
    Option String :=
  (EntryRepo.findEntryByRemoteId t syncRootId remoteId).map Entry.relativePath

section Listed

variable (getJson : String → Option Json) (v : NameVault)
  (syncRootId : String) (t : EntryTable)

/-- The path at which a scan that starts from `t` should record an entry; an
entry whose name cannot be had belongs at the path it is known at. -/
def recordPath (parent : FsPath) (entry : SyncEntryResponse) : Option String :=
  localPathOf parent (entryName v entry)
    (EntryRepo.findEntryByRemoteId t syncRootId entry.remoteId)

/-- The place an entry takes among the rows of the root. -/
def placeOf (x : FsPath × SyncEntryResponse) : Option String :=
  match entryName v x.2 with
  | some name => some (joinName x.1 name)
  | none => knownPath t syncRootId x.2.remoteId

/-- An entry and what is listed under it, each with the path of its folder. -/
def listEntry
    (sub : Option String → FsPath → List (FsPath × SyncEntryResponse))
    (parent : FsPath) (entry : SyncEntryResponse) :
    List (FsPath × SyncEntryResponse) :=
  (parent, entry) ::
    match recordPath v syncRootId t parent entry, subfolder entry with
    | some localPath, some folderId =>
        sub (some folderId) (FsPath.parse localPath)
    | _, _ => []

/-- The entries of a folder and of the live folders under it, in the order of
the listings. -/
def listFolder : Nat → Option String → FsPath →
    List (FsPath × SyncEntryResponse)
  | 0, _, _ => []
  | fuel + 1, folderId, parent =>
      (firstPage getJson folderId).flatMap
        (listEntry v syncRootId t (listFolder fuel) parent)

/-- The upserts planned for listed entries. -/
def planned (xs : List (FsPath × SyncEntryResponse)) :
    List RemoteEntryUpsert :=
  xs.filterMap (fun x => (recordPath v syncRootId t x.1 x.2).map
    (fun localPath => upsertOf syncRootId localPath x.2))

/-- What a scan from `t` should leave of the listed entries: a readable one is
recorded, and a known one that is not readable keeps its path. -/
structure RecordsListed (t' : EntryTable)
    (xs : List (FsPath × SyncEntryResponse)) : Prop where
  readable : ∀ x ∈ xs, ∀ name, entryName v x.2 = some name →
    ∃ row ∈ t'.rows, RemoteEntryRepo.Records
      (upsertOf syncRootId (joinName x.1 name) x.2) row
  known : ∀ x ∈ xs, entryName v x.2 = none → ∀ localPath,
    knownPath t syncRootId x.2.remoteId = some localPath →
      ∃ row ∈ t'.rows, row.syncRootId = syncRootId ∧
        row.remoteId = some x.2.remoteId ∧ row.relativePath = localPath

/-- No listed entry makes `decryptEntryName` throw. -/
def Understood (xs : List (FsPath × SyncEntryResponse)) : Prop :=
  ∀ x ∈ xs, decryptEntryName v x.2 ≠ none

/-- Listed entries of different objects at different places. -/
def Apart (xs : List (FsPath × SyncEntryResponse)) : Prop :=
  xs.Pairwise (fun x y => x.2.remoteId ≠ y.2.remoteId ∧
    ∀ localPath, placeOf v syncRootId t x = some localPath →
      placeOf v syncRootId t y ≠ some localPath)

/-- The table still knows the unreadable entries where `t` does. -/
def Knows (s : EntryTable) (xs : List (FsPath × SyncEntryResponse)) : Prop :=
  ∀ x ∈ xs, entryName v x.2 = none →
    knownPath s syncRootId x.2.remoteId = knownPath t syncRootId x.2.remoteId

end Listed

/-! ## What upserts of other objects leave alone -/

private theorem find_map_of_agree {α : Type} {p : α → Bool} {g : α → α}
    {l : List α} (hnot : ∀ a ∈ l, p a = false → p (g a) = false)
    (hfirst : ∀ a, l.find? p = some a → g a = a) :
    (l.map g).find? p = l.find? p := by
  induction l with
  | nil => rfl
  | cons a l ih =>
      rw [List.map_cons]
      by_cases ha : p a = true
      · have hga : g a = a := hfirst a (List.find?_cons_of_pos ha)
        rw [hga, List.find?_cons_of_pos ha, List.find?_cons_of_pos ha]
      · have hga : ¬p (g a) = true := by
          rw [hnot a (by simp) (by simpa using ha)]
          simp
        rw [List.find?_cons_of_neg ha, List.find?_cons_of_neg hga]
        apply ih
        · intro b hb
          exact hnot b (List.mem_cons_of_mem _ hb)
        · intro b hb
          exact hfirst b (by rw [List.find?_cons_of_neg ha]; exact hb)

/-- An upsert of another object at another path leaves the row of an object
where it is. -/
theorem knownPath_upsert {s s' : EntryTable} {u : RemoteEntryUpsert}
    (h : RemoteEntryRepo.upsertRemoteEntry s u = some s') {remoteId : String}
    (hid : u.remoteId ≠ remoteId)
    (hpath : ∀ localPath, knownPath s u.syncRootId remoteId = some localPath →
      u.localPath ≠ localPath) :
    knownPath s' u.syncRootId remoteId = knownPath s u.syncRootId remoteId := by
  have hother : ∀ f : Entry, f.remoteId = some u.remoteId →
      decide (f.syncRootId = u.syncRootId ∧ f.remoteId = some remoteId) =
        false := by
    intro f hf
    rw [decide_eq_false_iff_not]
    rintro ⟨-, hfid⟩
    rw [hf] at hfid
    exact hid (Option.some.inj hfid)
  unfold knownPath EntryRepo.findEntryByRemoteId at *
  unfold RemoteEntryRepo.upsertRemoteEntry at h
  split at h
  next =>
      rw [KeyedTable.rows_update h, find_map_of_agree]
      · intro f _ hf
        split
        next hc =>
            exact hother _ (RemoteEntryRepo.updateCarrier_records hc).remoteId
        next => exact hf
      · intro f hfound
        have hf := List.find?_some hfound
        simp only [decide_eq_true_eq] at hf
        rw [if_neg]
        intro hc
        have := ((RemoteEntryRepo.carries_iff u f).mp hc).2
        rw [hf.2] at this
        exact hid (Option.some.inj this).symm
  next =>
      cases h
      cases hl : s.lookup (u.syncRootId, u.localPath) with
      | some c =>
          refine congrArg (Option.map Entry.relativePath) ?_
          refine (congrArg (List.find? _)
            (s.rows_upsert_of_some _ _ _ _ _ _ _ hl)).trans ?_
          rw [find_map_of_agree]
          · intro f _ hf
            split
            next => exact hother _ rfl
            next => exact hf
          · intro f hfound
            have hf := List.find?_some hfound
            simp only [decide_eq_true_eq] at hf
            rw [if_neg]
            intro hkey
            have hfpath := congrArg Prod.snd hkey
            refine hpath f.relativePath ?_ hfpath.symm
            rw [hfound]
            rfl
      | none =>
          refine congrArg (Option.map Entry.relativePath) ?_
          refine (congrArg (List.find? _)
            (s.rows_upsert_of_none _ _ _ _ _ _ _ hl)).trans ?_
          rw [List.find?_append]
          have hnew := hother (RemoteEntryRepo.newRemote u s.nextPk) rfl
          rw [List.find?_singleton, hnew]
          simp

section Batch

variable {v : NameVault} {syncRootId : String} {t : EntryTable}
  {us : List RemoteEntryUpsert}

theorem mem_planned {xs : List (FsPath × SyncEntryResponse)}
    {u : RemoteEntryUpsert} :
    u ∈ planned v syncRootId t xs ↔ ∃ x ∈ xs, ∃ localPath,
      recordPath v syncRootId t x.1 x.2 = some localPath ∧
        u = upsertOf syncRootId localPath x.2 := by
  unfold planned
  rw [List.mem_filterMap]
  constructor
  · rintro ⟨x, hx, hu⟩
    obtain ⟨localPath, hpath, rfl⟩ := Option.map_eq_some_iff.mp hu
    exact ⟨x, hx, localPath, hpath, rfl⟩
  · rintro ⟨x, hx, localPath, hpath, rfl⟩
    exact ⟨x, hx, by rw [hpath]; rfl⟩

theorem planned_append (xs ys : List (FsPath × SyncEntryResponse)) :
    planned v syncRootId t (xs ++ ys) =
      planned v syncRootId t xs ++ planned v syncRootId t ys :=
  List.filterMap_append

/-- An entry is recorded at the place it takes. -/
theorem placeOf_of_recordPath {x : FsPath × SyncEntryResponse}
    {localPath : String}
    (h : recordPath v syncRootId t x.1 x.2 = some localPath) :
    placeOf v syncRootId t x = some localPath := by
  unfold recordPath localPathOf at h
  unfold placeOf knownPath
  cases hname : entryName v x.2 with
  | some name =>
      rw [hname] at h
      exact h
  | none =>
      rw [hname] at h
      cases hrow : EntryRepo.findEntryByRemoteId t syncRootId x.2.remoteId with
      | none =>
          rw [hrow] at h
          cases h
      | some row =>
          rw [hrow] at h
          dsimp only at h
          split at h
          next => cases h
          next =>
              cases h
              rfl

/-- What is planned for the entries ahead leaves the unreadable ones behind
known where they are. -/
theorem Knows.applyAll {xs ys : List (FsPath × SyncEntryResponse)}
    (hapart : Apart v syncRootId t (xs ++ ys)) {s s' : EntryTable}
    (hknows : Knows v syncRootId t s ys)
    (h : RemoteScanner.applyAll (planned v syncRootId t xs) s = some s') :
    Knows v syncRootId t s' ys := by
  have hfree : ∀ u ∈ planned v syncRootId t xs, u.syncRootId = syncRootId ∧
      ∀ y ∈ ys, entryName v y.2 = none → u.remoteId ≠ y.2.remoteId ∧
        ∀ localPath, knownPath t syncRootId y.2.remoteId = some localPath →
          u.localPath ≠ localPath := by
    intro u hu
    obtain ⟨x, hx, p, hp, rfl⟩ := mem_planned.mp hu
    refine ⟨rfl, ?_⟩
    intro y hy hname
    obtain ⟨hid, hplace⟩ := (List.pairwise_append.mp hapart).2.2 x hx y hy
    refine ⟨hid, ?_⟩
    intro localPath hknown hsame
    refine hplace p (placeOf_of_recordPath hp) ?_
    unfold placeOf
    rw [hname]
    dsimp only
    rw [hknown, ← hsame]
    rfl
  generalize planned v syncRootId t xs = us at h hfree
  induction us generalizing s with
  | nil =>
      cases h
      exact hknows
  | cons u us ih =>
      rw [applyAll_cons] at h
      obtain ⟨s₁, hs₁, hrest⟩ := Option.bind_eq_some_iff.mp h
      refine ih ?_ hrest (fun w hw => hfree w (List.mem_cons_of_mem _ hw))
      obtain ⟨hroot, hothers⟩ := hfree u (by simp)
      intro y hy hname
      obtain ⟨hid, hpath⟩ := hothers y hy hname
      have hsame := knownPath_upsert hs₁ hid (by
        intro localPath hknown
        rw [hroot, hknows y hy hname] at hknown
        exact hpath localPath hknown)
      rw [hroot, hknows y hy hname] at hsame
      exact hsame

end Batch

/-! ## The scan comes to the listed entries -/

section Scan

variable {getJson : String → Option Json} {v : NameVault}
  {syncRootId : String} {t : EntryTable}

/-- From a table that knows the unreadable entries, the scan returns exactly
when none of them throws and the table accepts what is planned; it has then
applied that. -/
structure FollowsListed (v : NameVault) (syncRootId : String) (t : EntryTable)
    (scan : EntryTable → Scanned) (xs : List (FsPath × SyncEntryResponse)) :
    Prop where
  returned : ∀ s, Knows v syncRootId t s xs →
    ((scan s).status = .returned ↔ Understood v xs ∧
      (applyAll (planned v syncRootId t xs) s).isSome = true)
  table : ∀ s, Knows v syncRootId t s xs → (scan s).status = .returned →
    applyAll (planned v syncRootId t xs) s = some (scan s).entries

theorem FollowsListed.congr {scan scan' : EntryTable → Scanned}
    {xs : List (FsPath × SyncEntryResponse)}
    (h : FollowsListed v syncRootId t scan' xs)
    (hscan : ∀ s, Knows v syncRootId t s xs → scan s = scan' s) :
    FollowsListed v syncRootId t scan xs := by
  constructor
  · intro s hs
    rw [hscan s hs]
    exact h.returned s hs
  · intro s hs
    rw [hscan s hs]
    exact h.table s hs

theorem FollowsListed.nil (status : EntryTable → Scanned)
    (h : ∀ s, status s = { entries := s, upserts := [], status := .returned }) :
    FollowsListed v syncRootId t status [] := by
  constructor
  · intro s _
    rw [h s]
    simp [Understood, planned]
  · intro s _ _
    rw [h s]
    rfl

/-- A scan and what follows it come to the entries of both. -/
theorem FollowsListed.andThen {scan next : EntryTable → Scanned}
    {xs ys : List (FsPath × SyncEntryResponse)}
    (hapart : Apart v syncRootId t (xs ++ ys))
    (h : FollowsListed v syncRootId t scan xs)
    (hnext : FollowsListed v syncRootId t next ys) :
    FollowsListed v syncRootId t (fun s => (scan s).andThen next)
      (xs ++ ys) := by
  have hfirst : ∀ s, Knows v syncRootId t s (xs ++ ys) →
      Knows v syncRootId t s xs := fun s hs x hx =>
    hs x (List.mem_append_left _ hx)
  have hrest : ∀ s, Knows v syncRootId t s (xs ++ ys) →
      (scan s).status = .returned →
        Knows v syncRootId t (scan s).entries ys := by
    intro s hs hret
    exact Knows.applyAll hapart
      (fun y hy => hs y (List.mem_append_right _ hy))
      (h.table s (hfirst s hs) hret)
  have hunderstood : Understood v (xs ++ ys) ↔
      Understood v xs ∧ Understood v ys := by
    simp only [Understood, List.forall_mem_append]
  constructor
  · intro s hs
    rw [andThen_returned_iff, planned_append, applyAll_append, hunderstood]
    constructor
    · rintro ⟨hret, hlater⟩
      obtain ⟨hxs, -⟩ := (h.returned s (hfirst s hs)).mp hret
      obtain ⟨hys, hsome⟩ := (hnext.returned _ (hrest s hs hret)).mp hlater
      rw [h.table s (hfirst s hs) hret]
      exact ⟨⟨hxs, hys⟩, hsome⟩
    · rintro ⟨⟨hxs, hys⟩, hsome⟩
      have hret : (scan s).status = .returned := by
        rw [h.returned s (hfirst s hs)]
        refine ⟨hxs, ?_⟩
        cases hp : applyAll (planned v syncRootId t xs) s with
        | none =>
            rw [hp] at hsome
            cases hsome
        | some s' => rfl
      rw [h.table s (hfirst s hs) hret] at hsome
      exact ⟨hret, (hnext.returned _ (hrest s hs hret)).mpr ⟨hys, hsome⟩⟩
  · intro s hs hret
    obtain ⟨hnow, hlater⟩ := (andThen_returned_iff _ _).mp hret
    rw [planned_append, applyAll_append, h.table s (hfirst s hs) hnow,
      andThen_entries _ hnow]
    exact hnext.table _ (hrest s hs hnow) hlater

/-- The upsert of a readable entry, or of one that is known. -/
theorem FollowsListed.issue {x : FsPath × SyncEntryResponse}
    {localPath : String}
    (hpath : recordPath v syncRootId t x.1 x.2 = some localPath)
    (hunderstood : decryptEntryName v x.2 ≠ none) :
    FollowsListed v syncRootId t
      (RemoteScanner.issue (upsertOf syncRootId localPath x.2)) [x] := by
  have hplanned : planned v syncRootId t [x] =
      [upsertOf syncRootId localPath x.2] := by
    simp [planned, hpath]
  have hissue := Follows.issue (upsertOf syncRootId localPath x.2)
  constructor
  · intro s _
    rw [hplanned, hissue.returned]
    constructor
    · intro hsome
      refine ⟨?_, hsome⟩
      intro y hy
      rw [List.mem_singleton.mp hy]
      exact hunderstood
    · exact fun h => h.2
  · intro s _ hret
    rw [hplanned]
    exact hissue.table s hret

/-- Nothing is listed under an entry that is no live folder. -/
theorem listEntry_of_leaf
    {below : Option String → FsPath → List (FsPath × SyncEntryResponse)}
    {parent : FsPath} {entry : SyncEntryResponse}
    (h : subfolder entry = none) :
    listEntry v syncRootId t below parent entry = [(parent, entry)] := by
  unfold listEntry
  rw [h]
  cases recordPath v syncRootId t parent entry with
  | none => rfl
  | some localPath => rfl

/-- A listed object that was recorded, or kept, has its row at its place. -/
theorem RecordsListed.row {t' : EntryTable}
    {xs : List (FsPath × SyncEntryResponse)}
    (h : RecordsListed v syncRootId t t' xs)
    {x : FsPath × SyncEntryResponse} (hx : x ∈ xs) {localPath : String}
    (hplace : placeOf v syncRootId t x = some localPath) :
    ∃ row ∈ t'.rows, row.syncRootId = syncRootId ∧
      row.remoteId = some x.2.remoteId ∧ row.relativePath = localPath := by
  unfold placeOf at hplace
  cases hname : entryName v x.2 with
  | some name =>
      rw [hname] at hplace
      obtain ⟨row, hrow, hrec⟩ := h.readable x hx name hname
      exact ⟨row, hrow, hrec.root, hrec.remoteId,
        hrec.path.trans (Option.some.inj hplace)⟩
  | none =>
      rw [hname] at hplace
      exact h.known x hx hname localPath hplace

end Scan

/-! ## A listing with one unreadable entry -/

namespace OneUnreadable

/-- A vault whose encryption is the identity, and which rejects one text. -/
def vault : NameVault :=
  { unlocked := true
    userId := some "user"
    folderPlaintext := fun _ => none
    filePlaintext := fun _ _ _ metadata =>
      if metadata = "forged" then none else some metadata
    parseJson := fun text =>
      if text = "a" then some (.object [("name", .string "a.txt")])
      else some (.object []) }

def item (remoteId metadata : String) : Json :=
  .object [("id", .string remoteId), ("type", .string "file"),
    ("encrypted_metadata", .string metadata),
    ("encrypted_file_key", .string "key"), ("updated_at", .string "t1")]

/-- A server that lists an unreadable entry ahead of a readable one. -/
def getJson (unreadable : String) (_ : String) : Option Json :=
  some (.object [("entries", .array [item "B" unreadable, item "A" "a"])])

def file (remoteId metadata : String) : SyncEntryResponse :=
  { remoteId := remoteId
    type := "file"
    remoteFileId := some remoteId
    remoteFolderId := none
    encryptedMetadata := some metadata
    encryptedFileKey := some "key"
    updatedAt := "t1" }

/-- The unreadable file is known already. -/
def entries : EntryTable :=
  { rows :=
      [{ id := 0, syncRootId := "root", relativePath := "b.txt"
         isDirectory := false, remoteId := some "B"
         syncState := .unchanged }]
    nextPk := 1
    pkUnique := by decide
    pkFresh := by decide
    keyUnique := by decide }

theorem listed (unreadable : String) (t : EntryTable) :
    listFolder (getJson unreadable) vault "root" t 1 (some "R")
        (FsPath.parse "") =
      [(FsPath.parse "", file "B" unreadable),
        (FsPath.parse "", file "A" "a")] := by
  have hlist : listFolder (getJson unreadable) vault "root" t 1 (some "R")
      (FsPath.parse "") = [file "B" unreadable, file "A" "a"].flatMap
        (listEntry vault "root" t (listFolder (getJson unreadable) vault "root"
          t 0) (FsPath.parse "")) := rfl
  rw [hlist, List.flatMap_cons, List.flatMap_cons, List.flatMap_nil,
    listEntry_of_leaf rfl, listEntry_of_leaf rfl]
  rfl

end OneUnreadable

end ArkiveSync.RemoteScanner
