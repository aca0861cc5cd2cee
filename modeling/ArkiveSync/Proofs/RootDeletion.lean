import ArkiveSync.Proofs.Pagination

/-!
# Detecting the deletion of a root

`isRootDeleted` asks for the account's top level and stops at the first entry
that names the root's folder in either of two fields: its own id, or the folder
id, which for a file is the folder that contains it.  The mark of that entry is
the answer, and the listing behind the first page is not asked for.

## Main results

* `isRootDeleted_iff`: the answer is whether a deleted entry that names the
  folder is listed ahead of every live one that does.
* `detects_iff_toldApart`: hence when it is right.
-/

namespace ArkiveSync.RemoteScanner

open Library

/-- The entry names the root's folder, as its own id or as the folder that
contains it. -/
def Names (root : SyncRoot) (entry : SyncEntryResponse) : Prop :=
  entry.remoteId = root.folderId ∨ entry.remoteFolderId = some root.folderId

/-- The folder of the root is listed as deleted. -/
def ListsDeleted (root : SyncRoot) (entries : List SyncEntryResponse) : Prop :=
  ∃ entry ∈ entries, entry.type = "folder" ∧ entry.remoteId = root.folderId ∧
    entry.deletedAt.isSome = true

/-- The entries `isRootDeleted` looks at: none for a root without a folder. -/
def examined (getJson : String → Option Json) (root : SyncRoot) :
    List SyncEntryResponse :=
  if root.folderId.isEmpty then [] else firstPage getJson none

/-- The answer is right about the listing. -/
def Detects (getJson : String → Option Json) (root : SyncRoot)
    (entries : List SyncEntryResponse) : Prop :=
  ∃ answer, isRootDeleted getJson root = some answer ∧
    (answer = true ↔ ListsDeleted root entries)

/-- The examined entries that name the folder do not mislead about it: a
deleted folder has a deleted one ahead of every live one, and for a folder that
is not deleted every deleted one, a file in the folder, has a live one ahead. -/
structure ToldApart (getJson : String → Option Json) (root : SyncRoot)
    (entries : List SyncEntryResponse) : Prop where
  listed : ListsDeleted root entries →
    ∃ before entry after, examined getJson root = before ++ entry :: after ∧
      Names root entry ∧ entry.deletedAt.isSome = true ∧
      ∀ other ∈ before, Names root other → other.deletedAt.isSome = true
  unlisted : ¬ListsDeleted root entries → ∀ before entry after,
    examined getJson root = before ++ entry :: after →
      Names root entry → entry.deletedAt.isSome = true →
        ∃ other ∈ before, Names root other ∧ other.deletedAt = none

/-- The first match of a list has a property exactly when some match has it
with no match without it ahead. -/
private theorem find_any_iff {α : Type} {p q : α → Bool} {l : List α} :
    (l.find? p).any q = true ↔
      ∃ before a after, l = before ++ a :: after ∧ p a = true ∧ q a = true ∧
        ∀ b ∈ before, p b = true → q b = true := by
  induction l with
  | nil => simp
  | cons x l ih =>
      by_cases hx : p x = true
      · rw [List.find?_cons_of_pos hx]
        constructor
        · intro hq
          exact ⟨[], x, l, rfl, hx, by simpa using hq, by simp⟩
        · rintro ⟨before, a, after, hl, -, hqa, hbefore⟩
          cases before with
          | nil =>
              cases hl
              simpa using hqa
          | cons b before =>
              cases hl
              simpa using hbefore x (by simp) hx
      · rw [List.find?_cons_of_neg hx, ih]
        constructor
        · rintro ⟨before, a, after, rfl, hpa, hqa, hbefore⟩
          refine ⟨x :: before, a, after, rfl, hpa, hqa, ?_⟩
          intro b hb hpb
          cases List.mem_cons.mp hb with
          | inl heq => exact absurd (heq ▸ hpb) hx
          | inr hb => exact hbefore b hb hpb
        · rintro ⟨before, a, after, hl, hpa, hqa, hbefore⟩
          cases before with
          | nil =>
              cases hl
              exact absurd hpa hx
          | cons b before =>
              cases hl
              exact ⟨before, a, after, rfl, hpa, hqa,
                fun c hc => hbefore c (List.mem_cons_of_mem _ hc)⟩

section Detection

variable {getJson : String → Option Json} {root : SyncRoot}
  {entries : List SyncEntryResponse}

/-- The mark of the first examined entry that names the folder is the
answer. -/
theorem isRootDeleted_eq (h : Serves getJson none none entries) :
    isRootDeleted getJson root =
      some (((examined getJson root).find? (fun entry =>
        entry.remoteId == root.folderId ||
          entry.remoteFolderId == some root.folderId)).any
            (fun entry => entry.deletedAt.isSome)) := by
  have hfetch : ∃ response, fetchEntries getJson none = some response := by
    cases h with
    | last _ request response hrequest hresponse =>
        subst hrequest
        exact ⟨response, hresponse⟩
    | more _ request response next rest hrequest hresponse =>
        subst hrequest
        exact ⟨response, hresponse⟩
  obtain ⟨response, hfetch⟩ := hfetch
  unfold isRootDeleted examined firstPage
  by_cases hempty : root.folderId.isEmpty = true
  · rw [if_pos hempty, if_pos hempty]
    rfl
  · rw [if_neg hempty, if_neg hempty, hfetch]
    simp only [Option.map_some, Option.some.injEq]
    split
    next entry hfound => rw [hfound]; rfl
    next hfound => rw [hfound]; rfl

/-- A root is found deleted exactly when a deleted entry that names its folder
is examined before every live one that does. -/
theorem isRootDeleted_iff (h : Serves getJson none none entries) :
    isRootDeleted getJson root = some true ↔
      ∃ before entry after, examined getJson root = before ++ entry :: after ∧
        Names root entry ∧ entry.deletedAt.isSome = true ∧
        ∀ other ∈ before, Names root other →
          other.deletedAt.isSome = true := by
  rw [isRootDeleted_eq h, Option.some.injEq, find_any_iff]
  simp only [Names, Bool.or_eq_true, beq_iff_eq]

/-- The deletion of a root is detected exactly when the first page tells the
folder's own entry and the files of the folder apart by their order. -/
theorem detects_iff_toldApart (h : Serves getJson none none entries) :
    Detects getJson root entries ↔ ToldApart getJson root entries := by
  have hanswer : isRootDeleted getJson root = some true ↔ _ :=
    isRootDeleted_iff h
  constructor
  · rintro ⟨answer, hdone, hright⟩
    rw [hdone, Option.some.injEq] at hanswer
    constructor
    · intro hlisted
      exact hanswer.mp (hright.mpr hlisted)
    · intro hunlisted before entry after hsplit hnames hdeleted
      by_contra hno
      refine hunlisted (hright.mp (hanswer.mpr
        ⟨before, entry, after, hsplit, hnames, hdeleted, ?_⟩))
      intro other hother hothernames
      by_contra hlive
      refine hno ⟨other, hother, hothernames, ?_⟩
      simpa using hlive
  · intro htold
    refine ⟨_, isRootDeleted_eq h, ?_⟩
    rw [← Option.some.injEq, ← isRootDeleted_eq h, hanswer]
    constructor
    · rintro ⟨before, entry, after, hsplit, hnames, hdeleted, hbefore⟩
      by_contra hunlisted
      obtain ⟨other, hother, hothernames, hlive⟩ :=
        htold.unlisted hunlisted before entry after hsplit hnames hdeleted
      have := hbefore other hother hothernames
      rw [hlive] at this
      cases this
    · exact htold.listed

end Detection

namespace TopLevelListing

def folder (deletedAt : Option String) : Json :=
  .object ([("id", .string "R"), ("type", .string "folder"),
    ("updated_at", .string "t1")] ++
      (match deletedAt with
      | some at_ => [("deleted_at", .string at_)]
      | none => []))

/-- A deleted file of the folder R. -/
def file : Json :=
  .object [("id", .string "F"), ("type", .string "file"),
    ("folder_id", .string "R"), ("updated_at", .string "t1"),
    ("deleted_at", .string "t2")]

/-- A server that lists the items on one page. -/
def getJson (items : List Json) (path : String) : Option Json :=
  if path = "/api/sync/entries?include_deleted=true&limit=100" then
    some (.object [("entries", .array items)])
  else none

def root : SyncRoot :=
  { id := "root", localPath := "/r", folderId := "R", mode := .twoWay }

def folderEntry (deletedAt : Option String) : SyncEntryResponse :=
  { remoteId := "R"
    type := "folder"
    remoteFileId := none
    remoteFolderId := some "R"
    deletedAt := deletedAt
    updatedAt := "t1" }

def fileEntry : SyncEntryResponse :=
  { remoteId := "F"
    type := "file"
    remoteFileId := some "F"
    remoteFolderId := some "R"
    deletedAt := some "t2"
    updatedAt := "t1" }

/-- The live folder, listed ahead of a file in it that was deleted. -/
theorem serves_folderFirst :
    Serves (getJson [folder none, file]) none none
      [folderEntry none, fileEntry] :=
  .last none _ { entries := [folderEntry none, fileEntry] } rfl (by decide)
    (by decide) rfl

/-- The same with the file ahead. -/
theorem serves_fileFirst :
    Serves (getJson [file, folder none]) none none
      [fileEntry, folderEntry none] :=
  .last none _ { entries := [fileEntry, folderEntry none] } rfl (by decide)
    (by decide) rfl

theorem toldApart_folderFirst :
    ToldApart (getJson [folder none, file]) root
      [folderEntry none, fileEntry] := by
  have hexamined : examined (getJson [folder none, file]) root =
      [folderEntry none, fileEntry] := by decide
  constructor
  · rintro ⟨entry, hentry, htype, -, hdeleted⟩
    rcases List.mem_cons.mp hentry with rfl | hentry
    · cases hdeleted
    · rw [List.mem_singleton.mp hentry] at htype
      exact absurd htype (by decide)
  · intro _ before entry after hsplit _ hdeleted
    rw [hexamined] at hsplit
    cases before with
    | nil =>
        cases hsplit
        cases hdeleted
    | cons first before =>
        rw [List.cons_append, List.cons.injEq] at hsplit
        rw [← hsplit.1]
        exact ⟨folderEntry none, by simp, Or.inl rfl, rfl⟩

end TopLevelListing

/-- With the folder's own entry first, a deleted file in it does not
mislead. -/
theorem detects_folderFirst :
    Detects (TopLevelListing.getJson
        [TopLevelListing.folder none, TopLevelListing.file])
      TopLevelListing.root
      [TopLevelListing.folderEntry none, TopLevelListing.fileEntry] :=
  (detects_iff_toldApart TopLevelListing.serves_folderFirst).mpr
    TopLevelListing.toldApart_folderFirst

/-- A deleted file of the live folder, listed first, makes the root look
deleted. -/
theorem not_detects :
    ¬∀ (getJson : String → Option Json) (root : SyncRoot)
        (entries : List SyncEntryResponse),
        Serves getJson none none entries → Detects getJson root entries := by
  intro h
  obtain ⟨answer, hdone, hright⟩ := h _ TopLevelListing.root _
    TopLevelListing.serves_fileFirst
  have htrue : isRootDeleted (TopLevelListing.getJson
      [TopLevelListing.file, TopLevelListing.folder none])
        TopLevelListing.root = some true := by decide
  rw [htrue, Option.some.injEq] at hdone
  obtain ⟨entry, hentry, htype, -, hdeleted⟩ := hright.mp hdone.symm
  rcases List.mem_cons.mp hentry with rfl | hentry
  · exact absurd htype (by decide)
  · rw [List.mem_singleton.mp hentry] at hdeleted
    cases hdeleted

end ArkiveSync.RemoteScanner
