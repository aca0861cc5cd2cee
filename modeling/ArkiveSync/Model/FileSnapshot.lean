import Mathlib.Logic.Function.Basic
import ArkiveSync.Library.KeyedList
import ArkiveSync.Model.FileEvents

/-!
# The difference of two snapshots

A watcher without events of its own compares what a tree holds with what it
held.  `diffFileSnapshots` goes through the paths that are gone, through the
paths that are there, and through those that are gone once more.  A path that
is new with the identity of one that is gone has been renamed; the identities
of the missing paths are in a map, from which each rename takes its own.

A snapshot is a list in the order in which its hash map iterates.

## Main results

* `collectDeleted_spec`: which entry the map has for an identity.
* `diffAfter_spec`: the events of the second pass, and what it takes from the
  map.
* `diffDeleted_eq`: the events of the third pass.
-/

namespace ArkiveSync

open Library

/-- `FileSnapshotEntry`. -/
structure FileSnapshotEntry where
  path : String
  identity : String
  size : Nat
  modifiedAt : Int
  isDirectory : Bool
  deriving DecidableEq, Repr

/-- `FileSnapshot`. -/
structure FileSnapshot where
  entries : List (String × FileSnapshotEntry)
  nodup : (entries.map Prod.fst).Nodup

/-- `FileEvent`, with the field that only snapshots fill in. -/
structure SnapshotEvent extends FileEvent where
  isDirectory : Bool
  deriving DecidableEq, Repr

/-- `deletedByIdentity`. -/
abbrev IdentityMap := String → Option FileSnapshotEntry

namespace FileSnapshot

/-- `find`. -/
def find? (s : FileSnapshot) (key : String) : Option FileSnapshotEntry :=
  (findKey Prod.fst key s.entries).map Prod.snd

/-- `contains`. -/
def contains (s : FileSnapshot) (key : String) : Bool := (s.find? key).isSome

/-- `changed`. -/
def changed (before after : FileSnapshotEntry) : Bool :=
  before.isDirectory != after.isDirectory || before.size != after.size ||
    before.modifiedAt != after.modifiedAt

/-- An event about one entry. -/
def eventFor (rootId : String) (type : FileEventType)
    (entry : FileSnapshotEntry) : SnapshotEvent :=
  { rootId := rootId, type := type, path := entry.path
    isDirectory := entry.isDirectory }

/-- A `Renamed` event. -/
def renameEvent (rootId : String)
    (pair : FileSnapshotEntry × FileSnapshotEntry) : SnapshotEvent :=
  { rootId := rootId, type := .renamed, path := pair.2.path
    oldPath := some pair.1.path, isDirectory := pair.2.isDirectory }

/-- The first loop over `before`. -/
def collectDeleted (after : FileSnapshot) :
    List (String × FileSnapshotEntry) → IdentityMap → IdentityMap
  | [], deletedByIdentity => deletedByIdentity
  | (key, entry) :: rest, deletedByIdentity =>
      collectDeleted after rest
        (if !after.contains key && entry.identity != "" then
          Function.update deletedByIdentity entry.identity (some entry)
        else deletedByIdentity)

/-- `renamedFrom`. -/
def renamedFrom (deletedByIdentity : IdentityMap) (entry : FileSnapshotEntry) :
    Option FileSnapshotEntry :=
  if entry.identity = "" then none else deletedByIdentity entry.identity

/-- The loop over `after`. -/
def diffAfter (rootId : String) (before : FileSnapshot) :
    List (String × FileSnapshotEntry) → IdentityMap →
      List SnapshotEvent × IdentityMap
  | [], deletedByIdentity => ([], deletedByIdentity)
  | (key, entry) :: rest, deletedByIdentity =>
      match before.find? key with
      | some old =>
          let done := diffAfter rootId before rest deletedByIdentity
          (if changed old entry then eventFor rootId .modified entry :: done.1
            else done.1, done.2)
      | none =>
          match renamedFrom deletedByIdentity entry with
          | some old =>
              let done := diffAfter rootId before rest
                (Function.update deletedByIdentity entry.identity none)
              (renameEvent rootId (old, entry) :: done.1, done.2)
          | none =>
              let done := diffAfter rootId before rest deletedByIdentity
              (eventFor rootId .created entry :: done.1, done.2)

/-- The second loop over `before`. -/
def diffDeleted (rootId : String) (after : FileSnapshot)
    (deletedByIdentity : IdentityMap) :
    List (String × FileSnapshotEntry) → List SnapshotEvent
  | [] => []
  | (key, entry) :: rest =>
      if after.contains key then
        diffDeleted rootId after deletedByIdentity rest
      else if entry.identity != "" &&
          (deletedByIdentity entry.identity).isNone then
        diffDeleted rootId after deletedByIdentity rest
      else
        eventFor rootId .deleted entry ::
          diffDeleted rootId after deletedByIdentity rest

/-- `diffFileSnapshots`. -/
def diffFileSnapshots (rootId : String) (before after : FileSnapshot) :
    List SnapshotEvent :=
  let deletedByIdentity := collectDeleted after before.entries (fun _ => none)
  let done := diffAfter rootId before after.entries deletedByIdentity
  done.1 ++ diffDeleted rootId after done.2 before.entries

/-! ## What is only in one of them -/

/-- The entries of a list whose paths the other snapshot does not have. -/
def missingFrom (s : FileSnapshot) (entries : List (String × FileSnapshotEntry)) :
    List FileSnapshotEntry :=
  (entries.filter (fun p => !s.contains p.1)).map Prod.snd

/-- The entries of a list whose paths the older snapshot has, but changed. -/
def changedSince (before : FileSnapshot)
    (entries : List (String × FileSnapshotEntry)) : List FileSnapshotEntry :=
  (entries.filter (fun p =>
    (before.find? p.1).any (fun old => changed old p.2))).map Prod.snd

variable {rootId : String} {before after s : FileSnapshot}

theorem missingFrom_cons_of_contains {key : String} {entry : FileSnapshotEntry}
    {rest : List (String × FileSnapshotEntry)} (h : s.contains key = true) :
    missingFrom s ((key, entry) :: rest) = missingFrom s rest := by
  unfold missingFrom
  rw [List.filter_cons_of_neg (by simp [h])]

theorem missingFrom_cons_of_not {key : String} {entry : FileSnapshotEntry}
    {rest : List (String × FileSnapshotEntry)} (h : s.contains key = false) :
    missingFrom s ((key, entry) :: rest) = entry :: missingFrom s rest := by
  unfold missingFrom
  rw [List.filter_cons_of_pos (by simp [h])]
  rfl

/-! ## The first loop -/

/-- The map has an entry for exactly the identities of the missing paths, and
the entry is one of them. -/
structure Collected (missing : List FileSnapshotEntry) (m : IdentityMap) :
    Prop where
  sound : ∀ i e, m i = some e → e ∈ missing ∧ e.identity = i ∧ i ≠ ""
  complete : ∀ e ∈ missing, e.identity ≠ "" → (m e.identity).isSome = true

/-- By induction on the entries, with what the map had before. -/
theorem collectDeleted_sound {missing : List FileSnapshotEntry} :
    ∀ {entries : List (String × FileSnapshotEntry)} {m : IdentityMap},
      (∀ i e, m i = some e → e ∈ missing ∧ e.identity = i ∧ i ≠ "") →
      (∀ e ∈ missingFrom after entries, e ∈ missing) →
      ∀ i e, collectDeleted after entries m i = some e →
        e ∈ missing ∧ e.identity = i ∧ i ≠ "" := by
  intro entries
  induction entries with
  | nil =>
      intro m hm _
      exact hm
  | cons first rest ih =>
      obtain ⟨key, entry⟩ := first
      intro m hm hmissing
      rw [collectDeleted]
      by_cases hcontains : after.contains key = true
      · rw [missingFrom_cons_of_contains hcontains] at hmissing
        rw [if_neg (by simp [hcontains])]
        exact ih hm hmissing
      · rw [Bool.not_eq_true] at hcontains
        rw [missingFrom_cons_of_not hcontains, List.forall_mem_cons] at hmissing
        by_cases hidentity : entry.identity = ""
        · rw [if_neg (by simp [hidentity])]
          exact ih hm hmissing.2
        · rw [if_pos (by simp [hcontains, hidentity])]
          refine ih ?_ hmissing.2
          intro i e he
          rw [Function.update_apply] at he
          split at he
          next hsame =>
              cases he
              exact ⟨hmissing.1, hsame.symm, hsame ▸ hidentity⟩
          next => exact hm i e he

/-- An identity that is in the map stays there. -/
theorem collectDeleted_isSome_of {i : String} :
    ∀ {entries : List (String × FileSnapshotEntry)} {m : IdentityMap},
      (m i).isSome = true →
      (collectDeleted after entries m i).isSome = true := by
  intro entries
  induction entries with
  | nil =>
      intro m h
      exact h
  | cons first rest ih =>
      obtain ⟨key, entry⟩ := first
      intro m h
      rw [collectDeleted]
      refine ih ?_
      split
      · rw [Function.update_apply]
        split
        · rfl
        · exact h
      · exact h

theorem collectDeleted_complete :
    ∀ {entries : List (String × FileSnapshotEntry)} {m : IdentityMap},
      ∀ e ∈ missingFrom after entries, e.identity ≠ "" →
        (collectDeleted after entries m e.identity).isSome = true := by
  intro entries
  induction entries with
  | nil =>
      intro m e he
      cases he
  | cons first rest ih =>
      obtain ⟨key, entry⟩ := first
      intro m e he hidentity
      rw [collectDeleted]
      by_cases hcontains : after.contains key = true
      · rw [missingFrom_cons_of_contains hcontains] at he
        exact ih e he hidentity
      · rw [Bool.not_eq_true] at hcontains
        rw [missingFrom_cons_of_not hcontains, List.mem_cons] at he
        rcases he with rfl | he
        · rw [if_pos (by simp [hcontains, hidentity])]
          refine collectDeleted_isSome_of ?_
          rw [Function.update_self]
          rfl
        · exact ih e he hidentity

theorem collectDeleted_spec (before after : FileSnapshot) :
    Collected (missingFrom after before.entries)
      (collectDeleted after before.entries (fun _ => none)) where
  sound := collectDeleted_sound (fun i e h => by cases h) (fun _ h => h)
  complete := collectDeleted_complete

/-! ## The loop over the new snapshot -/

/-- What the second pass makes of new entries and a map: the pairs, the entries
that stay alone, and the map that is left. -/
structure Paired (news : List FileSnapshotEntry) (m m' : IdentityMap)
    (pairs : List (FileSnapshotEntry × FileSnapshotEntry))
    (alone : List FileSnapshotEntry) : Prop where
  covers : (pairs.map Prod.snd ++ alone).Perm news
  taken : ∀ pair ∈ pairs, pair.2.identity ≠ "" ∧
    m pair.2.identity = some pair.1
  apart : (pairs.map (fun pair => pair.2.identity)).Nodup
  left : ∀ i, m' i = if i ≠ "" ∧ i ∈ news.map FileSnapshotEntry.identity
    then none else m i
  all : ∀ e ∈ news, e.identity ≠ "" → (m e.identity).isSome = true →
    e.identity ∈ pairs.map (fun pair => pair.2.identity)

theorem Paired.nil (m : IdentityMap) : Paired [] m m [] [] where
  covers := List.Perm.nil
  taken pair hpair := by cases hpair
  apart := List.nodup_nil
  left i := by simp
  all e he := by cases he

variable {news : List FileSnapshotEntry} {m m' : IdentityMap}
  {pairs : List (FileSnapshotEntry × FileSnapshotEntry)}
  {alone : List FileSnapshotEntry} {entry old : FileSnapshotEntry}

/-- One more entry that takes an entry of the map. -/
theorem Paired.pair (hidentity : entry.identity ≠ "")
    (hm : m entry.identity = some old)
    (h : Paired news (Function.update m entry.identity none) m' pairs alone) :
    Paired (entry :: news) m m' ((old, entry) :: pairs) alone := by
  have hother : ∀ pair ∈ pairs, pair.2.identity ≠ entry.identity := by
    intro pair hpair hsame
    have htaken := (h.taken pair hpair).2
    rw [hsame, Function.update_self] at htaken
    cases htaken
  refine ⟨?_, ?_, ?_, ?_, ?_⟩
  · exact List.Perm.cons _ h.covers
  · intro pair hpair
    rcases List.mem_cons.mp hpair with rfl | hpair
    · exact ⟨hidentity, hm⟩
    · obtain ⟨hnonempty, htaken⟩ := h.taken pair hpair
      rw [Function.update_of_ne (hother pair hpair)] at htaken
      exact ⟨hnonempty, htaken⟩
  · rw [List.map_cons, List.nodup_cons]
    refine ⟨?_, h.apart⟩
    intro hmem
    obtain ⟨pair, hpair, hsame⟩ := List.mem_map.mp hmem
    exact hother pair hpair hsame
  · intro i
    rw [h.left i, List.map_cons]
    by_cases hsame : i = entry.identity
    · rw [hsame, Function.update_self, ite_self,
        if_pos ⟨hidentity, List.mem_cons_self⟩]
    · simp only [Function.update_of_ne hsame, List.mem_cons, hsame, false_or]
  · intro e he hnonempty hsome
    rw [List.map_cons, List.mem_cons]
    rcases List.mem_cons.mp he with rfl | he
    · exact Or.inl rfl
    · by_cases hsame : e.identity = entry.identity
      · exact Or.inl hsame
      · refine Or.inr (h.all e he hnonempty ?_)
        rw [Function.update_of_ne hsame]
        exact hsome

/-- One more entry that finds none. -/
theorem Paired.lone (hm : entry.identity ≠ "" → m entry.identity = none)
    (h : Paired news m m' pairs alone) :
    Paired (entry :: news) m m' pairs (entry :: alone) := by
  refine ⟨List.perm_middle.trans (List.Perm.cons _ h.covers), h.taken, h.apart,
    ?_, ?_⟩
  · intro i
    rw [h.left i, List.map_cons]
    by_cases hsame : i = entry.identity
    · by_cases hempty : i = ""
      · simp [hempty]
      · rw [hsame] at hempty ⊢
        rw [hm hempty, ite_self, if_pos ⟨hempty, List.mem_cons_self⟩]
    · simp only [List.mem_cons, hsame, false_or]
  · intro e he hnonempty hsome
    rcases List.mem_cons.mp he with rfl | he
    · rw [hm hnonempty] at hsome
      cases hsome
    · exact h.all e he hnonempty hsome

/-- The events of the second pass, one for each new or changed entry. -/
theorem diffAfter_spec (rootId : String) (before : FileSnapshot) :
    ∀ (entries : List (String × FileSnapshotEntry)) (m : IdentityMap),
      ∃ pairs alone,
        Paired (missingFrom before entries) m
          (diffAfter rootId before entries m).2 pairs alone ∧
        (diffAfter rootId before entries m).1.Perm
          ((changedSince before entries).map (eventFor rootId .modified) ++
            (pairs.map (renameEvent rootId) ++
              alone.map (eventFor rootId .created))) := by
  intro entries
  induction entries with
  | nil =>
      intro m
      exact ⟨[], [], .nil m, List.Perm.nil⟩
  | cons first rest ih =>
      obtain ⟨key, entry⟩ := first
      intro m
      rw [diffAfter]
      cases hfind : before.find? key with
      | some old =>
          have hcontains : before.contains key = true := by
            rw [contains, hfind]
            rfl
          obtain ⟨pairs, alone, hpaired, hevents⟩ := ih m
          refine ⟨pairs, alone, ?_, ?_⟩
          · rw [missingFrom_cons_of_contains hcontains]
            exact hpaired
          · unfold changedSince
            by_cases hchanged : changed old entry = true
            · rw [List.filter_cons_of_pos (by simp [hfind, hchanged])]
              simp only [hchanged, if_true]
              exact List.Perm.cons _ hevents
            · rw [List.filter_cons_of_neg (by simp [hfind, hchanged])]
              simp only [hchanged]
              exact hevents
      | none =>
          have hcontains : before.contains key = false := by
            rw [contains, hfind]
            rfl
          have hunchanged : changedSince before ((key, entry) :: rest) =
              changedSince before rest := by
            unfold changedSince
            rw [List.filter_cons_of_neg (by simp [hfind])]
          rw [missingFrom_cons_of_not hcontains, hunchanged]
          cases hfrom : renamedFrom m entry with
          | some old =>
              obtain ⟨pairs, alone, hpaired, hevents⟩ :=
                ih (Function.update m entry.identity none)
              unfold renamedFrom at hfrom
              split at hfrom
              next => cases hfrom
              next hidentity =>
                  refine ⟨(old, entry) :: pairs, alone,
                    hpaired.pair hidentity hfrom, ?_⟩
                  exact (List.Perm.cons _ hevents).trans
                    List.perm_middle.symm
          | none =>
              obtain ⟨pairs, alone, hpaired, hevents⟩ := ih m
              refine ⟨pairs, entry :: alone, hpaired.lone ?_, ?_⟩
              · intro hidentity
                unfold renamedFrom at hfrom
                rw [if_neg hidentity] at hfrom
                exact hfrom
              · refine (List.Perm.cons _ hevents).trans ?_
                rw [List.map_cons, ← List.append_assoc, ← List.append_assoc]
                exact List.perm_middle.symm

/-! ## The last loop -/

/-- The identity of the entry is still in the map, or empty. -/
def unpaired (m : IdentityMap) (entry : FileSnapshotEntry) : Bool :=
  entry.identity == "" || (m entry.identity).isSome

theorem diffDeleted_eq (rootId : String) (after : FileSnapshot)
    (m : IdentityMap) (entries : List (String × FileSnapshotEntry)) :
    diffDeleted rootId after m entries =
      ((missingFrom after entries).filter (unpaired m)).map
        (eventFor rootId .deleted) := by
  induction entries with
  | nil => rfl
  | cons first rest ih =>
      obtain ⟨key, entry⟩ := first
      rw [diffDeleted, ih]
      by_cases hcontains : after.contains key = true
      · rw [if_pos hcontains, missingFrom_cons_of_contains hcontains]
      · rw [if_neg hcontains]
        rw [Bool.not_eq_true] at hcontains
        rw [missingFrom_cons_of_not hcontains]
        by_cases hunpaired : unpaired m entry = true
        · rw [List.filter_cons_of_pos hunpaired, if_neg]
          · rfl
          · unfold unpaired at hunpaired
            cases hm : m entry.identity <;> simp_all
        · rw [List.filter_cons_of_neg hunpaired, if_pos]
          unfold unpaired at hunpaired
          cases hm : m entry.identity <;> simp_all

end FileSnapshot

end ArkiveSync
