import Mathlib.Data.List.Dedup
import Mathlib.Data.List.Perm.Basic
import ArkiveSync.Model.FileSnapshot

/-!
# What the difference of two snapshots reports

The map of the missing paths has one entry for an identity, and a rename takes
it.  Of two missing paths with one identity, as two hard links to a file have
it, the rename reports one, and the test of the last pass finds the identity
gone for the other as well.

## Main results

* `hits_perm_of_nodup`, `nodup_of_length`: the missing paths that the last pass
  skips are those that the renames report, if their identities differ, and are
  more than those otherwise.
* `diff_accounts_iff`: the snapshots whose difference accounts for every
  change.
-/

namespace ArkiveSync.SnapshotDiffs

open Library FileSnapshot

variable {rootId : String} {before after : FileSnapshot}
  {missing news : List FileSnapshotEntry} {m m' : IdentityMap}
  {pairs : List (FileSnapshotEntry × FileSnapshotEntry)}
  {alone : List FileSnapshotEntry}

/-- The events of a difference: each missing path is deleted or the old side of
a rename, each new path created or the new side, and each changed one modified,
once. -/
def events (rootId : String) (modified created deleted : List FileSnapshotEntry)
    (pairs : List (FileSnapshotEntry × FileSnapshotEntry)) :
    List SnapshotEvent :=
  modified.map (eventFor rootId .modified) ++
    (pairs.map (renameEvent rootId) ++
      (created.map (eventFor rootId .created) ++
        deleted.map (eventFor rootId .deleted)))

/-- A list of events accounts for every change, and for nothing else. -/
def Accounts (rootId : String) (before after : FileSnapshot)
    (reported : List SnapshotEvent) : Prop :=
  ∃ created deleted pairs,
    (deleted ++ pairs.map Prod.fst).Perm (missingFrom after before.entries) ∧
    (created ++ pairs.map Prod.snd).Perm (missingFrom before after.entries) ∧
    reported.Perm (events rootId (changedSince before after.entries) created
      deleted pairs)

/-- No identity of a new path belongs to two of the missing ones. -/
def PairsUniquely (before after : FileSnapshot) : Prop :=
  ∀ entry ∈ missingFrom before after.entries, entry.identity ≠ "" →
    (missingFrom after before.entries).countP
      (fun old => decide (old.identity = entry.identity)) ≤ 1

/-! ## The paths that the last pass skips -/

/-- The missing entries without an identity in the map that is left. -/
def hits (m' : IdentityMap) (missing : List FileSnapshotEntry) :
    List FileSnapshotEntry :=
  missing.filter (fun e => !unpaired m' e)

theorem mem_hits (hcollected : Collected missing m)
    (hpaired : Paired news m m' pairs alone) {e : FileSnapshotEntry} :
    e ∈ hits m' missing ↔ e ∈ missing ∧ e.identity ≠ "" ∧
      e.identity ∈ news.map FileSnapshotEntry.identity := by
  unfold hits unpaired
  rw [List.mem_filter, hpaired.left]
  constructor
  · rintro ⟨hmissing, hunpaired⟩
    by_cases hidentity : e.identity = ""
    · simp [hidentity] at hunpaired
    · refine ⟨hmissing, hidentity, ?_⟩
      by_contra hnew
      have hsome := hcollected.complete e hmissing hidentity
      simp [hnew, hsome] at hunpaired
  · rintro ⟨hmissing, hidentity, hnew⟩
    refine ⟨hmissing, ?_⟩
    rw [if_pos ⟨hidentity, hnew⟩]
    simp [hidentity]

/-- The old side of a rename has the identity of the new one. -/
theorem identity_of_pair (hcollected : Collected missing m)
    (hpaired : Paired news m m' pairs alone)
    {pair : FileSnapshotEntry × FileSnapshotEntry} (h : pair ∈ pairs) :
    pair.1 ∈ missing ∧ pair.1.identity = pair.2.identity :=
  let found := hcollected.sound _ _ (hpaired.taken pair h).2
  ⟨found.1, found.2.1⟩

theorem new_of_pair (hpaired : Paired news m m' pairs alone)
    {pair : FileSnapshotEntry × FileSnapshotEntry} (h : pair ∈ pairs) :
    pair.2 ∈ news :=
  hpaired.covers.subset (List.mem_append_left _ (List.mem_map_of_mem h))

/-- The identities of the old sides, which are different. -/
theorem identities_eq (hcollected : Collected missing m)
    (hpaired : Paired news m m' pairs alone) :
    (pairs.map Prod.fst).map FileSnapshotEntry.identity =
      pairs.map (fun pair => pair.2.identity) := by
  rw [List.map_map]
  exact List.map_congr_left fun pair hpair =>
    (identity_of_pair hcollected hpaired hpair).2

/-- The renames take an entry that the last pass skips, one for each identity
of those. -/
theorem mem_identities (hcollected : Collected missing m)
    (hpaired : Paired news m m' pairs alone) (i : String) :
    i ∈ pairs.map (fun pair => pair.2.identity) ↔
      i ∈ (hits m' missing).map FileSnapshotEntry.identity := by
  constructor
  · intro hi
    obtain ⟨pair, hpair, rfl⟩ := List.mem_map.mp hi
    obtain ⟨hmissing, hsame⟩ := identity_of_pair hcollected hpaired hpair
    refine List.mem_map.mpr ⟨pair.1, ?_, hsame⟩
    rw [mem_hits hcollected hpaired, hsame]
    exact ⟨hmissing, (hpaired.taken pair hpair).1,
      List.mem_map_of_mem (new_of_pair hpaired hpair)⟩
  · intro hi
    obtain ⟨e, he, rfl⟩ := List.mem_map.mp hi
    obtain ⟨hmissing, hidentity, hnew⟩ := (mem_hits hcollected hpaired).mp he
    obtain ⟨entry, hentry, hsame⟩ := List.mem_map.mp hnew
    have hsome := hcollected.complete e hmissing hidentity
    rw [← hsame] at hidentity hsome ⊢
    exact hpaired.all entry hentry hidentity hsome

/-- With different identities, the skipped paths are the renamed ones. -/
theorem hits_perm_of_nodup (hcollected : Collected missing m)
    (hpaired : Paired news m m' pairs alone)
    (hnodup : ((hits m' missing).map FileSnapshotEntry.identity).Nodup) :
    (hits m' missing).Perm (pairs.map Prod.fst) := by
  have holds : ((pairs.map Prod.fst).map FileSnapshotEntry.identity).Nodup := by
    rw [identities_eq hcollected hpaired]
    exact hpaired.apart
  refine (List.perm_ext_iff_of_nodup hnodup.of_map holds.of_map).mpr ?_
  intro e
  constructor
  · intro he
    have hidentity := (mem_identities hcollected hpaired e.identity).mpr
      (List.mem_map_of_mem he)
    obtain ⟨pair, hpair, hsame⟩ := List.mem_map.mp hidentity
    obtain ⟨hmissing, hsame'⟩ := identity_of_pair hcollected hpaired hpair
    have hhit : pair.1 ∈ hits m' missing := by
      rw [mem_hits hcollected hpaired, hsame', hsame]
      exact ⟨hmissing, ((mem_hits hcollected hpaired).mp he).2⟩
    have heq := List.inj_on_of_nodup_map hnodup hhit he (hsame'.trans hsame)
    exact List.mem_map.mpr ⟨pair, hpair, heq⟩
  · intro he
    obtain ⟨pair, hpair, rfl⟩ := List.mem_map.mp he
    obtain ⟨hmissing, hsame⟩ := identity_of_pair hcollected hpaired hpair
    rw [mem_hits hcollected hpaired, hsame]
    exact ⟨hmissing, (hpaired.taken pair hpair).1,
      List.mem_map_of_mem (new_of_pair hpaired hpair)⟩

/-- As many skipped paths as renames: the skipped ones have different
identities. -/
theorem nodup_of_length (hcollected : Collected missing m)
    (hpaired : Paired news m m' pairs alone)
    (hlength : (hits m' missing).length = pairs.length) :
    ((hits m' missing).map FileSnapshotEntry.identity).Nodup := by
  have hperm : ((hits m' missing).map FileSnapshotEntry.identity).dedup.Perm
      (pairs.map (fun pair => pair.2.identity)) := by
    refine (List.perm_ext_iff_of_nodup (List.nodup_dedup _)
      hpaired.apart).mpr ?_
    intro i
    rw [List.mem_dedup]
    exact (mem_identities hcollected hpaired i).symm
  have hwhole := (List.dedup_sublist
    ((hits m' missing).map FileSnapshotEntry.identity)).eq_of_length (by
      rw [hperm.length_eq, List.length_map, List.length_map, hlength])
  rw [← hwhole]
  exact List.nodup_dedup _

/-- The identities of the skipped paths are counted among all missing ones. -/
theorem count_hits (hcollected : Collected missing m)
    (hpaired : Paired news m m' pairs alone) {i : String} (hidentity : i ≠ "")
    (hnew : i ∈ news.map FileSnapshotEntry.identity) :
    ((hits m' missing).map FileSnapshotEntry.identity).count i =
      missing.countP (fun old => decide (old.identity = i)) := by
  rw [List.count_eq_countP, List.countP_map]
  unfold hits
  rw [List.countP_filter]
  refine List.countP_congr ?_
  intro e he
  have hhit : e.identity = i → (!unpaired m' e) = true := by
    rintro rfl
    exact (List.mem_filter.mp ((mem_hits hcollected hpaired).mpr
      ⟨he, hidentity, hnew⟩)).2
  simp only [Function.comp_apply, Bool.and_eq_true, beq_iff_eq,
    decide_eq_true_eq]
  exact ⟨fun h => h.1, fun h => ⟨h, hhit h⟩⟩

/-- The condition on the snapshots says it about the skipped paths. -/
theorem nodup_hits_iff (hcollected : Collected missing m)
    (hpaired : Paired news m m' pairs alone) :
    ((hits m' missing).map FileSnapshotEntry.identity).Nodup ↔
      ∀ entry ∈ news, entry.identity ≠ "" →
        missing.countP (fun old => decide (old.identity = entry.identity)) ≤
          1 := by
  rw [List.nodup_iff_count_le_one]
  constructor
  · intro h entry hentry hidentity
    rw [← count_hits hcollected hpaired hidentity
      (List.mem_map_of_mem hentry)]
    exact h entry.identity
  · intro h i
    by_cases hi : i ∈ (hits m' missing).map FileSnapshotEntry.identity
    · obtain ⟨e, he, rfl⟩ := List.mem_map.mp hi
      obtain ⟨-, hidentity, hnew⟩ := (mem_hits hcollected hpaired).mp he
      rw [count_hits hcollected hpaired hidentity hnew]
      obtain ⟨entry, hentry, hsame⟩ := List.mem_map.mp hnew
      rw [← hsame] at hidentity ⊢
      exact h entry hentry hidentity
    · rw [List.count_eq_zero.mpr hi]
      exact Nat.zero_le 1

/-! ## Counting events -/

/-- How many events of a type there are. -/
def countType (type : FileEventType) (reported : List SnapshotEvent) : Nat :=
  reported.countP (fun event => decide (event.type = type))

theorem countType_deleted (modified created deleted : List FileSnapshotEntry)
    (pairs : List (FileSnapshotEntry × FileSnapshotEntry)) :
    countType .deleted (events rootId modified created deleted pairs) =
      deleted.length := by
  unfold countType events
  simp only [List.countP_append, List.countP_map]
  simp [Function.comp_def, eventFor, renameEvent]

theorem countType_renamed (modified created deleted : List FileSnapshotEntry)
    (pairs : List (FileSnapshotEntry × FileSnapshotEntry)) :
    countType .renamed (events rootId modified created deleted pairs) =
      pairs.length := by
  unfold countType events
  simp only [List.countP_append, List.countP_map]
  simp [Function.comp_def, eventFor, renameEvent]

/-! ## The difference -/

/-- What `diffFileSnapshots` reports, taken apart. -/
theorem diffFileSnapshots_events (rootId : String)
    (before after : FileSnapshot) :
    ∃ pairs alone m',
      Paired (missingFrom before after.entries)
        (collectDeleted after before.entries (fun _ => none)) m' pairs alone ∧
      (diffFileSnapshots rootId before after).Perm
        (events rootId (changedSince before after.entries) alone
          ((missingFrom after before.entries).filter (unpaired m')) pairs) := by
  obtain ⟨pairs, alone, hpaired, hevents⟩ := diffAfter_spec rootId before
    after.entries (collectDeleted after before.entries (fun _ => none))
  refine ⟨pairs, alone, _, hpaired, ?_⟩
  simp only [diffFileSnapshots, events, diffDeleted_eq]
  refine (List.Perm.append_right _ hevents).trans ?_
  simp only [List.append_assoc]
  exact List.Perm.refl _

/-- The difference accounts for every change of every two snapshots, exactly if
no identity of a new path belongs to two missing ones. -/
theorem diff_accounts_iff (rootId : String) (before after : FileSnapshot) :
    Accounts rootId before after (diffFileSnapshots rootId before after) ↔
      PairsUniquely before after := by
  obtain ⟨pairs, alone, m', hpaired, hevents⟩ :=
    diffFileSnapshots_events rootId before after
  have hcollected := collectDeleted_spec before after
  have hsplit : ((missingFrom after before.entries).filter (unpaired m') ++
      hits m' (missingFrom after before.entries)).Perm
        (missingFrom after before.entries) :=
    List.filter_append_perm (unpaired m') _
  unfold PairsUniquely
  rw [← nodup_hits_iff hcollected hpaired]
  constructor
  · rintro ⟨created, deleted, pairs', hmissing, -, hreported⟩
    have hsame := hevents.symm.trans hreported
    have hdeleted := hsame.countP_eq
      (fun event => decide (event.type = .deleted))
    have hrenamed := hsame.countP_eq
      (fun event => decide (event.type = .renamed))
    change countType .deleted _ = countType .deleted _ at hdeleted
    change countType .renamed _ = countType .renamed _ at hrenamed
    rw [countType_deleted, countType_deleted] at hdeleted
    rw [countType_renamed, countType_renamed] at hrenamed
    refine nodup_of_length hcollected hpaired ?_
    have hall := hsplit.length_eq.trans hmissing.length_eq.symm
    rw [List.length_append, List.length_append, List.length_map] at hall
    omega
  · intro hnodup
    refine ⟨alone, _, pairs, ?_, ?_, hevents⟩
    · exact (List.Perm.append_left _
        (hits_perm_of_nodup hcollected hpaired hnodup).symm).trans hsplit
    · exact List.perm_append_comm.trans hpaired.covers

/-! ## Two hard links -/

/-- An entry of a file with one inode. -/
def linkTo (path : String) : FileSnapshotEntry :=
  { path := path, identity := "1:2", size := 3, modifiedAt := 0
    isDirectory := false }

/-- Two links to one file. -/
def twoLinks : FileSnapshot where
  entries := [("a", linkTo "/r/a"), ("b", linkTo "/r/b")]
  nodup := by decide

/-- Both of them removed, and a third one made. -/
def thirdLink : FileSnapshot where
  entries := [("c", linkTo "/r/c")]
  nodup := by decide

/-- One of the two is never reported. -/
theorem twoLinks_unaccounted : ¬ ∀ (rootId : String)
    (before after : FileSnapshot),
    Accounts rootId before after (diffFileSnapshots rootId before after) := by
  intro h
  obtain ⟨created, deleted, pairs, hmissing, -, hreported⟩ :=
    h "root" twoLinks thirdLink
  have hdiff : diffFileSnapshots "root" twoLinks thirdLink =
      [renameEvent "root" (linkTo "/r/b", linkTo "/r/c")] := by
    decide
  rw [hdiff] at hreported
  have hlength := hmissing.length_eq
  have htwo : (missingFrom thirdLink twoLinks.entries).length = 2 := by
    decide
  have hevents := hreported.length_eq
  unfold events at hevents
  simp only [List.length_append, List.length_map, List.length_cons,
    List.length_nil] at hevents hlength
  omega

end ArkiveSync.SnapshotDiffs
