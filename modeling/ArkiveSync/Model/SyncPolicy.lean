import ArkiveSync.Model.Entry

/-!
# Classifying a row and deciding about it

`SyncStateClassifier` reads eight flags off a row, and `SyncPolicy` maps the
flags to a decision, with one table of rules for each mode of a root.

## Main results

* `decide_of_hasConflict`: a recorded conflict settles the decision in every
  mode.
* `decideEntry_eq_deleteLocal_iff`: the columns of the rows that are deleted
  locally; their content is the content last synchronised.
* `decideTwoWay_eq_download_iff`: the states in which a two-way root downloads.
-/

namespace ArkiveSync

/-- `SyncMode`. -/
inductive SyncMode where
  | uploadOnly
  | remoteMirror
  | twoWay
  deriving DecidableEq, Repr

/-- `SyncDecision`. -/
inductive SyncDecision where
  | noop
  | upload
  | download
  | deleteLocal
  | deleteRemote
  | conflict
  deriving DecidableEq, Repr

/-- `SyncEntryState`. -/
structure SyncEntryState where
  localExists : Bool
  remoteExists : Bool
  localDeleted : Bool
  remoteDeleted : Bool
  localDirty : Bool
  remoteDirty : Bool
  isDirectory : Bool
  hasConflict : Bool
  deriving DecidableEq, Repr

/-- `SyncStateClassifier::classify`. -/
def classify (e : Entry) : SyncEntryState :=
  let localDeleted := e.localDeletedAt.isSome
  let remoteDeleted := e.remoteDeletedAt.isSome
  { localExists := !localDeleted
    remoteExists := e.remoteId.isSome && !remoteDeleted
    localDeleted := localDeleted
    remoteDeleted := remoteDeleted
    localDirty := !localDeleted && e.contentHash != e.syncedContentHash
    remoteDirty := !remoteDeleted &&
      e.remoteUpdatedAt != e.syncedRemoteUpdatedAt
    isDirectory := e.isDirectory
    hasConflict := e.conflictState.isSome && e.conflictState != some "none" }

namespace SyncPolicy

/-- `decideUploadOnly`. -/
def decideUploadOnly (s : SyncEntryState) : SyncDecision :=
  if s.hasConflict then .conflict
  else if s.localDeleted && s.remoteDirty then .conflict
  else if s.localDeleted && s.remoteExists then .deleteRemote
  else if s.localExists && !s.remoteExists then .upload
  else if s.localExists && s.localDirty then .upload
  else .noop

/-- `decideRemoteMirror`. -/
def decideRemoteMirror (s : SyncEntryState) : SyncDecision :=
  if s.hasConflict then .conflict
  else if s.remoteDeleted && s.localDirty then .conflict
  else if s.remoteDeleted && s.localExists then .deleteLocal
  else if s.remoteExists && !s.localExists then .download
  else if s.remoteExists && s.remoteDirty then .download
  else .noop

/-- `decideTwoWay`. -/
def decideTwoWay (s : SyncEntryState) : SyncDecision :=
  if s.hasConflict then .conflict
  else if (s.localDeleted && s.remoteDirty) ||
      (s.remoteDeleted && s.localDirty) ||
      (s.localDirty && s.remoteDirty) then .conflict
  else if s.localDeleted && s.remoteExists then .deleteRemote
  else if s.remoteDeleted && s.localExists then .deleteLocal
  else if s.localExists && !s.remoteExists then .upload
  else if s.remoteExists && !s.localExists then .download
  else if s.localExists && s.localDirty then .upload
  else if s.remoteExists && s.remoteDirty then .download
  else .noop

/-- `SyncPolicy::decide`. -/
def decide (s : SyncEntryState) : SyncMode → SyncDecision
  | .uploadOnly => decideUploadOnly s
  | .remoteMirror => decideRemoteMirror s
  | .twoWay => decideTwoWay s

end SyncPolicy

/-- `SyncRoot`. -/
structure SyncRoot where
  id : String
  localPath : String
  folderId : String
  enabled : Bool := true
  mode : SyncMode
  deriving DecidableEq, Repr

/-- The decision the callers of the policy take for a row. -/
def decideEntry (mode : SyncMode) (e : Entry) : SyncDecision :=
  SyncPolicy.decide (classify e) mode

/-! ## The flags of a row -/

/-- What the classifier guarantees about the flags of any row. -/
structure SyncEntryState.Consistent (s : SyncEntryState) : Prop where
  localSides : s.localExists = !s.localDeleted
  remoteLive : s.remoteExists = true → s.remoteDeleted = false
  dirtyLive : s.localDirty = true → s.localDeleted = false
  remoteDirtyLive : s.remoteDirty = true → s.remoteDeleted = false

theorem classify_consistent (e : Entry) : (classify e).Consistent := by
  refine ⟨rfl, ?_, ?_, ?_⟩
  · intro h
    have := (Bool.and_eq_true _ _).mp h
    simpa [classify] using this.2
  · intro h
    have := (Bool.and_eq_true _ _).mp h
    simpa [classify] using this.1
  · intro h
    have := (Bool.and_eq_true _ _).mp h
    simpa [classify] using this.1

/-! ## What a decision says about the row -/

namespace SyncPolicy

variable {s : SyncEntryState} {mode : SyncMode}

/-- A recorded conflict settles the decision in every mode. -/
theorem decide_of_hasConflict (h : s.hasConflict = true) :
    decide s mode = .conflict := by
  cases mode <;>
    simp [decide, decideUploadOnly, decideRemoteMirror, decideTwoWay, h]

/-- A row is deleted locally in the two modes that follow the remote only,
when it is deleted there, still present here and clean. -/
theorem decide_eq_deleteLocal_iff (hs : s.Consistent) :
    decide s mode = .deleteLocal ↔
      mode ≠ .uploadOnly ∧ s.hasConflict = false ∧ s.remoteDeleted = true ∧
        s.localDeleted = false ∧ s.localDirty = false := by
  obtain ⟨le, re, ld, rd, lDirty, rDirty, dir, conf⟩ := s
  obtain ⟨h1, h2, h3, h4⟩ := hs
  dsimp only at h1 h2 h3 h4 ⊢
  subst h1
  cases mode <;> revert re ld rd lDirty rDirty conf dir <;> decide

/-- A two-way root downloads a live remote object that changed while the row
stayed clean and present. -/
theorem decideTwoWay_eq_download_iff (hs : s.Consistent) :
    decideTwoWay s = .download ↔
      s.hasConflict = false ∧ s.remoteExists = true ∧
        s.localDeleted = false ∧ s.localDirty = false ∧
        s.remoteDirty = true := by
  obtain ⟨le, re, ld, rd, lDirty, rDirty, dir, conf⟩ := s
  obtain ⟨h1, h2, h3, h4⟩ := hs
  dsimp only at h1 h2 h3 h4 ⊢
  subst h1
  revert re ld rd lDirty rDirty conf dir
  decide

/-- A download of a row that is present here is not due again. -/
theorem decide_of_downloaded (hs : s.Consistent) (h : decide s mode = .download)
    (hpresent : s.localDeleted = false) {localDirty : Bool}
    (hdirty : localDirty = true → s.localDirty = true) :
    decide { s with remoteDirty := false, localDirty := localDirty } mode =
      .noop := by
  obtain ⟨le, re, ld, rd, lDirty, rDirty, dir, conf⟩ := s
  obtain ⟨h1, h2, h3, h4⟩ := hs
  dsimp only at h1 h2 h3 h4 hpresent hdirty
  subst h1 hpresent
  cases mode <;> revert re rd lDirty rDirty conf dir localDirty <;> decide

end SyncPolicy

/-- A conflict marked on a row is what its decision is from then on. -/
theorem decideEntry_of_hasConflict {mode : SyncMode} {e : Entry}
    (h : (classify e).hasConflict = true) : decideEntry mode e = .conflict :=
  SyncPolicy.decide_of_hasConflict h

/-- `DeleteLocal` in terms of the columns. -/
theorem decideEntry_eq_deleteLocal_iff {mode : SyncMode} {e : Entry} :
    decideEntry mode e = .deleteLocal ↔
      mode ≠ .uploadOnly ∧ (classify e).hasConflict = false ∧
        e.remoteDeletedAt.isSome = true ∧ e.localDeletedAt = none ∧
        e.contentHash = e.syncedContentHash := by
  unfold decideEntry
  rw [SyncPolicy.decide_eq_deleteLocal_iff (classify_consistent e)]
  simp only [classify]
  cases e.localDeletedAt <;> simp

end ArkiveSync
