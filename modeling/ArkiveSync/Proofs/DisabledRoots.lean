import ArkiveSync.Model.SyncSteps

/-!
# What still happens to a disabled root

The loop tests the flag of its own copy of a root, which it reads once, and the
queue tests no flag at all.  Only a local scan of the whole root looks the flag
up.  A root that was disabled while the loop holds an enabled copy is scanned,
reconciled and even removed again.

## Main results

* `Idle.step`: without an enabled copy and without jobs that could start, a
  disabled root stays so, and none of its rows changes.
* `disabled_stays_inert`: such a root is left alone by every later step until it
  is added again.
-/

namespace ArkiveSync.DisabledRoots

open Library

/-- The activity is for the root or for one of its rows. -/
def Concerns (syncRootId : String) (s : SyncSystem) : Activity → Prop
  | .scanned id => id = syncRootId
  | .touched id _ => id = syncRootId
  | .createRootFolder id => id = syncRootId
  | .createFolder entryId =>
      ∃ e ∈ s.entries.rows, e.id = entryId ∧ e.syncRootId = syncRootId
  | .startUpload entryId =>
      ∃ e ∈ s.entries.rows, e.id = entryId ∧ e.syncRootId = syncRootId

/-- A step does nothing for the root, and writes none of its rows. -/
structure Inert (syncRootId : String) (s : SyncSystem) (op : Operation)
    (s' : SyncSystem) : Prop where
  quiet : ∀ a ∈ s.activities op, ¬Concerns syncRootId s a
  rows : Statement.SameRows syncRootId s.entries s'.entries

/-- The root is not added again. -/
def NotAdded (syncRootId : String) (_ : SyncSystem) (op : Operation) : Prop :=
  ∀ folderId, ¬SyncSystem.Adds syncRootId folderId op

/-- A pending job for the row comes to its request. -/
def Startable (mode : SyncMode) (e : Entry) : JobType → Prop
  | .createFolder => e.isDirectory = true
  | .uploadFile => decideEntry mode e = .upload

/-- No pending job of the root comes to its request. -/
def NoJobs (syncRootId : String) (mode : SyncMode) (s : SyncSystem) : Prop :=
  ∀ ty n, QueueRepo.Pending s.queue ty n →
    n < s.entries.nextPk ∧ ∀ e ∈ s.entries.rows, e.id = n →
      e.syncRootId = syncRootId → ¬Startable mode e ty

/-- The root is disabled, no thread holds an enabled copy of it, and nothing is
queued for it. -/
structure Idle (syncRootId : String) (s : SyncSystem) : Prop where
  disabled : ∀ root ∈ s.roots, root.id = syncRootId → root.enabled = false
  copies : ∀ root ∈ s.copies, root.id = syncRootId → root.enabled = false
  jobs : ∃ root, SyncRepo.findSyncRootById s.roots syncRootId = some root ∧
    NoJobs syncRootId root.mode s

section Step

variable {syncRootId : String} {s s' : SyncSystem} {op : Operation}

theorem Idle.not_held (h : Idle syncRootId s) : ¬s.Held syncRootId := by
  rintro ⟨root, hroot, hid, henabled⟩
  rw [h.copies root hroot hid] at henabled
  cases henabled

/-- No operation that is allowed works on the root. -/
theorem Idle.not_worksOn (h : Idle syncRootId s) (hallowed : s.Allowed op) :
    ¬SyncSystem.WorksOn syncRootId op :=
  fun hworks => h.not_held (hallowed.held hworks)

theorem Idle.not_binds (h : Idle syncRootId s) (hallowed : s.Allowed op) :
    ¬SyncSystem.Binds syncRootId op := by
  rintro ⟨env, after, complete, rfl⟩
  exact h.not_worksOn hallowed rfl

/-- Every statement of such an operation is for another root. -/
theorem Idle.elsewhere (h : Idle syncRootId s) (hallowed : s.Allowed op)
    {st : Statement} (hst : s.Issues op st) :
    Statement.Elsewhere syncRootId s.entries st := by
  obtain ⟨root, hroot, hjobs⟩ := h.jobs
  have hworks := h.not_worksOn hallowed
  cases hst with
  | scanRoot => exact hworks
  | scanPath => exact hworks
  | folderJob e hmem hpending hdir =>
      refine Statement.idElsewhere_of_mem hmem ?_
      intro hsame
      exact (hjobs _ _ hpending).2 e hmem rfl hsame hdir
  | uploadBatch e hmem hpending own hown hdec =>
      refine Statement.idElsewhere_of_mem hmem ?_
      intro hsame
      rw [hsame, hroot] at hown
      cases hown
      exact (hjobs _ _ hpending).2 e hmem rfl hsame hdec
  | listed u hissued =>
      show u.syncRootId ≠ syncRootId
      rw [hissued.root]
      exact hworks
  | rootDeleted => exact hworks
  | conflict e hmem hown =>
      refine Statement.idElsewhere_of_mem hmem ?_
      rw [hown]
      exact hworks
  | downloaded e hmem hown =>
      refine Statement.idElsewhere_of_mem hmem ?_
      rw [hown]
      exact hworks
  | downloadedAs e hmem hown =>
      refine Statement.idElsewhere_of_mem hmem ?_
      rw [hown]
      exact hworks

theorem Idle.sameRows (h : Idle syncRootId s) (hallowed : s.Allowed op) :
    Statement.SameRows syncRootId s.entries (s.perform op).entries :=
  (SyncSystem.perform_statements s op).sameRows
    (fun _ hst => h.elsewhere hallowed hst)

/-- Nothing is done for the root. -/
theorem Idle.quiet (h : Idle syncRootId s) (hallowed : s.Allowed op) :
    ∀ a ∈ s.activities op, ¬Concerns syncRootId s a := by
  intro a ha hconcerns
  obtain ⟨root, hroot, hjobs⟩ := h.jobs
  cases SyncSystem.activityOf ha with
  | scanned id hworks =>
      have hid : id = syncRootId := hconcerns
      rw [hid] at hworks
      exact h.not_worksOn hallowed hworks
  | touched id hworks effect =>
      have hid : id = syncRootId := hconcerns
      rw [hid] at hworks
      exact h.not_worksOn hallowed hworks
  | createRootFolder env id after complete hop _ =>
      have hid : id = syncRootId := hconcerns
      rw [hid] at hop
      exact h.not_binds hallowed ⟨env, after, complete, hop⟩
  | createFolder e hmem hpending hdir =>
      obtain ⟨f, hf, hid, hown⟩ := hconcerns
      have heq : f = e := s.entries.eq_of_pk_eq hf hmem hid
      rw [heq] at hown
      exact (hjobs _ _ hpending).2 e hmem rfl hown hdir
  | startUpload e hmem hpending own hfind hdec =>
      obtain ⟨f, hf, hid, hown⟩ := hconcerns
      have heq : f = e := s.entries.eq_of_pk_eq hf hmem hid
      rw [heq] at hown
      rw [hown, hroot] at hfind
      cases hfind
      exact (hjobs _ _ hpending).2 e hmem rfl hown hdec

theorem Idle.disabled_perform (h : Idle syncRootId s) (hallowed : s.Allowed op)
    (hadded : NotAdded syncRootId s op) :
    ∀ root ∈ (s.perform op).roots, root.id = syncRootId →
      root.enabled = false := by
  intro root hroot hid
  rcases SyncSystem.mem_roots_perform hroot with
    hold | ⟨r, _, rfl⟩ | hbinds | ⟨folderId, hadds⟩
  · exact h.disabled root hold hid
  · rfl
  · rw [hid] at hbinds
    exact absurd hbinds (h.not_binds hallowed)
  · rw [hid] at hadds
    exact absurd hadds (hadded folderId)

/-- No job of the root comes up. -/
theorem noJobs_perform {mode : SyncMode} (h : Idle syncRootId s)
    (hallowed : s.Allowed op) (hjobs : NoJobs syncRootId mode s) :
    NoJobs syncRootId mode (s.perform op) := by
  have hkeeps := (SyncSystem.perform_statements s op).keeps_root
  have hsame := h.sameRows hallowed
  intro ty n hpending
  rcases SyncSystem.pending_perform hpending with hold | hnew
  · obtain ⟨hlt, hrows⟩ := hjobs ty n hold
    refine ⟨lt_of_lt_of_le hlt hkeeps.nextPk, ?_⟩
    intro e he hid hroot
    exact hrows e ((hsame e hroot).mpr he) hid hroot
  · obtain ⟨f, hf, rfl, hproduces, _⟩ := hnew
    have hother : f.syncRootId ≠ syncRootId := by
      intro hroot
      rw [hroot] at hproduces
      exact h.not_worksOn hallowed hproduces.worksOn
    have helse := (Statement.idElsewhere_of_mem hf hother).of_keeps hkeeps
    refine ⟨helse.1, ?_⟩
    intro e he hid hroot
    exact absurd hroot (helse.2 e he hid)

/-- An idle root stays idle. -/
theorem Idle.step (h : Idle syncRootId s) (hstep : SyncSystem.Step s op s')
    (hadded : NotAdded syncRootId s op) :
    Idle syncRootId s' := by
  obtain ⟨hallowed, rfl⟩ := hstep
  have hdisabled := h.disabled_perform hallowed hadded
  refine { disabled := hdisabled, copies := ?_, jobs := ?_ }
  · intro root hroot hid
    rcases SyncSystem.mem_copies_perform hroot with hold | hread
    · exact h.copies root hold hid
    · exact h.disabled root hread hid
  · obtain ⟨root, hroot, hjobs⟩ := h.jobs
    obtain ⟨root', hroot', hafter⟩ := SyncSystem.find_perform op hroot
    have hid : root.id = syncRootId := SyncRepo.id_of_find hroot
    have hmode : root'.mode = root.mode := by
      cases hafter with
      | same => rfl
      | disabled => rfl
      | bound hbinds =>
          rw [hid] at hbinds
          exact absurd hbinds (h.not_binds hallowed)
      | added folderId hadds =>
          rw [hid] at hadds
          exact absurd hadds (hadded folderId)
    refine ⟨root', hroot', ?_⟩
    rw [hmode]
    exact noJobs_perform h hallowed hjobs

end Step

/-- Once a root is disabled, held by no thread as enabled, and without jobs
that could start, no later step does anything for it until it is added
again. -/
theorem disabled_stays_inert {syncRootId : String} {s₀ s s' : SyncSystem}
    {op : Operation} (hstart : Idle syncRootId s₀)
    (hrun : Run (Guarded SyncSystem.Step (NotAdded syncRootId)) s₀ s)
    (hstep : SyncSystem.Step s op s') (hadded : NotAdded syncRootId s op) :
    Inert syncRootId s op s' := by
  have hkeep : ∀ a op b, SyncSystem.Step a op b → NotAdded syncRootId a op →
      Idle syncRootId a → Idle syncRootId b :=
    fun _ _ _ hstep hadded h => h.step hstep hadded
  have hinert : ∀ a op b, SyncSystem.Step a op b → NotAdded syncRootId a op →
      Idle syncRootId a → Inert syncRootId a op b := by
    rintro a op b ⟨hallowed, rfl⟩ _ h
    exact { quiet := h.quiet hallowed, rows := h.sameRows hallowed }
  exact safe_of_guarded hkeep hinert hstart hrun hstep hadded

/-! ## A removal while the loop runs -/

namespace Removal

def root (enabled : Bool) : SyncRoot :=
  { id := "root", localPath := "/r", folderId := "R", enabled := enabled
    mode := .twoWay }

/-- A daemon whose loop has read the given copies. -/
def state (stored copy : Bool) : SyncSystem :=
  { daemon :=
      { store :=
          { roots := [root stored], entries := KeyedTable.empty
            queue := QueueRepo.empty }
        disk := FileTree.empty
        scanJobs := fun _ => none
        nextScanJobId := 0
        activeScans := fun _ => none
        dirtyPaths := []
        queueCursors := fun _ => none
        queueComplete := fun _ => false }
    copies := [root copy] }

def cwd : FsPath := { isAbsolute := true, names := [], trailing := false }

/-- A dirty path of the root. -/
def dirtyPath : Operation := .scanPath cwd "root" "a" .missing

def removed : SyncSystem := (state true true).perform (.removeSyncRoot "root")

/-- After a restart nothing is held enabled. -/
def restarted : SyncSystem := removed.perform .restart

theorem idle : Idle "root" restarted :=
  { disabled := by
      intro r hr _
      rw [List.mem_singleton.mp hr]
      rfl
    copies := by
      intro r hr _
      rw [List.mem_singleton.mp hr]
      rfl
    jobs := by
      refine ⟨root false, by decide, ?_⟩
      rintro ty n ⟨j, hj, _⟩
      cases hj }

end Removal

/-- After a restart a removed root is left alone. -/
theorem disabled_stays_inert_restarted :
    Inert "root" Removal.restarted .readRoots
      (Removal.restarted.perform .readRoots) :=
  disabled_stays_inert Removal.idle .refl ⟨trivial, rfl⟩ (by
    rintro folderId ⟨_, _, _, _, hop, _⟩
    cases hop)

/-- The running loop goes on scanning it. -/
theorem not_disabled_stays_inert :
    ¬∀ (syncRootId : String) (s₀ s s' : SyncSystem) (op : Operation),
      (∀ root ∈ s₀.roots, root.id = syncRootId → root.enabled = false) →
      Run (Guarded SyncSystem.Step (NotAdded syncRootId)) s₀ s →
      SyncSystem.Step s op s' → NotAdded syncRootId s op →
      Inert syncRootId s op s' := by
  intro h
  have hinert := h "root" Removal.removed _ _ Removal.dirtyPath
    (by
      intro r hr _
      rw [List.mem_singleton.mp hr]
      rfl)
    .refl ⟨⟨Removal.root true, by decide, rfl, rfl⟩, rfl⟩
    (by
      rintro folderId ⟨_, _, _, _, hop, _⟩
      cases hop)
  have hscanned : Activity.scanned "root" ∈
      Removal.removed.activities Removal.dirtyPath := by decide
  exact hinert.quiet _ hscanned rfl

end ArkiveSync.DisabledRoots
