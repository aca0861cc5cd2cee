import ArkiveSync.Library.Mailbox
import ArkiveSync.Model.DirtyPathPass
import ArkiveSync.Model.FileEvents

/-!
# Interleavings of the operations on dirty paths

Events are recorded while other rows are claimed, marked done and marked
failed, in any order.  Only a row that has been claimed is marked.

The partial unique indexes merge an insert with a pending row of the same path.
A row stops being pending when it is claimed and never is pending again: so a
pending row has not been claimed, and whatever is merged into it is claimed
later than the event that has been merged.

## Main results

* `Queue.step_mailbox`: every operation is a step of a mailbox whose keys are
  the paths of the roots.
* `Queue.met_of_run`: a path with a pending row keeps it, or the row is claimed.
-/

namespace ArkiveSync

open Library

/-- The path of a root that a row stands for; the root itself when its whole
tree is to be scanned. -/
def DirtyPath.key (d : DirtyPath) : String × Option String :=
  (d.syncRootId, d.relativePath)

namespace DirtyPathRepo

/-- The table, and the rows that `claimNextPending` has returned so far. -/
structure Queue where
  rows : List DirtyPath
  claims : List DirtyPath

/-- One operation. -/
inductive QueueStep : Queue → Queue → Prop where
  | record (cwd : FsPath) (roots : List SyncRoot) (event : FileEvent)
      (s : Queue) :
      QueueStep s { s with rows := (record cwd roots event s.rows).1 }
  | claim (syncRootId : String) (s : Queue) (d : DirtyPath)
      (rows : List DirtyPath)
      (hclaim : claimNextPending s.rows syncRootId = some (d, rows)) :
      QueueStep s { rows := rows, claims := s.claims ++ [d] }
  | nothing (syncRootId : String) (s : Queue)
      (hclaim : claimNextPending s.rows syncRootId = none) : QueueStep s s
  | mark (s : Queue) (d : DirtyPath) (ok : Bool) (hclaimed : d ∈ s.claims) :
      QueueStep s { s with rows := mark s.rows d.id ok }

/-- An insert as `record` makes it: only full rescans have no path. -/
def InsertStep (ps ps' : List DirtyPath) : Prop :=
  ∃ syncRootId relativePath action,
    (relativePath = none → action = .fullRescan) ∧
      ps' = insertDirtyPath ps syncRootId relativePath action

/-- What holds of a table and the claims made from it: ids are given out one
after the other, a row without a path is a full rescan, and no pending row has
been claimed. -/
structure Sound (s : Queue) : Prop where
  ids : s.rows.map DirtyPath.id = List.range s.rows.length
  issued : ∀ d ∈ s.claims, d.id < s.rows.length
  rescans : ∀ d ∈ s.rows ++ s.claims, d.relativePath = none →
    d.eventType = .fullRescan
  unclaimed : ∀ d ∈ s.rows, d.status = .pending →
    d.id ∉ s.claims.map DirtyPath.id

/-- The paths with a pending row, and those of the claimed rows. -/
def Queue.mailbox (s : Queue) : Mailbox (String × Option String) :=
  { waiting := { k | ∃ d ∈ s.rows, d.status = .pending ∧ d.key = k }
    taken := s.claims.map DirtyPath.key }

/-! ## Inserts -/

/-- `record` makes inserts only. -/
theorem inserts_insertPath (cwd : FsPath) (root : SyncRoot) (path : String)
    (action : DirtyPathEventType) (ps : List DirtyPath) :
    Run InsertStep ps (insertPath cwd root path action ps).1 := by
  unfold insertPath
  split
  next => exact .refl
  next => exact .refl
  next rel _ =>
      refine .single ⟨root.id, some rel, action, ?_, rfl⟩
      intro hnone
      cases hnone

theorem inserts_fullRescans (roots : List SyncRoot) (ps : List DirtyPath) :
    Run InsertStep ps
      (roots.foldl (fun ps root => insertFullRescan ps root.id) ps) := by
  induction roots generalizing ps with
  | nil => exact .refl
  | cons root roots ih =>
      rw [List.foldl_cons]
      exact .head ⟨root.id, none, .fullRescan, fun _ => rfl, rfl⟩ (ih _)

theorem inserts_recordFor (cwd : FsPath) (root : SyncRoot) (event : FileEvent)
    (ps : List DirtyPath) :
    Run InsertStep ps (recordFor cwd root event ps).1 := by
  unfold recordFor
  split
  case h_7 =>
      split
      next => exact inserts_insertPath cwd root _ _ ps
      next oldPath _ =>
          have hfirst := inserts_insertPath cwd root oldPath .delete ps
          dsimp only
          split
          · exact hfirst.trans (inserts_insertPath cwd root _ _ _)
          · exact hfirst
  case h_8 => exact .refl
  case h_9 => exact .refl
  all_goals exact inserts_insertPath cwd root _ _ ps

theorem inserts_record (cwd : FsPath) (roots : List SyncRoot)
    (event : FileEvent) (ps : List DirtyPath) :
    Run InsertStep ps (record cwd roots event ps).1 := by
  unfold record
  split
  next => exact .refl
  next => exact inserts_fullRescans roots ps
  next =>
      split
      next => exact .refl
      next root _ =>
          split
          next => exact .refl
          next => exact inserts_recordFor cwd root event ps

/-- What an insert does to the rows of the table: at most the event of a row is
another one, and a row without a path is a full rescan. -/
structure Merged (d d' : DirtyPath) : Prop where
  id : d'.id = d.id
  status : d'.status = d.status
  key : d'.key = d.key
  event : d.relativePath = none →
    d'.eventType = d.eventType ∨ d'.eventType = .fullRescan

/-- An insert merges with a pending row of the path, or adds one. -/
theorem insertDirtyPath_cases (ps : List DirtyPath) (syncRootId : String)
    {relativePath : Option String} {action : DirtyPathEventType}
    (haction : relativePath = none → action = .fullRescan) :
    ∃ f new, insertDirtyPath ps syncRootId relativePath action =
        ps.map f ++ new ∧ (∀ d, Merged d (f d)) ∧
      (new = [] ∧ (∃ d ∈ ps, d.status = .pending ∧
          d.key = (syncRootId, relativePath)) ∨
        ∃ n : DirtyPath, new = [n] ∧ n.id = ps.length ∧
          n.status = .pending ∧ n.key = (syncRootId, relativePath) ∧
          n.eventType = action) := by
  unfold insertDirtyPath
  by_cases hany : ps.any (conflicts syncRootId relativePath) = true
  · rw [if_pos hany]
    refine ⟨_, [], (List.append_nil _).symm, ?_, Or.inl ⟨rfl, ?_⟩⟩
    · intro d
      split
      next hconflicts =>
          refine ⟨rfl, rfl, rfl, ?_⟩
          intro hnone
          refine Or.inr (haction ?_)
          simp only [conflicts, Bool.and_eq_true, beq_iff_eq] at hconflicts
          exact hconflicts.1.2.symm.trans hnone
      next => exact ⟨rfl, rfl, rfl, fun _ => Or.inl rfl⟩
    · obtain ⟨d, hd, hconflicts⟩ := List.any_eq_true.mp hany
      simp only [conflicts, Bool.and_eq_true, beq_iff_eq] at hconflicts
      obtain ⟨⟨⟨hroot, hstatus⟩, hpath⟩, -⟩ := hconflicts
      exact ⟨d, hd, hstatus, Prod.ext hroot hpath⟩
  · rw [if_neg hany]
    refine ⟨fun d => d, _, by rw [List.map_id'], ?_,
      Or.inr ⟨_, rfl, rfl, rfl, rfl, rfl⟩⟩
    exact fun d => ⟨rfl, rfl, rfl, fun _ => Or.inl rfl⟩

/-- An insert keeps the table sound. -/
theorem Sound.insert (c : List DirtyPath) :
    Preserves InsertStep (fun ps => Sound { rows := ps, claims := c }) := by
  rintro ps ps' ⟨syncRootId, relativePath, action, haction, rfl⟩
    ⟨hids, hissued, hrescans, hunclaimed⟩
  dsimp only at hids hissued hrescans hunclaimed
  obtain ⟨f, new, hps, hmerged, hnew⟩ :=
    insertDirtyPath_cases ps syncRootId haction
  rw [hps]
  have hrows : ∀ d ∈ ps.map f ++ new, (∃ d' ∈ ps, Merged d' d) ∨ d ∈ new := by
    intro d hd
    rcases List.mem_append.mp hd with hold | hadded
    · obtain ⟨d', hd', rfl⟩ := List.mem_map.mp hold
      exact Or.inl ⟨d', hd', hmerged d'⟩
    · exact Or.inr hadded
  have hmapped : (ps.map f).map DirtyPath.id = List.range ps.length := by
    rw [← hids, List.map_map]
    exact List.map_congr_left (fun d _ => (hmerged d).id)
  refine ⟨?_, ?_, ?_, ?_⟩
  · dsimp only
    rw [List.map_append, hmapped, List.length_append, List.length_map]
    rcases hnew with ⟨rfl, -⟩ | ⟨n, rfl, hid, -⟩
    · simp
    · simp [hid, List.range_succ]
  · intro d hd
    have hlt := hissued d hd
    dsimp only
    rw [List.length_append, List.length_map]
    omega
  · intro d hd hnone
    rcases List.mem_append.mp hd with hrow | hclaim
    · rcases hrows d hrow with ⟨d', hd', hmerge⟩ | hadded
      · have hnone' : d'.relativePath = none :=
          (congrArg Prod.snd hmerge.key).symm.trans hnone
        rcases hmerge.event hnone' with hsame | hrescan
        · rw [hsame]
          exact hrescans d' (List.mem_append_left c hd') hnone'
        · exact hrescan
      · rcases hnew with ⟨rfl, -⟩ | ⟨n, rfl, -, -, hkey, hevent⟩
        · cases hadded
        · rw [List.mem_singleton.mp hadded] at hnone ⊢
          rw [hevent]
          exact haction ((congrArg Prod.snd hkey).symm.trans hnone)
    · exact hrescans d (List.mem_append_right ps hclaim) hnone
  · intro d hd hpending hin
    rcases hrows d hd with ⟨d', hd', hmerge⟩ | hadded
    · rw [hmerge.id] at hin
      exact hunclaimed d' hd' (hmerge.status.symm.trans hpending) hin
    · obtain ⟨e, he, heq⟩ := List.mem_map.mp hin
      have hlt := hissued e he
      rcases hnew with ⟨rfl, -⟩ | ⟨n, rfl, hid, -⟩
      · cases hadded
      · rw [List.mem_singleton.mp hadded, hid] at heq
        omega

/-- An insert leaves a pending row for its path. -/
theorem waiting_insert {c ps : List DirtyPath} (syncRootId : String)
    {relativePath : Option String} {action : DirtyPathEventType}
    (haction : relativePath = none → action = .fullRescan) :
    (syncRootId, relativePath) ∈ (Queue.mailbox
      { rows := insertDirtyPath ps syncRootId relativePath action
        claims := c }).waiting := by
  obtain ⟨f, new, hps, hmerged, hnew⟩ :=
    insertDirtyPath_cases ps syncRootId haction
  unfold Queue.mailbox
  dsimp only
  rw [hps]
  rcases hnew with ⟨rfl, d, hd, hstatus, hkey⟩ | ⟨n, rfl, -, hstatus, hkey, -⟩
  · refine ⟨f d, ?_, (hmerged d).status.trans hstatus,
      (hmerged d).key.trans hkey⟩
    exact List.mem_append_left _ (List.mem_map_of_mem hd)
  · exact ⟨n, by simp, hstatus, hkey⟩

/-- A path that waits goes on waiting. -/
theorem waiting_grows (c : List DirtyPath) (k : String × Option String) :
    Preserves InsertStep
      (fun ps => k ∈ (Queue.mailbox { rows := ps, claims := c }).waiting) := by
  rintro ps ps' ⟨syncRootId, relativePath, action, haction, rfl⟩
    ⟨d, hd, hstatus, hkey⟩
  obtain ⟨f, new, hps, hmerged, -⟩ :=
    insertDirtyPath_cases ps syncRootId haction
  rw [hps]
  refine ⟨f d, ?_, (hmerged d).status.trans hstatus,
    (hmerged d).key.trans hkey⟩
  exact List.mem_append_left _ (List.mem_map_of_mem hd)

/-! ## Assignments of a status -/

/-- What an assignment does to a row. -/
theorem mem_setStatus {ps : List DirtyPath} {i : Nat}
    {status : DirtyPathStatus} {d : DirtyPath}
    (h : d ∈ setStatus ps i status) :
    ∃ d' ∈ ps, d.id = d'.id ∧ d.key = d'.key ∧ d.eventType = d'.eventType ∧
      d.status = if d'.id = i then status else d'.status := by
  obtain ⟨d', hd', rfl⟩ := List.mem_map.mp h
  refine ⟨d', hd', ?_⟩
  by_cases hid : d'.id = i
  · simp [hid, DirtyPath.key]
  · simp [hid, DirtyPath.key]

theorem setStatus_of_mem {ps : List DirtyPath} {i : Nat}
    {status : DirtyPathStatus} {d : DirtyPath} (hd : d ∈ ps) (hid : d.id ≠ i) :
    d ∈ setStatus ps i status := by
  refine List.mem_map.mpr ⟨d, hd, ?_⟩
  rw [if_neg (by simpa using hid)]

/-- No assignment makes a row pending that `claimNextPending`, `markDone` and
`markFailed` make. -/
theorem Sound.setStatus {ps c c' : List DirtyPath} {i : Nat}
    {status : DirtyPathStatus} (h : Sound { rows := ps, claims := c })
    (hstatus : status ≠ .pending)
    (hclaims : ∀ d ∈ c', d ∈ c ∨ d.id = i ∧ ∃ d' ∈ ps, d.id = d'.id ∧
      d.key = d'.key ∧ d.eventType = d'.eventType) :
    Sound { rows := DirtyPathRepo.setStatus ps i status, claims := c' } := by
  obtain ⟨hids, hissued, hrescans, hunclaimed⟩ := h
  dsimp only at hids hissued hrescans hunclaimed
  have hlength : (DirtyPathRepo.setStatus ps i status).length = ps.length :=
    List.length_map _
  refine ⟨?_, ?_, ?_, ?_⟩
  · dsimp only
    rw [hlength, ← hids]
    unfold DirtyPathRepo.setStatus
    rw [List.map_map]
    refine List.map_congr_left ?_
    intro d _
    rw [Function.comp_apply]
    split <;> rfl
  · intro d hd
    dsimp only
    rw [hlength]
    rcases hclaims d hd with hold | ⟨-, d', hd', hid, -⟩
    · exact hissued d hold
    · have hmem : d'.id ∈ ps.map DirtyPath.id := List.mem_map_of_mem hd'
      rw [hids, List.mem_range] at hmem
      omega
  · intro d hd hnone
    rcases List.mem_append.mp hd with hrow | hclaim
    · obtain ⟨d', hd', -, hkey, hevent, -⟩ := mem_setStatus hrow
      rw [hevent]
      refine hrescans d' (List.mem_append_left c hd') ?_
      exact (congrArg Prod.snd hkey).symm.trans hnone
    · rcases hclaims d hclaim with hold | ⟨-, d', hd', -, hkey, hevent⟩
      · exact hrescans d (List.mem_append_right ps hold) hnone
      · rw [hevent]
        refine hrescans d' (List.mem_append_left c hd') ?_
        exact (congrArg Prod.snd hkey).symm.trans hnone
  · intro d hd hpending hin
    obtain ⟨d', hd', hid, -, -, hassigned⟩ := mem_setStatus hd
    rw [hassigned] at hpending
    split at hpending
    next => exact hstatus hpending
    next hother =>
        obtain ⟨e, he, heq⟩ := List.mem_map.mp hin
        rcases hclaims e he with hold | ⟨hei, -⟩
        · refine hunclaimed d' hd' hpending ?_
          rw [← hid, ← heq]
          exact List.mem_map_of_mem hold
        · exact hother (by rw [← hid, ← heq, hei])

/-! ## One operation -/

/-- What a claim does: it returns a row of the table that is marked running. -/
theorem claim_cases {ps rows : List DirtyPath} {syncRootId : String}
    {d : DirtyPath} (h : claimNextPending ps syncRootId = some (d, rows)) :
    ∃ d' ∈ ps, d = { d' with status := .running } ∧
      rows = setStatus ps d.id .running := by
  rcases claimNextPending_cases ps syncRootId with
    ⟨hnone, -⟩ | ⟨A, d', B, hps, -, hclaim⟩
  · rw [hnone] at h
    cases h
  · rw [hclaim] at h
    cases h
    exact ⟨d', by rw [hps]; simp, rfl, rfl⟩

theorem mark_eq (ps : List DirtyPath) (i : Nat) (ok : Bool) :
    mark ps i ok = setStatus ps i (if ok then .done else .failed) := by
  cases ok <;> rfl

theorem Sound.step : Preserves QueueStep Sound := by
  intro s t hstep h
  cases hstep with
  | record cwd roots event =>
      exact (Sound.insert s.claims).run (inserts_record cwd roots event s.rows) h
  | claim syncRootId _ d rows hclaim =>
      obtain ⟨d', hd', rfl, rfl⟩ := claim_cases hclaim
      refine h.setStatus (by simp) ?_
      intro e he
      rcases List.mem_append.mp he with hold | hnew
      · exact Or.inl hold
      · rw [List.mem_singleton.mp hnew]
        exact Or.inr ⟨rfl, d', hd', rfl, rfl, rfl⟩
  | nothing syncRootId => exact h
  | mark _ d ok hclaimed =>
      rw [mark_eq]
      exact h.setStatus (by cases ok <;> simp) (fun e he => Or.inl he)

/-- Every operation is a step of the mailbox. -/
theorem Queue.step_mailbox {s t : Queue} (hstep : QueueStep s t)
    (h : Sound s) : Mailbox.Step s.mailbox t.mailbox := by
  cases hstep with
  | record cwd roots event =>
      refine .noted ?_ rfl
      intro k hk
      exact (waiting_grows s.claims k).run
        (inserts_record cwd roots event s.rows) hk
  | claim syncRootId _ d rows hclaim =>
      obtain ⟨d', hd', rfl, rfl⟩ := claim_cases hclaim
      refine .took d'.key ?_ (by simp [Queue.mailbox, DirtyPath.key])
      rintro j ⟨e, he, hpending, rfl⟩ hother
      refine ⟨e, setStatus_of_mem he ?_, hpending, rfl⟩
      intro hsame
      have hids : (s.rows.map DirtyPath.id).Nodup := h.ids ▸ List.nodup_range
      exact hother (congrArg DirtyPath.key
        (List.inj_on_of_nodup_map hids he hd' hsame))
  | nothing syncRootId => exact .noted (Set.Subset.refl _) rfl
  | mark _ d ok hclaimed =>
      refine .noted ?_ rfl
      rintro k ⟨e, he, hpending, rfl⟩
      refine ⟨e, ?_, hpending, rfl⟩
      dsimp only
      rw [mark_eq]
      refine setStatus_of_mem he ?_
      intro hsame
      exact h.unclaimed e he hpending (hsame ▸ List.mem_map_of_mem hclaimed)

/-- A path with a pending row keeps it, or the row is claimed. -/
theorem Queue.met_of_run {s t : Queue} (hs : Sound s)
    {k : String × Option String} (hk : k ∈ s.mailbox.waiting)
    (hrun : Run QueueStep s t) :
    Mailbox.Met k s.mailbox.taken.length t.mailbox :=
  Mailbox.met_of_simulates Sound.step
    (fun _ _ hstep h => Queue.step_mailbox hstep h) hs hk hrun

end DirtyPathRepo

end ArkiveSync
