import ArkiveSync.Model.Transfers

/-!
# What an acknowledgement names

`markEntryUploaded` and `markEntryDownloaded` copy a column of the row as it is
when the transfer is over; what was transferred was settled when it began.  The
two agree as long as nothing writes the column in between.

## Main results

* `InFlight.step`: while a transfer is under way, the row keeps naming what is
  transferred.
* `acknowledgements_name_transferred`: in a run that meets the condition every
  acknowledgement names the version that was transferred, and a version that
  arrived meanwhile stays dirty.
-/

namespace ArkiveSync.Acknowledgements

open Library SyncReconciler

/-- The statement leaves the content hash of the row of every upload that is
under way. -/
def KeepsUploads (s : Transfers) (t : EntryTable) : Prop :=
  ∀ u ∈ s.uploads, ∀ g ∈ s.entries.rows, g.id = u.entryId →
    ∀ g' ∈ t.rows, g'.id = g.id → g'.contentHash = g.contentHash

/-- The statement leaves a column of every row whose download is about to be
recorded. -/
def KeepsRecorded {β : Type} (attr : Entry → β) (s : Transfers)
    (t : EntryTable) : Prop :=
  ∀ f ∈ s.fetches, ∀ e path, f.call.phase = .recording e path →
    ∀ g ∈ s.entries.rows, g.id = e.id →
      ∀ g' ∈ t.rows, g'.id = g.id → attr g' = attr g

/-- It leaves the remote time of these rows. -/
def KeepsDownloads (s : Transfers) (t : EntryTable) : Prop :=
  KeepsRecorded Entry.remoteUpdatedAt s t

/-- Nothing comes between a transfer and its acknowledgement: what is sent is
what the prepared row describes, and what is served what the row names; until
the row is written, no scan and no other download writes the content hash of a
row that is being uploaded, and no listing the remote time of one that was
downloaded. -/
def Undisturbed (hash : Bytes → String) (s : Transfers) :
    Transfers.Event → Prop
  | .statement _ t => KeepsUploads s t ∧ KeepsDownloads s t
  | .send u _ v => u.entry.contentHash = some (hash v.content)
  | .call f _ served =>
      match f.call.phase with
      | .fetching e _ _ true =>
          ∀ v, served = some v → ∀ g ∈ s.entries.rows, g.id = e.id →
            g.remoteUpdatedAt = some v.updatedAt
      | .recording e path =>
          ∀ u ∈ s.uploads, u.entryId = e.id → ∀ file,
            s.disk.file? path.loc = some file →
              u.entry.contentHash = some (hash file.content)
      | _ => True
  | _ => True

/-- The rows name what the transfers under way are about. -/
structure InFlight (hash : Bytes → String) (s : Transfers) : Prop where
  known : ∀ u ∈ s.uploads, u.entryId < s.entries.nextPk
  prepared : ∀ u ∈ s.uploads, ∀ g ∈ s.entries.rows, g.id = u.entryId →
    g.contentHash = u.entry.contentHash
  sent : ∀ u ∈ s.uploads, ∀ id content, u.sent = some (id, content) →
    u.entry.contentHash = some (hash content)
  rows : ∀ f ∈ s.fetches, ∀ e, e ∈ f.call.rows ∨ f.call.phase.entry = some e →
    e.id < s.entries.nextPk
  served : ∀ f ∈ s.fetches, ∀ e path, f.call.phase = .recording e path →
    ∃ v, f.served = some v ∧ ∀ g ∈ s.entries.rows, g.id = e.id →
      g.remoteUpdatedAt = some v.updatedAt

/-- What a step acknowledges is what was transferred, and what differs from it
is dirty afterwards. -/
def NamesTransferred (hash : Bytes → String) (s s' : Transfers) :
    Transfers.Event → Prop
  | .acknowledge u _ content =>
      ∀ g ∈ s'.entries.rows, g.id = u.entryId →
        g.syncedContentHash = some (hash content) ∧
          (g.contentHash ≠ some (hash content) →
            (classify g).localDirty = true)
  | .call f _ _ =>
      ∀ e path, f.call.phase = .recording e path →
        s'.entries = s.entries ∨
          ∃ v, f.served = some v ∧ ∀ g ∈ s'.entries.rows, g.id = e.id →
            g.syncedRemoteUpdatedAt = some v.updatedAt ∧
              (g.remoteUpdatedAt ≠ some v.updatedAt →
                g.remoteDeletedAt = none → (classify g).remoteDirty = true)
  | _ => True

/-! ## The rows of transfers under way -/

section InFlight

variable {hash : Bytes → String} {s : Transfers}

/-- New rows have other ids than those of transfers. -/
theorem mem_old {t t' : EntryTable}
    (hkeeps : KeyedTable.Keeps Entry.syncRootId t t') {n : Nat}
    (hn : n < t.nextPk) {g : Entry} (hg : g ∈ t'.rows) (hid : g.id = n) :
    ∃ g₀ ∈ t.rows, g₀.id = n := by
  rcases hkeeps.rows g hg with hnew | ⟨g₀, hg₀, hsame, _⟩
  · omega
  · exact ⟨g₀, hg₀, hsame.trans hid⟩

/-- A change of the rows that leaves the columns of transfers under way. -/
theorem InFlight.withEntries (h : InFlight hash s) {t : EntryTable}
    (hkeeps : KeyedTable.Keeps Entry.syncRootId s.entries t)
    (hup : KeepsUploads s t) (hdown : KeepsDownloads s t) :
    InFlight hash (s.withEntries t) := by
  have hle : s.entries.nextPk ≤ t.nextPk := hkeeps.nextPk
  refine
    { known := fun u hu => Nat.lt_of_lt_of_le (h.known u hu) hle
      prepared := ?_
      sent := h.sent
      rows := fun f hf e he => Nat.lt_of_lt_of_le (h.rows f hf e he) hle
      served := ?_ }
  · intro u hu g hg hid
    obtain ⟨g₀, hg₀, hid₀⟩ := mem_old hkeeps (h.known u hu) hg hid
    calc g.contentHash = g₀.contentHash :=
          hup u hu g₀ hg₀ hid₀ g hg (hid.trans hid₀.symm)
      _ = u.entry.contentHash := h.prepared u hu g₀ hg₀ hid₀
  · intro f hf e path hphase
    obtain ⟨v, hserved, hrows⟩ := h.served f hf e path hphase
    refine ⟨v, hserved, ?_⟩
    intro g hg hid
    have hknown : e.id < s.entries.nextPk := by
      refine h.rows f hf e (Or.inr ?_)
      rw [hphase]
      rfl
    obtain ⟨g₀, hg₀, hid₀⟩ := mem_old hkeeps hknown hg hid
    calc g.remoteUpdatedAt = g₀.remoteUpdatedAt :=
          hdown f hf e path hphase g₀ hg₀ hid₀ g hg (hid.trans hid₀.symm)
      _ = some v.updatedAt := hrows g₀ hg₀ hid₀

/-- A statement that keeps a column keeps it for every row. -/
theorem keepsUploads_of_keeps {t : EntryTable}
    (h : KeyedTable.Keeps Entry.contentHash s.entries t) : KeepsUploads s t := by
  intro u _ g hg _ g' hg' hid
  rcases h.rows g' hg' with hnew | ⟨g₀, hg₀, hid₀, hsame⟩
  · have hold := s.entries.pkFresh g hg
    omega
  · have heq : g₀ = g := s.entries.eq_of_pk_eq hg₀ hg (hid₀.trans hid)
    rw [← hsame, heq]

theorem keepsRecorded_of_keeps {β : Type} {attr : Entry → β} {t : EntryTable}
    (h : KeyedTable.Keeps attr s.entries t) : KeepsRecorded attr s t := by
  intro f _ e path _ g hg _ g' hg' hid
  rcases h.rows g' hg' with hnew | ⟨g₀, hg₀, hid₀, hsame⟩
  · have hold := s.entries.pkFresh g hg
    omega
  · have heq : g₀ = g := s.entries.eq_of_pk_eq hg₀ hg (hid₀.trans hid)
    rw [← hsame, heq]

/-- Fewer uploads. -/
theorem InFlight.withUploads (h : InFlight hash s) {uploads : List Upload}
    (hsub : ∀ u ∈ uploads, u ∈ s.uploads) :
    InFlight hash { s with uploads := uploads } :=
  { known := fun u hu => h.known u (hsub u hu)
    prepared := fun u hu => h.prepared u (hsub u hu)
    sent := fun u hu => h.sent u (hsub u hu)
    rows := h.rows
    served := h.served }

end InFlight

/-! ## One step -/

section Step

variable {cwd : FsPath} {hash : Bytes → String} {s s' : Transfers}

theorem InFlight.prepare (h : InFlight hash s) {job : TransferJob} {e : Entry}
    (hitem : UploadJobRunner.prepareUploadItem cwd s.disk s.store job =
      .item e) :
    InFlight hash
      { s with
        uploads := s.uploads ++
          [{ entryId := job.entryId, entry := e, sent := none }] } := by
  obtain ⟨row, root, _, _, hrow, _, _, _, _, heq⟩ :=
    QueueService.prepareUploadItem_item hitem
  obtain ⟨hmem, hid⟩ := (KeyedTable.lookupPk_eq_some_iff _ _ _).mp hrow
  refine { known := ?_, prepared := ?_, sent := ?_, rows := h.rows
           served := h.served }
  · intro u hu
    rcases List.mem_append.mp hu with hu | hu
    · exact h.known u hu
    · rw [List.mem_singleton.mp hu]
      show job.entryId < s.entries.nextPk
      rw [← hid]
      exact s.entries.pkFresh row hmem
  · intro u hu g hg hgid
    rcases List.mem_append.mp hu with hu | hu
    · exact h.prepared u hu g hg hgid
    · rw [List.mem_singleton.mp hu] at hgid ⊢
      have hsame : g = row :=
        s.entries.eq_of_pk_eq hg hmem (hgid.trans hid.symm)
      rw [hsame, heq]
  · intro u hu id content hsent
    rcases List.mem_append.mp hu with hu | hu
    · exact h.sent u hu id content hsent
    · rw [List.mem_singleton.mp hu] at hsent
      cases hsent

theorem InFlight.send (h : InFlight hash s) {pre post : List Upload}
    {u : Upload} {id : String} {v : Version}
    (huploads : s.uploads = pre ++ u :: post)
    (hdescribed : u.entry.contentHash = some (hash v.content)) :
    InFlight hash
      { s with
        server := s.server ++ [(id, v)]
        uploads := pre ++ { u with sent := some (id, v.content) } :: post } := by
  have hmem : u ∈ s.uploads := by
    rw [huploads]
    simp
  have hcases : ∀ w ∈ pre ++ { u with sent := some (id, v.content) } :: post,
      w ∈ s.uploads ∨ w = { u with sent := some (id, v.content) } := by
    intro w hw
    rw [huploads]
    rcases List.mem_append.mp hw with hw | hw
    · exact Or.inl (List.mem_append_left _ hw)
    · rcases List.mem_cons.mp hw with hw | hw
      · exact Or.inr hw
      · exact Or.inl (List.mem_append_right _ (List.mem_cons_of_mem _ hw))
  refine { known := ?_, prepared := ?_, sent := ?_, rows := h.rows
           served := h.served }
  · intro w hw
    rcases hcases w hw with hold | rfl
    · exact h.known w hold
    · exact h.known u hmem
  · intro w hw g hg hid
    rcases hcases w hw with hold | rfl
    · exact h.prepared w hold g hg hid
    · exact h.prepared u hmem g hg hid
  · intro w hw id' content hsent
    rcases hcases w hw with hold | rfl
    · exact h.sent w hold id' content hsent
    · cases hsent
      exact hdescribed

theorem InFlight.acknowledge (h : InFlight hash s) {pre post : List Upload}
    {u : Upload} {id : String} {parent : Option String}
    (huploads : s.uploads = pre ++ u :: post) :
    InFlight hash
      { s.withEntries (RemoteEntryRepo.markEntryUploaded s.entries u.entryId id
          parent) with
        uploads := pre ++ post } := by
  have hroot : KeyedTable.Keeps Entry.syncRootId s.entries
      (RemoteEntryRepo.markEntryUploaded s.entries u.entryId id parent) :=
    RemoteEntryRepo.keeps_updateById u.entryId (fun _ => rfl)
  have hhash : KeyedTable.Keeps Entry.contentHash s.entries
      (RemoteEntryRepo.markEntryUploaded s.entries u.entryId id parent) :=
    RemoteEntryRepo.keeps_updateById u.entryId (fun _ => rfl)
  have htime : KeyedTable.Keeps Entry.remoteUpdatedAt s.entries
      (RemoteEntryRepo.markEntryUploaded s.entries u.entryId id parent) :=
    RemoteEntryRepo.keeps_updateById u.entryId (fun _ => rfl)
  have hrows := h.withEntries hroot (keepsUploads_of_keeps hhash)
    (keepsRecorded_of_keeps htime)
  refine hrows.withUploads ?_
  intro w hw
  show w ∈ s.uploads
  rw [huploads]
  rcases List.mem_append.mp hw with hw | hw
  · exact List.mem_append_left _ hw
  · exact List.mem_append_right _ (List.mem_cons_of_mem _ hw)

theorem InFlight.startCall (h : InFlight hash s) (root : SyncRoot) :
    InFlight hash
      { s with
        fetches := s.fetches ++
          [{ root := root, call := Call.start root s.entries
             served := none }] } := by
  refine { known := h.known, prepared := h.prepared, sent := h.sent
           rows := ?_, served := ?_ }
  · intro f hf e he
    rcases List.mem_append.mp hf with hf | hf
    · exact h.rows f hf e he
    · rw [List.mem_singleton.mp hf] at he
      rcases he with he | he
      · exact s.entries.pkFresh e ((EntryRepo.mem_listEntries _ _ _).mp he).1
      · cases he
  · intro f hf e path hphase
    rcases List.mem_append.mp hf with hf | hf
    · exact h.served f hf e path hphase
    · rw [List.mem_singleton.mp hf] at hphase
      cases hphase

end Step

section Call

variable {hash : Bytes → String} {s : Transfers} {f : Fetch}
  {env : ReconcileEnv} {served : Option Version} {p : Progress}

/-- What a step of a call writes leaves the columns of the transfers under
way. -/
theorem keeps_of_wrote (h : InFlight hash s)
    (hhash : ∀ g, env.hashFile = some g → g = hash)
    (hmeets : Undisturbed hash s (.call f env served)) {t : EntryTable}
    (hwrote : Call.Wrote env f.call s.world t) :
    KeyedTable.Keeps Entry.syncRootId s.entries t ∧ KeepsUploads s t ∧
      KeepsDownloads s t := by
  cases hwrote with
  | nothing =>
      exact ⟨.refl _, keepsUploads_of_keeps (.refl _),
        keepsRecorded_of_keeps (.refl _)⟩
  | conflict n hphase =>
      exact ⟨RemoteEntryRepo.keeps_updateById n (fun _ => rfl),
        keepsUploads_of_keeps (RemoteEntryRepo.keeps_updateById n
          (fun _ => rfl)),
        keepsRecorded_of_keeps (RemoteEntryRepo.keeps_updateById n
          (fun _ => rfl))⟩
  | downloaded e path hphase hnone =>
      exact ⟨RemoteEntryRepo.keeps_updateById e.id (fun _ => rfl),
        keepsUploads_of_keeps (RemoteEntryRepo.keeps_updateById e.id
          (fun _ => rfl)),
        keepsRecorded_of_keeps (RemoteEntryRepo.keeps_updateById e.id
          (fun _ => rfl))⟩
  | downloadedAs e path hphase fileHash henv file hfile size mtime =>
      refine ⟨RemoteEntryRepo.keeps_updateById e.id (fun _ => rfl), ?_,
        keepsRecorded_of_keeps (RemoteEntryRepo.keeps_updateById e.id
          (fun _ => rfl))⟩
      have hsame : fileHash = hash := hhash fileHash henv
      have hrecorded : ∀ u ∈ s.uploads, u.entryId = e.id → ∀ file,
          s.disk.file? path.loc = some file →
            u.entry.contentHash = some (hash file.content) := by
        unfold Undisturbed at hmeets
        simp only [hphase] at hmeets
        exact hmeets
      intro u hu g hg hid g' hg' hid'
      have hmem : g' ∈ (RemoteEntryRepo.markEntryDownloadedAs s.entries e.id
        size mtime (fileHash file.content)).rows := hg'
      unfold RemoteEntryRepo.markEntryDownloadedAs at hmem
      obtain ⟨g₀, hg₀, heq⟩ := (RemoteEntryRepo.mem_updateById g').mp hmem
      have hg₀id : g₀.id = g'.id := by
        rw [heq]
        split <;> rfl
      have hold : g₀ = g :=
        s.entries.eq_of_pk_eq hg₀ hg (hg₀id.trans hid')
      subst hold
      by_cases hrow : g₀.id = e.id
      · rw [if_pos hrow] at heq
        rw [heq, hsame]
        show some (hash file.content) = g₀.contentHash
        rw [h.prepared u hu g₀ hg hid]
        exact (hrecorded u hu (hid.symm.trans hrow) file hfile).symm
      · rw [if_neg hrow] at heq
        rw [heq]

/-- A step of a running call. -/
theorem InFlight.call (h : InFlight hash s) {pre post : List Fetch}
    (hfetches : s.fetches = pre ++ f :: post)
    (hhash : ∀ g, env.hashFile = some g → g = hash)
    (hstep : Call.step env f.root f.call s.world = some p)
    (hserved : s.Serves env f.call served)
    (hmeets : Undisturbed hash s (.call f env served)) :
    InFlight hash
      { s.withEntries p.world.entries with
        disk := p.world.disk
        fetches := pre ++ { f with call := p.call, served := served } ::
          post } := by
  have hmem : f ∈ s.fetches := by
    rw [hfetches]
    simp
  obtain ⟨hroot, hup, hdown⟩ := keeps_of_wrote h hhash hmeets
    (Call.wrote_of_step hstep)
  have hrows := h.withEntries hroot hup hdown
  obtain ⟨hrest, hentry⟩ := Call.rows_of_step hstep
  have hcases : ∀ g ∈ pre ++ { f with call := p.call, served := served } ::
      post, g ∈ s.fetches ∨ g = { f with call := p.call, served := served } := by
    intro g hg
    rw [hfetches]
    rcases List.mem_append.mp hg with hg | hg
    · exact Or.inl (List.mem_append_left _ hg)
    · rcases List.mem_cons.mp hg with hg | hg
      · exact Or.inr hg
      · exact Or.inl (List.mem_append_right _ (List.mem_cons_of_mem _ hg))
  refine { known := hrows.known, prepared := hrows.prepared
           sent := hrows.sent, rows := ?_, served := ?_ }
  · intro g hg e he
    rcases hcases g hg with hold | rfl
    · exact hrows.rows g hold e he
    · have hfrom : e ∈ f.call.rows ∨ f.call.phase.entry = some e := by
        rcases he with he | he
        · exact Or.inl (hrest e he)
        · exact hentry e he
      exact hrows.rows f hmem e hfrom
  · intro g hg e path hphase
    rcases hcases g hg with hold | rfl
    · exact hrows.served g hold e path hphase
    · obtain ⟨fileId, download, content, hfetching, hdownload, hdelivered,
        hentries, _⟩ := Call.recording_of_step hstep hphase
      unfold Transfers.Serves at hserved
      simp only [hfetching] at hserved
      obtain ⟨v, hv, _, _⟩ := hserved download content hdownload hdelivered
      unfold Undisturbed at hmeets
      simp only [hfetching] at hmeets
      refine ⟨v, hv, ?_⟩
      intro r hr hid
      have hr' : r ∈ p.world.entries.rows := hr
      rw [hentries] at hr'
      exact hmeets v hv r hr' hid

end Call

/-- A step that meets the condition keeps the transfers under way in order. -/
theorem InFlight.step {cwd : FsPath} {hash : Bytes → String}
    {s s' : Transfers} {event : Transfers.Event}
    (hstep : Transfers.Step cwd hash s event s')
    (hmeets : Undisturbed hash s event) (h : InFlight hash s) :
    InFlight hash s' := by
  cases hstep with
  | edit disk =>
      exact { known := h.known, prepared := h.prepared, sent := h.sent
              rows := h.rows, served := h.served }
  | statement st t hscans hexec hlisted =>
      exact h.withEntries (Statement.keeps_root hexec) hmeets.1 hmeets.2
  | prepare job e hitem => exact h.prepare hitem
  | send pre post u id v huploads hnone hfresh => exact h.send huploads hmeets
  | acknowledge pre post u id content huploads hsent =>
      exact h.acknowledge huploads
  | fail pre post u huploads =>
      refine h.withUploads ?_
      intro w hw
      rw [huploads]
      rcases List.mem_append.mp hw with hw | hw
      · exact List.mem_append_left _ hw
      · exact List.mem_append_right _ (List.mem_cons_of_mem _ hw)
  | update id v hfresh =>
      exact { known := h.known, prepared := h.prepared, sent := h.sent
              rows := h.rows, served := h.served }
  | startCall root => exact h.startCall root
  | call pre post f env p served hfetches hhash hstep hserved =>
      exact h.call hfetches hhash hstep hserved hmeets

/-! ## What is acknowledged -/

/-- A row with another hash than the one synchronised is dirty. -/
theorem localDirty_of_ne {e : Entry} (hlive : e.localDeletedAt = none)
    (hne : e.contentHash ≠ e.syncedContentHash) :
    (classify e).localDirty = true := by
  simp [classify, hlive, hne]

theorem remoteDirty_of_ne {e : Entry} (hlive : e.remoteDeletedAt = none)
    (hne : e.remoteUpdatedAt ≠ e.syncedRemoteUpdatedAt) :
    (classify e).remoteDirty = true := by
  simp [classify, hlive, hne]

/-- The row of an upload after its acknowledgement. -/
theorem names_uploaded {hash : Bytes → String} {s : Transfers}
    (h : InFlight hash s) {u : Upload} {id : String} {content : Bytes}
    (hu : u ∈ s.uploads) (hsent : u.sent = some (id, content))
    {parent : Option String} {g : Entry}
    (hg : g ∈ (RemoteEntryRepo.markEntryUploaded s.entries u.entryId id
      parent).rows) (hid : g.id = u.entryId) :
    g.syncedContentHash = some (hash content) ∧ g.localDeletedAt = none := by
  unfold RemoteEntryRepo.markEntryUploaded at hg
  obtain ⟨g₀, hg₀, heq⟩ := (RemoteEntryRepo.mem_updateById g).mp hg
  have hid₀ : g₀.id = u.entryId := by
    rw [← hid, heq]
    split <;> rfl
  rw [if_pos hid₀] at heq
  rw [heq]
  refine ⟨?_, rfl⟩
  show g₀.contentHash = some (hash content)
  rw [h.prepared u hu g₀ hg₀ hid₀]
  exact h.sent u hu id content hsent

/-- The row of a download after it is recorded. -/
theorem names_downloaded {t : EntryTable} {n : Nat} {time : String}
    (h : ∀ g ∈ t.rows, g.id = n → g.remoteUpdatedAt = some time)
    {f : Entry → Entry} {hid : ∀ e, (f e).id = e.id}
    {hkey : ∀ e, (f e).key = e.key}
    (hf : ∀ e, (f e).syncedRemoteUpdatedAt = e.remoteUpdatedAt) {g : Entry}
    (hg : g ∈ (RemoteEntryRepo.updateById t n f hid hkey).rows)
    (hgid : g.id = n) : g.syncedRemoteUpdatedAt = some time := by
  obtain ⟨g₀, hg₀, heq⟩ := (RemoteEntryRepo.mem_updateById g).mp hg
  have hid₀ : g₀.id = n := by
    rw [← hgid, heq]
    split
    · exact (hid g₀).symm
    · rfl
  rw [if_pos hid₀] at heq
  rw [heq, hf]
  exact h g₀ hg₀ hid₀

theorem namesTransferred_of_inFlight {cwd : FsPath} {hash : Bytes → String}
    {s s' : Transfers} {event : Transfers.Event}
    (hstep : Transfers.Step cwd hash s event s') (h : InFlight hash s) :
    NamesTransferred hash s s' event := by
  cases hstep with
  | acknowledge pre post u id content huploads hsent =>
      intro g hg hid
      have hu : u ∈ s.uploads := by
        rw [huploads]
        simp
      obtain ⟨hhash, hlive⟩ := names_uploaded h hu hsent hg hid
      refine ⟨hhash, ?_⟩
      intro hne
      refine localDirty_of_ne hlive ?_
      rw [hhash]
      exact hne
  | call pre post f env p served hfetches hhash hstep hserved =>
      intro e path hphase
      have hf : f ∈ s.fetches := by
        rw [hfetches]
        simp
      obtain ⟨v, hv, hrows⟩ := h.served f hf e path hphase
      have hnames : p.world.entries = s.entries ∨
          ∀ g ∈ p.world.entries.rows, g.id = e.id →
            g.syncedRemoteUpdatedAt = some v.updatedAt := by
        have hwrote := Call.wrote_of_step hstep
        generalize p.world.entries = t at hwrote ⊢
        cases hwrote with
        | nothing => exact Or.inl rfl
        | conflict n hchoosing =>
            rw [hphase] at hchoosing
            cases hchoosing
        | downloaded e' path' hphase' hnone =>
            rw [hphase] at hphase'
            cases hphase'
            right
            intro g hg hid
            exact names_downloaded hrows (fun _ => rfl) hg hid
        | downloadedAs e' path' hphase' fileHash henv file hfile size mtime =>
            rw [hphase] at hphase'
            cases hphase'
            right
            intro g hg hid
            exact names_downloaded hrows (fun _ => rfl) hg hid
      rcases hnames with hsame | hnames
      · exact Or.inl hsame
      · refine Or.inr ⟨v, hv, ?_⟩
        intro g hg hid
        have htime := hnames g hg hid
        refine ⟨htime, ?_⟩
        intro hne hlive
        refine remoteDirty_of_ne hlive ?_
        rw [htime]
        exact hne
  | _ => exact trivial

/-- In a run whose steps meet the condition every acknowledgement names the
version that was transferred. -/
theorem acknowledgements_name_transferred {cwd : FsPath}
    {hash : Bytes → String} {s₀ s s' : Transfers} {event : Transfers.Event}
    (hstart : InFlight hash s₀)
    (hrun : Run (Guarded (Transfers.Step cwd hash) (Undisturbed hash)) s₀ s)
    (hstep : Transfers.Step cwd hash s event s')
    (hmeets : Undisturbed hash s event) : NamesTransferred hash s s' event := by
  have hkeep : ∀ a event b, Transfers.Step cwd hash a event b →
      Undisturbed hash a event → InFlight hash a → InFlight hash b :=
    fun _ _ _ hstep hmeets h => InFlight.step hstep hmeets h
  have hnames : ∀ a event b, Transfers.Step cwd hash a event b →
      Undisturbed hash a event → InFlight hash a →
        NamesTransferred hash a b event :=
    fun _ _ _ hstep _ h => namesTransferred_of_inFlight hstep h
  exact safe_of_guarded hkeep hnames hstart hrun hstep hmeets

/-! ## A file saved while it is uploaded -/

namespace Saved

def cwd : FsPath := FsPath.parse "/"

/-- A hash that tells the sizes of files. -/
def hash (content : Bytes) : String := toString content.length

def root : SyncRoot :=
  { id := "root", localPath := "/r", folderId := "R", mode := .twoWay }

/-- The row of a file that is to be uploaded. -/
def row : Entry :=
  { id := 0, syncRootId := "root", relativePath := "a", isDirectory := false
    size := some 1, mtime := some 1, contentHash := some "1"
    syncState := .pendingUpload }

def disk : Disk :=
  { nodes := [(["r"], .directory),
      (["r", "a"], .file { content := [1], mtime := 1000000 })]
    unique := by decide
    closed := by decide }

def job : TransferJob :=
  { id := 7, entryId := 0, jobType := .uploadFile, status := .running
    localPath := "a", remoteFolderId := some "R", bytesTotal := 1 }

/-- The row as it is handed to the upload service. -/
def prepared : Entry := { row with parentFolderId := some "R" }

def version : Version := { updatedAt := "t1", content := [1] }

def table (e : Entry) (h : e.id = 0) : EntryTable :=
  { rows := [e]
    nextPk := 1
    pkUnique := KeyedTable.pkUnique_one e
    pkFresh := KeyedTable.pkFresh_one h
    keyUnique := e.keyUnique_one }

def start : Transfers :=
  { store := { roots := [root], entries := table row rfl
               queue := QueueRepo.empty }
    disk := disk
    server := []
    uploads := []
    fetches := [] }

def upload (sent : Option (String × Bytes)) : Upload :=
  { entryId := 0, entry := prepared, sent := sent }

/-- The upload has been prepared. -/
def begun : Transfers := { start with uploads := [upload none] }

/-- The server has the file. -/
def stored : Transfers :=
  { start with
    server := [("A", version)]
    uploads := [upload (some ("A", [1]))] }

/-- A scan of the file after it has been saved with another content. -/
def items : List DirItem :=
  [{ relative := some "a"
     kind := some (.regularFile
       { size := some 2, mtime := some 2000000, hash := some "2" }) }]

/-- The row after it. -/
def rescanned : Entry :=
  { row with size := some 2, mtime := some 2, contentHash := some "2"
             lastSeenScanJobId := some 1 }

theorem inFlight_start : InFlight hash start :=
  { known := fun _ hu => (by cases hu)
    prepared := fun _ hu => (by cases hu)
    sent := fun _ hu => (by cases hu)
    rows := fun _ hf => (by cases hf)
    served := fun _ hf => (by cases hf) }

theorem step_prepare :
    Transfers.Step cwd hash start (.prepare job) begun :=
  .prepare start job prepared (by decide)

theorem step_send :
    Transfers.Step cwd hash begun (.send (upload none) "A" version) stored :=
  .send begun [] [] (upload none) "A" version rfl rfl
    (fun _ hw => (by cases hw))

theorem step_scan :
    Transfers.Step cwd hash stored
      (.statement (.scanned "root" 1 items) (table rescanned rfl))
      (stored.withEntries (table rescanned rfl)) :=
  .statement stored _ _ trivial
    (.scanned (.file _ _ "a" _ List.mem_cons_self rfl))
    (fun _ h => (by cases h))

/-- The acknowledgement of the upload. -/
def ack : Transfers.Event := .acknowledge (upload (some ("A", [1]))) "A" [1]

theorem run_stored : Run (Guarded (Transfers.Step cwd hash) (Undisturbed hash))
    start stored :=
  .tail (.tail .refl ⟨_, step_prepare, trivial⟩) ⟨_, step_send, rfl⟩

end Saved

/-- A file that nothing happens to is acknowledged as it was sent. -/
theorem acknowledgements_name_transferred_unchanged :
    NamesTransferred Saved.hash Saved.stored
      { Saved.stored.withEntries (RemoteEntryRepo.markEntryUploaded
          Saved.stored.entries 0 "A" (some "R")) with uploads := [] }
      Saved.ack :=
  acknowledgements_name_transferred Saved.inFlight_start Saved.run_stored
    (.acknowledge Saved.stored [] [] _ "A" [1] rfl rfl :
      Transfers.Step Saved.cwd Saved.hash _ _ _) trivial

/-- A file that is saved and scanned in between is acknowledged with the hash
of the content that was not sent. -/
theorem not_acknowledgements_name_transferred :
    ¬∀ (cwd : FsPath) (hash : Bytes → String) (s₀ s s' : Transfers)
        (event : Transfers.Event),
      InFlight hash s₀ →
      Run (Guarded (Transfers.Step cwd hash) (fun _ _ => True)) s₀ s →
      Transfers.Step cwd hash s event s' → NamesTransferred hash s s' event := by
  intro h
  have hnames := h Saved.cwd Saved.hash Saved.start
    (Saved.stored.withEntries (Saved.table Saved.rescanned rfl)) _ Saved.ack
    Saved.inFlight_start
    (.tail (.tail (.tail .refl ⟨_, Saved.step_prepare, trivial⟩)
      ⟨_, Saved.step_send, trivial⟩) ⟨_, Saved.step_scan, trivial⟩)
    (.acknowledge _ [] [] _ "A" [1] rfl rfl)
  have hrow := (hnames
    { Saved.rescanned with
      remoteId := some "A", remoteFileId := some "A"
      parentFolderId := some "R", syncedContentHash := some "2"
      conflictState := some "none", syncState := .unchanged }
    (by decide) rfl).1
  revert hrow
  decide

end ArkiveSync.Acknowledgements
