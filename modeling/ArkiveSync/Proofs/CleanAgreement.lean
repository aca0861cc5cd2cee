import ArkiveSync.Proofs.Acknowledgements

/-!
# Clean rows and the remote content

A row is clean when its content is the one last synchronised and its remote
time the one last synchronised.  That the two were synchronised together is
taken on trust at three places: the first listing after an upload is taken for
the upload's own, a row that comes to name another object keeps what was
synchronised with the one before, and a download is recorded with whatever is
at the path.

## Main results

* `agrees_statement`: the statements of scans and listings keep the recorded
  pair right under the condition.
* `Agreement.step`: so does every step.
* `clean_agrees`: in a run that meets the condition a clean row with a live
  remote object has the hash of that object's content at the row's time.
-/

namespace ArkiveSync.CleanAgreement

open Library SyncReconciler Acknowledgements

/-- Every version of the object at the time has the hash. -/
def AgreesAt (hash : Bytes → String) (server : Versions) (id : String)
    (time contentHash : Option String) : Prop :=
  ∀ v, (id, v) ∈ server → time = some v.updatedAt →
    ∀ x, contentHash = some x → x = hash v.content

/-- What the row has synchronised belongs together. -/
def RowAgrees (hash : Bytes → String) (server : Versions) (e : Entry) : Prop :=
  ∀ id, e.remoteId = some id →
    AgreesAt hash server id e.syncedRemoteUpdatedAt e.syncedContentHash

/-- A listing that finds the row takes it for acknowledged. -/
def TakesForOwn (e : Entry) : Bool :=
  e.syncedRemoteUpdatedAt.isNone && e.remoteId.isSome &&
    e.contentHash.isSome && e.contentHash == e.syncedContentHash

/-- What a statement takes on trust about the rows it writes is so: the version
that a listing takes for the client's own has the content that was uploaded, a
row that comes to name another object was not synchronised at a time of that
object with another content, and a root is marked as deleted with the versions
it has synchronised. -/
def Trusted (hash : Bytes → String) (s : Transfers) : Statement → Prop
  | .listed u =>
      (∀ g ∈ s.entries.rows, RemoteEntryRepo.carries u g = true →
        TakesForOwn g = true →
          AgreesAt hash s.server u.remoteId (some u.remoteUpdatedAt)
            g.syncedContentHash) ∧
      ∀ g ∈ s.entries.rows, g.key = (u.syncRootId, u.localPath) →
        g.remoteId ≠ some u.remoteId →
          AgreesAt hash s.server u.remoteId g.syncedRemoteUpdatedAt
            g.syncedContentHash
  | .rootDeleted id _ =>
      ∀ g ∈ s.entries.rows, g.syncRootId = id → ∀ remoteId,
        g.remoteId = some remoteId →
          AgreesAt hash s.server remoteId g.remoteUpdatedAt g.syncedContentHash
  | .folderCreated n remoteId _ =>
      ∀ g ∈ s.entries.rows, g.id = n →
        AgreesAt hash s.server remoteId g.syncedRemoteUpdatedAt
          g.syncedContentHash
  | _ => True

/-- The time of a new version is not one at which a row naming the object has
synchronised another content. -/
def NewTime (hash : Bytes → String) (s : Transfers) (id : String)
    (v : Version) : Prop :=
  ∀ g ∈ s.entries.rows, g.remoteId = some id →
    g.syncedRemoteUpdatedAt = some v.updatedAt →
      ∀ x, g.syncedContentHash = some x → x = hash v.content

/-- Besides what acknowledgements need: statements can be trusted and leave the
remote id of rows whose download is about to be recorded; times are new; what
is acknowledged as uploaded is not of an object with another content at the
time the row was synchronised at; and a download is recorded for the object
that was asked for, with the content that was served. -/
def Faithful (hash : Bytes → String) (s : Transfers) : Transfers.Event → Prop
  | .statement st t => Trusted hash s st ∧ KeepsRecorded Entry.remoteId s t
  | .send _ id v => NewTime hash s id v
  | .update id v => NewTime hash s id v
  | .acknowledge u id content =>
      (∀ g ∈ s.entries.rows, g.id = u.entryId →
        AgreesAt hash s.server id g.syncedRemoteUpdatedAt
          (some (hash content))) ∧
      ∀ f ∈ s.fetches, ∀ e path, f.call.phase = .recording e path →
        e.id ≠ u.entryId
  | .call f env _ =>
      match f.call.phase with
      | .fetching e fileId _ true =>
          ∀ g ∈ s.entries.rows, g.id = e.id → g.remoteId = some fileId
      | .recording e path =>
          ∀ v, f.served = some v →
            (∀ file, s.disk.file? path.loc = some file →
              file.content = v.content) ∧
            (env.hashFile = none → ∀ g ∈ s.entries.rows, g.id = e.id →
              ∀ x, g.syncedContentHash = some x → x = hash v.content)
      | _ => True
  | _ => True

/-- The rows have synchronised what belongs together, the server gives no time
twice, and a download that is about to be recorded is of the row's object. -/
structure Agreement (hash : Bytes → String) (s : Transfers) : Prop where
  inFlight : InFlight hash s
  rows : ∀ e ∈ s.entries.rows, RowAgrees hash s.server e
  distinct : ∀ id v w, (id, v) ∈ s.server → (id, w) ∈ s.server →
    v.updatedAt = w.updatedAt → v = w
  fetched : ∀ f ∈ s.fetches, ∀ e path v, f.call.phase = .recording e path →
    f.served = some v → ∃ fileId, (fileId, v) ∈ s.server ∧
      ∀ g ∈ s.entries.rows, g.id = e.id → g.remoteId = some fileId

/-- Every clean row with a live remote object has synchronised the content that
the object had at the row's time. -/
def CleanAgrees (hash : Bytes → String) (s : Transfers) : Prop :=
  ∀ e ∈ s.entries.rows, (classify e).remoteExists = true →
    (classify e).localDirty = false → (classify e).remoteDirty = false →
      ∀ id v x, e.remoteId = some id → (id, v) ∈ s.server →
        e.remoteUpdatedAt = some v.updatedAt →
          e.syncedContentHash = some x → x = hash v.content

/-! ## Statements -/

section Statements

variable {hash : Bytes → String} {server : Versions} {t t' : EntryTable}

/-- A row that comes out of a local upsert names what it named, or nothing. -/
theorem rowAgrees_directory {u : DirectoryEntryUpsert} {e : Entry}
    (h : RowAgrees hash server e) :
    RowAgrees hash server (LocalEntryRepo.updateDirectory u e) := by
  intro id hid
  by_cases hdeleted : e.localDeletedAt.isSome = true
  · simp [LocalEntryRepo.updateDirectory, LocalEntryRepo.unlessDeleted,
      hdeleted] at hid
  · have hlive : e.localDeletedAt = none := by simpa using hdeleted
    have hold : e.remoteId = some id := by
      simpa [LocalEntryRepo.updateDirectory, LocalEntryRepo.unlessDeleted,
        hlive] using hid
    simpa [LocalEntryRepo.updateDirectory, LocalEntryRepo.unlessDeleted,
      hlive] using h id hold

theorem rowAgrees_file {u : FileEntryUpsert} {e : Entry}
    (h : RowAgrees hash server e) :
    RowAgrees hash server (LocalEntryRepo.updateFile u e) := by
  intro id hid
  by_cases hdeleted : e.localDeletedAt.isSome = true
  · simp [LocalEntryRepo.updateFile, LocalEntryRepo.unlessDeleted,
      hdeleted] at hid
  · have hlive : e.localDeletedAt = none := by simpa using hdeleted
    have hold : e.remoteId = some id := by
      simpa [LocalEntryRepo.updateFile, LocalEntryRepo.unlessDeleted,
        hlive] using hid
    simpa [LocalEntryRepo.updateFile, LocalEntryRepo.unlessDeleted,
      hlive] using h id hold

theorem rowAgrees_unnamed {e : Entry} (hid : e.remoteId = none) :
    RowAgrees hash server e := by
  intro id h
  rw [hid] at h
  cases h

/-- The row that carries the listed object. -/
theorem rowAgrees_carrier {u : RemoteEntryUpsert} {e : Entry}
    (h : RowAgrees hash server e)
    (hcarries : RemoteEntryRepo.carries u e = true)
    (hown : TakesForOwn e = true → AgreesAt hash server u.remoteId
      (some u.remoteUpdatedAt) e.syncedContentHash) :
    RowAgrees hash server (RemoteEntryRepo.updateCarrier u e) := by
  have hremote := ((RemoteEntryRepo.carries_iff u e).mp hcarries).2
  intro id hid
  have hsame : id = u.remoteId := by
    have heq : e.remoteId = some id := hid
    rw [hremote] at heq
    exact (Option.some.inj heq).symm
  subst hsame
  show AgreesAt hash server u.remoteId
    (if TakesForOwn e then some u.remoteUpdatedAt
      else e.syncedRemoteUpdatedAt) e.syncedContentHash
  by_cases htakes : TakesForOwn e = true
  · rw [if_pos htakes]
    exact hown htakes
  · rw [if_neg htakes]
    exact h u.remoteId hremote

/-- The row at the path, which now carries the listed object. -/
theorem rowAgrees_takeOver {u : RemoteEntryUpsert} {e : Entry}
    (h : RowAgrees hash server e)
    (hother : e.remoteId ≠ some u.remoteId → AgreesAt hash server u.remoteId
      e.syncedRemoteUpdatedAt e.syncedContentHash) :
    RowAgrees hash server (RemoteEntryRepo.takeOver u e) := by
  intro id hid
  have hsame : u.remoteId = id := Option.some.inj hid
  subst hsame
  by_cases hremote : e.remoteId = some u.remoteId
  · exact h u.remoteId hremote
  · exact hother hremote

/-- The statements of scans and listings keep the recorded pair right. -/
theorem agrees_statement {s : Transfers} {st : Statement}
    (hscans : st.Scans) (hexec : Statement.Executes s.entries st t)
    (htrusted : Trusted hash s st)
    (h : ∀ e ∈ s.entries.rows, RowAgrees hash s.server e) :
    ∀ e ∈ t.rows, RowAgrees hash s.server e := by
  have hroot : ∀ id, Statement.OfRoot id (RowAgrees hash s.server)
      s.entries := fun _ e he _ => h e he
  cases hexec with
  | scanned hstep =>
      intro e he
      cases hstep with
      | directory rel hitem =>
          exact Statement.ofRoot_upsert (hroot e.syncRootId)
            (fun _ => rowAgrees_unnamed rfl) (fun _ => rowAgrees_directory)
            e he rfl
      | file _ rel probe hitem hstored =>
          obtain ⟨_, _, _, _, _, _, _, _, _, _, rfl⟩ :=
            RootScanner.handleFileEntry_stored hstored
          exact Statement.ofRoot_upsert (hroot e.syncRootId)
            (fun _ => rowAgrees_unnamed rfl) (fun _ => rowAgrees_file) e he rfl
      | mark p hp =>
          unfold LocalEntryRepo.markDeleted at he
          refine Statement.ofRoot_modify (hroot e.syncRootId) ?_ e he rfl
          exact fun _ _ _ _ hrow => hrow
  | listed hu =>
      intro e he
      rcases RemoteEntryRepo.mem_upsertRemoteEntry hu e he with
        ⟨f, hf, hcarries, rfl⟩ | ⟨f, hf, hkey, rfl⟩ | ⟨rfl, _⟩ | ⟨hold, _⟩
      · exact rowAgrees_carrier (h f hf) hcarries
          (htrusted.1 f hf hcarries)
      · exact rowAgrees_takeOver (h f hf) (htrusted.2 f hf hkey)
      · intro id _ v _ htime
        cases htime
      · exact h e hold
  | rootDeleted id now =>
      intro e he
      unfold RemoteEntryRepo.markRootRemoteDeleted at he
      refine Statement.ofRoot_modify (hroot e.syncRootId) ?_ e he rfl
      intro g hg _ hp _ remoteId hremote
      exact htrusted g hg (by simpa using hp) remoteId hremote
  | folderCreated n remoteId parent =>
      intro e he
      refine Statement.ofRoot_updateById (hroot e.syncRootId) ?_ e he rfl
      intro g hg _ hn _ id hid
      have hsame : remoteId = id := Option.some.inj hid
      subst hsame
      exact htrusted g hg hn
  | uploaded n remoteId parent => exact absurd hscans (fun h => h)
  | conflict n => exact absurd hscans (fun h => h)
  | downloaded n => exact absurd hscans (fun h => h)
  | downloadedAs n size mtime fileHash => exact absurd hscans (fun h => h)

end Statements

/-! ## New versions -/

section Server

variable {hash : Bytes → String} {s : Transfers} {id : String} {v : Version}

/-- A new version leaves the rows right. -/
theorem rowAgrees_append (htime : NewTime hash s id v) {e : Entry}
    (he : e ∈ s.entries.rows) (h : RowAgrees hash s.server e) :
    RowAgrees hash (s.server ++ [(id, v)]) e := by
  intro remoteId hremote w hw hsynced x hx
  rcases List.mem_append.mp hw with hw | hw
  · exact h remoteId hremote w hw hsynced x hx
  · cases List.mem_singleton.mp hw
    exact htime e he hremote hsynced x hx

/-- The server still gives no time twice. -/
theorem distinct_append (hfresh : s.server.Fresh id v)
    (h : ∀ id v w, (id, v) ∈ s.server → (id, w) ∈ s.server →
      v.updatedAt = w.updatedAt → v = w) :
    ∀ id' v' w', (id', v') ∈ s.server ++ [(id, v)] →
      (id', w') ∈ s.server ++ [(id, v)] → v'.updatedAt = w'.updatedAt →
        v' = w' := by
  intro id' v' w' hv hw htime
  rcases List.mem_append.mp hv with hv | hv
  · rcases List.mem_append.mp hw with hw | hw
    · exact h id' v' w' hv hw htime
    · cases List.mem_singleton.mp hw
      exact absurd htime (hfresh v' hv)
  · cases List.mem_singleton.mp hv
    rcases List.mem_append.mp hw with hw | hw
    · exact absurd htime.symm (hfresh w' hw)
    · cases List.mem_singleton.mp hw
      rfl

end Server

/-! ## One step -/

section Step

variable {cwd : FsPath} {hash : Bytes → String} {s s' : Transfers}

/-- The object of a download that is about to be recorded stays the row's. -/
theorem fetched_withEntries (h : Agreement hash s) {t : EntryTable}
    (hkeeps : KeyedTable.Keeps Entry.syncRootId s.entries t)
    (hids : KeepsRecorded Entry.remoteId s t) {f : Fetch}
    (hf : f ∈ s.fetches) {e : Entry} {path : FsPath} {v : Version}
    (hphase : f.call.phase = .recording e path) (hserved : f.served = some v) :
    ∃ fileId, (fileId, v) ∈ s.server ∧
      ∀ g ∈ t.rows, g.id = e.id → g.remoteId = some fileId := by
  obtain ⟨fileId, hmem, hrows⟩ := h.fetched f hf e path v hphase hserved
  refine ⟨fileId, hmem, ?_⟩
  intro g hg hid
  have hknown : e.id < s.entries.nextPk := by
    refine h.inFlight.rows f hf e (Or.inr ?_)
    rw [hphase]
    rfl
  obtain ⟨g₀, hg₀, hid₀⟩ := mem_old hkeeps hknown hg hid
  calc g.remoteId = g₀.remoteId :=
        hids f hf e path hphase g₀ hg₀ hid₀ g hg (hid.trans hid₀.symm)
    _ = some fileId := hrows g₀ hg₀ hid₀

/-- The acknowledgement of an upload. -/
theorem rowAgrees_uploaded (h : Agreement hash s) {u : Upload} {id : String}
    {content : Bytes} {parent : Option String} (hu : u ∈ s.uploads)
    (hsent : u.sent = some (id, content))
    (hmeets : ∀ g ∈ s.entries.rows, g.id = u.entryId →
      AgreesAt hash s.server id g.syncedRemoteUpdatedAt (some (hash content))) :
    ∀ e ∈ (RemoteEntryRepo.markEntryUploaded s.entries u.entryId id
      parent).rows, RowAgrees hash s.server e := by
  intro e he
  unfold RemoteEntryRepo.markEntryUploaded at he
  obtain ⟨g, hg, heq⟩ := (RemoteEntryRepo.mem_updateById e).mp he
  by_cases hid : g.id = u.entryId
  · rw [if_pos hid] at heq
    have hhash : g.contentHash = some (hash content) :=
      (h.inFlight.prepared u hu g hg hid).trans
        (h.inFlight.sent u hu id content hsent)
    rw [heq]
    intro remoteId hremote
    have hsame : id = remoteId := Option.some.inj hremote
    subst hsame
    show AgreesAt hash s.server id g.syncedRemoteUpdatedAt g.contentHash
    rw [hhash]
    exact hmeets g hg hid
  · rw [if_neg hid] at heq
    rw [heq]
    exact h.rows g hg

/-- A row that is recorded as downloaded, with the hash that it has then. -/
theorem rowAgrees_recorded (h : Agreement hash s) {f : Fetch}
    (hf : f ∈ s.fetches) {e : Entry} {path : FsPath}
    (hphase : f.call.phase = .recording e path) {g : Entry}
    (hg : g ∈ s.entries.rows) (hid : g.id = e.id)
    {contentHash : Option String}
    (hcontent : ∀ v, f.served = some v → ∀ x, contentHash = some x →
      x = hash v.content) :
    ∀ id, g.remoteId = some id →
      AgreesAt hash s.server id g.remoteUpdatedAt contentHash := by
  obtain ⟨v, hserved, htimes⟩ := h.inFlight.served f hf e path hphase
  obtain ⟨fileId, hmem, hids⟩ := h.fetched f hf e path v hphase hserved
  intro id hremote w hw htime x hx
  have hfile : fileId = id :=
    Option.some.inj ((hids g hg hid).symm.trans hremote)
  subst hfile
  have hsame : v.updatedAt = w.updatedAt :=
    Option.some.inj ((htimes g hg hid).symm.trans htime)
  have hversion : v = w := h.distinct fileId v w hmem hw hsame
  rw [← hversion]
  exact hcontent v hserved x hx

/-- What a step of a call writes. -/
theorem rowAgrees_wrote (h : Agreement hash s) {f : Fetch}
    (hf : f ∈ s.fetches) {env : ReconcileEnv} {served : Option Version}
    (hhash : ∀ g, env.hashFile = some g → g = hash)
    (hmeets : Faithful hash s (.call f env served)) {t : EntryTable}
    (hwrote : Call.Wrote env f.call s.world t) :
    ∀ e ∈ t.rows, RowAgrees hash s.server e := by
  cases hwrote with
  | nothing => exact h.rows
  | conflict n hphase =>
      intro e he
      unfold ConflictRepo.markConflict at he
      obtain ⟨g, hg, heq⟩ := (RemoteEntryRepo.mem_updateById e).mp he
      rw [heq]
      split
      · exact h.rows g hg
      · exact h.rows g hg
  | downloaded e path hphase hnone =>
      unfold Faithful at hmeets
      simp only [hphase] at hmeets
      intro r hr
      unfold RemoteEntryRepo.markEntryDownloaded at hr
      obtain ⟨g, hg, heq⟩ := (RemoteEntryRepo.mem_updateById r).mp hr
      by_cases hid : g.id = e.id
      · rw [if_pos hid] at heq
        rw [heq]
        refine rowAgrees_recorded h hf hphase hg hid ?_
        intro v hv
        exact (hmeets v hv).2 hnone g hg hid
      · rw [if_neg hid] at heq
        rw [heq]
        exact h.rows g hg
  | downloadedAs e path hphase fileHash henv file hfile size mtime =>
      unfold Faithful at hmeets
      simp only [hphase] at hmeets
      have hsame : fileHash = hash := hhash fileHash henv
      intro r hr
      unfold RemoteEntryRepo.markEntryDownloadedAs at hr
      obtain ⟨g, hg, heq⟩ := (RemoteEntryRepo.mem_updateById r).mp hr
      by_cases hid : g.id = e.id
      · rw [if_pos hid] at heq
        rw [heq]
        refine rowAgrees_recorded h hf hphase hg hid ?_
        intro v hv x hx
        rw [← (hmeets v hv).1 file hfile, ← Option.some.inj hx, hsame]
      · rw [if_neg hid] at heq
        rw [heq]
        exact h.rows g hg

/-- A step of a running call. -/
theorem Agreement.call (h : Agreement hash s) {pre post : List Fetch}
    {f : Fetch} {env : ReconcileEnv} {p : Progress} {served : Option Version}
    (hfetches : s.fetches = pre ++ f :: post)
    (hhash : ∀ g, env.hashFile = some g → g = hash)
    (hstep : Call.step env f.root f.call s.world = some p)
    (hserved : s.Serves env f.call served)
    (hmeets : Faithful hash s (.call f env served))
    (hafter : InFlight hash
      { s.withEntries p.world.entries with
        disk := p.world.disk
        fetches := pre ++ { f with call := p.call, served := served } ::
          post }) :
    Agreement hash
      { s.withEntries p.world.entries with
        disk := p.world.disk
        fetches := pre ++ { f with call := p.call, served := served } ::
          post } := by
  have hf : f ∈ s.fetches := by
    rw [hfetches]
    simp
  have hwrote := Call.wrote_of_step hstep
  have hkeeps : KeyedTable.Keeps Entry.syncRootId s.entries p.world.entries ∧
      KeyedTable.Keeps Entry.remoteId s.entries p.world.entries := by
    generalize p.world.entries = t at hwrote ⊢
    cases hwrote with
    | nothing => exact ⟨.refl _, .refl _⟩
    | conflict n =>
        exact ⟨RemoteEntryRepo.keeps_updateById n (fun _ => rfl),
          RemoteEntryRepo.keeps_updateById n (fun _ => rfl)⟩
    | downloaded e =>
        exact ⟨RemoteEntryRepo.keeps_updateById e.id (fun _ => rfl),
          RemoteEntryRepo.keeps_updateById e.id (fun _ => rfl)⟩
    | downloadedAs e =>
        exact ⟨RemoteEntryRepo.keeps_updateById e.id (fun _ => rfl),
          RemoteEntryRepo.keeps_updateById e.id (fun _ => rfl)⟩
  refine
    { inFlight := hafter
      rows := rowAgrees_wrote h hf hhash hmeets hwrote
      distinct := h.distinct
      fetched := ?_ }
  intro g hg e path v hphase hv
  have hcases : g ∈ s.fetches ∨
      g = { f with call := p.call, served := served } := by
    rw [hfetches]
    rcases List.mem_append.mp hg with hg | hg
    · exact Or.inl (List.mem_append_left _ hg)
    · rcases List.mem_cons.mp hg with hg | hg
      · exact Or.inr hg
      · exact Or.inl (List.mem_append_right _ (List.mem_cons_of_mem _ hg))
  rcases hcases with hold | rfl
  · exact fetched_withEntries h hkeeps.1 (keepsRecorded_of_keeps hkeeps.2)
      hold hphase hv
  · obtain ⟨fileId, download, content, hfetching, hdownload, hdelivered,
      hentries, _⟩ := Call.recording_of_step hstep hphase
    unfold Transfers.Serves at hserved
    simp only [hfetching] at hserved
    obtain ⟨w, hw, hmem, _⟩ := hserved download content hdownload hdelivered
    have hsame : w = v := Option.some.inj (hw.symm.trans hv)
    unfold Faithful at hmeets
    simp only [hfetching] at hmeets
    refine ⟨fileId, by rw [← hsame]; exact hmem, ?_⟩
    intro r hr hid
    have hr' : r ∈ p.world.entries.rows := hr
    rw [hentries] at hr'
    exact hmeets r hr' hid

/-- A step that meets the condition keeps rows and server in agreement. -/
theorem Agreement.step {event : Transfers.Event}
    (hstep : Transfers.Step cwd hash s event s')
    (hquiet : Undisturbed hash s event) (hmeets : Faithful hash s event)
    (h : Agreement hash s) : Agreement hash s' := by
  have hafter := h.inFlight.step hstep hquiet
  cases hstep with
  | edit disk =>
      exact { inFlight := hafter, rows := h.rows, distinct := h.distinct
              fetched := h.fetched }
  | statement st t hscans hexec hlisted =>
      have hrows : ∀ e ∈ t.rows, RowAgrees hash s.server e :=
        agrees_statement hscans hexec hmeets.1 h.rows
      refine
        { inFlight := hafter
          rows := hrows
          distinct := h.distinct
          fetched := ?_ }
      intro f hf e path v hphase hserved
      exact fetched_withEntries h (Statement.keeps_root hexec) hmeets.2 hf
        hphase hserved
  | prepare job e hitem =>
      exact { inFlight := hafter, rows := h.rows, distinct := h.distinct
              fetched := h.fetched }
  | send pre post u id v huploads hnone hfresh =>
      refine
        { inFlight := hafter
          rows := fun e he => rowAgrees_append hmeets he (h.rows e he)
          distinct := distinct_append hfresh h.distinct
          fetched := ?_ }
      intro f hf e path w hphase hserved
      obtain ⟨fileId, hmem, hrows⟩ := h.fetched f hf e path w hphase hserved
      exact ⟨fileId, List.mem_append_left _ hmem, hrows⟩
  | acknowledge pre post u id content huploads hsent =>
      have hu : u ∈ s.uploads := by
        rw [huploads]
        simp
      refine
        { inFlight := hafter
          rows := rowAgrees_uploaded h hu hsent hmeets.1
          distinct := h.distinct
          fetched := ?_ }
      intro f hf e path v hphase hserved
      have hkeeps : KeyedTable.Keeps Entry.syncRootId s.entries
          (RemoteEntryRepo.markEntryUploaded s.entries u.entryId id
            u.entry.parentFolderId) :=
        RemoteEntryRepo.keeps_updateById u.entryId (fun _ => rfl)
      refine fetched_withEntries h hkeeps ?_ hf hphase hserved
      intro f hf e path hphase g hg hid g' hg' hid'
      have hmem : g' ∈ (RemoteEntryRepo.markEntryUploaded s.entries u.entryId
        id u.entry.parentFolderId).rows := hg'
      unfold RemoteEntryRepo.markEntryUploaded at hmem
      obtain ⟨g₀, hg₀, heq⟩ := (RemoteEntryRepo.mem_updateById g').mp hmem
      have hg₀id : g₀.id = g'.id := by
        rw [heq]
        split <;> rfl
      have hother : g₀.id ≠ u.entryId := by
        rw [hg₀id, hid', hid]
        exact hmeets.2 f hf e path hphase
      rw [if_neg hother] at heq
      rw [heq, s.entries.eq_of_pk_eq hg₀ hg (hg₀id.trans hid')]
  | fail pre post u huploads =>
      exact { inFlight := hafter, rows := h.rows, distinct := h.distinct
              fetched := h.fetched }
  | update id v hfresh =>
      refine
        { inFlight := hafter
          rows := fun e he => rowAgrees_append hmeets he (h.rows e he)
          distinct := distinct_append hfresh h.distinct
          fetched := ?_ }
      intro f hf e path w hphase hserved
      obtain ⟨fileId, hmem, hrows⟩ := h.fetched f hf e path w hphase hserved
      exact ⟨fileId, List.mem_append_left _ hmem, hrows⟩
  | startCall root =>
      refine
        { inFlight := hafter, rows := h.rows, distinct := h.distinct
          fetched := ?_ }
      intro f hf e path v hphase hserved
      rcases List.mem_append.mp hf with hf | hf
      · exact h.fetched f hf e path v hphase hserved
      · rw [List.mem_singleton.mp hf] at hphase
        cases hphase
  | call pre post f env p served hfetches hhash hstep hserved =>
      exact h.call hfetches hhash hstep hserved hmeets hafter

end Step

/-- A clean row is at the time it was synchronised at. -/
theorem cleanAgrees_of_agreement {hash : Bytes → String} {s : Transfers}
    (h : Agreement hash s) : CleanAgrees hash s := by
  intro e he hremote _ hclean id v x hid hv htime hx
  have hlive : e.remoteDeletedAt = none := by
    have hexists := hremote
    simp only [classify, Bool.and_eq_true, Bool.not_eq_true'] at hexists
    simpa using hexists.2
  have hsynced : e.syncedRemoteUpdatedAt = e.remoteUpdatedAt := by
    by_contra hne
    have hdirty := remoteDirty_of_ne hlive (fun heq => hne heq.symm)
    rw [hclean] at hdirty
    cases hdirty
  exact h.rows e he id hid v hv (hsynced.trans htime) x hx

/-- In every state that a run whose steps meet the condition reaches, a clean
row with a live remote object agrees with it. -/
theorem clean_agrees {cwd : FsPath} {hash : Bytes → String}
    {s₀ s : Transfers} (hstart : Agreement hash s₀)
    (hrun : Run (Guarded (Transfers.Step cwd hash) (fun s event =>
      Undisturbed hash s event ∧ Faithful hash s event)) s₀ s) :
    CleanAgrees hash s := by
  have hkeeps : Preserves (Guarded (Transfers.Step cwd hash) (fun s event =>
      Undisturbed hash s event ∧ Faithful hash s event)) (Agreement hash) := by
    intro a b hguarded h
    obtain ⟨event, hstep, hquiet, hmeets⟩ := hguarded
    exact h.step hstep hquiet hmeets
  exact cleanAgrees_of_agreement (hkeeps.run hrun hstart)

/-! ## The first listing after an upload -/

namespace FirstListing

/-- The row after the acknowledgement of its upload. -/
def ackedRow : Entry :=
  { Saved.row with
    remoteId := some "A", remoteFileId := some "A", parentFolderId := some "R"
    syncedContentHash := some "1", conflictState := some "none"
    syncState := .unchanged }

/-- The client has acknowledged the upload; the server has had these
versions. -/
def acked (server : Versions) : Transfers :=
  { Saved.start with
    store := { Saved.start.store with entries := Saved.table ackedRow rfl }
    server := server }

/-- The version of another client. -/
def foreign : Version := { updatedAt := "t2", content := [2, 2] }

/-- The listing of the file at a time. -/
def upsert (time : String) : RemoteEntryUpsert :=
  { syncRootId := "root", remoteId := "A", localPath := "a"
    remoteType := "file", remoteFileId := some "A", remoteDeletedAt := none
    remoteUpdatedAt := time }

/-- The row after it. -/
def listedRow (time : String) : Entry :=
  { ackedRow with
    remoteUpdatedAt := some time, syncedRemoteUpdatedAt := some time }

/-- The client after it. -/
def listed (server : Versions) (time : String) : Transfers :=
  (acked server).withEntries (Saved.table (listedRow time) rfl)

/-- The event of the listing. -/
def listing (time : String) : Transfers.Event :=
  .statement (.listed (upsert time)) (Saved.table (listedRow time) rfl)

theorem start : Agreement Saved.hash Saved.start :=
  { inFlight := Saved.inFlight_start
    rows := by
      intro e he
      rw [List.mem_singleton.mp he]
      exact rowAgrees_unnamed rfl
    distinct := fun _ _ _ hv => (by cases hv)
    fetched := fun _ hf => (by cases hf) }

theorem step_acked :
    Transfers.Step Saved.cwd Saved.hash Saved.stored Saved.ack
      (acked [("A", Saved.version)]) :=
  .acknowledge Saved.stored [] [] _ "A" [1] rfl rfl

theorem step_update :
    Transfers.Step Saved.cwd Saved.hash (acked [("A", Saved.version)])
      (.update "A" foreign) (acked [("A", Saved.version), ("A", foreign)]) :=
  .update _ "A" foreign (by
    intro w hw
    have heq : ("A", w) = ("A", Saved.version) := List.mem_singleton.mp hw
    cases heq
    decide)

theorem step_listed {server : Versions} {v : Version}
    (hv : ("A", v) ∈ server)
    (hrow : RemoteEntryRepo.upsertRemoteEntry (Saved.table ackedRow rfl)
      (upsert v.updatedAt) =
        some (Saved.table (listedRow v.updatedAt) rfl)) :
    Transfers.Step Saved.cwd Saved.hash (acked server) (listing v.updatedAt)
      (listed server v.updatedAt) :=
  .statement (acked server) _ _ trivial (.listed hrow) (by
    intro u hu _
    cases hu
    exact ⟨v, hv, rfl⟩)

theorem run_acked : Run (Guarded (Transfers.Step Saved.cwd Saved.hash)
    (fun s event => Undisturbed Saved.hash s event ∧
      Faithful Saved.hash s event)) Saved.start
    (acked [("A", Saved.version)]) := by
  have hsend : Faithful Saved.hash Saved.begun
      (.send (Saved.upload none) "A" Saved.version) := by
    intro g hg hid
    rw [List.mem_singleton.mp hg] at hid
    cases hid
  have hack : Faithful Saved.hash Saved.stored Saved.ack := by
    refine ⟨?_, fun _ hf => (by cases hf)⟩
    intro g hg _ v _ htime
    rw [List.mem_singleton.mp hg] at htime
    cases htime
  exact .tail (.tail (.tail .refl ⟨_, Saved.step_prepare, trivial, trivial⟩)
    ⟨_, Saved.step_send, rfl, hsend⟩) ⟨_, step_acked, trivial, hack⟩

/-- A listing leaves rows alone that nothing is under way for. -/
theorem undisturbed_listing (server : Versions) (time : String) :
    Undisturbed Saved.hash (acked server) (listing time) :=
  ⟨fun _ hu => (by cases hu), fun _ hf => (by cases hf)⟩

/-- The listing shows what was uploaded. -/
theorem faithful_own :
    Faithful Saved.hash (acked [("A", Saved.version)]) (listing "t1") := by
  refine ⟨⟨?_, ?_⟩, fun _ hf => (by cases hf)⟩
  · intro g hg _ _ v hv _ x hx
    rw [List.mem_singleton.mp hg] at hx
    cases List.mem_singleton.mp hv
    cases hx
    decide
  · intro g hg _ hother
    rw [List.mem_singleton.mp hg] at hother
    exact absurd rfl hother

end FirstListing

/-- A listing of what was uploaded leaves the row clean and right. -/
theorem clean_agrees_own :
    CleanAgrees Saved.hash
      (FirstListing.listed [("A", Saved.version)] "t1") :=
  clean_agrees FirstListing.start
    (.tail FirstListing.run_acked
      ⟨_, FirstListing.step_listed List.mem_cons_self rfl,
        FirstListing.undisturbed_listing _ _, FirstListing.faithful_own⟩)

/-- A listing of what another client has made of it leaves the row clean and
wrong. -/
theorem not_clean_agrees :
    ¬∀ (cwd : FsPath) (hash : Bytes → String) (s₀ s : Transfers),
      Agreement hash s₀ →
      Run (Guarded (Transfers.Step cwd hash) (fun _ _ => True)) s₀ s →
        CleanAgrees hash s := by
  intro h
  have hrun : Run (Guarded (Transfers.Step Saved.cwd Saved.hash)
      (fun _ _ => True)) Saved.start
      (FirstListing.listed
        [("A", Saved.version), ("A", FirstListing.foreign)] "t2") :=
    .tail (.tail (.tail (.tail (.tail .refl ⟨_, Saved.step_prepare, trivial⟩)
      ⟨_, Saved.step_send, trivial⟩) ⟨_, FirstListing.step_acked, trivial⟩)
      ⟨_, FirstListing.step_update, trivial⟩)
      ⟨_, FirstListing.step_listed (v := FirstListing.foreign)
        (List.mem_cons_of_mem _ List.mem_cons_self) rfl, trivial⟩
  have hclean := h Saved.cwd Saved.hash Saved.start _ FirstListing.start hrun
    (FirstListing.listedRow "t2") List.mem_cons_self (by decide) (by decide)
    (by decide) "A" FirstListing.foreign "1" rfl
    (List.mem_cons_of_mem _ List.mem_cons_self) rfl rfl
  revert hclean
  decide

end ArkiveSync.CleanAgreement
