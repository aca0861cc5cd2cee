import ArkiveSync.Model.ScanRuns

/-!
# A completed scan mirrors the disk

The invariant of a scan job speaks of what the walk has passed: every directory
and file in front of the live iterator, and every one in front of the place at
which a new iterator would go on, has a live row that describes it and carries
the id of the job.  A batch that fails takes nothing back, since the cursor is
part of the transaction.  The sweep at the end leaves exactly these rows live.

## Main results

* `scanItems_spec`: what one batch does to the rows.
* `Scanning.batch`: a batch of a running job keeps the invariant, or completes
  the job over rows that mirror the tree.
* `completed_scan_mirrors`: so does every run from any rows on.
-/

namespace ArkiveSync.ScanMirror

open Library RootScanner LocalTree

variable {root : SyncRoot} {tree : LocalTree} {jobId : Nat}

/-- The row that a scan of the job has written for what lies at a path. -/
def Recorded (syncRootId : String) (jobId : Nat) (t : EntryTable)
    (rel : String) (kind : ScannedKind) : Prop :=
  ∃ e, EntryRepo.findEntryByPath t syncRootId rel = some e ∧
    e.deleted = false ∧ e.lastSeenScanJobId = some jobId ∧ kind.Describes e

/-- The row at one path is written, the others of the root are not touched. -/
structure Wrote (syncRootId : String) (jobId : Nat) (t t' : EntryTable)
    (rel : String) (kind : ScannedKind) : Prop where
  row : Recorded syncRootId jobId t' rel kind
  others : ∀ other, other ≠ rel →
    EntryRepo.findEntryByPath t' syncRootId other =
      EntryRepo.findEntryByPath t syncRootId other

/-! ## One item -/

theorem upsertDirectory_wrote (syncRootId : String) (jobId : Nat)
    (t : EntryTable) (rel : String) :
    Wrote syncRootId jobId t
      (LocalEntryRepo.upsertDirectoryEntry t
        { syncRootId := syncRootId
          relativePath := rel
          lastSeenScanId := jobId }) rel .directory := by
  refine ⟨⟨_, LocalEntryRepo.findEntryByPath_upsertDirectory_self t _, ?_⟩, ?_⟩
  · cases hold : t.lookup (syncRootId, rel) with
    | none =>
        rw [KeyedTable.upserted_of_none hold]
        exact ⟨rfl, rfl, rfl⟩
    | some e =>
        rw [KeyedTable.upserted_of_some hold]
        refine ⟨?_, rfl, rfl⟩
        rw [Entry.deleted, beq_eq_false_iff_ne]
        show (if _ then EntrySyncState.pendingUpload else .unchanged) ≠ _
        split <;> simp
  · intro other hother
    apply LocalEntryRepo.findEntryByPath_upsertDirectory_ne
    intro hsame
    exact hother (congrArg Prod.snd hsame)

/-- The state of a scanned file is never `deleted`. -/
theorem scannedState_ne (existing : Option Entry) (shouldHash : Bool)
    (contentHash : String) :
    scannedState existing shouldHash contentHash ≠ .deleted := by
  unfold scannedState
  split
  · simp
  · split <;> simp

/-- A readable file gets its row. -/
theorem handleFileEntry_wrote {syncRootId : String} {t : EntryTable}
    {rel : String} {file : ScannedFile}
    (htrusted : ∀ e, EntryRepo.findEntryByPath t syncRootId rel = some e →
      looksRecorded (some e) file.size file.mtime = true →
      e.contentHash = some file.hash) (jobId : Nat) :
    ∃ t', handleFileEntry t syncRootId jobId rel file.probe = .stored t' ∧
      Wrote syncRootId jobId t t' rel (.file file) := by
  have hfits := file.fits
  have hhash : (if !looksRecorded (EntryRepo.findEntryByPath t syncRootId rel)
        file.size file.mtime then some file.hash
      else (EntryRepo.findEntryByPath t syncRootId rel).bind
        Entry.contentHash) = some file.hash := by
    cases hrecorded : looksRecorded
        (EntryRepo.findEntryByPath t syncRootId rel) file.size file.mtime with
    | false => rfl
    | true =>
        cases hold : EntryRepo.findEntryByPath t syncRootId rel with
        | none =>
            rw [hold] at hrecorded
            cases hrecorded
        | some e =>
            rw [hold] at hrecorded
            exact htrusted e hold hrecorded
  unfold handleFileEntry
  simp only [ScannedFile.probe]
  rw [if_neg (by omega), hhash]
  refine ⟨_, rfl, ⟨_, LocalEntryRepo.findEntryByPath_upsertFile_self t _, ?_⟩,
    ?_⟩
  · cases hold : t.lookup (syncRootId, rel) with
    | none =>
        rw [KeyedTable.upserted_of_none hold]
        refine ⟨?_, rfl, rfl, rfl, rfl⟩
        rw [Entry.deleted, beq_eq_false_iff_ne]
        exact scannedState_ne _ _ _
    | some e =>
        rw [KeyedTable.upserted_of_some hold]
        refine ⟨?_, rfl, rfl, rfl, rfl⟩
        rw [Entry.deleted, beq_eq_false_iff_ne]
        simp only [LocalEntryRepo.updateFile]
        split
        · simp
        · exact scannedState_ne _ _ _
  · intro other hother
    apply LocalEntryRepo.findEntryByPath_upsertFile_ne
    intro hsame
    exact hother (congrArg Prod.snd hsame)

/-- What lies at a path stays recorded when other things are. -/
theorem Wrote.recorded {t t' : EntryTable} {rel other : String}
    {kind kind' : ScannedKind} (h : Wrote root.id jobId t t' rel kind)
    (hscanned : tree.Scanned rel kind) (hother : tree.Scanned other kind')
    (hrecorded : Recorded root.id jobId t other kind') :
    Recorded root.id jobId t' other kind' := by
  by_cases hsame : other = rel
  · subst hsame
    rw [hother.unique hscanned]
    exact h.row
  · unfold Recorded
    rw [h.others other hsame]
    exact hrecorded

/-- Writing what lies at a path leaves the rows as trustworthy as they were. -/
theorem Wrote.trustedOn {t t' : EntryTable} {rel : String}
    {kind : ScannedKind} (h : Wrote root.id jobId t t' rel kind)
    (hscanned : tree.Scanned rel kind) {items : List DirItem}
    (hitems : ∀ item ∈ items, item ∈ tree.items)
    (htrusted : TrustedOn root.id items t) : TrustedOn root.id items t' := by
  intro other file hmem e he hlooks
  by_cases hsame : other = rel
  · subst hsame
    have hkind := (scanned_of_mem (hitems _ hmem)).unique hscanned
    obtain ⟨row, hrow, -, -, hdescribes⟩ := h.row
    rw [hrow] at he
    cases he
    rw [← hkind] at hdescribes
    exact hdescribes.2.2
  · rw [h.others other hsame] at he
    exact htrusted other file hmem e he hlooks

/-! ## One batch -/

/-- What the items in front of the iterator have come to. -/
structure Handled (syncRootId : String) (jobId : Nat) (t t' : EntryTable)
    (done : List DirItem) : Prop where
  recorded : ∀ rel kind, scannedItem rel kind ∈ done →
    Recorded syncRootId jobId t' rel kind
  others : ∀ rel, (∀ kind, scannedItem rel kind ∉ done) →
    EntryRepo.findEntryByPath t' syncRootId rel =
      EntryRepo.findEntryByPath t syncRootId rel

/-- An item that the scan passes over is nothing it writes a row for. -/
theorem Handled.pass {t t' : EntryTable} {done : List DirItem} {item : DirItem}
    (h : Handled root.id jobId t t' done)
    (hitem : ∀ rel kind, item ≠ scannedItem rel kind) :
    Handled root.id jobId t t' (item :: done) := by
  refine ⟨?_, ?_⟩
  · intro rel kind hmem
    rcases List.mem_cons.mp hmem with hsame | hdone
    · exact absurd hsame.symm (hitem rel kind)
    · exact h.recorded rel kind hdone
  · intro rel hnone
    exact h.others rel
      (fun kind hmem => hnone kind (List.mem_cons_of_mem _ hmem))

/-- An item that the scan writes a row for. -/
theorem Handled.wrote {t t₁ t' : EntryTable} {done : List DirItem}
    {rel : String} {kind : ScannedKind}
    (hwrote : Wrote root.id jobId t t₁ rel kind)
    (hscanned : tree.Scanned rel kind)
    (hdone : ∀ item ∈ done, item ∈ tree.items)
    (h : Handled root.id jobId t₁ t' done) :
    Handled root.id jobId t t' (scannedItem rel kind :: done) := by
  have hrow : Recorded root.id jobId t' rel kind := by
    by_cases hagain : ∃ kind', scannedItem rel kind' ∈ done
    · obtain ⟨kind', hmem⟩ := hagain
      rw [hscanned.unique (scanned_of_mem (hdone _ hmem))]
      exact h.recorded rel kind' hmem
    · unfold Recorded
      rw [h.others rel (fun kind' hmem => hagain ⟨kind', hmem⟩)]
      exact hwrote.row
  refine ⟨?_, ?_⟩
  · intro rel' kind' hmem
    rcases List.mem_cons.mp hmem with hsame | hrest
    · have hrel := scannedItem_injective hsame
      subst hrel
      have hmem' : scannedItem rel' kind' ∈ tree.items := by
        rw [hsame]
        exact mem_of_scanned hscanned
      rw [(scanned_of_mem hmem').unique hscanned]
      exact hrow
    · exact h.recorded rel' kind' hrest
  · intro rel' hnone
    rw [h.others rel'
      (fun kind' hmem => hnone kind' (List.mem_cons_of_mem _ hmem))]
    apply hwrote.others
    intro hrel
    subst hrel
    exact hnone kind List.mem_cons_self

/-- What the iterator yields besides directories and regular files. -/
theorem scannedItem_or_passed {item : DirItem} (h : item ∈ tree.items) :
    (∃ rel kind, item = scannedItem rel kind) ∨
      item.kind = some .symlink ∨ item.kind = some .other := by
  obtain ⟨⟨path, x⟩, -, rfl⟩ := List.mem_map.mp h
  cases x with
  | none => exact Or.inl ⟨_, .directory, rfl⟩
  | some leaf =>
      cases leaf with
      | file file => exact Or.inl ⟨_, .file file, rfl⟩
      | symlink resolved => exact Or.inr (Or.inl rfl)
      | other => exact Or.inr (Or.inr rfl)

/-- A batch goes on behind a directory or a regular file. -/
theorem scanItems_scanned {rel : String} {kind : ScannedKind}
    {items : List DirItem} {t : EntryTable}
    (htrusted : TrustedOn root.id (scannedItem rel kind :: items) t)
    (jobId budget : Nat) (last : Option String) :
    ∃ t', Wrote root.id jobId t t' rel kind ∧
      scanItems root.id jobId (scannedItem rel kind :: items) (budget + 1) t
        last = scanItems root.id jobId items budget t' (some rel) := by
  cases kind with
  | directory => exact ⟨_, upsertDirectory_wrote root.id jobId t rel, rfl⟩
  | file file =>
      obtain ⟨t', hstored, hwrote⟩ := handleFileEntry_wrote
        (htrusted rel file List.mem_cons_self) jobId
      refine ⟨t', hwrote, ?_⟩
      simp only [scannedItem, scanItems, hstored]

/-- A batch passes over links and special files. -/
theorem scanItems_passed {syncRootId : String} {item : DirItem}
    (h : item.kind = some .symlink ∨ item.kind = some .other)
    (jobId budget : Nat) (items : List DirItem) (t : EntryTable)
    (last : Option String) :
    scanItems syncRootId jobId (item :: items) (budget + 1) t last =
      scanItems syncRootId jobId items (budget + 1) t last := by
  obtain ⟨relative, kind⟩ := item
  dsimp only at h
  rcases h with rfl | rfl <;> cases relative <;> rfl

/-- What a batch over readable items does: it never throws; the items in front
of where it stops are handled; and its cursor is the path of one of them. -/
theorem scanItems_spec {items : List DirItem} :
    ∀ (budget : Nat) (t : EntryTable) (last : Option String),
      (∀ item ∈ items, item ∈ tree.items) → TrustedOn root.id items t →
      ∃ batch done,
        scanItems root.id jobId items budget t last = some batch ∧
        items = done ++ batch.rest ∧
        Handled root.id jobId t batch.entries done ∧
        (batch.lastCursor = last ∨ ∃ c pre x post,
          batch.lastCursor = some c ∧ done = pre ++ x :: post ∧
          x.relative = some c) := by
  induction items with
  | nil =>
      intro budget t last _ _
      refine ⟨_, [], rfl, rfl, ⟨?_, fun _ _ => rfl⟩, Or.inl rfl⟩
      intro rel kind hmem
      cases hmem
  | cons item items ih =>
      intro budget t last hitems htrusted
      have hrest : ∀ i ∈ items, i ∈ tree.items :=
        fun i hi => hitems i (List.mem_cons_of_mem _ hi)
      have htrust : TrustedOn root.id items t :=
        fun rel file hmem => htrusted rel file (List.mem_cons_of_mem _ hmem)
      cases budget with
      | zero =>
          refine ⟨_, [], rfl, rfl, ⟨?_, fun _ _ => rfl⟩, Or.inl rfl⟩
          intro rel kind hmem
          cases hmem
      | succ budget =>
          rcases scannedItem_or_passed (hitems item List.mem_cons_self) with
            ⟨rel, kind, rfl⟩ | hpassed
          · have hscanned := scanned_of_mem (hitems _ List.mem_cons_self)
            obtain ⟨t', hwrote, hscan⟩ :=
              scanItems_scanned htrusted jobId budget last
            obtain ⟨batch, done, hbatch, hsplit, hhandled, hcursor⟩ :=
              ih budget t' (some rel) hrest
                (hwrote.trustedOn hscanned hrest htrust)
            refine ⟨batch, scannedItem rel kind :: done, hscan.trans hbatch,
              by rw [hsplit]; rfl, hhandled.wrote hwrote hscanned ?_, Or.inr ?_⟩
            · intro i hi
              exact hrest i (by rw [hsplit]; exact List.mem_append_left _ hi)
            · rcases hcursor with hlast | ⟨c, pre, x, post, hc, hdone, hx⟩
              · exact ⟨rel, [], _, done, hlast, rfl, by cases kind <;> rfl⟩
              · exact ⟨c, _ :: pre, x, post, hc, by rw [hdone]; rfl, hx⟩
          · obtain ⟨batch, done, hbatch, hsplit, hhandled, hcursor⟩ :=
              ih (budget + 1) t last hrest htrust
            refine ⟨batch, item :: done,
              (scanItems_passed hpassed _ _ _ _ _).trans hbatch,
              by rw [hsplit]; rfl, hhandled.pass ?_, ?_⟩
            · intro rel kind hsame
              rw [hsame] at hpassed
              cases kind <;> simp [scannedItem] at hpassed
            · rcases hcursor with hlast | ⟨c, pre, x, post, hc, hdone, hx⟩
              · exact Or.inl hlast
              · exact Or.inr ⟨c, item :: pre, x, post, hc, by rw [hdone]; rfl,
                  hx⟩

/-! ## The place of a new iterator -/

/-- What lies behind the first item with the relative path of the cursor lies
behind any other one, too. -/
theorem dropThrough_spec {c : String} {failed : Bool} {pre post rest :
    List DirItem} {x : DirItem} (hx : x.relative = some c)
    (h : dropThrough c failed (pre ++ x :: post) = some rest) :
    ∃ pre', pre ++ x :: post = pre' ++ rest ∧ ∀ i ∈ pre', i ∈ pre ++ [x] := by
  induction pre with
  | nil =>
      rw [List.nil_append, dropThrough, hx] at h
      simp only [if_true] at h
      split at h
      · cases h
      · cases h
        exact ⟨[x], rfl, fun i hi => hi⟩
  | cons y pre ih =>
      rw [List.cons_append, dropThrough] at h
      split at h
      next => cases h
      next rel hrel =>
          split at h
          next =>
              split at h
              · cases h
              · cases h
                refine ⟨[y], rfl, ?_⟩
                intro i hi
                rw [List.mem_singleton.mp hi]
                exact List.mem_cons_self
          next =>
              obtain ⟨pre', hsplit, hmem⟩ := ih h
              refine ⟨y :: pre', by rw [List.cons_append, hsplit]; rfl, ?_⟩
              intro i hi
              rcases List.mem_cons.mp hi with rfl | hi
              · exact List.mem_cons_self
              · exact List.mem_cons_of_mem _ (hmem i hi)

/-! ## The invariant -/

/-- Everything in front of the given rest of the walk is recorded. -/
def Passed (syncRootId : String) (tree : LocalTree) (jobId : Nat)
    (t : EntryTable) (items : List DirItem) : Prop :=
  ∃ pre, tree.items = pre ++ items ∧
    ∀ rel kind, scannedItem rel kind ∈ pre → Recorded syncRootId jobId t rel kind

/-- A job under way: the rows can be trusted, every live row with the id of the
job stands for something on the disk, and what is in front of the live
iterator, or of a new one, is recorded. -/
structure Scanning (root : SyncRoot) (tree : LocalTree) (s : ScanState)
    (job : ScanJob) : Prop where
  trusted : TrustedOn root.id tree.items s.entries
  stamped : ∀ rel e, EntryRepo.findEntryByPath s.entries root.id rel = some e →
    e.lastSeenScanJobId = some job.id → e.deleted = false →
    ∃ kind, tree.Scanned rel kind
  position : ∀ items,
    positionAfterCursor job.cursorPath tree.listing = some items →
    Passed root.id tree job.id s.entries items
  active : ∀ items, s.activeScan = some items →
    Passed root.id tree job.id s.entries items

/-- No row of the root carries the id that the next job will get, or a later
one. -/
def FreshJobIds (root : SyncRoot) (s : ScanState) : Prop :=
  ∀ rel e k, EntryRepo.findEntryByPath s.entries root.id rel = some e →
    e.lastSeenScanJobId = some k → k < s.nextJobId

/-- The scanner of a root between two steps. -/
structure Sound (root : SyncRoot) (tree : LocalTree) (s : ScanState) :
    Prop where
  fresh : FreshJobIds root s
  running : ∀ job, s.job = some job →
    job.id < s.nextJobId ∧ Scanning root tree s job
  idle : s.job = none →
    s.activeScan = none ∧ TrustedOn root.id tree.items s.entries

theorem passed_all (syncRootId : String) (tree : LocalTree) (jobId : Nat)
    (t : EntryTable) : Passed syncRootId tree jobId t tree.items := by
  refine ⟨[], rfl, ?_⟩
  intro rel kind hmem
  cases hmem

/-- A job that has just been made has recorded nothing, and need not have. -/
theorem Sound.scanning {s : ScanState} (h : Sound root tree s) :
    Scanning root tree s (currentJob s) := by
  unfold currentJob
  cases hjob : s.job with
  | some job => exact (h.running job hjob).2
  | none =>
      obtain ⟨hactive, htrusted⟩ := h.idle hjob
      refine ⟨htrusted, ?_, ?_, ?_⟩
      · intro rel e he hseen _
        have hlt := h.fresh rel e s.nextJobId he hseen
        omega
      · intro items hitems
        cases hitems
        exact passed_all _ _ _ _
      · intro items hitems
        rw [hactive] at hitems
        cases hitems

/-- What was recorded stays recorded in a batch. -/
theorem Handled.keeps {t t' : EntryTable} {done : List DirItem}
    (h : Handled root.id jobId t t' done)
    (hdone : ∀ item ∈ done, item ∈ tree.items) {rel : String}
    {kind : ScannedKind} (hscanned : tree.Scanned rel kind)
    (hrecorded : Recorded root.id jobId t rel kind) :
    Recorded root.id jobId t' rel kind := by
  by_cases hagain : ∃ kind', scannedItem rel kind' ∈ done
  · obtain ⟨kind', hmem⟩ := hagain
    rw [hscanned.unique (scanned_of_mem (hdone _ hmem))]
    exact h.recorded rel kind' hmem
  · unfold Recorded
    rw [h.others rel (fun kind' hmem => hagain ⟨kind', hmem⟩)]
    exact hrecorded

/-- So everything stays recorded that was in front of an iterator. -/
theorem Handled.passed {t t' : EntryTable} {done items : List DirItem}
    (h : Handled root.id jobId t t' done)
    (hdone : ∀ item ∈ done, item ∈ tree.items)
    (hpassed : Passed root.id tree jobId t items) :
    Passed root.id tree jobId t' items := by
  obtain ⟨pre, hsplit, hrecorded⟩ := hpassed
  refine ⟨pre, hsplit, ?_⟩
  intro rel kind hmem
  refine h.keeps hdone (scanned_of_mem ?_) (hrecorded rel kind hmem)
  rw [hsplit]
  exact List.mem_append_left _ hmem

/-- A row of the root after a batch: that of something handled, or an old
one. -/
theorem Handled.row_cases {t t' : EntryTable} {done : List DirItem}
    (h : Handled root.id jobId t t' done) {rel : String} {e : Entry}
    (he : EntryRepo.findEntryByPath t' root.id rel = some e) :
    (∃ kind, scannedItem rel kind ∈ done ∧ kind.Describes e ∧
      e.lastSeenScanJobId = some jobId) ∨
    EntryRepo.findEntryByPath t root.id rel = some e := by
  by_cases hdone : ∃ kind, scannedItem rel kind ∈ done
  · obtain ⟨kind, hmem⟩ := hdone
    obtain ⟨row, hrow, -, hseen, hdescribes⟩ := h.recorded rel kind hmem
    rw [hrow] at he
    cases he
    exact Or.inl ⟨kind, hmem, hdescribes, hseen⟩
  · rw [h.others rel (fun kind hmem => hdone ⟨kind, hmem⟩)] at he
    exact Or.inr he

/-- A batch leaves the rows trustworthy. -/
theorem Handled.trusted {t t' : EntryTable} {done : List DirItem}
    (h : Handled root.id jobId t t' done)
    (hdone : ∀ item ∈ done, item ∈ tree.items)
    (htrusted : TrustedOn root.id tree.items t) :
    TrustedOn root.id tree.items t' := by
  intro rel file hmem e he hlooks
  rcases h.row_cases he with ⟨kind, hin, hdescribes, -⟩ | hold
  · have hkind := (scanned_of_mem hmem).unique (scanned_of_mem (hdone _ hin))
    subst hkind
    exact hdescribes.2.2
  · exact htrusted rel file hmem e hold hlooks

/-- A batch that leaves items behind keeps the invariant under its new
cursor. -/
theorem Scanning.handled {s : ScanState} {job : ScanJob}
    (h : Scanning root tree s job) {t' : EntryTable}
    {pre done rest : List DirItem} (hsplit : tree.items = pre ++ (done ++ rest))
    (hpre : ∀ rel kind, scannedItem rel kind ∈ pre →
      Recorded root.id job.id s.entries rel kind)
    (hhandled : Handled root.id job.id s.entries t' done)
    {cursor lastCursor : Option String}
    (hcursor : lastCursor = none ∨ ∃ c before x post, lastCursor = some c ∧
      done = before ++ x :: post ∧ x.relative = some c)
    (hnew : cursor = if lastCursor.isSome then lastCursor else job.cursorPath)
    (nextJobId : Nat) :
    Scanning root tree
      { entries := t', job := some { job with cursorPath := cursor }
        nextJobId := nextJobId, activeScan := some rest }
      { job with cursorPath := cursor } := by
  have hdone : ∀ item ∈ done, item ∈ tree.items := by
    intro item hitem
    rw [hsplit]
    exact List.mem_append_right _ (List.mem_append_left _ hitem)
  have hfront : ∀ rel kind, scannedItem rel kind ∈ pre ++ done →
      Recorded root.id job.id t' rel kind := by
    intro rel kind hmem
    rcases List.mem_append.mp hmem with hin | hin
    · refine hhandled.keeps hdone (scanned_of_mem ?_) (hpre rel kind hin)
      rw [hsplit]
      exact List.mem_append_left _ hin
    · exact hhandled.recorded rel kind hin
  refine ⟨hhandled.trusted hdone h.trusted, ?_, ?_, ?_⟩
  · intro rel e he hseen hlive
    rcases hhandled.row_cases he with ⟨kind, hin, -, -⟩ | hold
    · exact ⟨kind, scanned_of_mem (hdone _ hin)⟩
    · exact h.stamped rel e hold hseen hlive
  · intro items hitems
    dsimp only at hitems ⊢
    rcases hcursor with hnone | ⟨c, before, x, post, hc, hbefore, hx⟩
    · rw [hnew, hnone] at hitems
      exact hhandled.passed hdone (h.position items hitems)
    · rw [hnew, hc] at hitems
      obtain ⟨left, hleft, hitems⟩ := Option.map_eq_some_iff.mp hitems
      have hwalk : tree.items =
          (pre ++ before) ++ x :: (post ++ rest) := by
        rw [hsplit, hbefore]
        simp
      change dropThrough c false tree.items = some left at hleft
      rw [hwalk] at hleft
      obtain ⟨pre', hpre', hmem⟩ := dropThrough_spec hx hleft
      subst hitems
      split
      · exact passed_all _ _ _ _
      · refine ⟨pre', hwalk.trans hpre', ?_⟩
        intro rel kind hin
        apply hfront rel kind
        have hin := hmem _ hin
        rw [hbefore]
        rw [List.append_assoc] at hin
        rcases List.mem_append.mp hin with hin | hin
        · exact List.mem_append_left _ hin
        · apply List.mem_append_right
          rcases List.mem_append.mp hin with hin | hin
          · exact List.mem_append_left _ hin
          · rw [List.mem_singleton.mp hin]
            exact List.mem_append_right _ List.mem_cons_self
  · intro items hitems
    cases hitems
    exact ⟨pre ++ done, by rw [hsplit, List.append_assoc], hfront⟩

/-- A live row after the sweep was stamped by the job before it. -/
theorem stamped_of_find_sweep {t : EntryTable} {jobId : Nat} {rel : String}
    {e : Entry} (he : EntryRepo.findEntryByPath
      (LocalEntryRepo.markEntriesNotSeenInScanDeleted t root.id jobId)
      root.id rel = some e) (hlive : e.deleted = false) :
    EntryRepo.findEntryByPath t root.id rel = some e ∧
      e.lastSeenScanJobId = some jobId := by
  unfold LocalEntryRepo.markEntriesNotSeenInScanDeleted at he
  rw [LocalEntryRepo.findEntryByPath_markDeleted] at he
  obtain ⟨f, hf, hmarked⟩ := Option.map_eq_some_iff.mp he
  have hroot := ((EntryRepo.findEntryByPath_eq_some_iff t _ _ f).mp hf).2.1
  split at hmarked
  · subst hmarked
    cases hlive
  · rename_i hkept
    subst hmarked
    refine ⟨hf, ?_⟩
    simpa [hroot, hlive, LocalEntryRepo.notSeenIn] using hkept

/-- A live row that the job has stamped survives the sweep. -/
theorem find_sweep_of_stamped {t : EntryTable} {jobId : Nat} {rel : String}
    {e : Entry} (he : EntryRepo.findEntryByPath t root.id rel = some e)
    (hseen : e.lastSeenScanJobId = some jobId) :
    EntryRepo.findEntryByPath
      (LocalEntryRepo.markEntriesNotSeenInScanDeleted t root.id jobId)
      root.id rel = some e := by
  unfold LocalEntryRepo.markEntriesNotSeenInScanDeleted
  rw [LocalEntryRepo.findEntryByPath_markDeleted, he]
  have hkept : (e.syncRootId == root.id && LocalEntryRepo.notSeenIn e jobId &&
      !e.deleted) = false := by
    simp [LocalEntryRepo.notSeenIn, hseen]
  simp only [Option.map_some, hkept]
  rfl

/-- The sweep behind a walk that has recorded everything leaves a mirror of the
tree. -/
theorem sweep_mirrors {t : EntryTable}
    (hrecorded : ∀ rel kind, tree.Scanned rel kind →
      Recorded root.id jobId t rel kind)
    (hstamped : ∀ rel e, EntryRepo.findEntryByPath t root.id rel = some e →
      e.lastSeenScanJobId = some jobId → e.deleted = false →
      ∃ kind, tree.Scanned rel kind) :
    Mirrors tree root.id
      (LocalEntryRepo.markEntriesNotSeenInScanDeleted t root.id jobId) := by
  apply mirrors_of_scanned
  · intro rel kind hscanned
    obtain ⟨e, he, hlive, hseen, hdescribes⟩ := hrecorded rel kind hscanned
    exact ⟨e, find_sweep_of_stamped he hseen, hlive, hdescribes⟩
  · intro e he hroot hlive
    have hfind := (EntryRepo.findEntryByPath_eq_some_iff _ _ _ e).mpr
      ⟨he, hroot, rfl⟩
    obtain ⟨hbefore, hseen⟩ := stamped_of_find_sweep hfind hlive
    exact hstamped e.relativePath e hbefore hseen hlive

/-- A row after the sweep was there before it, with the same columns but its
state. -/
theorem of_find_sweep {t : EntryTable} {rel : String} {e : Entry}
    (he : EntryRepo.findEntryByPath
      (LocalEntryRepo.markEntriesNotSeenInScanDeleted t root.id jobId)
      root.id rel = some e) :
    ∃ f, EntryRepo.findEntryByPath t root.id rel = some f ∧
      e.lastSeenScanJobId = f.lastSeenScanJobId ∧
      e.contentHash = f.contentHash ∧ e.size = f.size ∧ e.mtime = f.mtime ∧
      (e.deleted = false → f.deleted = false) := by
  unfold LocalEntryRepo.markEntriesNotSeenInScanDeleted at he
  rw [LocalEntryRepo.findEntryByPath_markDeleted] at he
  obtain ⟨f, hf, hmarked⟩ := Option.map_eq_some_iff.mp he
  refine ⟨f, hf, ?_⟩
  split at hmarked <;> subst hmarked
  · exact ⟨rfl, rfl, rfl, rfl, fun hlive => by cases hlive⟩
  · exact ⟨rfl, rfl, rfl, rfl, fun hlive => hlive⟩

theorem sweep_trusted {t : EntryTable}
    (h : TrustedOn root.id tree.items t) :
    TrustedOn root.id tree.items
      (LocalEntryRepo.markEntriesNotSeenInScanDeleted t root.id jobId) := by
  intro rel file hmem e he hlooks
  obtain ⟨f, hf, -, hhash, hsize, hmtime, hlive⟩ := of_find_sweep he
  rw [hhash]
  refine h rel file hmem f hf ?_
  simp only [looksRecorded, Bool.and_eq_true, Bool.not_eq_true'] at hlooks ⊢
  rw [← hsize, ← hmtime]
  exact ⟨⟨hlive hlooks.1.1, hlooks.1.2⟩, hlooks.2⟩

/-- The items in front of a batch are what is left of the walk, and what lies
before them is recorded. -/
theorem Scanning.passed {s : ScanState}
    (h : Scanning root tree s (currentJob s)) {items : List DirItem}
    (hitems : Iterates tree.listing s items) :
    Passed root.id tree (currentJob s).id s.entries items := by
  rcases hitems with hactive | ⟨-, hposition⟩
  · exact h.active items hactive
  · exact h.position items hposition

theorem Sound.currentJob_lt {s : ScanState} (h : Sound root tree s) :
    (currentJob s).id < nextIdAfter s ∧ s.nextJobId ≤ nextIdAfter s := by
  unfold currentJob nextIdAfter
  cases hjob : s.job with
  | none => exact ⟨Nat.lt_succ_self _, Nat.le_succ _⟩
  | some job => exact ⟨(h.running job hjob).1, Nat.le_refl _⟩

/-- The ids in the rows after a batch. -/
theorem Sound.fresh_handled {s : ScanState} (h : Sound root tree s)
    {t' : EntryTable} {done : List DirItem}
    (hhandled : Handled root.id (currentJob s).id s.entries t' done)
    {rel : String} {e : Entry} {k : Nat}
    (he : EntryRepo.findEntryByPath t' root.id rel = some e)
    (hseen : e.lastSeenScanJobId = some k) : k < nextIdAfter s := by
  obtain ⟨hjob, hnext⟩ := h.currentJob_lt
  rcases hhandled.row_cases he with ⟨kind, -, -, hmade⟩ | hold
  · rw [hmade, Option.some.injEq] at hseen
    omega
  · have hlt := h.fresh rel e k hold hseen
    omega

/-- A batch keeps the invariant, and when it completes the job, the rows mirror
the tree. -/
theorem Sound.batch {s : ScanState} (h : Sound root tree s)
    (batchSize : Nat) :
    Sound root tree
        (scanBatch batchSize root true (some tree.listing) s).1 ∧
      ∀ s', Completes root tree batchSize s s' →
        Mirrors tree root.id s'.entries := by
  unfold Completes
  have hscanning : Scanning root tree s (currentJob s) := h.scanning
  rcases scanBatch_cases batchSize root tree.listing s with
    ⟨-, hfailed⟩ | ⟨items, hiterates, hbatch⟩
  · rw [hfailed]
    refine ⟨h, ?_⟩
    intro s' hdone
    cases hdone.1
  · obtain ⟨pre, hsplit, hpre⟩ := hscanning.passed hiterates
    have hitems : ∀ item ∈ items, item ∈ tree.items := by
      intro item hitem
      rw [hsplit]
      exact List.mem_append_right _ hitem
    obtain ⟨batch, done, hscan, hdone, hhandled, hcursor⟩ :=
      scanItems_spec batchSize s.entries none
        hitems (fun rel file hmem => hscanning.trusted rel file (hitems _ hmem))
    subst hdone
    have hinner : ∀ item ∈ done, item ∈ tree.items := fun item hitem =>
      hitems item (List.mem_append_left _ hitem)
    have hkept := hscanning.handled hsplit hpre hhandled hcursor rfl
      (nextIdAfter s)
    rcases hbatch with ⟨hthrew, -⟩ | ⟨batch', hsame, hbatch⟩
    · rw [hscan] at hthrew
      cases hthrew
    · rw [hscan, Option.some.injEq] at hsame
      subst hsame
      rcases hbatch with ⟨hrest, hcall⟩ | ⟨-, hcall⟩
      · -- the walk is over
        rw [hcall]
        have hall : ∀ rel kind, tree.Scanned rel kind →
            Recorded root.id (currentJob s).id batch.entries rel kind := by
          intro rel kind hscanned
          have hmem := mem_of_scanned hscanned
          rw [hsplit, hrest, List.append_nil] at hmem
          rcases List.mem_append.mp hmem with hin | hin
          · exact hhandled.keeps hinner hscanned (hpre rel kind hin)
          · exact hhandled.recorded rel kind hin
        refine ⟨⟨?_, ?_, ?_⟩, ?_⟩
        · intro rel e k he hseen
          obtain ⟨f, hf, hsame, -⟩ := of_find_sweep he
          rw [hsame] at hseen
          exact h.fresh_handled hhandled hf hseen
        · intro job hjob
          cases hjob
        · exact fun _ => ⟨rfl, sweep_trusted hkept.trusted⟩
        · intro s' hcomplete
          cases hcomplete.1
          exact sweep_mirrors hall hkept.stamped
      · -- the iterator stays where it is
        rw [hcall]
        refine ⟨⟨?_, ?_, ?_⟩, ?_⟩
        · exact fun rel e k he hseen => h.fresh_handled hhandled he hseen
        · intro job hjob
          cases hjob
          exact ⟨h.currentJob_lt.1, hkept⟩
        · intro hnone
          cases hnone
        · intro s' hcomplete
          cases hcomplete.1
          cases hcomplete.2

/-- So does every step of the scan. -/
theorem Sound.step {s s' : ScanState} (h : Sound root tree s)
    (hstep : ScanStep root tree s s') : Sound root tree s' := by
  cases hstep with
  | batch batchSize => exact (h.batch batchSize).1
  | rollback nextJobId hle =>
      refine ⟨?_, ?_, ?_⟩
      · intro rel e k he hseen
        exact Nat.lt_of_lt_of_le (h.fresh rel e k he hseen) hle
      · intro job hjob
        obtain ⟨hlt, hscanning⟩ := h.running job hjob
        refine ⟨Nat.lt_of_lt_of_le hlt hle, hscanning.trusted,
          hscanning.stamped, hscanning.position, ?_⟩
        intro items hitems
        cases hitems
      · exact fun hjob => ⟨rfl, (h.idle hjob).2⟩
  | restart =>
      refine ⟨h.fresh, ?_, fun hjob => ⟨rfl, (h.idle hjob).2⟩⟩
      intro job hjob
      obtain ⟨hlt, hscanning⟩ := h.running job hjob
      refine ⟨hlt, hscanning.trusted, hscanning.stamped, hscanning.position,
        ?_⟩
      intro items hitems
      cases hitems

theorem Sound.run {s s' : ScanState} (h : Sound root tree s)
    (hrun : Run (ScanStep root tree) s s') : Sound root tree s' := by
  have hpreserves : Preserves (ScanStep root tree) (Sound root tree) :=
    fun _ _ hstep hsound => hsound.step hstep
  exact hpreserves.run hrun h

/-- When a scan of an unchanging tree is completed, after any batches of any
sizes, rolled back or not, and any restarts, the rows mirror the tree. -/
theorem completed_scan_mirrors {s₀ s s' : ScanState} {batchSize : Nat}
    (hjob : s₀.job = none) (hactive : s₀.activeScan = none)
    (hfresh : FreshJobIds root s₀)
    (htrusted : TrustedOn root.id tree.items s₀.entries)
    (hrun : Run (ScanStep root tree) s₀ s)
    (hcomplete : Completes root tree batchSize s s') :
    Mirrors tree root.id s'.entries := by
  have hstart : Sound root tree s₀ := by
    refine ⟨hfresh, ?_, fun _ => ⟨hactive, htrusted⟩⟩
    intro job hsome
    rw [hjob] at hsome
    cases hsome
  exact ((hstart.run hrun).batch batchSize).2 s' hcomplete

/-! ## A directory with one file, scanned across a restart -/

namespace SmallScan

def file : ScannedFile :=
  { size := 3, mtime := 1000000, hash := "h", fits := by decide }

/-- The directory `d` with the file `d/f`, and a link to the file. -/
def smallTree : LocalTree where
  forest := .directory "d" (.leaf "f" (.file file) .empty)
    (.leaf "l" (.symlink (some "d/f")) .empty)
  distinct := by decide
  plain := by decide

def smallRoot : SyncRoot :=
  { id := "r", localPath := "/r", folderId := "", mode := .twoWay
    enabled := true }

def start : ScanState :=
  { entries := .empty, job := none, nextJobId := 0, activeScan := none }

/-- A batch of one item, a batch that is rolled back, and a restart. -/
def interrupted : ScanState :=
  { (scanBatch 1 smallRoot true (some smallTree.listing) start).1 with
    activeScan := none }

/-- The batch that completes the scan. -/
def completed : ScanState :=
  (scanRoot smallRoot true (some smallTree.listing) interrupted).1

theorem run : Run (ScanStep smallRoot smallTree) start interrupted :=
  .tail (.tail (.tail .refl (.batch start 1))
    (.rollback _ _ (Nat.le_refl _))) (.restart _)

end SmallScan

open SmallScan in
/-- The rows of the directory, of its file and of nothing else are live. -/
theorem completed_scan_mirrors_small :
    Mirrors smallTree "r" completed.entries := by
  refine @completed_scan_mirrors smallRoot smallTree start interrupted
    completed kMaxScanBatchSize rfl rfl ?_ ?_ run ?_
  · intro rel e k he
    cases he
  · intro rel file hmem e he
    cases he
  · exact ⟨Prod.ext rfl (by decide), by decide⟩

end ArkiveSync.ScanMirror
