import ArkiveSync.Proofs.ScanResume

/-!
# The rows that a scan writes

One account of a row serves for a scan of the root and for one of a single
path: what a scan writes for what lies at a path, given the row that was there
(`scannedView`).  Writing it again changes nothing, so that it does not matter
how often an item is met.

## Main results

* `scanItems_settles`: a batch writes that row for every item it handles.
* `full_scan_view`: the rows after a complete scan of the root.
-/

namespace ArkiveSync.IncrementalScan

open Library RootScanner LocalTree ScanMirror ScanResume

variable {root : SyncRoot} {tree : LocalTree} {jobId : Nat}

/-- The columns that the two scans are compared in. -/
structure View where
  isDirectory : Bool
  size : Option Int
  contentHash : Option String
  deleted : Bool
  deriving DecidableEq, Repr

def view (e : Entry) : View :=
  { isDirectory := e.isDirectory, size := e.size
    contentHash := e.contentHash, deleted := e.deleted }

/-- The row at a path, as far as it is compared. -/
def rowView (syncRootId : String) (t : EntryTable) (path : String) :
    Option View :=
  (EntryRepo.findEntryByPath t syncRootId path).map view

/-- What a scan writes for what lies at a path. -/
def scannedView (old : Option Entry) : ScannedKind → View
  | .directory =>
      { isDirectory := true, size := old.bind Entry.size
        contentHash := old.bind Entry.contentHash, deleted := false }
  | .file file =>
      { isDirectory := false, size := some (file.size : Int)
        contentHash :=
          if looksRecorded old file.size file.mtime then
            old.bind Entry.contentHash
          else some file.hash
        deleted := false }

/-- The row is the one that a scan writes, from the rows `t₀` on. -/
def Settled (syncRootId : String) (jobId : Nat) (t₀ t : EntryTable)
    (rel : String) (kind : ScannedKind) : Prop :=
  ∃ e, EntryRepo.findEntryByPath t syncRootId rel = some e ∧
    view e = scannedView (EntryRepo.findEntryByPath t₀ syncRootId rel) kind ∧
    e.lastSeenScanJobId = some jobId ∧
    ∀ file, kind = .file file → e.mtime = some (toMtimeMs file.mtime)

/-- The row is the old one, or the one that a scan writes. -/
def Open (syncRootId : String) (jobId : Nat) (t₀ t : EntryTable)
    (rel : String) (kind : ScannedKind) : Prop :=
  EntryRepo.findEntryByPath t syncRootId rel =
      EntryRepo.findEntryByPath t₀ syncRootId rel ∨
    Settled syncRootId jobId t₀ t rel kind

/-! ## One item -/

/-- What a scan makes of its own row is that row. -/
theorem scannedView_again {old : Option Entry} {e : Entry} {kind : ScannedKind}
    (hview : view e = scannedView old kind)
    (hmtime : ∀ file, kind = .file file →
      e.mtime = some (toMtimeMs file.mtime)) :
    scannedView (some e) kind = scannedView old kind := by
  cases kind with
  | directory =>
      have hsize := congrArg View.size hview
      have hhash := congrArg View.contentHash hview
      change e.size = _ at hsize
      change e.contentHash = _ at hhash
      simp only [scannedView, Option.bind_some, hsize, hhash]
  | file file =>
      have hsize := congrArg View.size hview
      have hhash := congrArg View.contentHash hview
      have hlive := congrArg View.deleted hview
      change e.size = some (file.size : Int) at hsize
      change e.contentHash = (if looksRecorded old file.size file.mtime then
        old.bind Entry.contentHash else some file.hash) at hhash
      change e.deleted = false at hlive
      have hkept : looksRecorded old file.size file.mtime = true →
          looksRecorded (some e) file.size file.mtime = true := by
        intro hlooks
        cases old with
        | none => cases hlooks
        | some o =>
            simp only [looksRecorded, Bool.and_eq_true, beq_iff_eq,
              Option.map_eq_some_iff] at hlooks
            obtain ⟨-, m, -, hm⟩ := hlooks
            simp only [looksRecorded, hlive, hsize, hmtime file rfl,
              Bool.not_false, beq_self_eq_true, Option.map_some, Bool.and_self,
              Bool.true_and, beq_iff_eq, Option.some.injEq]
            rw [← hm, toMtimeMs, Int.mul_tdiv_cancel _ (by decide)]
      simp only [scannedView, Option.bind_some, hhash]
      by_cases hold : looksRecorded old file.size file.mtime = true
      · rw [if_pos hold, if_pos (hkept hold)]
      · rw [if_neg hold]
        split <;> rfl

/-- The row that a directory gets. -/
theorem upsertDirectory_view (t : EntryTable) (syncRootId rel : String)
    (jobId : Nat) :
    ∃ e, EntryRepo.findEntryByPath
        (LocalEntryRepo.upsertDirectoryEntry t
          { syncRootId := syncRootId
            relativePath := rel
            lastSeenScanId := jobId }) syncRootId rel = some e ∧
      view e =
        scannedView (EntryRepo.findEntryByPath t syncRootId rel) .directory ∧
      e.lastSeenScanJobId = some jobId := by
  refine ⟨_, LocalEntryRepo.findEntryByPath_upsertDirectory_self t _, ?_⟩
  cases hold : t.lookup (syncRootId, rel) with
  | none =>
      rw [KeyedTable.upserted_of_none hold, EntryRepo.findEntryByPath, hold]
      exact ⟨rfl, rfl⟩
  | some e =>
      rw [KeyedTable.upserted_of_some hold, EntryRepo.findEntryByPath, hold]
      refine ⟨?_, rfl⟩
      have hlive : (LocalEntryRepo.updateDirectory
          { syncRootId := syncRootId
            relativePath := rel
            lastSeenScanId := jobId } e).deleted = false := by
        rw [Entry.deleted, beq_eq_false_iff_ne]
        show (if _ then EntrySyncState.pendingUpload else .unchanged) ≠ _
        split <;> simp
      rw [view, hlive]
      rfl

/-- The row that a regular file gets. -/
theorem handleFileEntry_view {t t' : EntryTable} {syncRootId rel : String}
    {file : ScannedFile}
    (h : handleFileEntry t syncRootId jobId rel file.probe = .stored t') :
    (∃ e, EntryRepo.findEntryByPath t' syncRootId rel = some e ∧
      view e =
        scannedView (EntryRepo.findEntryByPath t syncRootId rel) (.file file) ∧
      e.lastSeenScanJobId = some jobId ∧
      e.mtime = some (toMtimeMs file.mtime)) ∧
    ∀ other, other ≠ rel → EntryRepo.findEntryByPath t' syncRootId other =
      EntryRepo.findEntryByPath t syncRootId other := by
  obtain ⟨size, mtime, hash, hashed, hsize, hmtime, -, hhashed, hread, hkept,
    rfl⟩ := handleFileEntry_stored h
  cases hsize
  cases hmtime
  have hhash : some hash =
      if looksRecorded (EntryRepo.findEntryByPath t syncRootId rel) file.size
          file.mtime then
        (EntryRepo.findEntryByPath t syncRootId rel).bind Entry.contentHash
      else some file.hash := by
    cases hlooks : looksRecorded (EntryRepo.findEntryByPath t syncRootId rel)
        file.size file.mtime with
    | true =>
        rw [hlooks] at hhashed
        obtain ⟨e, he, hsame⟩ := hkept hhashed
        rw [if_pos rfl, he]
        exact hsame.symm
    | false =>
        rw [hlooks] at hhashed
        rw [if_neg Bool.false_ne_true]
        exact (hread hhashed).symm
  refine ⟨⟨_, LocalEntryRepo.findEntryByPath_upsertFile_self t _, ?_⟩, ?_⟩
  · cases hold : t.lookup (syncRootId, rel) with
    | none =>
        rw [KeyedTable.upserted_of_none hold]
        refine ⟨?_, rfl, rfl⟩
        rw [view, Entry.deleted, beq_eq_false_iff_ne.mpr]
        · simp only [LocalEntryRepo.newFile, hhash, scannedView]
        · exact scannedState_ne _ _ _
    | some e =>
        rw [KeyedTable.upserted_of_some hold]
        refine ⟨?_, rfl, rfl⟩
        rw [view, Entry.deleted, beq_eq_false_iff_ne.mpr]
        · simp only [LocalEntryRepo.updateFile, hhash, scannedView]
        · simp only [LocalEntryRepo.updateFile]
          split
          · simp
          · exact scannedState_ne _ _ _
  · intro other hother
    apply LocalEntryRepo.findEntryByPath_upsertFile_ne
    intro hsame
    exact hother (congrArg Prod.snd hsame)

/-- A readable file is not refused. -/
theorem handleFileEntry_ne_skipped (t : EntryTable) (syncRootId rel : String)
    (jobId : Nat) (file : ScannedFile) :
    handleFileEntry t syncRootId jobId rel file.probe ≠ .skipped := by
  have hfits := file.fits
  unfold handleFileEntry
  simp only [ScannedFile.probe]
  rw [if_neg (by omega)]
  split <;> simp

/-- A batch that does not throw writes the row of its first item. -/
theorem scanItems_first {syncRootId rel : String} {kind : ScannedKind}
    {items : List DirItem} {budget : Nat} {t : EntryTable}
    {last : Option String} {batch : Batch}
    (h : scanItems syncRootId jobId (scannedItem rel kind :: items)
      (budget + 1) t last = some batch) :
    ∃ t₁, scanItems syncRootId jobId items budget t₁ (some rel) = some batch ∧
      (∃ e, EntryRepo.findEntryByPath t₁ syncRootId rel = some e ∧
        view e = scannedView (EntryRepo.findEntryByPath t syncRootId rel) kind ∧
        e.lastSeenScanJobId = some jobId ∧
        ∀ file, kind = .file file → e.mtime = some (toMtimeMs file.mtime)) ∧
      ∀ other, other ≠ rel → EntryRepo.findEntryByPath t₁ syncRootId other =
        EntryRepo.findEntryByPath t syncRootId other := by
  cases kind with
  | directory =>
      obtain ⟨e, he, hview, hseen⟩ :=
        upsertDirectory_view t syncRootId rel jobId
      refine ⟨_, h, ⟨e, he, hview, hseen, ?_⟩,
        (upsertDirectory_wrote syncRootId jobId t rel).others⟩
      intro file hfile
      cases hfile
  | file file =>
      rw [scannedItem, scanItems] at h
      dsimp only at h
      split at h
      next => cases h
      next hskipped =>
          exact absurd hskipped (handleFileEntry_ne_skipped _ _ _ _ _)
      next t₁ hstored =>
          obtain ⟨⟨e, he, hview, hseen, hmtime⟩, hothers⟩ :=
            handleFileEntry_view hstored
          refine ⟨t₁, h, ⟨e, he, hview, hseen, ?_⟩, hothers⟩
          intro other hsame
          cases hsame
          exact hmtime

/-! ## One batch -/

/-- What a batch does to the rows: those of the items it has handled are the
ones that a scan writes. -/
structure Settles (syncRootId : String) (jobId : Nat) (t₀ t t' : EntryTable)
    (done : List DirItem) : Prop where
  settled : ∀ rel kind, scannedItem rel kind ∈ done →
    Settled syncRootId jobId t₀ t' rel kind
  others : ∀ rel, (∀ kind, scannedItem rel kind ∉ done) →
    EntryRepo.findEntryByPath t' syncRootId rel =
      EntryRepo.findEntryByPath t syncRootId rel

/-- A row stays settled. -/
theorem Settles.kept {t₀ t t' : EntryTable} {done : List DirItem}
    (h : Settles root.id jobId t₀ t t' done)
    (hdone : ∀ item ∈ done, item ∈ tree.items) {rel : String}
    {kind : ScannedKind} (hscanned : tree.Scanned rel kind)
    (hsettled : Settled root.id jobId t₀ t rel kind) :
    Settled root.id jobId t₀ t' rel kind := by
  by_cases hagain : ∃ kind', scannedItem rel kind' ∈ done
  · obtain ⟨kind', hmem⟩ := hagain
    rw [hscanned.unique (scanned_of_mem (hdone _ hmem))]
    exact h.settled rel kind' hmem
  · unfold Settled
    rw [h.others rel (fun kind' hmem => hagain ⟨kind', hmem⟩)]
    exact hsettled

/-- A row that was open still is. -/
theorem Settles.stillOpen {t₀ t t' : EntryTable} {done : List DirItem}
    (h : Settles root.id jobId t₀ t t' done)
    (hdone : ∀ item ∈ done, item ∈ tree.items) {rel : String}
    {kind : ScannedKind} (hscanned : tree.Scanned rel kind)
    (hopen : Open root.id jobId t₀ t rel kind) :
    Open root.id jobId t₀ t' rel kind := by
  by_cases hagain : ∃ kind', scannedItem rel kind' ∈ done
  · obtain ⟨kind', hmem⟩ := hagain
    rw [hscanned.unique (scanned_of_mem (hdone _ hmem))]
    exact Or.inr (h.settled rel kind' hmem)
  · have hsame := h.others rel (fun kind' hmem => hagain ⟨kind', hmem⟩)
    unfold Open Settled
    rw [hsame]
    exact hopen

/-- Writing the row of an item settles it. -/
theorem settled_of_first {t₀ t t₁ : EntryTable} {rel : String}
    {kind : ScannedKind} (hopen : Open root.id jobId t₀ t rel kind)
    {e : Entry} (he : EntryRepo.findEntryByPath t₁ root.id rel = some e)
    (hview : view e =
      scannedView (EntryRepo.findEntryByPath t root.id rel) kind)
    (hseen : e.lastSeenScanJobId = some jobId)
    (hmtime : ∀ file, kind = .file file →
      e.mtime = some (toMtimeMs file.mtime)) :
    Settled root.id jobId t₀ t₁ rel kind := by
  refine ⟨e, he, ?_, hseen, hmtime⟩
  rcases hopen with hsame | ⟨old, hold, holdview, -, holdmtime⟩
  · rw [← hsame]
    exact hview
  · rw [hview, hold, scannedView_again holdview holdmtime]

/-- A batch settles the rows of the items it handles, and leaves the others
alone; its cursor is the path of one of them. -/
theorem scanItems_settles {t₀ : EntryTable} {items : List DirItem} :
    ∀ {budget : Nat} {t : EntryTable} {last : Option String} {batch : Batch},
      (∀ item ∈ items, item ∈ tree.items) →
      (∀ rel kind, scannedItem rel kind ∈ items →
        Open root.id jobId t₀ t rel kind) →
      scanItems root.id jobId items budget t last = some batch →
      ∃ done, items = done ++ batch.rest ∧
        Settles root.id jobId t₀ t batch.entries done ∧
        (batch.lastCursor = last ∨ ∃ c pre x post,
          batch.lastCursor = some c ∧ done = pre ++ x :: post ∧
          x.relative = some c) := by
  induction items with
  | nil =>
      intro budget t last batch _ _ h
      cases h
      refine ⟨[], rfl, ⟨?_, fun _ _ => rfl⟩, Or.inl rfl⟩
      intro rel kind hmem
      cases hmem
  | cons item items ih =>
      intro budget t last batch hitems hopen h
      have hrest : ∀ i ∈ items, i ∈ tree.items :=
        fun i hi => hitems i (List.mem_cons_of_mem _ hi)
      cases budget with
      | zero =>
          cases h
          refine ⟨[], rfl, ⟨?_, fun _ _ => rfl⟩, Or.inl rfl⟩
          intro rel kind hmem
          cases hmem
      | succ budget =>
          rcases scannedItem_or_passed (hitems item List.mem_cons_self) with
            ⟨rel, kind, rfl⟩ | hpassed
          · have hscanned := scanned_of_mem (hitems _ List.mem_cons_self)
            obtain ⟨t₁, hscan, ⟨e, he, hview, hseen, hmtime⟩, hothers⟩ :=
              scanItems_first h
            have hfirst : Settled root.id jobId t₀ t₁ rel kind :=
              settled_of_first (hopen rel kind List.mem_cons_self) he hview
                hseen hmtime
            have hopen₁ : ∀ rel' kind', scannedItem rel' kind' ∈ items →
                Open root.id jobId t₀ t₁ rel' kind' := by
              intro rel' kind' hmem
              by_cases hsame : rel' = rel
              · subst hsame
                rw [(scanned_of_mem (hrest _ hmem)).unique hscanned]
                exact Or.inr hfirst
              · have hold := hopen rel' kind' (List.mem_cons_of_mem _ hmem)
                unfold Open Settled at hold ⊢
                rw [hothers rel' hsame]
                exact hold
            obtain ⟨done, hsplit, hsettles, hcursor⟩ := ih hrest hopen₁ hscan
            have hdone : ∀ i ∈ done, i ∈ tree.items := by
              intro i hi
              exact hrest i (by rw [hsplit]; exact List.mem_append_left _ hi)
            refine ⟨scannedItem rel kind :: done, by rw [hsplit]; rfl,
              ⟨?_, ?_⟩, Or.inr ?_⟩
            · intro rel' kind' hmem
              rcases List.mem_cons.mp hmem with hsame | hin
              · have hrel := scannedItem_injective hsame
                subst hrel
                have hmem' : scannedItem rel' kind' ∈ tree.items := by
                  rw [hsame]
                  exact mem_of_scanned hscanned
                rw [(scanned_of_mem hmem').unique hscanned]
                exact hsettles.kept hdone hscanned hfirst
              · exact hsettles.settled rel' kind' hin
            · intro rel' hnone
              rw [hsettles.others rel'
                (fun kind' hin => hnone kind' (List.mem_cons_of_mem _ hin))]
              apply hothers
              intro hsame
              subst hsame
              exact hnone kind List.mem_cons_self
            · rcases hcursor with hlast | ⟨c, pre, x, post, hc, hpre, hx⟩
              · exact ⟨rel, [], _, done, hlast, rfl, by cases kind <;> rfl⟩
              · exact ⟨c, _ :: pre, x, post, hc, by rw [hpre]; rfl, hx⟩
          · rw [scanItems_passed hpassed] at h
            obtain ⟨done, hsplit, hsettles, hcursor⟩ := ih hrest
              (fun rel kind hmem =>
                hopen rel kind (List.mem_cons_of_mem _ hmem)) h
            have hnot : ∀ rel kind, item ≠ scannedItem rel kind := by
              intro rel kind hsame
              rw [hsame] at hpassed
              cases kind <;> simp [scannedItem] at hpassed
            refine ⟨item :: done, by rw [hsplit]; rfl, ⟨?_, ?_⟩, ?_⟩
            · intro rel kind hmem
              rcases List.mem_cons.mp hmem with hsame | hin
              · exact absurd hsame.symm (hnot rel kind)
              · exact hsettles.settled rel kind hin
            · intro rel hnone
              exact hsettles.others rel
                (fun kind hin => hnone kind (List.mem_cons_of_mem _ hin))
            · rcases hcursor with hlast | ⟨c, pre, x, post, hc, hpre, hx⟩
              · exact Or.inl hlast
              · exact Or.inr ⟨c, item :: pre, x, post, hc, by rw [hpre]; rfl,
                  hx⟩

/-! ## A complete scan of the root -/

/-- The row of something that no walk meets, after a sweep. -/
def sweptView (old : Option Entry) : Option View :=
  old.map (fun e => { view e with deleted := true })

/-- A statement that marks the live rows it selects sweeps the row of a path that
it selects. -/
theorem rowView_markDeleted {t : EntryTable} {syncRootId path : String}
    {p : Entry → Bool}
    (hp : ∀ e, EntryRepo.findEntryByPath t syncRootId path = some e →
      p e = !e.deleted) :
    rowView syncRootId (LocalEntryRepo.markDeleted t p) path =
      sweptView (EntryRepo.findEntryByPath t syncRootId path) := by
  unfold rowView sweptView
  rw [LocalEntryRepo.findEntryByPath_markDeleted]
  cases hold : EntryRepo.findEntryByPath t syncRootId path with
  | none => rfl
  | some e =>
      simp only [Option.map_some, hp e hold]
      cases hlive : e.deleted with
      | true => simp [view, hlive]
      | false => simp [view, Entry.deleted]

/-- A row that only older scans have seen. -/
theorem notSeenIn_of_lt {e : Entry} {jobId : Nat}
    (hfresh : ∀ k, e.lastSeenScanJobId = some k → k < jobId) :
    LocalEntryRepo.notSeenIn e jobId = true := by
  rw [LocalEntryRepo.notSeenIn, bne_iff_ne]
  intro hmade
  have hlt := hfresh jobId hmade
  omega

/-- The walk of the root from the rows `t₀` on: what is passed is settled, the
rest is as it was. -/
structure Walking (root : SyncRoot) (tree : LocalTree) (jobId : Nat)
    (t₀ : EntryTable) (s : ScanState) : Prop where
  job : (currentJob s).id = jobId
  passed : ∀ items, Iterates tree.listing s items →
    ∃ pre, tree.items = pre ++ items ∧
      (∀ rel kind, scannedItem rel kind ∈ pre →
        Settled root.id jobId t₀ s.entries rel kind) ∧
      ∀ rel, (∀ kind, scannedItem rel kind ∉ pre) →
        EntryRepo.findEntryByPath s.entries root.id rel =
          EntryRepo.findEntryByPath t₀ root.id rel

/-- One batch of it. -/
theorem Walking.batch {t₀ : EntryTable} {s : ScanState}
    (h : Walking root tree jobId t₀ s) {items : List DirItem}
    (hiterates : Iterates tree.listing s items) {budget : Nat}
    {last : Option String} {batch : Batch}
    (hscan : scanItems root.id jobId items budget s.entries last =
      some batch) :
    ∃ pre, tree.items = pre ++ batch.rest ∧
      (∀ rel kind, scannedItem rel kind ∈ pre →
        Settled root.id jobId t₀ batch.entries rel kind) ∧
      ∀ rel, (∀ kind, scannedItem rel kind ∉ pre) →
        EntryRepo.findEntryByPath batch.entries root.id rel =
          EntryRepo.findEntryByPath t₀ root.id rel := by
  obtain ⟨pre, hsplit, hsettled, hothers⟩ := h.passed items hiterates
  have hitems : ∀ item ∈ items, item ∈ tree.items := by
    intro item hitem
    rw [hsplit]
    exact List.mem_append_right _ hitem
  have hopen : ∀ rel kind, scannedItem rel kind ∈ items →
      Open root.id jobId t₀ s.entries rel kind := by
    intro rel kind hmem
    refine Or.inl (hothers rel ?_)
    intro kind' hpre
    exact scannedItem_apart hsplit hpre hmem
  obtain ⟨done, hdone, hsettles, -⟩ := scanItems_settles hitems hopen hscan
  have hinner : ∀ item ∈ done, item ∈ tree.items := by
    intro item hitem
    refine hitems item ?_
    rw [hdone]
    exact List.mem_append_left _ hitem
  refine ⟨pre ++ done, by rw [hsplit, hdone, List.append_assoc], ?_, ?_⟩
  · intro rel kind hmem
    rcases List.mem_append.mp hmem with hin | hin
    · refine hsettles.kept hinner (scanned_of_mem ?_) (hsettled rel kind hin)
      rw [hsplit]
      exact List.mem_append_left _ hin
    · exact hsettles.settled rel kind hin
  · intro rel hnone
    rw [hsettles.others rel
      (fun kind hin => hnone kind (List.mem_append_right _ hin))]
    exact hothers rel
      (fun kind hin => hnone kind (List.mem_append_left _ hin))

theorem Walking.continues {t₀ : EntryTable} {s s' : ScanState}
    (h : Walking root tree jobId t₀ s) (hstep : Continues root tree s s') :
    Walking root tree jobId t₀ s' := by
  obtain ⟨n, hcall, hjob⟩ := hstep
  rcases scanBatch_cases n root tree.listing s with
    ⟨-, hfailed⟩ | ⟨items, hiterates, ⟨-, hthrew⟩ | ⟨batch, hscan, hbatch⟩⟩
  · rw [hfailed] at hcall
    cases hcall
  · rw [hthrew] at hcall
    cases hcall
  · rw [h.job] at hscan
    obtain ⟨pre, hsplit, hsettled, hothers⟩ := h.batch hiterates hscan
    rcases hbatch with ⟨-, hdone⟩ | ⟨-, hdone⟩
    · rw [hdone] at hcall
      cases hcall
      exact absurd rfl hjob
    · rw [hdone] at hcall
      cases hcall
      refine ⟨h.job, ?_⟩
      intro rest hrest
      rcases hrest with hrest | ⟨hnone, -⟩
      · cases hrest
        exact ⟨pre, hsplit, hsettled, hothers⟩
      · cases hnone

/-- The rows after a complete scan of the root: those of what the walk meets
are the ones that a scan writes, the others are deleted. -/
theorem full_scan_view {s s₁ s' : ScanState} {batchSize : Nat}
    (hjob : s.job = none) (hactive : s.activeScan = none)
    (hfresh : FreshJobIds root s) (hrun : Run (Continues root tree) s s₁)
    (hcomplete : Completes root tree batchSize s₁ s') :
    (∀ rel kind, tree.Scanned rel kind → rowView root.id s'.entries rel =
      some (scannedView (EntryRepo.findEntryByPath s.entries root.id rel)
        kind)) ∧
    ∀ rel, (∀ kind, ¬ tree.Scanned rel kind) → rowView root.id s'.entries rel =
      sweptView (EntryRepo.findEntryByPath s.entries root.id rel) := by
  have hstart : Walking root tree s.nextJobId s.entries s := by
    refine ⟨by unfold currentJob; rw [hjob]; rfl, ?_⟩
    intro items hiterates
    rw [hiterates.unique (iterates_new hjob hactive tree)]
    refine ⟨[], rfl, ?_, fun _ _ => rfl⟩
    intro rel kind hmem
    cases hmem
  have hkeeps : Preserves (Continues root tree)
      (Walking root tree s.nextJobId s.entries) :=
    fun _ _ hstep hwalking => hwalking.continues hstep
  have hwalking := hkeeps.run hrun hstart
  rcases scanBatch_cases batchSize root tree.listing s₁ with
    ⟨-, hfailed⟩ | ⟨items, hiterates, ⟨-, hthrew⟩ | ⟨batch, hscan, hbatch⟩⟩
  · rw [Completes, hfailed] at hcomplete
    cases hcomplete.1
  · rw [Completes, hthrew] at hcomplete
    cases hcomplete.1
  · rw [hwalking.job] at hscan hbatch
    obtain ⟨pre, hsplit, hsettled, hothers⟩ := hwalking.batch hiterates hscan
    rcases hbatch with ⟨hrest, hdone⟩ | ⟨-, hdone⟩
    · rw [Completes, hdone] at hcomplete
      cases hcomplete.1
      rw [hrest, List.append_nil] at hsplit
      refine ⟨?_, ?_⟩
      · intro rel kind hscanned
        obtain ⟨e, he, hview, hseen, -⟩ := hsettled rel kind (by
          rw [← hsplit]
          exact mem_of_scanned hscanned)
        rw [rowView, find_sweep_of_stamped he hseen, Option.map_some, hview]
      · intro rel hnone
        have hsame := hothers rel (fun kind hmem => hnone kind
          (scanned_of_mem (by rw [hsplit]; exact hmem)))
        rw [← hsame]
        refine rowView_markDeleted ?_
        intro e hold
        rw [hsame] at hold
        have hroot := ((EntryRepo.findEntryByPath_eq_some_iff _ _ _ e).mp
          hold).2.1
        have hseen : LocalEntryRepo.notSeenIn e s.nextJobId = true :=
          notSeenIn_of_lt (fun k => hfresh rel e k hold)
        simp only [hroot, hseen, beq_self_eq_true, Bool.true_and]
    · rw [Completes, hdone] at hcomplete
      cases hcomplete.1
      cases hcomplete.2

end ArkiveSync.IncrementalScan
