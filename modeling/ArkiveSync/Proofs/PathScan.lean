import ArkiveSync.Proofs.IncrementalScan

/-!
# Scanning one path against scanning the root

`scanPath` handles a missing path, a file and a directory each in its own way;
`scanRoot` sweeps once at the end.  From the same rows and over the same tree
they leave the same rows at a path and below it, if what `scanPath` finds there
is what the walk meets, and no live row is left that only the sweep would have
reached.

## Main results

* `scannedItem_mem_itemsAt`: what the iterator over a directory yields.
* `subtreeRounds_settles`: the rounds of `scanSubtree` write the row of
  everything below the directory.
* `scanPath_agrees_iff`: when the two scans agree.
* `not_scanPath_agrees`: a file in the place of a directory.
-/

namespace ArkiveSync.IncrementalScan

open Library RootScanner LocalTree ScanMirror ScanResume

variable {root : SyncRoot} {tree : LocalTree} {jobId : Nat}

/-! ## The items of one directory -/

/-- The iterator over a directory yields what lies below it. -/
theorem scannedItem_mem_itemsAt {names : List String}
    {children : Forest LocalLeaf}
    (hdirectory : tree.forest.Holds names none)
    (hinside : tree.forest.descend names = some children) {path : String}
    {kind : ScannedKind} :
    scannedItem path kind ∈ itemsAt names children ↔
      tree.Scanned path kind ∧
        ∃ rest, path = FsPath.relativeText names ++ "/" ++ rest := by
  constructor
  · intro hmem
    obtain ⟨z, hz, hitem⟩ := List.mem_map.mp hmem
    obtain ⟨hwalk, ⟨more, hmore⟩, hne⟩ :=
      (Forest.mem_walk_below tree.distinct hinside).mp hz
    refine ⟨scanned_of_mem (List.mem_map.mpr ⟨z, hwalk, hitem⟩),
      FsPath.relativeText more, ?_⟩
    have hsome : more ≠ [] := by
      intro hnil
      rw [hnil, List.append_nil] at hmore
      exact hne hmore
    rw [← FsPath.relativeText_append hdirectory.ne_nil hsome, hmore]
    exact (relativeText_of_item hitem).symm
  · rintro ⟨hscanned, rest, hpath⟩
    obtain ⟨z, hwalk, hitem⟩ := List.mem_map.mp (mem_of_scanned hscanned)
    refine List.mem_map.mpr ⟨z, ?_, hitem⟩
    refine (Forest.mem_walk_below tree.distinct hinside).mpr ⟨hwalk, ?_⟩
    have hholds : tree.forest.Holds z.1 z.2 := by
      obtain ⟨ns, hns, h⟩ := Forest.mem_walk.mp hwalk
      rw [hns]
      exact h
    have htext : FsPath.relativeText z.1 =
        FsPath.relativeText names ++ "/" ++ rest :=
      (relativeText_of_item hitem).trans hpath
    obtain ⟨front, back, hsplit, hfront, hback, hrel, -⟩ :=
      FsPath.split_relativeText (hholds.all tree.plain) htext
    have hnames : names = front := by
      apply FsPath.relativeText_injective hdirectory.ne_nil hfront
        (hdirectory.all tree.plain) _ hrel
      intro n hn
      apply hholds.all tree.plain
      rw [hsplit]
      exact List.mem_append_left _ hn
    rw [hsplit, hnames]
    refine ⟨List.prefix_append _ _, ?_⟩
    intro hsame
    exact hback (List.append_right_eq_self.mp hsame.symm)

/-! ## The rounds of a directory -/

/-- The scan of a directory between two rounds: what lies in front of the
place of a new iterator is settled, the rest of the directory is open, and
everything outside is as it was. -/
structure Rounds (root : SyncRoot) (jobId : Nat) (inside : List DirItem)
    (t₀ t₁ : EntryTable) (cursor : Option String) (t : EntryTable) : Prop where
  position : ∀ items, positionAfterCursor cursor
      { items := inside, failed := false } = some items →
    ∃ pre, inside = pre ++ items ∧ ∀ rel kind, scannedItem rel kind ∈ pre →
      Settled root.id jobId t₀ t rel kind
  still : ∀ rel kind, scannedItem rel kind ∈ inside →
    Open root.id jobId t₀ t rel kind
  outside : ∀ rel, (∀ kind, scannedItem rel kind ∉ inside) →
    EntryRepo.findEntryByPath t root.id rel =
      EntryRepo.findEntryByPath t₁ root.id rel

/-- One round: what has been passed is settled, and the scan goes on behind the
cursor, if there is one. -/
theorem Rounds.batch {inside : List DirItem} {t₀ t₁ t : EntryTable}
    {cursor : Option String} (h : Rounds root jobId inside t₀ t₁ cursor t)
    (htree : ∀ item ∈ inside, item ∈ tree.items) {items : List DirItem}
    (hitems : positionAfterCursor cursor { items := inside, failed := false } =
      some items) {budget : Nat} {batch : Batch}
    (hscan : scanItems root.id jobId items budget t none = some batch) :
    (∃ pre, inside = pre ++ batch.rest ∧
      ∀ rel kind, scannedItem rel kind ∈ pre →
        Settled root.id jobId t₀ batch.entries rel kind) ∧
    (∀ rel, (∀ kind, scannedItem rel kind ∉ inside) →
      EntryRepo.findEntryByPath batch.entries root.id rel =
        EntryRepo.findEntryByPath t₁ root.id rel) ∧
    ∀ c, batch.lastCursor = some c →
      Rounds root jobId inside t₀ t₁ (some c) batch.entries := by
  obtain ⟨pre, hsplit, hsettled⟩ := h.position items hitems
  have hrest : ∀ item ∈ items, item ∈ inside := by
    intro item hitem
    rw [hsplit]
    exact List.mem_append_right _ hitem
  obtain ⟨done, hdone, hsettles, hcursor⟩ :=
    scanItems_settles (fun item hitem => htree item (hrest item hitem))
      (fun rel kind hmem => h.still rel kind (hrest _ hmem)) hscan
  have hinner : ∀ item ∈ done, item ∈ tree.items := by
    intro item hitem
    apply htree item (hrest item _)
    rw [hdone]
    exact List.mem_append_left _ hitem
  have hfront : ∀ rel kind, scannedItem rel kind ∈ pre ++ done →
      Settled root.id jobId t₀ batch.entries rel kind := by
    intro rel kind hmem
    rcases List.mem_append.mp hmem with hin | hin
    · refine hsettles.kept hinner (scanned_of_mem (htree _ ?_))
        (hsettled rel kind hin)
      rw [hsplit]
      exact List.mem_append_left _ hin
    · exact hsettles.settled rel kind hin
  have houtside : ∀ rel, (∀ kind, scannedItem rel kind ∉ inside) →
      EntryRepo.findEntryByPath batch.entries root.id rel =
        EntryRepo.findEntryByPath t₁ root.id rel := by
    intro rel hnone
    rw [hsettles.others rel, h.outside rel hnone]
    intro kind hin
    apply hnone kind (hrest _ _)
    rw [hdone]
    exact List.mem_append_left _ hin
  refine ⟨⟨pre ++ done, by rw [hsplit, hdone, List.append_assoc], hfront⟩,
    houtside, ?_⟩
  intro c hc
  refine ⟨?_, ?_, houtside⟩
  · intro next hnext
    obtain ⟨left, hleft, hsame⟩ := Option.map_eq_some_iff.mp hnext
    rcases hcursor with hnone | ⟨c', before, x, post, hc', hbefore, hx⟩
    · rw [hnone] at hc
      cases hc
    · rw [hc, Option.some.injEq] at hc'
      subst hc'
      have hwalk : inside = (pre ++ before) ++ x :: (post ++ batch.rest) := by
        rw [hsplit, hdone, hbefore]
        simp
      change dropThrough c false inside = some left at hleft
      have hpassed := hleft
      rw [hwalk] at hpassed
      obtain ⟨pre', hpre', hmem⟩ := dropThrough_spec hx hpassed
      subst hsame
      split
      · refine ⟨[], rfl, ?_⟩
        intro rel kind hin
        cases hin
      · refine ⟨pre', hwalk.trans hpre', ?_⟩
        intro rel kind hin
        apply hfront rel kind
        rw [hbefore]
        have hin := hmem _ hin
        simp only [List.mem_append, List.mem_cons] at hin ⊢
        grind
  · intro rel kind hmem
    exact hsettles.stillOpen hinner (scanned_of_mem (htree _ hmem))
      (h.still rel kind hmem)

/-- The rows that the sweep of a directory is made over. -/
theorem subtreeRounds_settles {inside : List DirItem} {t₀ t₁ t' : EntryTable}
    (htree : ∀ item ∈ inside, item ∈ tree.items) {rel : String} {n : Nat}
    {cursor : Option String} {t : EntryTable}
    (hrounds : Rounds root jobId inside t₀ t₁ cursor t)
    (h : (subtreeRounds root.id rel jobId
      (List.replicate n (some { items := inside, failed := false })) cursor
      t).1 = some t') :
    ∃ last, t' = LocalEntryRepo.markSubtreeEntriesNotSeenInScanDeleted last
        root.id rel jobId ∧
      (∀ path kind, scannedItem path kind ∈ inside →
        Settled root.id jobId t₀ last path kind) ∧
      ∀ path, (∀ kind, scannedItem path kind ∉ inside) →
        EntryRepo.findEntryByPath last root.id path =
          EntryRepo.findEntryByPath t₁ root.id path := by
  induction n generalizing cursor t with
  | zero => cases h
  | succ n ih =>
      rw [List.replicate_succ, subtreeRounds] at h
      split at h
      next => cases h
      next items hitems =>
          split at h
          next => cases h
          next batch hscan =>
              obtain ⟨⟨pre, hpre, hsettled⟩, houtside, hnext⟩ :=
                hrounds.batch htree hitems hscan
              split at h
              next hrest =>
                  rw [if_neg Bool.false_ne_true, Option.some.injEq] at h
                  rw [List.isEmpty_iff] at hrest
                  rw [hrest, List.append_nil] at hpre
                  refine ⟨batch.entries, h.symm, ?_, houtside⟩
                  intro path kind hmem
                  rw [hpre] at hmem
                  exact hsettled path kind hmem
              next =>
                  split at h
                  next => cases h
                  next c hc => exact ih (hnext c hc) h

/-- The row at a path is there and not deleted. -/
def Live (syncRootId : String) (t : EntryTable) (path : String) : Prop :=
  ∃ e, EntryRepo.findEntryByPath t syncRootId path = some e ∧
    e.deleted = false

/-- The row at a path is live, and the scan has seen it. -/
def Stamped (syncRootId : String) (jobId : Nat) (rel : String)
    (t : EntryTable) : Prop :=
  ∃ e, EntryRepo.findEntryByPath t syncRootId rel = some e ∧
    e.deleted = false ∧ e.lastSeenScanJobId = some jobId

/-- A file that was scanned has a live row. -/
theorem handleFileEntry_live {t t' : EntryTable} {syncRootId rel : String}
    {probe : FileProbe}
    (h : handleFileEntry t syncRootId jobId rel probe = .stored t') :
    Stamped syncRootId jobId rel t' := by
  obtain ⟨_, _, _, _, _, _, _, _, _, _, rfl⟩ := handleFileEntry_stored h
  refine ⟨_, LocalEntryRepo.findEntryByPath_upsertFile_self t _, ?_⟩
  cases hold : t.lookup (syncRootId, rel) with
  | none =>
      rw [KeyedTable.upserted_of_none hold]
      refine ⟨?_, rfl⟩
      rw [Entry.deleted, beq_eq_false_iff_ne]
      exact scannedState_ne _ _ _
  | some e =>
      rw [KeyedTable.upserted_of_some hold]
      refine ⟨?_, rfl⟩
      rw [Entry.deleted, beq_eq_false_iff_ne]
      simp only [LocalEntryRepo.updateFile]
      split
      · simp
      · exact scannedState_ne _ _ _

/-- A row that the scan has stamped stays live, whatever is scanned. -/
theorem scanItems_keepsLive {rel : String} {items : List DirItem}
    {budget : Nat} {t : EntryTable} {last : Option String} {batch : Batch}
    (h : scanItems root.id jobId items budget t last = some batch)
    (ht : Stamped root.id jobId rel t) :
    Stamped root.id jobId rel batch.entries := by
  refine scanItems_induct ?_ ?_ h ht
  · intro t other _ ht
    have hwrote := upsertDirectory_wrote root.id jobId t other
    by_cases hsame : rel = other
    · subst hsame
      obtain ⟨e, he, hlive, hseen, -⟩ := hwrote.row
      exact ⟨e, he, hlive, hseen⟩
    · unfold Stamped
      rw [hwrote.others rel hsame]
      exact ht
  · intro t t' other probe _ hstored ht
    by_cases hsame : rel = other
    · subst hsame
      exact handleFileEntry_live hstored
    · obtain ⟨_, _, _, _, _, _, _, _, _, _, rfl⟩ :=
        handleFileEntry_stored hstored
      unfold Stamped
      rw [LocalEntryRepo.findEntryByPath_upsertFile_ne]
      · exact ht
      · intro heq
        exact hsame (congrArg Prod.snd heq)

/-- The row of a directory that was scanned is live, whatever its iterators
have yielded. -/
theorem subtreeRounds_live {rel : String} {rounds : List (Option DirStream)}
    {cursor : Option String} {t t' : EntryTable}
    (ht : Stamped root.id jobId rel t)
    (h : (subtreeRounds root.id rel jobId rounds cursor t).1 = some t') :
    Live root.id t' rel := by
  induction rounds generalizing cursor t with
  | nil => cases h
  | cons round rounds ih =>
      cases round with
      | none => cases h
      | some listing =>
          rw [subtreeRounds] at h
          split at h
          next => cases h
          next items hitems =>
              split at h
              next => cases h
              next batch hscan =>
                  have hbatch := scanItems_keepsLive hscan ht
                  split at h
                  next =>
                      split at h
                      · cases h
                      · rw [Option.some.injEq] at h
                        subst h
                        obtain ⟨e, he, hlive, hseen⟩ := hbatch
                        refine ⟨e, ?_, hlive⟩
                        unfold
                          LocalEntryRepo.markSubtreeEntriesNotSeenInScanDeleted
                        rw [LocalEntryRepo.findEntryByPath_markDeleted, he]
                        simp [LocalEntryRepo.notSeenIn, hseen]
                  next =>
                      split at h
                      next => cases h
                      next c hc => exact ih hbatch h

/-! ## The rows at a path and below it -/

/-- At a path and below it the rows agree in the compared columns. -/
def Agree (syncRootId rel : String) (t t' : EntryTable) : Prop :=
  ∀ path, AtOrBelow rel path →
    rowView syncRootId t path = rowView syncRootId t' path

/-- What is found at the path is what the walk meets there, and no live row is
left that a scan of the path does not reach. -/
def Agreeable (tree : LocalTree) (syncRootId : String) (t : EntryTable)
    (rel : String) : PathState → Prop
  | .missing => True
  | .directory _ => tree.Scanned rel .directory
  | .regularFile _ => (∃ file, tree.Scanned rel (.file file)) ∧
      ∀ rest, ¬ Live syncRootId t (rel ++ "/" ++ rest)
  | .other => ∀ path, AtOrBelow rel path → ¬ Live syncRootId t path
  | .unreadable => False

/-- The rows at the path and below it already are those that a scan writes. -/
def AlreadyScanned (tree : LocalTree) (syncRootId : String) (t : EntryTable)
    (rel : String) : Prop :=
  ∀ path, AtOrBelow rel path →
    (∀ kind, tree.Scanned path kind → rowView syncRootId t path =
      some (scannedView (EntryRepo.findEntryByPath t syncRootId path) kind)) ∧
    ((∀ kind, ¬ tree.Scanned path kind) → ¬ Live syncRootId t path)

/-- A sweep leaves a row as it is if it is not live. -/
theorem rowView_eq_swept {syncRootId path : String} {t : EntryTable} :
    rowView syncRootId t path =
      sweptView (EntryRepo.findEntryByPath t syncRootId path) ↔
    ¬ Live syncRootId t path := by
  unfold rowView sweptView Live
  cases hrow : EntryRepo.findEntryByPath t syncRootId path with
  | none => simp
  | some e => cases hlive : e.deleted <;> simp [view, hlive]

/-- A swept row is not live. -/
theorem rowView_ne_swept {syncRootId path : String} {t : EntryTable}
    (h : Live syncRootId t path) (old : Option Entry) :
    rowView syncRootId t path ≠ sweptView old := by
  obtain ⟨e, he, hlive⟩ := h
  unfold rowView sweptView
  rw [he]
  cases old with
  | none => simp
  | some o =>
      intro hsame
      have hdeleted := congrArg View.deleted (Option.some.inj hsame)
      change e.deleted = true at hdeleted
      rw [hlive] at hdeleted
      cases hdeleted

/-- The rows `t'` are those that a complete scan of the root leaves, from the
rows `t` on. -/
structure FullScan (root : SyncRoot) (tree : LocalTree) (t t' : EntryTable) :
    Prop where
  scanned : ∀ rel kind, tree.Scanned rel kind → rowView root.id t' rel =
    some (scannedView (EntryRepo.findEntryByPath t root.id rel) kind)
  swept : ∀ rel, (∀ kind, ¬ tree.Scanned rel kind) → rowView root.id t' rel =
    sweptView (EntryRepo.findEntryByPath t root.id rel)

section Cases

variable {t t' : EntryTable} {rel : String}

/-- Rows that nothing was done to. -/
theorem unchanged_agrees_iff (hfull : FullScan root tree t t') :
    Agree root.id rel t t' ↔ AlreadyScanned tree root.id t rel := by
  constructor
  · intro hagree path hpath
    have hsame := hagree path hpath
    refine ⟨?_, ?_⟩
    · intro kind hscanned
      rw [hsame]
      exact hfull.scanned path kind hscanned
    · intro hnone
      rw [← rowView_eq_swept, hsame]
      exact hfull.swept path hnone
  · intro halready path hpath
    obtain ⟨hrow, hgone⟩ := halready path hpath
    by_cases hscanned : ∃ kind, tree.Scanned path kind
    · obtain ⟨kind, hkind⟩ := hscanned
      rw [hrow kind hkind, hfull.scanned path kind hkind]
    · have hnone : ∀ kind, ¬ tree.Scanned path kind :=
        fun kind hkind => hscanned ⟨kind, hkind⟩
      rw [hfull.swept path hnone, rowView_eq_swept]
      exact hgone hnone

/-- A missing path: everything there and below is marked. -/
theorem missing_agrees (hfull : FullScan root tree t t')
    (hnone : ∀ path, AtOrBelow rel path → ∀ kind, ¬ tree.Scanned path kind) :
    Agree root.id rel (LocalEntryRepo.markPathDeleted t root.id rel) t' := by
  intro path hpath
  rw [hfull.swept path (hnone path hpath)]
  refine rowView_markDeleted ?_
  intro e hold
  obtain ⟨-, hroot, hrel⟩ :=
    (EntryRepo.findEntryByPath_eq_some_iff _ _ _ e).mp hold
  have hunder : LocalEntryRepo.atOrUnder e rel = true := by
    apply LocalEntryRepo.atOrUnder_of_below
    rw [hrel]
    exact hpath
  simp only [hroot, hunder, beq_self_eq_true, Bool.true_and, Bool.and_true]

/-- What lies below a path is not the path itself. -/
theorem below_ne (rel rest : String) : rel ++ "/" ++ rest ≠ rel := by
  intro hsame
  have hlengths := congrArg String.length hsame
  rw [String.length_append, String.length_append] at hlengths
  have hone : ("/" : String).length = 1 := rfl
  omega

/-- A regular file: its row is written, and the rows below are left alone. -/
theorem file_agrees_iff (hfull : FullScan root tree t t') {names : List String}
    {file : ScannedFile} (hfile : tree.forest.Holds names (some (.file file)))
    {t₁ : EntryTable} (hstored : handleFileEntry t root.id jobId
      (FsPath.relativeText names) file.probe = .stored t₁) :
    Agree root.id (FsPath.relativeText names) t₁ t' ↔
      ∀ rest, ¬ Live root.id t (FsPath.relativeText names ++ "/" ++ rest) := by
  obtain ⟨⟨e, he, hview, -⟩, hothers⟩ := handleFileEntry_view hstored
  have hbelow : ∀ rest,
      rowView root.id t₁ (FsPath.relativeText names ++ "/" ++ rest) =
        rowView root.id t (FsPath.relativeText names ++ "/" ++ rest) ∧
      rowView root.id t' (FsPath.relativeText names ++ "/" ++ rest) =
        sweptView (EntryRepo.findEntryByPath t root.id
          (FsPath.relativeText names ++ "/" ++ rest)) := by
    intro rest
    refine ⟨?_, hfull.swept _ (not_scanned_of_leaf hfile ⟨rest, rfl⟩)⟩
    unfold rowView
    rw [hothers]
    exact below_ne _ rest
  constructor
  · intro hagree rest
    obtain ⟨hkept, hswept⟩ := hbelow rest
    rw [← rowView_eq_swept, ← hkept, ← hswept]
    exact hagree _ (Or.inr ⟨rest, rfl⟩)
  · intro hgone path hpath
    rcases hpath with hsame | ⟨rest, hpath⟩
    · rw [hsame, hfull.scanned _ _ (.file names file hfile), rowView, he,
        Option.map_some, hview]
    · obtain ⟨hkept, hswept⟩ := hbelow rest
      rw [hpath, hkept, hswept, rowView_eq_swept]
      exact hgone rest

/-- A directory: everything in it is written, and what was not met in it is
marked. -/
theorem directory_agrees (hfull : FullScan root tree t t')
    (hfresh : ∀ path e k, EntryRepo.findEntryByPath t root.id path = some e →
      e.lastSeenScanJobId = some k → k < jobId)
    {names : List String} (hdirectory : tree.forest.Holds names none)
    {children : Forest LocalLeaf}
    (hinside : tree.forest.descend names = some children) {n : Nat}
    {t₁ : EntryTable}
    (hscan : (scanSubtree root.id (FsPath.relativeText names) jobId
      (List.replicate n (some
        { items := itemsAt names children, failed := false })) t).1 =
      some t₁) :
    Agree root.id (FsPath.relativeText names) t₁ t' := by
  have hmem : ∀ path kind, scannedItem path kind ∈ itemsAt names children ↔
      tree.Scanned path kind ∧
        ∃ rest, path = FsPath.relativeText names ++ "/" ++ rest :=
    fun path kind => scannedItem_mem_itemsAt hdirectory hinside
  have hwrote := upsertDirectory_wrote root.id jobId t
    (FsPath.relativeText names)
  obtain ⟨row, hrow, hrowview, hrowseen⟩ :=
    upsertDirectory_view t root.id (FsPath.relativeText names) jobId
  have hself := below_ne (FsPath.relativeText names)
  have htree : ∀ item ∈ itemsAt names children, item ∈ tree.items := by
    intro item hitem
    obtain ⟨z, hz, hsame⟩ := List.mem_map.mp hitem
    exact List.mem_map.mpr
      ⟨z, ((Forest.mem_walk_below tree.distinct hinside).mp hz).1, hsame⟩
  have hstart : Rounds root jobId (itemsAt names children) t
      (LocalEntryRepo.upsertDirectoryEntry t
        { syncRootId := root.id
          relativePath := FsPath.relativeText names
          lastSeenScanId := jobId }) none
      (LocalEntryRepo.upsertDirectoryEntry t
        { syncRootId := root.id
          relativePath := FsPath.relativeText names
          lastSeenScanId := jobId }) := by
    refine ⟨?_, ?_, fun _ _ => rfl⟩
    · intro items hitems
      cases hitems
      refine ⟨[], rfl, ?_⟩
      intro rel kind hin
      cases hin
    · intro rel kind hin
      obtain ⟨-, rest, hrel⟩ := (hmem rel kind).mp hin
      refine Or.inl (hwrote.others rel ?_)
      rw [hrel]
      exact hself rest
  obtain ⟨last, hlast, hsettled, houtside⟩ :=
    subtreeRounds_settles htree hstart hscan
  have hkept : ∀ path e, EntryRepo.findEntryByPath last root.id path = some e →
      e.lastSeenScanJobId = some jobId →
      EntryRepo.findEntryByPath t₁ root.id path = some e := by
    intro path e he hseen
    rw [hlast]
    unfold LocalEntryRepo.markSubtreeEntriesNotSeenInScanDeleted
    rw [LocalEntryRepo.findEntryByPath_markDeleted, he]
    simp [LocalEntryRepo.notSeenIn, hseen]
  intro path hpath
  rcases hpath with hsame | ⟨rest, hpath⟩
  · have hout := houtside (FsPath.relativeText names) (by
      intro kind hin
      obtain ⟨-, rest, hrel⟩ := (hmem _ kind).mp hin
      exact hself rest hrel.symm)
    rw [hsame, hfull.scanned _ _ (.directory names hdirectory), rowView,
      hkept _ row (hout.trans hrow) hrowseen, Option.map_some, hrowview]
  · by_cases hscanned : ∃ kind, tree.Scanned path kind
    · obtain ⟨kind, hkind⟩ := hscanned
      obtain ⟨e, he, hview, hseen, -⟩ :=
        hsettled path kind ((hmem path kind).mpr ⟨hkind, rest, hpath⟩)
      rw [hfull.scanned path kind hkind, rowView, hkept path e he hseen,
        Option.map_some, hview]
    · have hnone : ∀ kind, ¬ tree.Scanned path kind :=
        fun kind hkind => hscanned ⟨kind, hkind⟩
      have hout := houtside path
        (fun kind hin => hnone kind ((hmem path kind).mp hin).1)
      rw [hwrote.others path (by rw [hpath]; exact hself rest)] at hout
      rw [hfull.swept path hnone, hlast, ← hout]
      refine rowView_markDeleted ?_
      intro e hold
      rw [hout] at hold
      obtain ⟨-, hroot, hrel⟩ :=
        (EntryRepo.findEntryByPath_eq_some_iff _ _ _ e).mp hold
      have hunder : LocalEntryRepo.atOrUnder e
          (FsPath.relativeText names) = true := by
        apply LocalEntryRepo.atOrUnder_of_below
        rw [hrel]
        exact Or.inr ⟨rest, hpath⟩
      have hseen : LocalEntryRepo.notSeenIn e jobId = true :=
        notSeenIn_of_lt (fun k => hfresh path e k hold)
      simp only [hroot, hunder, hseen, beq_self_eq_true, Bool.true_and,
        Bool.and_true]

/-- Where the walk meets nothing, a live row is one that a scan of the root
would have marked. -/
theorem live_disagrees (hfull : FullScan root tree t t')
    (hnone : ∀ kind, ¬ tree.Scanned rel kind) {t₁ : EntryTable}
    (hlive : Live root.id t₁ rel) : ¬ Agree root.id rel t₁ t' := by
  intro hagree
  have hsame := hagree rel (Or.inl rfl)
  rw [hfull.swept rel hnone] at hsame
  exact rowView_ne_swept hlive _ hsame

/-- Rows that nothing was done to, where the walk meets nothing. -/
theorem alreadyScanned_iff_gone
    (hnone : ∀ path, AtOrBelow rel path → ∀ kind, ¬ tree.Scanned path kind) :
    AlreadyScanned tree root.id t rel ↔
      ∀ path, AtOrBelow rel path → ¬ Live root.id t path := by
  constructor
  · intro halready path hpath
    exact (halready path hpath).2 (hnone path hpath)
  · intro hgone path hpath
    refine ⟨?_, fun _ => hgone path hpath⟩
    intro kind hscanned
    exact absurd hscanned (hnone path hpath kind)

end Cases

/-! ## Both scans -/

/-- A round that writes rows is one that succeeds. -/
theorem subtreeRounds_succeeded {rel : String}
    {rounds : List (Option DirStream)} {cursor : Option String}
    {t t' : EntryTable}
    (h : (subtreeRounds root.id rel jobId rounds cursor t).1 = some t') :
    (subtreeRounds root.id rel jobId rounds cursor t).2 = .succeeded := by
  induction rounds generalizing cursor t with
  | nil => cases h
  | cons round rounds ih =>
      cases round with
      | none => cases h
      | some listing =>
          rw [subtreeRounds] at h ⊢
          split at h
          next => cases h
          next =>
              split at h
              next => cases h
              next batch _ =>
                  split at h
                  next hrest =>
                      rw [if_pos hrest]
                      split at h
                      · cases h
                      · rename_i hok
                        rw [if_neg hok]
                  next hrest =>
                      rw [if_neg hrest]
                      split at h
                      next => cases h
                      next => exact ih h

/-- One that writes none does not succeed. -/
theorem subtreeRounds_none {rel : String}
    {rounds : List (Option DirStream)} {cursor : Option String}
    {t : EntryTable}
    (h : (subtreeRounds root.id rel jobId rounds cursor t).1 = none) :
    (subtreeRounds root.id rel jobId rounds cursor t).2 ≠ .succeeded := by
  induction rounds generalizing cursor t with
  | nil => simp [subtreeRounds]
  | cons round rounds ih =>
      cases round with
      | none => simp [subtreeRounds]
      | some listing =>
          rw [subtreeRounds] at h ⊢
          split at h
          next => simp
          next =>
              split at h
              next => simp
              next batch _ =>
                  split at h
                  next hrest =>
                      rw [if_pos hrest]
                      split at h
                      · rename_i hfailed
                        rw [if_pos hfailed]
                        simp
                      · cases h
                  next hrest =>
                      rw [if_neg hrest]
                      split at h
                      next => simp
                      next => exact ih h

/-- A call that does not succeed leaves the rows alone. -/
theorem scanPath_unchanged {cwd : FsPath} {relativePath : String}
    {found : PathState} {s : ScanState}
    (h : (scanPath cwd root relativePath found s).2 ≠ .succeeded) :
    (scanPath cwd root relativePath found s).1.entries = s.entries := by
  unfold scanPath at h ⊢
  by_cases hlocal : root.localPath.isEmpty = true
  · rw [if_pos hlocal]
  · rw [if_neg hlocal] at h ⊢
    cases hpath : pathBelowRoot cwd root.localPath relativePath with
    | none => rfl
    | some rel =>
        rw [hpath] at h
        cases found with
        | unreadable => rfl
        | missing => exact absurd rfl h
        | regularFile probe =>
            dsimp only at h ⊢
            split at h
            · rfl
            · rfl
            · exact absurd rfl h
        | directory rounds =>
            dsimp only at h ⊢
            split at h
            · rfl
            · rename_i t heq
              exact absurd (subtreeRounds_succeeded heq) h
        | other => rfl

/-- The scan of a path and a complete scan of the root, from the same rows and
over the same tree, agree at the path and below it if and only if what is found
at the path is what the walk meets there and no live row is left that the scan
of the path does not reach.  A call that fails agrees if there was nothing to
write. -/
theorem scanPath_agrees_iff {cwd : FsPath} {relativePath rel : String}
    {found : PathState} {s s₁ s' : ScanState} {batchSize : Nat}
    (hpath : pathBelowRoot cwd root.localPath relativePath = some rel)
    (hfinds : Finds tree rel found) (hjob : s.job = none)
    (hactive : s.activeScan = none) (hfresh : FreshJobIds root s)
    (hrun : Run (Continues root tree) s s₁)
    (hcomplete : Completes root tree batchSize s₁ s') :
    ((scanPath cwd root relativePath found s).2 = .succeeded ∨
        found = .other →
      (Agree root.id rel (scanPath cwd root relativePath found s).1.entries
          s'.entries ↔
        Agreeable tree root.id s.entries rel found)) ∧
    ((scanPath cwd root relativePath found s).2 ≠ .succeeded →
      (Agree root.id rel (scanPath cwd root relativePath found s).1.entries
          s'.entries ↔
        AlreadyScanned tree root.id s.entries rel)) := by
  have hfull : FullScan root tree s.entries s'.entries := by
    obtain ⟨hscanned, hswept⟩ :=
      full_scan_view hjob hactive hfresh hrun hcomplete
    exact ⟨hscanned, hswept⟩
  refine ⟨?_, ?_⟩
  · intro hcall
    by_cases hother : found = .other
    · subst hother
      have hfailed :
          (scanPath cwd root relativePath .other s).1.entries = s.entries := by
        apply scanPath_unchanged
        unfold scanPath
        split <;> simp [hpath]
      have hnone : ∀ path, AtOrBelow rel path →
          ∀ kind, ¬ tree.Scanned path kind := by
        rcases hfinds.scanned_or with ⟨_, _, _, -, -, -, h⟩ | ⟨_, _, -, -, h⟩ | h
        · cases h
        · cases h
        · exact h
      rw [hfailed, unchanged_agrees_iff hfull, alreadyScanned_iff_gone hnone]
      exact Iff.rfl
    · have hcall := hcall.resolve_right hother
      unfold scanPath at hcall ⊢
      by_cases hlocal : root.localPath.isEmpty = true
      · rw [if_pos hlocal] at hcall
        cases hcall
      · rw [if_neg hlocal] at hcall ⊢
        simp only [hpath] at hcall ⊢
        cases found with
        | unreadable => cases hcall
        | other => exact absurd rfl hother
        | missing =>
            have hnone : ∀ path, AtOrBelow rel path →
                ∀ kind, ¬ tree.Scanned path kind := by
              rcases hfinds.scanned_or with
                ⟨_, _, _, -, -, -, h⟩ | ⟨_, _, -, -, h⟩ | h
              · cases h
              · cases h
              · exact h
            exact iff_of_true (missing_agrees hfull hnone) trivial
        | regularFile probe =>
            dsimp only at hcall ⊢
            split at hcall
            next => cases hcall
            next => cases hcall
            next t₁ hstored =>
                rcases hfinds.scanned_or with
                  ⟨_, _, _, -, -, -, h⟩ | ⟨names, file, hfile, hrel, h⟩ | hnone
                · cases h
                · rw [PathState.regularFile.injEq] at h
                  subst hrel h
                  rw [file_agrees_iff hfull hfile hstored]
                  exact ⟨fun hgone => ⟨⟨file, .file names file hfile⟩, hgone⟩,
                    fun hgone => hgone.2⟩
                · have hgone := hnone rel (Or.inl rfl)
                  obtain ⟨e, he, hlive, -⟩ := handleFileEntry_live hstored
                  apply iff_of_false (live_disagrees hfull hgone ⟨e, he, hlive⟩)
                  rintro ⟨⟨file, hfile⟩, -⟩
                  exact hgone _ hfile
        | directory rounds =>
            dsimp only at hcall ⊢
            split at hcall
            next heq =>
                have hnone : (scanSubtree root.id rel s.nextJobId rounds
                    s.entries).2 ≠ .succeeded := subtreeRounds_none heq
                exact absurd hcall hnone
            next t₁ heq =>
                rcases hfinds.scanned_or with
                  ⟨names, children, n, hholds, hrel, hinside, h⟩ |
                    ⟨_, _, -, -, h⟩ | hnone
                · rw [PathState.directory.injEq] at h
                  subst hrel h
                  exact iff_of_true
                    (directory_agrees hfull hfresh hholds hinside heq)
                    (.directory names hholds)
                · cases h
                · have hgone := hnone rel (Or.inl rfl)
                  obtain ⟨e, he, hlive, hseen, -⟩ :=
                    (upsertDirectory_wrote root.id s.nextJobId s.entries
                      rel).row
                  apply iff_of_false (live_disagrees hfull hgone
                    (subtreeRounds_live ⟨e, he, hlive, hseen⟩ heq))
                  exact hgone _
  · intro hcall
    rw [scanPath_unchanged hcall]
    exact unchanged_agrees_iff hfull

/-! ## A directory that has lost a file, and one that has become a file -/

namespace SmallPath

def file : ScannedFile :=
  { size := 3, mtime := 1000000, hash := "h", fits := SmallScan.file.fits }

/-- The directory `d` with the file `d/f`. -/
def directoryTree : LocalTree where
  forest := .directory "d" (.leaf "f" (.file file) .empty) .empty
  distinct := by decide
  plain := by decide

/-- A file `d`. -/
def fileTree : LocalTree where
  forest := .leaf "d" (.file file) .empty
  distinct := by decide
  plain := by decide

def smallRoot : SyncRoot :=
  { id := "r", localPath := "/r", folderId := "", mode := .twoWay
    enabled := true }

def cwd : FsPath := FsPath.parse "/"

/-- The row of `d/g`, from an earlier scan. -/
def before : ScanState :=
  { entries := LocalEntryRepo.upsertFileEntry .empty
      { syncRootId := "r", relativePath := "d/g", size := 3, mtime := 1
        contentHash := "h", syncState := .pendingUpload, lastSeenScanId := 0 }
    job := none, nextJobId := 1, activeScan := none }

/-- What is found at `d` where it is a directory. -/
def inside : PathState :=
  .directory (List.replicate 1 (some
    { items := itemsAt ["d"] (.leaf "f" (.file file) .empty)
      failed := false }))

/-- A complete scan of the root. -/
def fullScan (tree : LocalTree) : ScanState :=
  (scanRoot smallRoot true (some tree.listing) before).1

end SmallPath

open SmallPath in
/-- The directory `d` has lost its file `d/g`. -/
theorem scanPath_agrees_small :
    Agree "r" "d" (scanPath cwd smallRoot "d" inside before).1.entries
      (fullScan directoryTree).entries := by
  refine ((@scanPath_agrees_iff smallRoot directoryTree cwd "d" "d" inside
    before before (fullScan directoryTree) kMaxScanBatchSize (by decide)
    (.directory ["d"] _ 1 (.directory _ _ _) (by decide) rfl) rfl rfl ?_ .refl
    ⟨Prod.ext rfl (by decide), by decide⟩).1 (Or.inl (by decide))).mpr
    (.directory ["d"] (.directory _ _ _))
  intro rel e k he hseen
  obtain ⟨hmem, -, -⟩ := (EntryRepo.findEntryByPath_eq_some_iff _ _ _ e).mp he
  rw [List.mem_singleton.mp hmem, LocalEntryRepo.newFile,
    Option.some.injEq] at hseen
  rw [← hseen]
  decide

open SmallPath in
/-- Where `d` has become a file, its scan leaves the row of `d/g` live, and the
scan of the root does not. -/
theorem not_scanPath_agrees :
    Finds fileTree "d" (.regularFile file.probe) ∧
    (scanPath cwd smallRoot "d" (.regularFile file.probe) before).2 =
      .succeeded ∧
    Completes smallRoot fileTree kMaxScanBatchSize before (fullScan fileTree) ∧
    ¬ Agree "r" "d"
      (scanPath cwd smallRoot "d" (.regularFile file.probe) before).1.entries
      (fullScan fileTree).entries := by
  refine ⟨.file ["d"] file (.leaf _ _ _) (by decide), by decide,
    ⟨Prod.ext rfl (by decide), by decide⟩, ?_⟩
  intro hagree
  have hbelow := hagree "d/g" (Or.inr ⟨"g", rfl⟩)
  revert hbelow
  decide

end ArkiveSync.IncrementalScan
