import ArkiveSync.Model.PollingDaemon

/-!
# Recording the events of the watcher

`DirtyPathRepo::record` turns an event of the file watcher into dirty paths of
its root.  It is the only place that looks whether a path is that of a temporary
file of the atomic writer; an event for such a path, or away from one, leaves
nothing behind.

## Main results

* `toRelativePath_ends`: the dirty path of an event ends in the name of the
  event's path.
* `toRelativePath_inside`: a path below the root has a dirty path, which leads
  back to it.
* `pathBelowRoot_of_below`: a scan of it is a scan of just that path.
-/

namespace ArkiveSync

open Library

/-- `FileEventType`. -/
inductive FileEventType where
  | created
  | modified
  | deleted
  | movedFrom
  | movedTo
  | renamed
  | attributeChanged
  | overflow
  | unknown
  deriving DecidableEq, Repr

/-- `FileEvent`. -/
structure FileEvent where
  rootId : String
  type : FileEventType
  path : String
  oldPath : Option String := none
  deriving DecidableEq, Repr

namespace DirtyPathRepo

/-- The name ends with `.tmp` and contains `.arkive-`. -/
def isArkiveTempName (name : String) : Bool :=
  (".tmp").toList.isSuffixOf name.toList &&
    name.toList.tails.any (fun rest => (".arkive-").toList.isPrefixOf rest)

/-- `isArkiveTempPath`. -/
def isArkiveTempPath (path : FsPath) : Bool :=
  isArkiveTempName path.filename

/-- `toRelativePath`; the outer `none` is the exception for an empty path, the
inner one a path outside the root. -/
def toRelativePath (cwd : FsPath) (localPath path : String) :
    Option (Option String) :=
  if (FsPath.parse path).isEmpty || (FsPath.parse localPath).isEmpty then none
  else
    let normalizedPath := (cwd.append (FsPath.parse path)).lexicallyNormal
    let normalizedRoot := (cwd.append (FsPath.parse localPath)).lexicallyNormal
    let names := FsPath.lexicallyRelative normalizedPath.loc normalizedRoot.loc
    if names.isEmpty then some (some "")
    else if FsPath.acceptsRelative names then
      some (some (FsPath.genericString
        { isAbsolute := false, names := names
          trailing := normalizedPath.trailing }))
    else some none

/-- `insertScan` and `insertDelete`; the flag is false when they throw. -/
def insertPath (cwd : FsPath) (root : SyncRoot) (path : String)
    (action : DirtyPathEventType) (ps : List DirtyPath) :
    List DirtyPath × Bool :=
  match toRelativePath cwd root.localPath path with
  | none => (ps, false)
  | some none => (ps, true)
  | some (some relativePath) =>
      (insertDirtyPath ps root.id (some relativePath) action, true)

/-- `insertFullRescan`. -/
def insertFullRescan (ps : List DirtyPath) (syncRootId : String) :
    List DirtyPath :=
  insertDirtyPath ps syncRootId none .fullRescan

/-- The `switch` at the end of `record`. -/
def recordFor (cwd : FsPath) (root : SyncRoot) (event : FileEvent)
    (ps : List DirtyPath) : List DirtyPath × Bool :=
  match event.type with
  | .created | .modified | .attributeChanged | .movedTo =>
      insertPath cwd root event.path .scan ps
  | .deleted | .movedFrom => insertPath cwd root event.path .delete ps
  | .renamed =>
      match event.oldPath with
      | none => insertPath cwd root event.path .scan ps
      | some oldPath =>
          let first := insertPath cwd root oldPath .delete ps
          if first.2 then insertPath cwd root event.path .scan first.1
          else first
  | .overflow | .unknown => (ps, true)

/-- `record`: the dirty paths afterwards, and whether it returned. -/
def record (cwd : FsPath) (roots : List SyncRoot) (event : FileEvent)
    (ps : List DirtyPath) : List DirtyPath × Bool :=
  match event.type with
  | .unknown => (ps, true)
  | .overflow =>
      (roots.foldl (fun ps root => insertFullRescan ps root.id) ps, true)
  | _ =>
      match SyncRepo.findSyncRootById roots event.rootId with
      | none => (ps, true)
      | some root =>
          if isArkiveTempPath (FsPath.parse event.path) ||
              event.oldPath.any (fun oldPath =>
                isArkiveTempPath (FsPath.parse oldPath)) then
            (ps, true)
          else recordFor cwd root event ps

/-! ## The path of an event -/

/-- The path ends in the name of a file, as those of the watchers do. -/
def EndsInName (path name : String) : Prop :=
  (FsPath.parse path).trailing = false ∧
    (FsPath.parse path).names.getLast? = some name ∧ FsPath.Proper name

/-- A path below a root, made of plain and proper names. -/
structure PathBelow (rel : String) (name : String) : Prop where
  text : ∃ ns, rel = FsPath.relativeText (ns ++ [name]) ∧
    ∀ m ∈ ns ++ [name], FsPath.Plain m ∧ FsPath.Proper m

/-- The dirty path of an event ends in the name of its path. -/
theorem toRelativePath_ends {cwdText localPath path name rel : String}
    (hcwd : (FsPath.parse cwdText).isAbsolute = true)
    (hpath : EndsInName path name)
    (h : toRelativePath (FsPath.parse cwdText) localPath path =
      some (some rel)) : PathBelow rel name := by
  obtain ⟨htrail, hlast, hname⟩ := hpath
  obtain ⟨front, hfront⟩ := List.getLast?_eq_some_iff.mp hlast
  let whole := (FsPath.parse cwdText).append (FsPath.parse path)
  have habs : whole.isAbsolute = true := FsPath.append_isAbsolute _ _ hcwd
  have hends : (∃ ns, whole.names = ns ++ [name]) ∧ whole.trailing = false ∧
      ∀ m ∈ whole.names, FsPath.Plain m := by
    have hplain := FsPath.parse_plain path
    have hplainCwd := FsPath.parse_plain cwdText
    show (∃ ns, ((FsPath.parse cwdText).append (FsPath.parse path)).names =
        ns ++ [name]) ∧ ((FsPath.parse cwdText).append
          (FsPath.parse path)).trailing = false ∧
      ∀ m ∈ ((FsPath.parse cwdText).append (FsPath.parse path)).names,
        FsPath.Plain m
    unfold FsPath.append
    split
    next => exact ⟨⟨front, hfront⟩, htrail, hplain⟩
    next =>
        have hne : (FsPath.parse path).names.isEmpty = false := by
          simp [hfront]
        rw [hne]
        refine ⟨⟨(FsPath.parse cwdText).names ++ front, ?_⟩, htrail, ?_⟩
        · simp [hfront]
        · intro m hm
          rcases List.mem_append.mp hm with hm | hm
          · exact hplainCwd m hm
          · exact hplain m hm
  obtain ⟨⟨ns, hns⟩, hnotrail, hplain⟩ := hends
  obtain ⟨⟨ms, hms⟩, hnormal⟩ :=
    FsPath.lexicallyNormal_ends habs hns hnotrail hname
  have hloc := FsPath.loc_lexicallyNormal habs
  unfold toRelativePath at h
  split at h
  next => cases h
  next =>
      dsimp only at h
      generalize ((FsPath.parse cwdText).append
        (FsPath.parse localPath)).lexicallyNormal.loc = base at h
      rw [hloc, hnormal] at h
      split at h
      next hempty =>
          have hnil := List.isEmpty_iff.mp hempty
          exact absurd hnil (FsPath.lexicallyRelative_ne_nil base whole.loc)
      next =>
          split at h
          next haccepts =>
              have hbelow := (FsPath.relative_accepted_iff base whole.loc
                (FsPath.loc_proper whole)).mp haccepts
              obtain ⟨⟨ks, hks⟩, hproperly⟩ := hbelow
              have hne : ks ≠ [] := by
                intro hnil
                rw [hnil, List.append_nil] at hks
                exact hproperly hks
              rw [← hks, FsPath.lexicallyRelative_append hne] at h
              obtain ⟨front', last, hlast'⟩ :=
                (List.eq_nil_or_concat ks).resolve_left hne
              rw [List.concat_eq_append] at hlast'
              have hname' : last = name := by
                rw [hms, hlast', ← List.append_assoc] at hks
                exact List.singleton_inj.mp (List.append_inj' hks rfl).2
              rw [hname'] at hlast'
              rw [hlast'] at h
              refine ⟨front', (Option.some.inj (Option.some.inj h)).symm, ?_⟩
              intro m hm
              have hin : m ∈ whole.loc := by
                rw [← hks, hlast']
                exact List.mem_append_right base hm
              refine ⟨?_, FsPath.loc_proper whole m hin⟩
              rcases FsPath.mem_foldl_pushName whole.names [] m hin with
                hnone | hsome
              · cases hnone
              · exact hplain m hsome
          next => cases h

/-- The path lies below that of the root. -/
structure Inside (cwd : FsPath) (root : SyncRoot) (path : String) : Prop where
  named : (FsPath.parse path).isEmpty = false
  rooted : (FsPath.parse root.localPath).isEmpty = false
  below : StrictlyBelow (cwd.append (FsPath.parse root.localPath)).loc
    (cwd.append (FsPath.parse path)).loc

/-- A path below the root has a relative path, which leads back to it. -/
theorem toRelativePath_inside {cwdText : String} {root : SyncRoot}
    {path : String} (hcwd : (FsPath.parse cwdText).isAbsolute = true)
    (h : Inside (FsPath.parse cwdText) root path) :
    ∃ rel, toRelativePath (FsPath.parse cwdText) root.localPath path =
        some (some rel) ∧
      (((FsPath.parse cwdText).append (FsPath.parse root.localPath)).append
        (FsPath.parse rel)).loc =
          ((FsPath.parse cwdText).append (FsPath.parse path)).loc := by
  obtain ⟨hpath, hroot, hbelow⟩ := h
  have habsRoot := FsPath.append_isAbsolute (FsPath.parse cwdText)
    (FsPath.parse root.localPath) hcwd
  have habs := FsPath.append_isAbsolute (FsPath.parse cwdText)
    (FsPath.parse path) hcwd
  have hplain : ∀ m ∈ ((FsPath.parse cwdText).append
      (FsPath.parse path)).names, FsPath.Plain m := by
    intro m hm
    unfold FsPath.append at hm
    split at hm
    · exact FsPath.parse_plain path m hm
    · split at hm
      · exact FsPath.parse_plain cwdText m hm
      · rcases List.mem_append.mp hm with hold | hnew
        · exact FsPath.parse_plain cwdText m hold
        · exact FsPath.parse_plain path m hnew
  unfold toRelativePath
  rw [if_neg (by simp [hpath, hroot])]
  dsimp only
  rw [FsPath.loc_lexicallyNormal habs, FsPath.loc_lexicallyNormal habsRoot]
  generalize hwhole : (FsPath.parse cwdText).append (FsPath.parse path) =
    whole at *
  generalize (FsPath.parse cwdText).append (FsPath.parse root.localPath) =
    base at *
  have haccepts := (FsPath.relative_accepted_iff base.loc whole.loc
    (FsPath.loc_proper whole)).mpr hbelow
  obtain ⟨⟨ks, hks⟩, hproperly⟩ := hbelow
  have hne : ks ≠ [] := by
    intro hnil
    rw [hnil, List.append_nil] at hks
    exact hproperly hks
  have hnames : FsPath.lexicallyRelative whole.loc base.loc = ks := by
    rw [← hks, FsPath.lexicallyRelative_append hne]
  rw [hnames] at haccepts ⊢
  have hksPlain : ∀ m ∈ ks, FsPath.Plain m := by
    intro m hm
    have hin : m ∈ whole.loc := hks ▸ List.mem_append_right base.loc hm
    rcases FsPath.mem_foldl_pushName whole.names [] m hin with hnone | hsome
    · cases hnone
    · exact hplain m hsome
  have hksProper : ∀ m ∈ ks, FsPath.Proper m := by
    intro m hm
    exact FsPath.loc_proper whole m (hks ▸ List.mem_append_right base.loc hm)
  rw [if_neg (by simpa using hne), if_pos haccepts]
  refine ⟨_, rfl, ?_⟩
  rw [FsPath.parse_genericString_relative hne hksPlain,
    FsPath.loc_append base _ habsRoot rfl]
  show ks.foldl (FsPath.pushName true) base.loc = whole.loc
  rw [FsPath.foldl_pushName_of_proper ks hksProper, hks]

/-- A scan of a path below a root is a scan of just that path. -/
theorem pathBelowRoot_of_below {cwd : FsPath} {localPath rel name : String}
    (hcwd : cwd.isAbsolute = true) (h : PathBelow rel name) :
    RootScanner.pathBelowRoot cwd localPath rel = some rel := by
  obtain ⟨ns, hrel, hns⟩ := h.text
  have hroot := FsPath.append_isAbsolute cwd (FsPath.parse localPath) hcwd
  have hread := FsPath.parse_relativeText (fun m hm => (hns m hm).1)
  have hne : ns ++ [name] ≠ [] := by simp
  unfold RootScanner.pathBelowRoot
  dsimp only
  generalize cwd.append (FsPath.parse localPath) = root at hroot ⊢
  have habs := FsPath.append_isAbsolute root (FsPath.parse rel) hroot
  have hloc : (root.append (FsPath.parse rel)).loc =
      root.loc ++ (ns ++ [name]) := by
    rw [hrel, hread, FsPath.loc_append root _ hroot rfl]
    exact FsPath.foldl_pushName_of_proper _ (fun m hm => (hns m hm).2) root.loc
  have htrail : (root.append (FsPath.parse rel)).lexicallyNormal.trailing =
      false := by
    have hempty : root.isEmpty = false := by simp [FsPath.isEmpty, hroot]
    have happend : root.append (FsPath.parse rel) =
        { isAbsolute := root.isAbsolute, names := root.names ++ (ns ++ [name])
          trailing := false } := by
      rw [hrel, hread]
      simp [FsPath.append, hempty]
    have hnames : (root.append (FsPath.parse rel)).names =
        (root.names ++ ns) ++ [name] := by
      simp [happend]
    exact (FsPath.lexicallyNormal_ends habs hnames (by rw [happend])
      (hns name (by simp)).2).2
  have haccepts : FsPath.acceptsRelative (ns ++ [name]) = true := by
    have hbelow : StrictlyBelow root.loc (root.loc ++ (ns ++ [name])) := by
      refine ⟨List.prefix_append _ _, ?_⟩
      intro heq
      exact hne (List.self_eq_append_right.mp heq)
    have hproper : ∀ m ∈ root.loc ++ (ns ++ [name]), FsPath.Proper m := by
      intro m hm
      rcases List.mem_append.mp hm with hm | hm
      · exact FsPath.loc_proper root m hm
      · exact (hns m hm).2
    have hiff := (FsPath.relative_accepted_iff root.loc _ hproper).mpr hbelow
    rwa [FsPath.lexicallyRelative_append hne] at hiff
  rw [FsPath.loc_lexicallyNormal habs, hloc,
    FsPath.lexicallyRelative_append hne, if_pos haccepts, htrail, hrel]
  rfl

/-- The file name of a path below a root. -/
theorem PathBelow.filename {rel name : String} (h : PathBelow rel name) :
    (FsPath.parse rel).filename = name := by
  obtain ⟨ns, hrel, hns⟩ := h.text
  rw [hrel]
  exact FsPath.filename_relativeText (fun m hm => (hns m hm).1)

end DirtyPathRepo

end ArkiveSync
