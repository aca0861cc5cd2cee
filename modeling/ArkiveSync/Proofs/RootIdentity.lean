import ArkiveSync.Proofs.RootConfiguration

/-!
# One directory, one root

The id of a root is a hash of the normal form of its path.  Normalising
resolves `.` and `..` and merges separators, but a path that ends like that of
a directory keeps one separator at its end.  A directory has two normal forms
therefore, and two roots if both are added.

## Main results

* `normalizeFsPath_eq_iff`: two spellings of one place have one normal form if
  they end alike.
* `run_provenance`: every root of a run was added by a path.
* `root_identity`: the spellings that have one normal form, and the runs that
  have one root for each directory.
-/

namespace ArkiveSync.RootIdentity

open Library FsPath RootConfiguration

/-- A current directory: an absolute path whose names have no separators. -/
structure CurrentPath (cwd : FsPath) : Prop where
  isAbsolute : cwd.isAbsolute = true
  plain : ∀ n ∈ cwd.names, Plain n

/-- Two spellings lead to one place when `.` and `..` are resolved. -/
def SameDirectory (cwd : FsPath) (path path' : String) : Prop :=
  (cwd.append (parse path)).loc = (cwd.append (parse path')).loc

/-- Both paths end like those of directories, or neither does; the root
directory has only one form. -/
def EndAlike (cwd : FsPath) (path path' : String) : Prop :=
  (cwd.append (parse path)).loc = [] ∨
    (parse path).endsAsDirectory = (parse path').endsAsDirectory

/-- Two spellings have one normal form, which is its own, and one root id. -/
structure OneIdentity (env : SyncServiceEnv) (path path' : String) : Prop where
  text : normalizeFsPath env.cwd path = normalizeFsPath env.cwd path'
  idempotent : ∀ text, normalizeFsPath env.cwd path = some text →
    normalizeFsPath env.cwd text = some text
  id : SyncService.rootIdOf env path = SyncService.rootIdOf env path'

variable {cwd : FsPath} {env : SyncServiceEnv} {path path' text : String}

/-! ## The normal form -/

/-- A relative path ends where the joined one does. -/
theorem endsAsDirectory_joined (hpath : (parse path).isEmpty = false) :
    (cwd.append (parse path)).endsAsDirectory =
      (parse path).endsAsDirectory := by
  unfold append
  split
  next => rfl
  next hrelative =>
      rw [Bool.or_eq_true, not_or, Bool.not_eq_true] at hrelative
      have hnames : (parse path).names ≠ [] := by
        intro hnone
        simp [isEmpty, hrelative.1, hnone] at hpath
      rw [if_neg (by simpa using hnames)]
      unfold endsAsDirectory
      rw [List.getLast?_append_of_ne_nil _ hnames]

/-- The names of a location are plain. -/
theorem plain_loc (hcwd : CurrentPath cwd) (path : String) :
    ∀ n ∈ (cwd.append (parse path)).loc, Plain n := by
  have hnames : ∀ n ∈ (cwd.append (parse path)).names, Plain n := by
    intro n hn
    unfold append at hn
    split at hn
    · exact parse_plain path n hn
    · split at hn
      · exact hcwd.plain n hn
      · rcases List.mem_append.mp hn with hn | hn
        · exact hcwd.plain n hn
        · exact parse_plain path n hn
  intro n hn
  rcases mem_foldl_pushName _ _ n hn with hnil | hin
  · cases hnil
  · exact hnames n hin

/-- The text of a normal form is read back as what it was made from. -/
theorem parse_normalized (hcwd : CurrentPath cwd)
    (h : normalizeFsPath cwd path = some text) :
    (parse path).isEmpty = false ∧
      parse text = (cwd.append (parse path)).lexicallyNormal := by
  have hjoined : (cwd.append (parse path)).isAbsolute = true :=
    append_isAbsolute _ _ hcwd.isAbsolute
  unfold normalizeFsPath at h
  split at h
  next => cases h
  next hpath =>
      cases h
      refine ⟨by simpa using hpath, ?_⟩
      refine parse_genericString (lexicallyNormal_isAbsolute _ hjoined) ?_ ?_
      · rw [lexicallyNormal_eq hjoined]
        exact plain_loc hcwd path
      · rw [lexicallyNormal_eq hjoined]
        intro htrailing hnil
        change (cwd.append (parse path)).loc = [] at hnil
        simp [hnil] at htrailing

/-- Normalising keeps the place. -/
theorem loc_normalized (hcwd : CurrentPath cwd)
    (h : normalizeFsPath cwd path = some text) :
    (parse text).loc = (cwd.append (parse path)).loc := by
  rw [(parse_normalized hcwd h).2]
  exact loc_lexicallyNormal (append_isAbsolute _ _ hcwd.isAbsolute)

/-- Normalising twice is normalising once. -/
theorem normalizeFsPath_idempotent (hcwd : CurrentPath cwd)
    (h : normalizeFsPath cwd path = some text) :
    normalizeFsPath cwd text = some text := by
  have hjoined : (cwd.append (parse path)).isAbsolute = true :=
    append_isAbsolute _ _ hcwd.isAbsolute
  obtain ⟨hpath, hparse⟩ := parse_normalized hcwd h
  have habsolute : (parse text).isAbsolute = true := by
    rw [hparse]
    exact lexicallyNormal_isAbsolute _ hjoined
  have happend : cwd.append (parse text) = parse text := by
    unfold append
    rw [habsolute, Bool.true_or, if_pos rfl]
  have hempty : ¬ (parse text).isEmpty = true := by
    simp [isEmpty, habsolute]
  unfold normalizeFsPath at h ⊢
  rw [if_neg (by rw [hpath]; decide)] at h
  rw [if_neg hempty, happend, hparse, lexicallyNormal_lexicallyNormal hjoined]
  exact h

/-- Two spellings of one place have one normal form exactly if they end
alike. -/
theorem normalizeFsPath_eq_iff (hcwd : CurrentPath cwd)
    (hpath : (parse path).isEmpty = false)
    (hpath' : (parse path').isEmpty = false)
    (hsame : SameDirectory cwd path path') :
    normalizeFsPath cwd path = normalizeFsPath cwd path' ↔
      EndAlike cwd path path' := by
  have hjoined : (cwd.append (parse path)).isAbsolute = true :=
    append_isAbsolute _ _ hcwd.isAbsolute
  have hjoined' : (cwd.append (parse path')).isAbsolute = true :=
    append_isAbsolute _ _ hcwd.isAbsolute
  have hnormal : (cwd.append (parse path)).lexicallyNormal =
        (cwd.append (parse path')).lexicallyNormal ↔
      EndAlike cwd path path' := by
    rw [lexicallyNormal_eq hjoined, lexicallyNormal_eq hjoined',
      ← show (cwd.append (parse path)).loc = _ from hsame,
      endsAsDirectory_joined hpath, endsAsDirectory_joined hpath']
    unfold EndAlike
    by_cases hroot : (cwd.append (parse path)).loc = []
    · simp [hroot]
    · have hne : (cwd.append (parse path)).loc.isEmpty = false := by
        simpa using hroot
      simp [hne, hroot]
  have htext : ∀ {s : String}, (parse s).isEmpty = false →
      normalizeFsPath cwd s =
        some (cwd.append (parse s)).lexicallyNormal.genericString := by
    intro s hs
    unfold normalizeFsPath
    rw [if_neg (by rw [hs]; decide)]
  rw [← hnormal]
  constructor
  · intro heq
    have hread := (parse_normalized hcwd (htext hpath)).2
    have hread' := (parse_normalized hcwd (htext hpath')).2
    rw [htext hpath, htext hpath', Option.some.injEq] at heq
    rw [← hread, ← hread', heq]
  · intro heq
    rw [htext hpath, htext hpath', heq]

/-! ## Runs -/

/-- The paths that a run adds. -/
def addedPaths (events : List Event) : List String :=
  events.filterMap (fun event =>
    match event with
    | .add _ localPath _ _ _ => some localPath
    | _ => none)

/-- No two rows lead to one place. -/
def OneRootEach (roots : List SyncRoot) : Prop :=
  (roots.map (fun root => (parse root.localPath).loc)).Nodup

/-- The row has the normal form and the id of one of the paths. -/
def AddedBy (env : SyncServiceEnv) (paths : List String) (root : SyncRoot) :
    Prop :=
  ∃ path ∈ paths, normalizeFsPath env.cwd path = some root.localPath ∧
    SyncService.rootIdOf env path = some root.id

/-- What a run from an empty table keeps: rows with different ids, and rows and
answers under way that belong to paths that were added. -/
structure Traced (env : SyncServiceEnv) (paths : List String) (s : State) :
    Prop where
  ids : (s.roots.map SyncRoot.id).Nodup
  roots : ∀ root ∈ s.roots, AddedBy env paths root
  waiting : ∀ root ∈ s.waiting, AddedBy env paths root

theorem nodup_upsert {roots : List SyncRoot} (input : SyncRoot)
    (h : (roots.map SyncRoot.id).Nodup) :
    ((SyncRepo.upsertSyncRoot roots input).map SyncRoot.id).Nodup := by
  unfold SyncRepo.upsertSyncRoot
  by_cases hany : roots.any (fun r => r.id == input.id) = true
  · rw [if_pos hany, List.map_map]
    have hids : roots.map (SyncRoot.id ∘ fun r =>
        if r.id == input.id then input else r) = roots.map SyncRoot.id := by
      refine List.map_congr_left ?_
      intro r _
      rw [Function.comp_apply]
      split
      next hid => exact (beq_iff_eq.mp hid).symm
      next => rfl
    rw [hids]
    exact h
  · rw [if_neg hany, List.map_append, List.nodup_append]
    refine ⟨h, List.nodup_singleton _, ?_⟩
    intro id hid id' hid' heq
    rw [List.map_singleton, List.mem_singleton] at hid'
    obtain ⟨r, hr, hrid⟩ := List.mem_map.mp hid
    refine hany (List.any_eq_true.mpr ⟨r, hr, ?_⟩)
    rw [beq_iff_eq, hrid, heq, hid']

/-- An upsert of a row that belongs to an added path. -/
theorem Traced.upsert {paths : List String} {s : State} {input : SyncRoot}
    (h : Traced env paths s) (hinput : AddedBy env paths input)
    {waiting : List SyncRoot} (hwaiting : ∀ root ∈ waiting, root ∈ s.waiting) :
    Traced env paths
      { roots := SyncRepo.upsertSyncRoot s.roots input, waiting := waiting } where
  ids := nodup_upsert input h.ids
  roots root hroot := by
    rcases SyncRepo.mem_upsertSyncRoot hroot with hold | rfl
    · exact h.roots root hold
    · exact hinput
  waiting root hroot := h.waiting root (hwaiting root hroot)

/-- Disabling keeps ids and paths. -/
theorem Traced.disable {paths : List String} {s : State} (syncRootId : String)
    (h : Traced env paths s) :
    Traced env paths
      { s with roots := SyncRepo.disableSyncRoot s.roots syncRootId } where
  ids := by
    have hids : (SyncRepo.disableSyncRoot s.roots syncRootId).map
        SyncRoot.id = s.roots.map SyncRoot.id := by
      unfold SyncRepo.disableSyncRoot
      rw [List.map_map]
      refine List.map_congr_left ?_
      intro r _
      rw [Function.comp_apply]
      split <;> rfl
    rw [hids]
    exact h.ids
  roots root hroot := by
    unfold SyncRepo.disableSyncRoot at hroot
    obtain ⟨r, hr, rfl⟩ := List.mem_map.mp hroot
    split
    · exact h.roots r hr
    · exact h.roots r hr
  waiting := h.waiting

/-- One event keeps it, when its path is among the added ones. -/
theorem Traced.step {paths : List String} {s : State} (h : Traced env paths s)
    (event : Event) (hadded : ∀ path ∈ addedPaths [event], path ∈ paths) :
    Traced env paths (step env s event) := by
  cases event with
  | add disk localPath folderId enabled mode =>
      cases hadd : SyncService.addSyncRoot env disk s.roots localPath folderId
          (enabled.getD true) (mode.getD .twoWay) with
      | none =>
          simp only [RootConfiguration.step, hadd]
          exact h
      | some result =>
          obtain ⟨roots, input⟩ := result
          simp only [RootConfiguration.step, hadd]
          obtain ⟨hnorm, -, hid, -, -, rfl⟩ := SyncService.addSyncRoot_some hadd
          exact h.upsert
            ⟨localPath, hadded localPath (by simp [addedPaths]), hnorm, hid⟩
            (fun _ hroot => hroot)
  | remove syncRootId =>
      cases hfind : SyncRepo.findSyncRootById s.roots syncRootId with
      | none =>
          simp only [RootConfiguration.step, SyncService.removeSyncRoot, hfind]
          exact h
      | some _ =>
          simp only [RootConfiguration.step, SyncService.removeSyncRoot, hfind]
          exact h.disable syncRootId
  | remoteDeleted syncRootId => exact h.disable syncRootId
  | startFolder syncRootId =>
      cases hstart : FolderCreateWorker.startRootFolder env.cwd syncRootId
          s.roots with
      | none =>
          simp only [RootConfiguration.step, hstart]
          exact h
      | some result =>
          obtain ⟨read, name⟩ := result
          simp only [RootConfiguration.step, hstart]
          have hread : read ∈ s.roots := by
            unfold FolderCreateWorker.startRootFolder at hstart
            cases hfind : SyncRepo.findSyncRootById s.roots syncRootId with
            | none =>
                rw [hfind] at hstart
                cases hstart
            | some root =>
                rw [hfind] at hstart
                dsimp only at hstart
                split at hstart
                next => cases hstart
                next =>
                    split at hstart
                    next => cases hstart
                    next =>
                        cases hstart
                        exact List.mem_of_find?_eq_some hfind
          refine ⟨h.ids, h.roots, ?_⟩
          intro root hroot
          rcases List.mem_append.mp hroot with hold | hnew
          · exact h.waiting root hold
          · rw [List.mem_singleton.mp hnew]
            exact h.roots read hread
  | finishFolder index created =>
      cases hread : s.waiting[index]? with
      | none =>
          simp only [RootConfiguration.step, hread]
          exact h
      | some read =>
          simp only [RootConfiguration.step, hread]
          have hkept : ∀ root ∈ s.waiting.eraseIdx index, root ∈ s.waiting :=
            fun root hroot => List.mem_of_mem_eraseIdx hroot
          cases created with
          | none =>
              exact ⟨h.ids, h.roots,
                fun root hroot => h.waiting root (hkept root hroot)⟩
          | some id =>
              refine h.upsert ?_ hkept
              exact h.waiting read (List.mem_of_getElem? hread)

/-- Every row of a run belongs to a path that the run has added. -/
theorem run_provenance (env : SyncServiceEnv) {paths : List String}
    (events : List Event) :
    ∀ {s : State}, Traced env paths s →
      (∀ path ∈ addedPaths events, path ∈ paths) →
      Traced env paths (run env s events) := by
  induction events with
  | nil =>
      intro s h _
      exact h
  | cons event rest ih =>
      intro s h hadded
      have hsplit : addedPaths (event :: rest) =
          addedPaths [event] ++ addedPaths rest :=
        List.filterMap_append (l := [event])
      rw [hsplit] at hadded
      exact ih
        (h.step event (fun path hpath =>
          hadded path (List.mem_append_left _ hpath)))
        (fun path hpath => hadded path (List.mem_append_right _ hpath))

/-- Rows of paths that end alike have different places. -/
theorem Traced.oneRootEach {paths : List String} {s : State}
    (hcwd : CurrentPath env.cwd) (h : Traced env paths s)
    (halike : ∀ path ∈ paths, ∀ path' ∈ paths,
      SameDirectory env.cwd path path' → EndAlike env.cwd path path') :
    OneRootEach s.roots := by
  have hids := h.ids
  have hroots := h.roots
  unfold OneRootEach
  rw [List.Nodup, List.pairwise_map] at hids ⊢
  refine hids.imp_of_mem ?_
  intro root root' hroot hroot' hdiffer hplace
  obtain ⟨path, hpath, htext, hid⟩ := hroots root hroot
  obtain ⟨path', hpath', htext', hid'⟩ := hroots root' hroot'
  rw [loc_normalized hcwd htext, loc_normalized hcwd htext'] at hplace
  have heq := (normalizeFsPath_eq_iff hcwd (parse_normalized hcwd htext).1
    (parse_normalized hcwd htext').1 hplace).mpr
      (halike path hpath path' hpath' hplace)
  unfold SyncService.rootIdOf at hid hid'
  rw [heq, hid', Option.some.injEq] at hid
  exact hdiffer hid.symm

/-- Two spellings of one directory have one identity exactly if they end alike;
and in every run whose paths of one directory end alike, no directory has two
roots. -/
theorem root_identity (hcwd : CurrentPath env.cwd) :
    (∀ path path', (parse path).isEmpty = false →
      (parse path').isEmpty = false → SameDirectory env.cwd path path' →
      (OneIdentity env path path' ↔ EndAlike env.cwd path path')) ∧
    ∀ events,
      (∀ path ∈ addedPaths events, ∀ path' ∈ addedPaths events,
        SameDirectory env.cwd path path' → EndAlike env.cwd path path') →
      OneRootEach (run env { roots := [], waiting := [] } events).roots := by
  constructor
  · intro path path' hpath hpath' hsame
    have hiff := normalizeFsPath_eq_iff hcwd hpath hpath' hsame
    constructor
    · intro h
      exact hiff.mp h.text
    · intro halike
      have htext := hiff.mpr halike
      refine ⟨htext, fun text => normalizeFsPath_idempotent hcwd, ?_⟩
      unfold SyncService.rootIdOf
      rw [htext]
  · intro events halike
    have hempty : Traced env (addedPaths events)
        { roots := [], waiting := [] } := by
      refine ⟨List.nodup_nil, ?_, ?_⟩
      · intro root hroot
        cases hroot
      · intro root hroot
        cases hroot
    exact (run_provenance env events hempty
      (fun _ hpath => hpath)).oneRootEach hcwd halike

/-! ## A separator at the end -/

/-- A process whose current directory is `/`. -/
def atTop : SyncServiceEnv :=
  { cwd := { isAbsolute := true, names := [], trailing := false }
    sha256HashHex := fun text => text }

theorem atTop_current : CurrentPath atTop.cwd where
  isAbsolute := rfl
  plain n hn := by cases hn

/-- A disk with the directory `/r`. -/
def diskWithRoot : Disk :=
  (FileTree.empty.makeDirectories ["r"]).getD FileTree.empty

/-- The directory is added by these paths. -/
def additions (paths : List String) : List Event :=
  paths.map (fun path => .add diskWithRoot path none none none)

/-- Repeated separators and resolved dots leave one root. -/
theorem redundant_oneRoot :
    OneIdentity atTop "/r" "//./x//../r" ∧
      OneRootEach (run atTop { roots := [], waiting := [] }
        (additions ["/r", "//./x//../r"])).roots := by
  have hboth := root_identity atTop_current
  have halike : ∀ path ∈ addedPaths (additions ["/r", "//./x//../r"]),
      ∀ path' ∈ addedPaths (additions ["/r", "//./x//../r"]),
        EndAlike atTop.cwd path path' := by
    intro path hpath path' hpath'
    have hcases : ∀ s ∈ addedPaths (additions ["/r", "//./x//../r"]),
        (parse s).endsAsDirectory = false := by
      decide
    exact Or.inr ((hcases path hpath).trans (hcases path' hpath').symm)
  refine ⟨(hboth.1 "/r" "//./x//../r" (by decide) (by decide) ?_).mpr
    (Or.inr (by decide)), hboth.2 _ (fun path hpath path' hpath' _ =>
      halike path hpath path' hpath')⟩
  show (atTop.cwd.append (parse "/r")).loc =
    (atTop.cwd.append (parse "//./x//../r")).loc
  decide

/-- A separator at the end makes another normal form, and a second root. -/
theorem trailing_twoRoots :
    (¬ ∀ (env : SyncServiceEnv) (path path' : String), CurrentPath env.cwd →
      (parse path).isEmpty = false → (parse path').isEmpty = false →
      SameDirectory env.cwd path path' → OneIdentity env path path') ∧
    ¬ ∀ (env : SyncServiceEnv) (events : List Event), CurrentPath env.cwd →
      OneRootEach (run env { roots := [], waiting := [] } events).roots := by
  constructor
  · intro h
    have hidentity := h atTop "/r" "/r/" atTop_current (by decide) (by decide)
      (by
        show (atTop.cwd.append (parse "/r")).loc =
          (atTop.cwd.append (parse "/r/")).loc
        decide)
    exact absurd hidentity.text (by decide)
  · intro h
    have hroots := h atTop (additions ["/r", "/r/"]) atTop_current
    have hplaces : (run atTop { roots := [], waiting := [] }
        (additions ["/r", "/r/"])).roots.map
          (fun root => (parse root.localPath).loc) = [["r"], ["r"]] := by
      decide
    unfold OneRootEach at hroots
    rw [hplaces] at hroots
    exact absurd hroots (by decide)

end ArkiveSync.RootIdentity
