import ArkiveSync.Model.DirtyPathRuns

/-!
# Coalesced events

Whatever order recording, claiming and marking come in, a path that an event
names has a pending row from then on, until a row of it is claimed.  `record`
passes over an event of unknown type.
-/

namespace ArkiveSync

open Library

/-- The paths that an event names: both sides of a rename, else the path. -/
def FileEvent.paths (event : FileEvent) : List String :=
  match event.type with
  | .renamed => event.oldPath.toList ++ [event.path]
  | _ => [event.path]

namespace DirtyPathRepo

/-- An event about paths below a known root that are not temporary. -/
structure Relevant (cwd : FsPath) (roots : List SyncRoot) (event : FileEvent)
    (root : SyncRoot) : Prop where
  known : SyncRepo.findSyncRootById roots event.rootId = some root
  inside : ∀ path ∈ event.paths, Inside cwd root path
  notTemp : ∀ path ∈ event.path :: event.oldPath.toList,
    isArkiveTempPath (FsPath.parse path) = false

/-- The row stands for this path of the root. -/
def IsRowFor (cwd : FsPath) (root : SyncRoot) (path : String) (d : DirtyPath) :
    Prop :=
  d.syncRootId = root.id ∧ ∃ rel, d.relativePath = some rel ∧
    ((cwd.append (FsPath.parse root.localPath)).append
      (FsPath.parse rel)).loc = (cwd.append (FsPath.parse path)).loc

/-- The row is a full rescan of the root. -/
def IsFullRescan (root : SyncRoot) (d : DirtyPath) : Prop :=
  d.syncRootId = root.id ∧ d.relativePath = none ∧ d.eventType = .fullRescan

/-- At `t` there is a pending or failed row of the kind, or one has been claimed
after `s`. -/
def Kept (kind : DirtyPath → Prop) (s t : Queue) : Prop :=
  (∃ d ∈ t.rows, kind d ∧ (d.status = .pending ∨ d.status = .failed)) ∨
    ∃ d ∈ t.claims.drop s.claims.length, kind d

/-- `record` at `s`. -/
def Queue.recorded (s : Queue) (cwd : FsPath) (roots : List SyncRoot)
    (event : FileEvent) : Queue :=
  { s with rows := (record cwd roots event s.rows).1 }

/-! ## What recording leaves waiting -/

section Recording

variable {cwdText : String} {root : SyncRoot} {c : List DirtyPath}

/-- The pending rows of a table. -/
abbrev waitingIn (c ps : List DirtyPath) : Set (String × Option String) :=
  (Queue.mailbox { rows := ps, claims := c }).waiting

/-- An insert for a path below the root returns and leaves a row for it. -/
theorem waiting_insertPath {path : String}
    (hcwd : (FsPath.parse cwdText).isAbsolute = true)
    (h : Inside (FsPath.parse cwdText) root path)
    (action : DirtyPathEventType) (ps : List DirtyPath) :
    (insertPath (FsPath.parse cwdText) root path action ps).2 = true ∧
      ∃ rel, (root.id, some rel) ∈ waitingIn c
          (insertPath (FsPath.parse cwdText) root path action ps).1 ∧
        (((FsPath.parse cwdText).append (FsPath.parse root.localPath)).append
          (FsPath.parse rel)).loc =
            ((FsPath.parse cwdText).append (FsPath.parse path)).loc := by
  obtain ⟨rel, hrel, hloc⟩ := toRelativePath_inside hcwd h
  unfold insertPath
  rw [hrel]
  refine ⟨rfl, rel, ?_, hloc⟩
  exact waiting_insert root.id (fun hnone => by cases hnone)

/-- What waits goes on waiting through the inserts of an event. -/
theorem waiting_inserts {ps ps' : List DirtyPath} {k : String × Option String}
    (h : Run InsertStep ps ps') (hk : k ∈ waitingIn c ps) :
    k ∈ waitingIn c ps' :=
  (waiting_grows c k).run h hk

/-- Every path that the event names has a pending row. -/
theorem waiting_recordFor {event : FileEvent} {path : String}
    (hcwd : (FsPath.parse cwdText).isAbsolute = true)
    (hinside : ∀ p ∈ event.paths, Inside (FsPath.parse cwdText) root p)
    (htype : event.type ≠ .overflow ∧ event.type ≠ .unknown)
    (hpath : path ∈ event.paths) (ps : List DirtyPath) :
    ∃ rel, (root.id, some rel) ∈ waitingIn c
        (recordFor (FsPath.parse cwdText) root event ps).1 ∧
      (((FsPath.parse cwdText).append (FsPath.parse root.localPath)).append
        (FsPath.parse rel)).loc =
          ((FsPath.parse cwdText).append (FsPath.parse path)).loc := by
  have hhere := hinside path hpath
  unfold FileEvent.paths at hpath hinside
  unfold recordFor
  cases hkind : event.type with
  | overflow => exact absurd hkind htype.1
  | unknown => exact absurd hkind htype.2
  | renamed =>
      rw [hkind] at hpath hinside
      dsimp only at hpath hinside ⊢
      cases hold : event.oldPath with
      | none =>
          rw [hold] at hpath
          rw [List.mem_singleton.mp hpath] at hhere ⊢
          exact (waiting_insertPath hcwd hhere _ ps).2
      | some oldPath =>
          rw [hold] at hpath hinside
          have hoff := hinside oldPath (by simp)
          obtain ⟨hreturns, hfirst⟩ :=
            waiting_insertPath (c := c) hcwd hoff .delete ps
          dsimp only
          rw [if_pos hreturns]
          rcases List.mem_append.mp hpath with hleft | hright
          · rw [List.mem_singleton.mp hleft]
            obtain ⟨rel, hwaits, hloc⟩ := hfirst
            refine ⟨rel, ?_, hloc⟩
            exact waiting_inserts (inserts_insertPath _ _ _ _ _) hwaits
          · rw [List.mem_singleton.mp hright] at hhere ⊢
            exact (waiting_insertPath hcwd hhere .scan _).2
  | _ =>
      rw [hkind] at hpath
      rw [List.mem_singleton.mp hpath] at hhere ⊢
      exact (waiting_insertPath hcwd hhere _ ps).2

theorem record_relevant {cwd : FsPath} {roots : List SyncRoot}
    {event : FileEvent} (h : Relevant cwd roots event root)
    (htype : event.type ≠ .overflow ∧ event.type ≠ .unknown)
    (ps : List DirtyPath) :
    record cwd roots event ps = recordFor cwd root event ps := by
  have htemp : ¬ (isArkiveTempPath (FsPath.parse event.path) ||
      event.oldPath.any (fun oldPath =>
        isArkiveTempPath (FsPath.parse oldPath))) = true := by
    have hpath := h.notTemp event.path (by simp)
    have hold : event.oldPath.any (fun oldPath =>
        isArkiveTempPath (FsPath.parse oldPath)) = false := by
      cases hoption : event.oldPath with
      | none => rfl
      | some oldPath => exact h.notTemp oldPath (by simp [hoption])
    rw [hpath, hold]
    decide
  unfold record
  split
  next hunknown => exact absurd hunknown htype.2
  next hoverflow => exact absurd hoverflow htype.1
  next =>
      rw [h.known]
      dsimp only
      rw [if_neg htemp]

/-- A full rescan of each root waits after the inserts of an overflow. -/
theorem waiting_fullRescans {roots : List SyncRoot} (hroot : root ∈ roots)
    (ps : List DirtyPath) :
    (root.id, none) ∈ waitingIn c
      (roots.foldl (fun ps root => insertFullRescan ps root.id) ps) := by
  induction roots generalizing ps with
  | nil => cases hroot
  | cons first roots ih =>
      rw [List.foldl_cons]
      rcases List.mem_cons.mp hroot with rfl | hrest
      · exact waiting_inserts (inserts_fullRescans roots _)
          (waiting_insert root.id (fun _ => rfl))
      · exact ih hrest _

end Recording

/-! ## What becomes of it -/

/-- The table is empty when the database is created. -/
def Queue.empty : Queue := { rows := [], claims := [] }

theorem sound_empty : Sound Queue.empty := by
  constructor <;> simp [Queue.empty]

/-- The rows that account for a path that has been met. -/
theorem kept_of_met {s t : Queue} {k : String × Option String}
    {kind : DirtyPath → Prop}
    (hkind : ∀ d ∈ t.rows ++ t.claims, d.key = k → kind d)
    (h : Mailbox.Met k s.claims.length t.mailbox) : Kept kind s t := by
  obtain ⟨-, hwaits | htaken⟩ := h
  · obtain ⟨d, hd, hpending, hkey⟩ := hwaits
    exact Or.inl ⟨d, hd, hkind d (List.mem_append_left _ hd) hkey,
      Or.inl hpending⟩
  · unfold Queue.mailbox at htaken
    dsimp only at htaken
    rw [← List.map_drop] at htaken
    obtain ⟨d, hd, hkey⟩ := List.mem_map.mp htaken
    refine Or.inr ⟨d, hd, hkind d ?_ hkey⟩
    exact List.mem_append_right _ (List.mem_of_mem_drop hd)

/-- No recorded event is lost, unless its type is unknown: each path that it
names keeps a pending or failed row or is claimed later, and an overflow is a
full rescan of every root. -/
theorem recorded_kept {cwdText : String} {s t : Queue}
    (hcwd : (FsPath.parse cwdText).isAbsolute = true)
    (hreached : Run QueueStep Queue.empty s) (roots : List SyncRoot)
    (event : FileEvent)
    (hrun : Run QueueStep (s.recorded (FsPath.parse cwdText) roots event) t) :
    (∀ root, Relevant (FsPath.parse cwdText) roots event root →
      event.type ≠ .overflow → event.type ≠ .unknown →
      ∀ path ∈ event.paths,
        Kept (IsRowFor (FsPath.parse cwdText) root path) s t) ∧
    (event.type = .overflow →
      (s.recorded (FsPath.parse cwdText) roots event).rows =
        roots.foldl (fun ps root => insertFullRescan ps root.id) s.rows ∧
      ∀ root ∈ roots, Kept (IsFullRescan root) s t) := by
  have hsound : Sound s := Sound.step.run hreached sound_empty
  have hrecorded : Sound (s.recorded (FsPath.parse cwdText) roots event) :=
    Sound.step (.record _ roots event s) hsound
  have hlength : (s.recorded (FsPath.parse cwdText) roots
      event).mailbox.taken.length = s.claims.length := List.length_map _
  have hmet := fun k hk => Queue.met_of_run (k := k) hrecorded hk hrun
  rw [hlength] at hmet
  constructor
  · intro root hrelevant hoverflow hunknown path hpath
    obtain ⟨rel, hwaits, hloc⟩ := waiting_recordFor (c := s.claims) hcwd
      hrelevant.inside ⟨hoverflow, hunknown⟩ hpath s.rows
    rw [← record_relevant hrelevant ⟨hoverflow, hunknown⟩] at hwaits
    refine kept_of_met ?_ (hmet (root.id, some rel) hwaits)
    rintro d - hkey
    exact ⟨congrArg Prod.fst hkey, rel, congrArg Prod.snd hkey, hloc⟩
  · intro hoverflow
    have hrows : (s.recorded (FsPath.parse cwdText) roots event).rows =
        roots.foldl (fun ps root => insertFullRescan ps root.id) s.rows := by
      unfold Queue.recorded record
      rw [hoverflow]
    refine ⟨hrows, ?_⟩
    intro root hroot
    have hwaits := waiting_fullRescans (c := s.claims) hroot s.rows
    rw [← hrows] at hwaits
    have hend : Sound t := Sound.step.run hrun hrecorded
    refine kept_of_met ?_ (hmet (root.id, none) hwaits)
    intro d hd hkey
    have hnone : d.relativePath = none := congrArg Prod.snd hkey
    exact ⟨congrArg Prod.fst hkey, hnone, hend.rescans d hd hnone⟩

/-! ## A rename and an event of unknown type -/

/-- The root of the runs below. -/
def docs : SyncRoot :=
  { id := "docs", localPath := "/docs", folderId := "", mode := .twoWay }

/-- An event about two files of the root. -/
def eventOf (type : FileEventType) : FileEvent :=
  { rootId := "docs", type := type, path := "/docs/b"
    oldPath := some "/docs/a" }

theorem inside_docs {path : String} (hpath : path ∈ ["/docs/a", "/docs/b"]) :
    Inside (FsPath.parse "/") docs path := by
  revert path
  have hall : ∀ path ∈ ["/docs/a", "/docs/b"],
      (FsPath.parse path).isEmpty = false ∧
        ["docs"] <+: ((FsPath.parse "/").append (FsPath.parse path)).loc ∧
        ["docs"] ≠ ((FsPath.parse "/").append (FsPath.parse path)).loc := by
    decide
  intro path hpath
  obtain ⟨hnamed, habove, hne⟩ := hall path hpath
  exact { named := hnamed, rooted := by decide, below := ⟨habove, hne⟩ }

theorem eventOf_relevant (type : FileEventType) :
    Relevant (FsPath.parse "/") [docs] (eventOf type) docs := by
  refine ⟨rfl, ?_, ?_⟩
  · intro path hpath
    apply inside_docs
    unfold FileEvent.paths at hpath
    split at hpath
    · exact hpath
    · exact List.mem_cons_of_mem _ hpath
  · show ∀ path ∈ ["/docs/b", "/docs/a"],
      isArkiveTempPath (FsPath.parse path) = false
    decide

/-- The row of the old name, claimed. -/
def oldName : DirtyPath :=
  { id := 0, syncRootId := "docs", relativePath := some "a"
    eventType := .delete, status := .running }

/-- The rows after a rename whose old name has been claimed. -/
def oldNameClaimed : Queue :=
  { rows := [oldName,
      { id := 1, syncRootId := "docs", relativePath := some "b"
        eventType := .scan, status := .pending }]
    claims := [oldName] }

/-- Both names of the rename are accounted for. -/
theorem rename_kept :
    Kept (IsRowFor (FsPath.parse "/") docs "/docs/a") Queue.empty
        oldNameClaimed ∧
      Kept (IsRowFor (FsPath.parse "/") docs "/docs/b") Queue.empty
        oldNameClaimed := by
  have hclaim : QueueStep
      (Queue.empty.recorded (FsPath.parse "/") [docs] (eventOf .renamed))
      oldNameClaimed :=
    .claim "docs" _ oldName oldNameClaimed.rows (by decide)
  have hkept := recorded_kept (by decide) Relation.ReflTransGen.refl [docs]
    (eventOf .renamed) (Relation.ReflTransGen.single hclaim)
  have hnames := hkept.1 docs (eventOf_relevant .renamed) (by decide)
    (by decide)
  exact ⟨hnames "/docs/a" (by decide), hnames "/docs/b" (by decide)⟩

/-- An event of unknown type leaves no row. -/
theorem unknown_lost :
    Relevant (FsPath.parse "/") [docs] (eventOf .unknown) docs ∧
      ¬ Kept (IsRowFor (FsPath.parse "/") docs "/docs/b") Queue.empty
        (Queue.empty.recorded (FsPath.parse "/") [docs]
          (eventOf .unknown)) := by
  refine ⟨eventOf_relevant .unknown, ?_⟩
  rintro (⟨d, hd, -⟩ | ⟨d, hd, -⟩)
  · cases hd
  · cases hd

end DirtyPathRepo

end ArkiveSync
