import ArkiveSync.Model.UploadService

/-!
# What the resume tables hold

Between two calls of `uploadFile` the resume tables describe uploads that are
under way.  The invariant `RepoSound` says of them that every part row belongs
to a session, that the key of a session can be recovered from its row, and that
every part row was written for a part of the file at the path of its session,
encrypted under that key and put to storage in that session.

The number of a part passes through an `int` on its way into the table.  From
`2^31` parts on a row may be read back under another number; then some row of
the session is negative, and a session with such a row is never resumed.

## Main results

* `RepoSound.openSession`: opening a session keeps the invariant and yields a
  session of the tables.
* `RepoSound.uploadParts`: so does uploading its parts, whether it succeeds or
  throws; and when it succeeds, every part was put in that session.
-/

namespace ArkiveSync

open MultipartUploader UploadService

/-- A file that is uploaded: it is not empty, and its size is an `int64_t`. -/
structure SourceFile where
  bytes : Bytes
  nonempty : bytes ≠ []
  size_lt : bytes.length < 9223372036854775808

namespace SourceFile

/-- The plan of the file. -/
def plan (file : SourceFile) : UploadPlan :=
  UploadPlanner.createPlan file.bytes.length

theorem plan_shape (file : SourceFile) : file.plan.Shape :=
  UploadPlanner.createPlan_shape (List.length_pos_iff.mpr file.nonempty)

theorem uploadPartCount_lt (file : SourceFile) :
    file.plan.uploadPartCount < 9223372036854775808 := by
  have hsize := file.size_lt
  have htotal := file.plan_shape.totalChunks
  have horiginal : file.plan.originalSize = file.bytes.length := rfl
  rcases file.plan_shape.parts with ⟨-, -, -, hcount⟩ | ⟨-, -, -, hcount⟩ <;>
    omega

end SourceFile

/-! ## Parts of a session -/

variable {ν : Type} (finalizer : UploadFinalizer ν) (files : String → SourceFile)

/-- The call in which the parts of a session were uploaded, as far as its row
tells. -/
def sessionCall (session : UploadResumeSessionRecord) (fileKey : Bytes) :
    UploadCall ν UploadResumeRepo :=
  uploadCall finalizer (files session.localPath).bytes
    (files session.localPath).plan (startResponseFromSession session) fileKey

/-- A row written for part `p` of a call, after it was put. -/
def Persisted (call : UploadCall ν UploadResumeRepo) (puts : List StoredPart)
    (p : Nat) (record : UploadResumePartRecord) : Prop :=
  InPlan call p ∧ ∃ part chunks put, UploadedAs call p part chunks put ∧
    put ∈ puts ∧ makeResumePartRecord finalizer.text part = some record

/-- The row of a session and its part rows. -/
structure SessionSound (repo : UploadResumeRepo) (puts : List StoredPart)
    (session : UploadResumeSessionRecord) (fileKey : Bytes) : Prop where
  key : ∃ nonce blob, FileEncryptor.encryptResumeFileKey finalizer.crypto nonce
    finalizer.masterKey fileKey session.uploadSessionId = .ok blob ∧
    session.encryptedFileKeyBlob = encodeBase64 blob
  rows : ∀ row ∈ repo.parts, row.uploadSessionId = session.uploadSessionId →
    ∃ p, Persisted finalizer (sessionCall finalizer files session fileKey) puts
      p row.part ∧
      (2147483648 ≤ p → ∃ other ∈ repo.parts,
        other.uploadSessionId = session.uploadSessionId ∧
        other.part.partNumber < 0)

/-- The tables, given the puts that storage has answered. -/
structure RepoSound (repo : UploadResumeRepo) (puts : List StoredPart) :
    Prop where
  owned : ∀ row ∈ repo.parts, ∃ session ∈ repo.sessions,
    session.uploadSessionId = row.uploadSessionId
  sessions : ∀ session ∈ repo.sessions, ∃ fileKey,
    SessionSound finalizer files repo puts session fileKey

variable {finalizer files}

theorem Persisted.mono {call : UploadCall ν UploadResumeRepo}
    {puts puts' : List StoredPart} {p : Nat} {record : UploadResumePartRecord}
    (h : Persisted finalizer call puts p record) (hputs : puts ⊆ puts') :
    Persisted finalizer call puts' p record := by
  obtain ⟨hplan, part, chunks, put, has, hput, hrecord⟩ := h
  exact ⟨hplan, part, chunks, put, has, hputs hput, hrecord⟩

/-! ## Deleting keeps the invariant -/

theorem repoSound_empty : RepoSound finalizer files UploadResumeRepo.empty []
    := by
  refine ⟨?_, ?_⟩
  · intro row hrow
    cases hrow
  · intro session hsession
    cases hsession

namespace RepoSound

variable {repo repo' : UploadResumeRepo} {puts puts' : List StoredPart}

theorem deleteSession (h : RepoSound finalizer files repo puts) (id : String) :
    RepoSound finalizer files (repo.deleteSessionByUploadSessionId id) puts
    := by
  refine ⟨?_, ?_⟩
  · intro row hrow
    rw [UploadResumeRepo.mem_delete_parts] at hrow
    obtain ⟨session, hsession, hid⟩ := h.owned row hrow.1
    refine ⟨session, ?_, hid⟩
    rw [UploadResumeRepo.mem_delete_sessions, hid]
    exact ⟨hsession, hrow.2⟩
  · intro session hsession
    rw [UploadResumeRepo.mem_delete_sessions] at hsession
    obtain ⟨fileKey, hkey, hrows⟩ := h.sessions session hsession.1
    refine ⟨fileKey, hkey, ?_⟩
    intro row hrow hid
    rw [UploadResumeRepo.mem_delete_parts] at hrow
    obtain ⟨p, hpersisted, hwide⟩ := hrows row hrow.1 hid
    refine ⟨p, hpersisted, ?_⟩
    intro hp
    obtain ⟨other, hother, hotherId, hneg⟩ := hwide hp
    refine ⟨other, ?_, hotherId, hneg⟩
    rw [UploadResumeRepo.mem_delete_parts, hotherId]
    exact ⟨hother, hsession.2⟩

theorem deletePath (h : RepoSound finalizer files repo puts) (path : String) :
    RepoSound finalizer files (repo.deleteSessionByLocalPath path) puts := by
  rcases (repo.deleteSessionByLocalPath_spec path).1 with hsame | ⟨id, hid⟩
  · rw [hsame]
    exact h
  · rw [hid]
    exact h.deleteSession id

end RepoSound

/-! ## Opening a session -/

/-- A session that a try has opened: it is in the tables under the path, its
ids and its key are those of its row, and the completed parts are its part
rows, read back. -/
structure Opened (finalizer : UploadFinalizer ν) (files : String → SourceFile)
    (repo : UploadResumeRepo) (puts : List StoredPart) (path : String)
    (opened : OpenedSession) (session : UploadResumeSessionRecord) :
    Prop where
  mem : session ∈ repo.sessions
  localPath : session.localPath = path
  vaultId : opened.started.vaultId = session.vaultId
  fileId : opened.started.fileId = session.fileId
  uploadSessionId : opened.started.uploadSessionId = session.uploadSessionId
  sound : SessionSound finalizer files repo puts session opened.fileKey
  completed : ∀ part ∈ opened.completedParts, ∃ row ∈ repo.parts,
    row.uploadSessionId = session.uploadSessionId ∧
    readUploadedPartResult finalizer.text (files path).plan row.part = .ok part
  read : ∀ row ∈ repo.parts, row.uploadSessionId = session.uploadSessionId →
    ∃ part ∈ opened.completedParts,
      readUploadedPartResult finalizer.text (files path).plan row.part =
        .ok part

/-- The values of a list that is mapped without an exception. -/
theorem mapM_ok {α β : Type} {f : α → Except UploadError β} {xs : List α} :
    ∀ {ys : List β}, xs.mapM f = .ok ys →
      (∀ y ∈ ys, ∃ x ∈ xs, f x = .ok y) ∧ (∀ x ∈ xs, ∃ y ∈ ys, f x = .ok y) := by
  induction xs with
  | nil =>
      intro ys h
      cases h
      exact ⟨by simp, by simp⟩
  | cons x xs ih =>
      intro ys h
      rw [List.mapM_cons] at h
      obtain ⟨y, hy, h⟩ := UploadFinalizer.bind_ok h
      obtain ⟨rest, hrest, h⟩ := UploadFinalizer.bind_ok h
      cases h
      obtain ⟨hfrom, hto⟩ := ih hrest
      refine ⟨?_, ?_⟩
      · intro z hz
        rcases List.mem_cons.mp hz with rfl | hz
        · exact ⟨x, List.mem_cons_self, hy⟩
        · obtain ⟨w, hw, hwz⟩ := hfrom z hz
          exact ⟨w, List.mem_cons_of_mem _ hw, hwz⟩
      · intro w hw
        rcases List.mem_cons.mp hw with rfl | hw
        · exact ⟨y, List.mem_cons_self, hy⟩
        · obtain ⟨z, hz, hwz⟩ := hto w hw
          exact ⟨z, List.mem_cons_of_mem _ hz, hwz⟩

theorem decodeBlob_encodeBase64 (bytes : Bytes) :
    decodeBlob (encodeBase64 bytes) = .ok bytes := by
  unfold decodeBlob
  rw [decodeBase64_encodeBase64]

namespace RepoSound

variable {repo repo' : UploadResumeRepo} {puts puts' : List StoredPart}
variable {path : String} {entry : Entry} {localMtime : Option Int}
variable {answers : TryAnswers ν} {opened : OpenedSession}

/-- A session that is resumed. -/
theorem resumeSession (hcrypto : finalizer.crypto.Authentic)
    (h : RepoSound finalizer files repo puts)
    {session : UploadResumeSessionRecord} (hmem : session ∈ repo.sessions)
    (hpath : session.localPath = path)
    (hresume : UploadService.resumeSession finalizer repo (files path).plan
      session = .ok opened) :
    Opened finalizer files repo puts path opened session := by
  obtain ⟨fileKey, ⟨nonce, blob, hblob, hstored⟩, hrows⟩ :=
    h.sessions session hmem
  unfold UploadService.resumeSession at hresume
  obtain ⟨completedParts, hcompleted, hresume⟩ :=
    UploadFinalizer.bind_ok hresume
  obtain ⟨blob', hblob', hresume⟩ := UploadFinalizer.bind_ok hresume
  obtain ⟨recovered, hrecovered, hresume⟩ := UploadFinalizer.bind_ok hresume
  cases hresume
  rw [hstored, decodeBlob_encodeBase64] at hblob'
  cases hblob'
  have hsame := FileEncryptor.decrypt_encryptResumeFileKey hcrypto hblob
    hrecovered
  subst hsame
  obtain ⟨hfrom, hto⟩ := mapM_ok hcompleted
  refine ⟨hmem, hpath, rfl, rfl, rfl, ⟨⟨nonce, blob, hblob, hstored⟩, hrows⟩,
    ?_, ?_⟩
  · intro part hpart
    obtain ⟨record, hrecord, hread⟩ := hfrom part hpart
    obtain ⟨row, hrow, hid, rfl⟩ :=
      (UploadResumeRepo.mem_listParts repo _ record).mp hrecord
    exact ⟨row, hrow, hid, hread⟩
  · intro row hrow hid
    exact hto row.part ((UploadResumeRepo.mem_listParts repo _ row.part).mpr
      ⟨row, hrow, hid, rfl⟩)

/-- A session that is started: its row is new, and no part row is its. -/
theorem startSession (h : RepoSound finalizer files repo puts)
    {result : Except UploadError OpenedSession}
    (hstart : UploadService.startSession finalizer repo entry path localMtime
      (files path).plan answers = (repo', result)) :
    RepoSound finalizer files repo' puts ∧
      ∀ opened, result = .ok opened →
        ∃ session, Opened finalizer files repo' puts path opened session := by
  have hfail : ∀ e, (repo, Except.error e) = (repo', result) →
      RepoSound finalizer files repo' puts ∧
        ∀ opened, result = .ok opened →
          ∃ session, Opened finalizer files repo' puts path opened session := by
    intro e heq
    cases heq
    exact ⟨h, by intro opened hok; cases hok⟩
  unfold UploadService.startSession at hstart
  split at hstart
  · exact hfail _ hstart
  · rename_i started _
    split at hstart
    · exact hfail _ hstart
    · rename_i fileKey _
      split at hstart
      · exact hfail _ hstart
      · rename_i blob hblob
        have hcleared := h.deletePath path
        unfold UploadResumeRepo.replaceSession at hstart
        dsimp only [sessionRecord] at hstart
        cases hinsert : (repo.deleteSessionByLocalPath path).insertSession
            (sessionRecord entry path (files path).plan.originalSize localMtime
              started blob) with
        | none =>
            dsimp only [sessionRecord] at hinsert
            rw [hinsert] at hstart
            cases hstart
            exact ⟨hcleared, by intro opened hok; cases hok⟩
        | some inserted =>
            have hinsert' := hinsert
            dsimp only [sessionRecord] at hinsert
            rw [hinsert] at hstart
            cases hstart
            obtain ⟨hsessions, hparts, hapart⟩ :=
              UploadResumeRepo.insertSession_some hinsert'
            -- every part row belongs to a session of another id
            have hforeign : ∀ row ∈ repo'.parts,
                row.uploadSessionId ≠ started.uploadSessionId := by
              intro row hrow heq
              rw [hparts] at hrow
              obtain ⟨owner, howner, hid⟩ := hcleared.owned row hrow
              exact (hapart owner howner).2.2 (by rw [hid, heq]; rfl)
            have hnew : SessionSound finalizer files repo' puts
                (sessionRecord entry path (files path).plan.originalSize
                  localMtime started blob) fileKey :=
              ⟨⟨_, blob, hblob, rfl⟩,
                fun row hrow hid => absurd hid (hforeign row hrow)⟩
            refine ⟨⟨?_, ?_⟩, ?_⟩
            · intro row hrow
              rw [hparts] at hrow
              obtain ⟨owner, howner, hid⟩ := hcleared.owned row hrow
              refine ⟨owner, ?_, hid⟩
              rw [hsessions]
              exact List.mem_cons_of_mem _ howner
            · intro session hsession
              rw [hsessions] at hsession
              rcases List.mem_cons.mp hsession with rfl | hold
              · exact ⟨fileKey, hnew⟩
              · obtain ⟨key, hkey, hrows⟩ := hcleared.sessions session hold
                refine ⟨key, hkey, ?_⟩
                rw [hparts]
                exact hrows
            · intro opened hok
              cases hok
              refine ⟨_, ?_, rfl, rfl, rfl, rfl, hnew, ?_, ?_⟩
              · rw [hsessions]
                exact List.mem_cons_self
              · intro part hpart
                cases hpart
              · intro row hrow hid
                exact absurd hid (hforeign row hrow)

/-- Opening a session keeps the invariant. -/
theorem openSession (hcrypto : finalizer.crypto.Authentic)
    (h : RepoSound finalizer files repo puts) {resumed : Bool}
    {result : Except UploadError OpenedSession}
    (hopen : UploadService.openSession finalizer repo entry path localMtime
      (files path).plan answers = (repo', resumed, result)) :
    RepoSound finalizer files repo' puts ∧
      ∀ opened, result = .ok opened →
        ∃ session, Opened finalizer files repo' puts path opened session := by
  unfold UploadService.openSession at hopen
  split at hopen
  · rename_i session hget
    obtain ⟨hmem, hpath⟩ := UploadResumeRepo.getSessionByLocalPath_some hget
    split at hopen
    · cases hopen
      refine ⟨h, ?_⟩
      intro opened hok
      exact ⟨session, h.resumeSession hcrypto hmem hpath hok⟩
    · generalize hstart : UploadService.startSession finalizer
        (repo.deleteSessionByLocalPath path) entry path localMtime
        (files path).plan answers = started at hopen
      cases hopen
      exact (h.deletePath path).startSession hstart
  · generalize hstart : UploadService.startSession finalizer repo entry path
      localMtime (files path).plan answers = started at hopen
    cases hopen
    exact h.startSession hstart

end RepoSound

/-! ## Uploading the parts of a session -/

namespace Opened

variable {repo : UploadResumeRepo} {puts : List StoredPart} {path : String}
variable {opened : OpenedSession} {session : UploadResumeSessionRecord}

/-- The call of a try and the one that its row describes upload the same
parts. -/
theorem uploadedAs_iff
    (h : Opened finalizer files repo puts path opened session) {p : Nat}
    {part : UploadedPartResult} {chunks : List UploadEncryptedChunk}
    {put : StoredPart} :
    UploadedAs (uploadCall finalizer (files path).bytes (files path).plan
        opened.started opened.fileKey) p part chunks put ↔
      UploadedAs (sessionCall finalizer files session opened.fileKey) p part
        chunks put := by
  have hscope : scope (sessionCall finalizer files session opened.fileKey) =
      scope (uploadCall finalizer (files path).bytes (files path).plan
        opened.started opened.fileKey) := by
    unfold scope sessionCall uploadCall startResponseFromSession
    simp only [h.localPath, h.vaultId, h.fileId]
  have hplan : (sessionCall finalizer files session opened.fileKey).plan =
      (files path).plan := by
    show (files session.localPath).plan = _
    rw [h.localPath]
  constructor
  · intro has
    exact has.transfer rfl hplan hscope h.uploadSessionId.symm
  · intro has
    exact has.transfer rfl hplan.symm hscope.symm h.uploadSessionId

end Opened

/-- The tables while the parts of a session are uploaded, with the counter at
`m`: nothing but the rows of the session has changed, and each of these was
written for a part that has been taken. -/
structure Progress (finalizer : UploadFinalizer ν) (files : String → SourceFile)
    (base : UploadResumeRepo) (puts : List StoredPart)
    (session : UploadResumeSessionRecord) (opened : OpenedSession) (m : Nat)
    (puts' : List StoredPart) (repo : UploadResumeRepo) : Prop where
  sessions : repo.sessions = base.sessions
  puts : puts ⊆ puts'
  others : ∀ row, row.uploadSessionId ≠ session.uploadSessionId →
    (row ∈ repo.parts ↔ row ∈ base.parts)
  rows : ∀ row ∈ repo.parts, row.uploadSessionId = session.uploadSessionId →
    ∃ p, Persisted finalizer
      (sessionCall finalizer files session opened.fileKey) puts' p row.part ∧
      (2147483648 ≤ p → p < m ∧ opened.started.providerUploadId ≠ "")

/-- The session has a row under the number of part `p`. -/
def RowFor (session : UploadResumeSessionRecord) (p : Nat)
    (repo : UploadResumeRepo) : Prop :=
  ∃ row ∈ repo.parts, row.uploadSessionId = session.uploadSessionId ∧
    row.part.partNumber = toInt p

theorem makeResumePartRecord_number {text : JsonText}
    {part : UploadedPartResult} {record : UploadResumePartRecord}
    (h : makeResumePartRecord text part = some record) :
    record.partNumber = toInt part.plan.partNumber := by
  unfold makeResumePartRecord at h
  rw [Option.bind_eq_bind, Option.bind_eq_some_iff] at h
  obtain ⟨chunks, -, hrecord⟩ := h
  rw [← Option.some.inj hrecord]

/-- A report overwrites the row of its own part, or adds one. -/
theorem progress_rules {base : UploadResumeRepo} {puts : List StoredPart}
    {path : String} {opened : OpenedSession}
    {session : UploadResumeSessionRecord}
    (h : Opened finalizer files base puts path opened session) :
    ResumeRules (uploadCall finalizer (files path).bytes (files path).plan
        opened.started opened.fileKey)
      (Progress finalizer files base puts session opened)
      (RowFor session) := by
  refine ⟨?_, ?_, ?_, ?_, ?_⟩
  · intro m puts' repo hprogress
    refine ⟨hprogress.sessions, hprogress.puts, hprogress.others, ?_⟩
    intro row hrow hid
    obtain ⟨p, hpersisted, hwide⟩ := hprogress.rows row hrow hid
    refine ⟨p, hpersisted, ?_⟩
    intro hp
    exact ⟨Nat.lt_succ_of_lt (hwide hp).1, (hwide hp).2⟩
  · intro m puts' repo put hprogress
    refine ⟨hprogress.sessions, ?_, hprogress.others, ?_⟩
    · exact List.subset_cons_of_subset _ hprogress.puts
    · intro row hrow hid
      obtain ⟨p, hpersisted, hwide⟩ := hprogress.rows row hrow hid
      exact ⟨p, hpersisted.mono (List.subset_cons_self _ _), hwide⟩
  · intro m puts' repo repo' p part hp hle htaken hprovider hstored hreport
      hprogress
    obtain ⟨chunks, put, has, hput⟩ := hstored
    obtain ⟨record, hrecord, rfl⟩ := Option.map_eq_some_iff.mp hreport
    have hnew : Persisted finalizer
        (sessionCall finalizer files session opened.fileKey) puts' p
        record := by
      refine ⟨⟨hp, ?_⟩, part, chunks, put, h.uploadedAs_iff.mp has,
        mem_of_storedBody hput, hrecord⟩
      show p ≤ (files session.localPath).plan.uploadPartCount
      rw [h.localPath]
      exact hle
    refine ⟨hprogress.sessions, hprogress.puts, ?_, ?_⟩
    · intro row hother
      rw [UploadResumeRepo.mem_upsertPart, ← hprogress.others row hother]
      constructor
      · rintro (rfl | hold)
        · exact absurd h.uploadSessionId hother
        · exact hold.1
      · intro hold
        refine Or.inr ⟨hold, ?_⟩
        intro hsame
        exact hother (hsame.1.trans h.uploadSessionId)
    · intro row hrow hid
      rw [UploadResumeRepo.mem_upsertPart] at hrow
      rcases hrow with rfl | hold
      · exact ⟨p, hnew, fun _ => ⟨htaken, hprovider⟩⟩
      · exact hprogress.rows row hold.1 hid
  · intro puts' repo repo' p part hstored hreport
    obtain ⟨chunks, put, has, hput⟩ := hstored
    obtain ⟨record, hrecord, rfl⟩ := Option.map_eq_some_iff.mp hreport
    refine ⟨_, (UploadResumeRepo.mem_upsertPart repo _ record _).mpr
      (Or.inl rfl), h.uploadSessionId, ?_⟩
    show record.partNumber = _
    rw [makeResumePartRecord_number hrecord, has.partNumber]
  · intro repo repo' q part hreport hrow
    obtain ⟨record, hrecord, rfl⟩ := Option.map_eq_some_iff.mp hreport
    obtain ⟨row, hmem, hid, hnumber⟩ := hrow
    by_cases hsame : row.part.partNumber = record.partNumber
    · refine ⟨_, (UploadResumeRepo.mem_upsertPart repo _ record _).mpr
        (Or.inl rfl), h.uploadSessionId, ?_⟩
      show record.partNumber = _
      rw [← hsame, hnumber]
    · refine ⟨row, (UploadResumeRepo.mem_upsertPart repo _ record _).mpr
        (Or.inr ⟨hmem, ?_⟩), hid, hnumber⟩
      intro hboth
      exact hsame hboth.2

theorem readUploadedPartResult_number {text : JsonText} {plan : UploadPlan}
    {record : UploadResumePartRecord} {part : UploadedPartResult}
    (h : readUploadedPartResult text plan record = .ok part) :
    part.plan.partNumber = toUInt64 record.partNumber := by
  unfold readUploadedPartResult at h
  split at h
  · rw [← Except.ok.inj h]
    rfl
  · cases h
  · cases h

namespace Opened

variable {repo repo' : UploadResumeRepo} {puts puts' : List StoredPart}
variable {path : String} {opened : OpenedSession}
variable {session : UploadResumeSessionRecord}

/-- A session with a negative row is not resumed: the number that is read back
exceeds every plan. -/
theorem rejected (h : Opened finalizer files repo puts path opened session)
    {row : UploadResumePartRow} (hrow : row ∈ repo.parts)
    (hid : row.uploadSessionId = session.uploadSessionId)
    (hneg : row.part.partNumber < 0) {n : Nat}
    {result : Except UploadError (List UploadedPartResult)}
    (hupload : UploadParts (uploadCall finalizer (files path).bytes
      (files path).plan opened.started opened.fileKey) n
      opened.completedParts puts repo result puts' repo') :
    (∃ e, result = .error e) ∧ puts' = puts ∧ repo' = repo := by
  cases hupload with
  | reject e hplace => exact ⟨⟨e, rfl⟩, rfl, rfl⟩
  | run slots pool hplace hrun hfinished =>
      obtain ⟨part, hpart, hread⟩ := h.read row hrow hid
      obtain ⟨p, ⟨-, part₀, chunks, put, has, -, hrecord⟩, -⟩ :=
        h.sound.rows row hrow hid
      have hrange := placeCompleted_range hplace part hpart
      rw [readUploadedPartResult_number hread] at hrange
      have hlow : -2147483648 ≤ row.part.partNumber := by
        rw [makeResumePartRecord_number hrecord]
        exact toInt_ge _
      have hhuge := toUInt64_neg hneg hlow
      have hcount := (files path).uploadPartCount_lt
      have hle : toUInt64 row.part.partNumber ≤
          (files path).plan.uploadPartCount := hrange.2
      omega

/-- A completed part of a session without negative rows is what an earlier
call of the session uploaded in its place. -/
theorem given (htext : finalizer.text.Faithful)
    (h : Opened finalizer files repo puts path opened session)
    (hrows : ∀ row ∈ repo.parts,
      row.uploadSessionId = session.uploadSessionId →
      0 ≤ row.part.partNumber)
    {p : Nat} {part : UploadedPartResult}
    (hgiven : GivenPart opened.completedParts p part) :
    p < 2147483648 ∧ ∃ chunks put,
      UploadedAs (uploadCall finalizer (files path).bytes (files path).plan
        opened.started opened.fileKey) p part chunks put ∧ put ∈ puts := by
  obtain ⟨hmem, hnumber⟩ := hgiven
  obtain ⟨row, hrow, hid, hread⟩ := h.completed part hmem
  obtain ⟨q, ⟨-, part₀, chunks, put, has, hput, hrecord⟩, hwide⟩ :=
    h.sound.rows row hrow hid
  have hq : q < 2147483648 := by
    by_contra hge
    obtain ⟨other, hother, hotherId, hneg⟩ := hwide (Nat.le_of_not_lt hge)
    have hpos := hrows other hother hotherId
    omega
  rw [← h.uploadedAs_iff] at has
  have hback := read_makeResumePartRecord htext hrecord hread
  rw [has.partNumber, toInt_of_lt hq, toUInt64_natCast (by omega)] at hback
  have hsame : part = part₀ := by
    rw [hback, has.part]
    rfl
  subst hsame
  have hpq : p = q := by rw [← hnumber, has.partNumber]
  subst hpq
  exact ⟨hq, chunks, put, has, hput⟩

end Opened

/-- The invariant after some progress in one session. -/
theorem Progress.repoSound {base repo' : UploadResumeRepo}
    {puts puts' : List StoredPart} {path : String} {opened : OpenedSession}
    {session : UploadResumeSessionRecord} {m : Nat}
    (hprogress : Progress finalizer files base puts session opened m puts'
      repo')
    (h : RepoSound finalizer files base puts)
    (hopened : Opened finalizer files base puts path opened session)
    (hwide : ∀ p, RowFor session p repo' → 2147483648 ≤ p → p < m →
      p ≤ (files path).plan.uploadPartCount →
      opened.started.providerUploadId ≠ "" →
      ∃ other ∈ repo'.parts,
        other.uploadSessionId = session.uploadSessionId ∧
        other.part.partNumber < 0) :
    RepoSound finalizer files repo' puts' := by
  refine ⟨?_, ?_⟩
  · intro row hrow
    rw [hprogress.sessions]
    by_cases hid : row.uploadSessionId = session.uploadSessionId
    · exact ⟨session, hopened.mem, hid.symm⟩
    · exact h.owned row ((hprogress.others row hid).mp hrow)
  · intro other hother
    rw [hprogress.sessions] at hother
    by_cases hid : other.uploadSessionId = session.uploadSessionId
    · have hsame := base.eq_of_uploadSessionId hother hopened.mem hid
      subst hsame
      refine ⟨opened.fileKey, hopened.sound.key, ?_⟩
      intro row hrow hrowId
      obtain ⟨p, hpersisted, hp⟩ := hprogress.rows row hrow hrowId
      refine ⟨p, hpersisted, ?_⟩
      intro hge
      obtain ⟨hplan, part, chunks, put, has, -, hrecord⟩ := hpersisted
      have hle : p ≤ (files other.localPath).plan.uploadPartCount := hplan.2
      rw [hopened.localPath] at hle
      refine hwide p ⟨row, hrow, hrowId, ?_⟩ hge (hp hge).1 hle (hp hge).2
      rw [makeResumePartRecord_number hrecord, has.partNumber]
    · obtain ⟨fileKey, hkey, hrows⟩ := h.sessions other hother
      have hsame : ∀ row : UploadResumePartRow,
          row.uploadSessionId = other.uploadSessionId →
          (row ∈ repo'.parts ↔ row ∈ base.parts) := by
        intro row hrowId
        exact hprogress.others row (by rw [hrowId]; exact hid)
      refine ⟨fileKey, hkey, ?_⟩
      intro row hrow hrowId
      obtain ⟨p, hpersisted, hp⟩ :=
        hrows row ((hsame row hrowId).mp hrow) hrowId
      refine ⟨p, hpersisted.mono hprogress.puts, ?_⟩
      intro hge
      obtain ⟨negative, hmem, hnegId, hneg⟩ := hp hge
      exact ⟨negative, (hsame negative hnegId).mpr hmem, hnegId, hneg⟩

/-- Uploading the parts of a session keeps the invariant and the row of the
session, whether it succeeds or throws.  When it succeeds, every part was put
to storage in that session, by this call or by an earlier one. -/
theorem RepoSound.uploadParts (htext : finalizer.text.Faithful)
    {repo repo' : UploadResumeRepo} {puts puts' : List StoredPart}
    {path : String} {opened : OpenedSession}
    {session : UploadResumeSessionRecord}
    (h : RepoSound finalizer files repo puts)
    (hopened : Opened finalizer files repo puts path opened session)
    {n : Nat} (hn : 1 ≤ n ∧ n ≤ 6)
    {result : Except UploadError (List UploadedPartResult)}
    (hupload : UploadParts (uploadCall finalizer (files path).bytes
      (files path).plan opened.started opened.fileKey) n
      opened.completedParts puts repo result puts' repo') :
    RepoSound finalizer files repo' puts' ∧ session ∈ repo'.sessions ∧
      ∀ parts, result = .ok parts →
        parts.length = (files path).plan.uploadPartCount ∧
        ∀ p, 1 ≤ p → p ≤ (files path).plan.uploadPartCount →
          ∃ chunks put, UploadedAs (uploadCall finalizer (files path).bytes
            (files path).plan opened.started opened.fileKey) p (slot parts p)
            chunks put ∧ put ∈ puts' := by
  by_cases hneg : ∃ row ∈ repo.parts,
      row.uploadSessionId = session.uploadSessionId ∧ row.part.partNumber < 0
  · obtain ⟨row, hrow, hid, hlt⟩ := hneg
    obtain ⟨⟨e, he⟩, hputs, hrepo⟩ := hopened.rejected hrow hid hlt hupload
    subst hputs hrepo he
    refine ⟨h, hopened.mem, ?_⟩
    intro parts hok
    cases hok
  · have hrows : ∀ row ∈ repo.parts,
        row.uploadSessionId = session.uploadSessionId →
        0 ≤ row.part.partNumber := by
      intro row hrow hid
      by_contra hlt
      exact hneg ⟨row, hrow, hid, by omega⟩
    have hstart : Progress finalizer files repo puts session opened 1 puts
        repo := by
      refine ⟨rfl, List.Subset.refl _, fun _ _ => Iff.rfl, ?_⟩
      intro row hrow hid
      obtain ⟨p, hpersisted, hp⟩ := hopened.sound.rows row hrow hid
      refine ⟨p, hpersisted, ?_⟩
      intro hge
      obtain ⟨other, hother, hotherId, hlt⟩ := hp hge
      exact absurd ⟨other, hother, hotherId, hlt⟩ hneg
    obtain ⟨m, hprogress, hdone, hparts⟩ := hupload.outcome
      (files path).plan_shape (progress_rules hopened) hstart
    refine ⟨?_, ?_, ?_⟩
    · refine hprogress.repoSound h hopened ?_
      intro p hrow hge hlt hle hprovider
      by_cases hsmall : p < 4294967296
      · obtain ⟨row, hmem, hid, hnumber⟩ := hrow
        exact ⟨row, hmem, hid, by rw [hnumber]; exact toInt_neg hge hsmall⟩
      · -- one of the parts from `2^31` on has been reported before part `p`
        have hcount : 2147483648 + n ≤
            (files path).plan.uploadPartCount := by omega
        obtain ⟨q, part, hlow, hhigh, hq⟩ :=
          hdone 2147483648 (by omega) (by omega) hcount
        rcases hq with hgiven | hreported
        · have hbound := (hopened.given htext hrows hgiven).1
          omega
        · obtain ⟨row, hmem, hid, hnumber⟩ := hreported hprovider
          refine ⟨row, hmem, hid, ?_⟩
          rw [hnumber]
          exact toInt_neg hlow (by omega)
    · rw [hprogress.sessions]
      exact hopened.mem
    · intro parts hok
      obtain ⟨hlength, hslots⟩ := hparts parts hok hn.1
      refine ⟨hlength, ?_⟩
      intro p hp hle
      rcases hslots p hp hle with hgiven | ⟨chunks, put, has, hput⟩
      · obtain ⟨-, chunks, put, has, hput⟩ :=
          hopened.given htext hrows hgiven
        exact ⟨chunks, put, has, hprogress.puts hput⟩
      · exact ⟨chunks, put, has, mem_of_storedBody hput⟩

end ArkiveSync
