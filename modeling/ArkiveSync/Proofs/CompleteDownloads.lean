import ArkiveSync.Proofs.AtomicDownloads

/-!
# What a download takes for complete

A download allocates the size that the manifest declares and writes whatever
the chunks decrypt to, wherever the running sum of the declared chunk sizes
puts it.  Nothing compares the three: the plaintext with the declared chunk,
the chunks with the declared file.

## Main results

* `downloadFile_returns`: a download whose chunks all arrive commits as long as
  no system call fails.
* `only_complete_iff`: so it commits complete files only, exactly when the
  sizes fit by themselves.
-/

namespace ArkiveSync.CompleteDownloads

open Library Downloader WriterState AtomicDownloads

variable {ν : Type} {d : Downloader ν} {fileId finalPath : String}
  {paths : PathTable} {record : FileRecordResponse}
  {decrypted : DecryptedDownloadRecord}
  {pieces : List (DownloadChunk × Bytes)}

/-- The plaintexts have the declared sizes, and the declared ranges tile the
declared file. -/
structure Complete (manifest : DownloadManifest)
    (pieces : List (DownloadChunk × Bytes)) : Prop where
  sizes : ∀ piece ∈ pieces, piece.2.length = piece.1.plainSize
  tiles : Tiles (manifest.chunks.map DownloadChunk.plainSpan) manifest.size

/-- The download commits a complete file, or throws and leaves the target as
it was. -/
def CommitsComplete (d : Downloader ν) (fileId finalPath : String)
    (paths : PathTable) (manifest : DownloadManifest)
    (pieces : List (DownloadChunk × Bytes)) : Prop :=
  ((d.downloadFile fileId finalPath paths).2 = true ∧
    Complete manifest pieces) ∨
  ((d.downloadFile fileId finalPath paths).2 = false ∧
    (d.downloadFile fileId finalPath paths).1 finalPath = paths finalPath)

/-! ## When nothing fails -/

/-- With these answers a write of so many bytes comes to its end. -/
def PwritesAll : List PwriteAnswer → (offset length : Nat) → Prop
  | [], offset, length => length ≤ room offset ∨ length = 0
  | .interrupted :: answers, offset, length =>
      length = 0 ∨ PwritesAll answers offset length
  | .failed :: _, _, length => length = 0
  | .wrote bytes :: answers, offset, length =>
      length = 0 ∨
        0 < min bytes (min length (room offset)) ∧
          PwritesAll answers (offset + min bytes (min length (room offset)))
            (length - min bytes (min length (room offset)))

theorem writeLoop_returns {answers : List PwriteAnswer} :
    ∀ {content data : Bytes} {offset : Nat},
      (writeLoop answers content offset data).2 = true ↔
        PwritesAll answers offset data.length := by
  induction answers with
  | nil =>
      intro content data offset
      unfold writeLoop PwritesAll
      rw [List.length_eq_zero_iff]
      split
      next h => exact ⟨fun _ => h, fun _ => rfl⟩
      next h => exact ⟨fun hfalse => absurd hfalse Bool.false_ne_true,
        fun hfits => absurd hfits h⟩
  | cons answer answers ih =>
      intro content data offset
      unfold writeLoop
      by_cases hdata : data = []
      · rw [if_pos hdata, hdata]
        refine ⟨fun _ => ?_, fun _ => rfl⟩
        cases answer with
        | interrupted => exact Or.inl rfl
        | failed => exact rfl
        | wrote bytes => exact Or.inl rfl
      · rw [if_neg hdata]
        have hlength : data.length ≠ 0 := fun h =>
          hdata (List.length_eq_zero_iff.mp h)
        cases answer with
        | interrupted =>
            rw [PwritesAll, or_iff_right hlength]
            exact ih
        | failed =>
            rw [PwritesAll]
            exact ⟨fun h => absurd h Bool.false_ne_true,
              fun h => absurd h hlength⟩
        | wrote bytes =>
            rw [PwritesAll, or_iff_right hlength]
            simp only
            split
            next hzero =>
                refine ⟨fun h => absurd h Bool.false_ne_true, ?_⟩
                rintro ⟨hpos, -⟩
                omega
            next hpos =>
                rw [ih, List.length_drop, and_iff_right (by omega)]

/-- The loop comes to its end when every write does. -/
theorem downloadChunks_returns {fileKey : Bytes} {calls : WriterCalls}
    {chunks : List DownloadChunk} :
    ∀ {pieces : List (DownloadChunk × Bytes)} {content : Bytes},
      d.Fetched record fileKey chunks pieces →
      ((d.downloadChunks record fileKey
          (opened calls finalPath paths content) chunks).2 = true ↔
        ∀ piece ∈ pieces, PwritesAll (d.calls.pwrites piece.1.index)
          piece.1.plainStart piece.2.length) := by
  induction chunks with
  | nil =>
      intro pieces content hfetched
      rw [List.map_eq_nil_iff.mp hfetched.chunks]
      refine ⟨fun _ piece hpiece => ?_, fun _ => rfl⟩
      cases hpiece
  | cons chunk rest ih =>
      intro pieces content hfetched
      cases pieces with
      | nil => cases hfetched.chunks
      | cons first more =>
          have hchunks := hfetched.chunks
          rw [List.map_cons, List.cons.injEq] at hchunks
          obtain ⟨hfirst, hmore⟩ := hchunks
          have hplain := hfetched.plaintext first List.mem_cons_self
          rw [hfirst] at hplain
          have hrest : d.Fetched record fileKey rest more :=
            ⟨hmore, fun piece hpiece =>
              hfetched.plaintext piece (List.mem_cons_of_mem _ hpiece)⟩
          have hwrite : (writeLoop (d.calls.pwrites chunk.index) content
                chunk.plainStart first.2).2 = true ↔
              PwritesAll (d.calls.pwrites chunk.index) chunk.plainStart
                first.2.length :=
            writeLoop_returns
          rw [downloadChunks, List.forall_mem_cons, hfirst]
          simp only [hplain, writeAt_opened]
          cases hloop : writeLoop (d.calls.pwrites chunk.index) content
              chunk.plainStart first.2 with
          | mk content' returned =>
              rw [hloop] at hwrite
              cases returned with
              | false =>
                  refine ⟨fun h => absurd h Bool.false_ne_true, ?_⟩
                  rintro ⟨hfirst, -⟩
                  exact absurd (hwrite.mpr hfirst) Bool.false_ne_true
              | true =>
                  rw [and_iff_right (hwrite.mp rfl)]
                  exact ih hrest

/-- Every system call of the download succeeds. -/
structure SystemAllows (d : Downloader ν) (finalPath : String)
    (paths : PathTable) (size : Nat)
    (pieces : List (DownloadChunk × Bytes)) : Prop where
  opens : Opens d.calls finalPath paths
  allocates : d.calls.fallocate = true ∧ 0 < toInt64 size
  writes : ∀ piece ∈ pieces, PwritesAll (d.calls.pwrites piece.1.index)
    piece.1.plainStart piece.2.length
  commits : Commits d.calls finalPath paths

/-- A download whose chunks all arrive returns when the system allows it. -/
theorem downloadFile_returns (hrecord : d.getFileRecord fileId = some record)
    (hdecrypt : d.decrypt record = some decrypted)
    (hfetched : d.Fetched record decrypted.fileKey decrypted.manifest.chunks
      pieces) :
    (d.downloadFile fileId finalPath paths).2 = true ↔
      SystemAllows d finalPath paths decrypted.manifest.size pieces := by
  rcases openWriter_eq d.calls finalPath paths with
    ⟨hopens, hopen⟩ | ⟨hopens, hopen⟩
  · rcases preallocate_opened d.calls finalPath paths decrypted.manifest.size
      with ⟨hcall, hsize, hallocate⟩ | ⟨hrefused, hallocate⟩
    · have htried : (d.downloadFile fileId finalPath paths).2 =
          (d.writeAndCommit record decrypted (opened d.calls finalPath paths
            (List.replicate decrypted.manifest.size 0))).2 := by
        simp only [downloadFile, hrecord, hdecrypt, hopen, hallocate]
        split
        next hfalse => rw [hfalse]
        next htrue => rw [htrue]
      have hloop : (d.downloadChunks record decrypted.fileKey
            (opened d.calls finalPath paths
              (List.replicate decrypted.manifest.size 0))
            decrypted.manifest.chunks).2 = true ↔ _ :=
        downloadChunks_returns hfetched
      obtain ⟨content, hopened, -⟩ := downloadChunks_opened d record
        decrypted.fileKey d.calls finalPath paths decrypted.manifest.chunks
        (List.replicate decrypted.manifest.size 0)
      rw [htried, writeAndCommit]
      split
      next w hfalse =>
          rw [hfalse] at hloop
          refine ⟨fun h => absurd h Bool.false_ne_true, ?_⟩
          intro hallows
          exact absurd (hloop.mpr hallows.writes) Bool.false_ne_true
      next w htrue =>
          rw [htrue] at hloop hopened
          change w = opened d.calls finalPath paths content at hopened
          subst hopened
          by_cases hcommits : Commits d.calls finalPath paths
          · rw [(commit_opened_of content hcommits).1]
            exact ⟨fun _ => ⟨hopens, ⟨hcall, hsize⟩, hloop.mp rfl, hcommits⟩,
              fun _ => rfl⟩
          · rw [(commit_opened_of_not content hcommits).1]
            exact ⟨fun h => absurd h Bool.false_ne_true,
              fun hallows => absurd hallows.commits hcommits⟩
    · have hthrew : (d.downloadFile fileId finalPath paths).2 = false := by
        simp only [downloadFile, hrecord, hdecrypt, hopen, hallocate]
      rw [hthrew]
      exact ⟨fun h => absurd h Bool.false_ne_true,
        fun hallows => absurd hallows.allocates hrefused⟩
  · have hthrew : (d.downloadFile fileId finalPath paths).2 = false := by
      simp only [downloadFile, hrecord, hdecrypt, hopen]
    rw [hthrew]
    exact ⟨fun h => absurd h Bool.false_ne_true,
      fun hallows => absurd hallows.opens hopens⟩

/-! ## The sizes -/

/-- The ranges of a decrypted manifest start where the sum of the sizes before
them, in 64 bits, says. -/
theorem decrypt_laidOut (hdecrypt : d.decrypt record = some decrypted) :
    LaidOut64 0 0 0 decrypted.manifest.chunks ∧
      decrypted.manifest.size < 18446744073709551616 := by
  simp only [decrypt, Option.bind_eq_bind, Option.bind_eq_some_iff] at hdecrypt
  obtain ⟨_, -, _, -, _, -, _, -, _, -, _, -, _, -, manifest, hparse, h⟩ :=
    hdecrypt
  cases h
  obtain ⟨json, items, -, -, hsize, hchunks⟩ :=
    parseDownloadManifest64_eq_some hparse
  have hfallback : toUInt64 record.chunkSize < 18446744073709551616 := by
    unfold toUInt64
    omega
  exact ⟨parseDownloadChunks64_spec hfallback (by decide) (by decide) hchunks,
    Json.valueUInt64_lt hsize⟩

/-- The ranges tile the declared file exactly if the sizes add to it. -/
theorem tiles_iff (hdecrypt : d.decrypt record = some decrypted) :
    Tiles (decrypted.manifest.chunks.map DownloadChunk.plainSpan)
        decrypted.manifest.size ↔
      total (decrypted.manifest.chunks.map DownloadChunk.plainSpan) =
        decrypted.manifest.size := by
  obtain ⟨hlaid, hsize⟩ := decrypt_laidOut hdecrypt
  exact hlaid.plain.tiles_iff hsize

/-- For every record and manifest, and all chunks that arrive: only complete
files are committed, exactly if a system call fails or the sizes fit, each
plaintext its chunk and the chunks the file. -/
theorem only_complete_iff (hrecord : d.getFileRecord fileId = some record)
    (hdecrypt : d.decrypt record = some decrypted)
    (hfetched : d.Fetched record decrypted.fileKey decrypted.manifest.chunks
      pieces) :
    CommitsComplete d fileId finalPath paths decrypted.manifest pieces ↔
      ¬ SystemAllows d finalPath paths decrypted.manifest.size pieces ∨
      ((∀ piece ∈ pieces, piece.2.length = piece.1.plainSize) ∧
        total (decrypted.manifest.chunks.map DownloadChunk.plainSpan) =
          decrypted.manifest.size) := by
  have hreturns : (d.downloadFile fileId finalPath paths).2 = true ↔ _ :=
    downloadFile_returns hrecord hdecrypt hfetched
  by_cases hallows : SystemAllows d finalPath paths decrypted.manifest.size
      pieces
  · have hreturned := hreturns.mpr hallows
    rw [or_iff_right (fun h => h hallows), ← tiles_iff hdecrypt]
    unfold CommitsComplete
    rw [hreturned]
    constructor
    · rintro (⟨-, hcomplete⟩ | ⟨hfalse, -⟩)
      · exact ⟨hcomplete.sizes, hcomplete.tiles⟩
      · cases hfalse
    · rintro ⟨hsizes, htiles⟩
      exact Or.inl ⟨rfl, hsizes, htiles⟩
  · refine ⟨fun _ => Or.inl hallows, fun _ => Or.inr ?_⟩
    rcases downloadFile_cases d fileId finalPath paths with
      ⟨hthrew, hpaths⟩ | ⟨hreturned, -⟩
    · refine ⟨hthrew, ?_⟩
      rcases hpaths with hsame | hremoved
      · rw [hsame]
      · rw [hremoved]
        exact Function.update_of_ne (d.calls.tempPath_ne finalPath).symm _ _
    · exact absurd (hreturns.mp hreturned) hallows

/-! ## The download of the service -/

/-- A `DownloadService` in a system. -/
def ofService (service : DownloadService ν) (calls : WriterCalls) :
    Downloader ν where
  crypto := service.crypto
  text := service.text
  masterKey := some service.masterKey
  getFileRecord := service.getFileRecord
  getRange _ := service.getRange
  calls := calls

variable {service : DownloadService ν} {calls : WriterCalls}

theorem ofService_decrypt (hdecrypt : service.decrypt record = some decrypted)
    (hfits : FitsWord decrypted.manifest) :
    (ofService service calls).decrypt record = some decrypted := by
  simp only [DownloadService.decrypt, Option.bind_eq_bind,
    Option.bind_eq_some_iff] at hdecrypt
  obtain ⟨wrapped, hwrapped, fileKey, hkey, encryptedMetadata, hmetadata,
    metadataJson, hmetadataJson, encryptedManifest, hmanifest, manifestJson,
    hmanifestJson, manifest, hparse, h⟩ := hdecrypt
  cases h
  simp only [decrypt, ofService, hwrapped, hkey, hmetadata, hmetadataJson,
    hmanifest, hmanifestJson, parseDownloadManifest64_eq hparse hfits,
    Option.bind_eq_bind, Option.bind_some]

/-- The loop of the service writes the chunks that storage has. -/
theorem ofService_fetched {fileKey : Bytes} {chunks : List DownloadChunk} :
    ∀ {content file : Bytes},
      service.downloadChunks record fileKey content chunks = some file →
      ∃ pieces, (ofService service calls).Fetched record fileKey chunks
        pieces ∧ file = assemble content pieces := by
  induction chunks with
  | nil =>
      intro content file h
      cases h
      refine ⟨[], ⟨rfl, ?_⟩, rfl⟩
      intro piece hpiece
      cases hpiece
  | cons chunk rest ih =>
      intro content file h
      simp only [DownloadService.downloadChunks, Option.bind_eq_bind,
        Option.bind_eq_some_iff] at h
      obtain ⟨encrypted, hrange, plain, hplain, h⟩ := h
      obtain ⟨pieces, hfetched, rfl⟩ := ih h
      refine ⟨(chunk, plain) :: pieces, ⟨?_, ?_⟩, rfl⟩
      · rw [List.map_cons, hfetched.chunks]
      · intro piece hpiece
        rcases List.mem_cons.mp hpiece with rfl | hpiece
        · show (service.getRange _ _ _).bind _ = _
          rw [hrange, Option.bind_some]
          exact hplain
        · exact hfetched.plaintext piece hpiece

/-- What the service returns is what a system that allows it finds at the
target. -/
theorem downloadFile_ofService {file : Bytes}
    (hrecord : service.getFileRecord fileId = some record)
    (hdecrypt : service.decrypt record = some decrypted)
    (hfits : FitsWord decrypted.manifest)
    (hfile : service.downloadFile fileId = some file)
    (hallows : ∀ pieces, (ofService service calls).Fetched record
        decrypted.fileKey decrypted.manifest.chunks pieces →
      SystemAllows (ofService service calls) finalPath paths
        decrypted.manifest.size pieces) :
    ((ofService service calls).downloadFile fileId finalPath paths).1
      finalPath = some (.file file) := by
  have hdecrypt' : (ofService service calls).decrypt record = some decrypted :=
    ofService_decrypt hdecrypt hfits
  simp only [DownloadService.downloadFile, hrecord, hdecrypt,
    Option.bind_eq_bind, Option.bind_some, Option.bind_eq_some_iff] at hfile
  obtain ⟨empty, hempty, hchunks⟩ := hfile
  have hzeros : empty = List.replicate decrypted.manifest.size 0 := by
    unfold AtomicFileWriter.preallocate at hempty
    split at hempty
    next => cases hempty
    next =>
        cases hempty
        simp
  rw [hzeros] at hchunks
  obtain ⟨pieces, hfetched, rfl⟩ := ofService_fetched hchunks
  have hreturned := (downloadFile_returns hrecord hdecrypt' hfetched).mpr
    (hallows pieces hfetched)
  rcases downloadFile_cases (ofService service calls) fileId finalPath paths
    with ⟨hthrew, -⟩ | ⟨-, record', decrypted', pieces', hrecord', hdecrypted,
      hfetched', hpaths⟩
  · rw [hreturned] at hthrew
    cases hthrew
  · rw [show (ofService service calls).getFileRecord fileId = some record from
      hrecord] at hrecord'
    cases hrecord'
    rw [hdecrypt'] at hdecrypted
    cases hdecrypted
    rw [hpaths, Function.update_self, hfetched.unique hfetched']
    rfl

/-! ## A file of zeros -/

/-- A manifest that lists no chunk at all. -/
def hollowFile : Downloader Unit := fiveByteFile [] []

/-- The two chunks of the whole file fit it. -/
theorem wholeFile_complete : ∃ pieces,
    CommitsComplete wholeFile "f" "/t" (fun _ => none) wholeManifest pieces := by
  have hfetched : wholeFile.Fetched fiveByteRecord [] wholeManifest.chunks
      wholePieces := by
    refine ⟨rfl, ?_⟩
    intro piece hpiece
    simp only [wholePieces, List.mem_cons, List.not_mem_nil, or_false] at hpiece
    rcases hpiece with rfl | rfl <;> rfl
  refine ⟨wholePieces, (only_complete_iff rfl wholeFile_decrypts hfetched).mpr
    (Or.inr ⟨?_, rfl⟩)⟩
  intro piece hpiece
  simp only [wholePieces, List.mem_cons, List.not_mem_nil, or_false] at hpiece
  rcases hpiece with rfl | rfl <;> rfl

/-- Five zeros are committed under a manifest without chunks. -/
theorem hollowFile_commits : ¬ ∀ (d : Downloader Unit)
    (fileId finalPath : String) (paths : PathTable)
    (record : FileRecordResponse) (decrypted : DecryptedDownloadRecord)
    (pieces : List (DownloadChunk × Bytes)),
    d.getFileRecord fileId = some record →
    d.decrypt record = some decrypted →
    d.Fetched record decrypted.fileKey decrypted.manifest.chunks pieces →
    CommitsComplete d fileId finalPath paths decrypted.manifest pieces := by
  intro h
  have hdecrypt : hollowFile.decrypt fiveByteRecord = some
      { fileKey := [], metadataJson := []
        manifest := { size := 5, chunkSize := 4, name := "", mime := ""
                      chunks := [] } } := rfl
  have hfetched : hollowFile.Fetched fiveByteRecord [] [] [] := by
    refine ⟨rfl, ?_⟩
    intro piece hpiece
    cases hpiece
  have hreturned :
      (hollowFile.downloadFile "f" "/t" (fun _ => none)).2 = true := by
    rfl
  rcases h hollowFile "f" "/t" (fun _ => none) _ _ [] rfl hdecrypt hfetched with
    ⟨-, hcomplete⟩ | ⟨hthrew, -⟩
  · have honce := hcomplete.tiles.once 0 (by decide)
    cases honce
  · rw [hreturned] at hthrew
    cases hthrew

end ArkiveSync.CompleteDownloads
