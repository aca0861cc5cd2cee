import ArkiveSync.Model.AtomicDownload
import ArkiveSync.Proofs.UploadDownload

/-!
# A download is all or nothing

Until the rename, a download writes to its temporary file and to nothing else;
after an exception the handler and the destructor take the file away.  Every
way through the function ends in one of two file systems.

## Main results

* `writeAndCommit_opened`: how the `try` block ends.
* `download_all_or_nothing`: what an exception leaves, and what a normal return
  does.
-/

namespace ArkiveSync.AtomicDownloads

open Library Downloader WriterState

variable {ν : Type}

/-- The file that a download makes: the preallocated one with its chunks. -/
def downloaded (size : Nat) (pieces : List (DownloadChunk × Bytes)) : Bytes :=
  assemble (List.replicate size 0) pieces

/-- The `try` block commits a file that has every chunk in it, or leaves what a
rollback removes. -/
theorem writeAndCommit_opened (d : Downloader ν) (record : FileRecordResponse)
    (finalPath : String) (paths : PathTable)
    (decrypted : DecryptedDownloadRecord) (content : Bytes) :
    ((d.writeAndCommit record decrypted
          (opened d.calls finalPath paths content)).2 = true ∧
      ∃ pieces, d.Fetched record decrypted.fileKey decrypted.manifest.chunks
          pieces ∧
        (d.writeAndCommit record decrypted
            (opened d.calls finalPath paths content)).1.rollback.paths =
          Function.update
            (Function.update paths (d.calls.tempPath finalPath) none)
            finalPath (some (.file (assemble content pieces)))) ∨
    ((d.writeAndCommit record decrypted
          (opened d.calls finalPath paths content)).2 = false ∧
      (d.writeAndCommit record decrypted
          (opened d.calls finalPath paths content)).1.rollback.paths =
        Function.update paths (d.calls.tempPath finalPath) none) := by
  obtain ⟨content', hopened, hdone⟩ := downloadChunks_opened d record
    decrypted.fileKey d.calls finalPath paths decrypted.manifest.chunks content
  unfold writeAndCommit
  cases hloop : d.downloadChunks record decrypted.fileKey
      (opened d.calls finalPath paths content) decrypted.manifest.chunks with
  | mk w returned =>
      rw [hloop] at hopened hdone
      cases returned with
      | false =>
          change w = opened d.calls finalPath paths content' at hopened
          subst hopened
          exact Or.inr ⟨rfl, rollback_opened⟩
      | true =>
          obtain ⟨pieces, hfetched, hcontent⟩ := hdone rfl
          change w = opened d.calls finalPath paths content' at hopened
          subst hopened
          by_cases hcommits : Commits d.calls finalPath paths
          · obtain ⟨hreturned, hpaths⟩ :=
              commit_opened_of content' hcommits
            subst hcontent
            exact Or.inl ⟨hreturned, pieces, hfetched, hpaths⟩
          · exact Or.inr (commit_opened_of_not content' hcommits)

/-- The two ways a download can end. -/
theorem downloadFile_cases (d : Downloader ν) (fileId finalPath : String)
    (paths : PathTable) :
    ((d.downloadFile fileId finalPath paths).2 = false ∧
      ((d.downloadFile fileId finalPath paths).1 = paths ∨
        (d.downloadFile fileId finalPath paths).1 =
          Function.update paths (d.calls.tempPath finalPath) none)) ∨
    ((d.downloadFile fileId finalPath paths).2 = true ∧
      ∃ record decrypted pieces,
        d.getFileRecord fileId = some record ∧
        d.decrypt record = some decrypted ∧
        d.Fetched record decrypted.fileKey decrypted.manifest.chunks pieces ∧
        (d.downloadFile fileId finalPath paths).1 =
          Function.update
            (Function.update paths (d.calls.tempPath finalPath) none) finalPath
            (some (.file (downloaded decrypted.manifest.size pieces)))) := by
  cases hrecord : d.getFileRecord fileId with
  | none =>
      have hthrew : d.downloadFile fileId finalPath paths = (paths, false) := by
        simp only [downloadFile, hrecord]
      rw [hthrew]
      exact Or.inl ⟨rfl, Or.inl rfl⟩
  | some record =>
      cases hdecrypt : d.decrypt record with
      | none =>
          have hthrew : d.downloadFile fileId finalPath paths =
              (paths, false) := by
            simp only [downloadFile, hrecord, hdecrypt]
          rw [hthrew]
          exact Or.inl ⟨rfl, Or.inl rfl⟩
      | some decrypted =>
          rcases openWriter_eq d.calls finalPath paths with
            ⟨-, hopen⟩ | ⟨-, hopen⟩
          · rcases preallocate_opened d.calls finalPath paths
              decrypted.manifest.size with
              ⟨-, -, hallocate⟩ | ⟨-, hallocate⟩
            · have hends := writeAndCommit_opened d record finalPath paths
                decrypted (List.replicate decrypted.manifest.size 0)
              rcases hcommit : d.writeAndCommit record decrypted
                (opened d.calls finalPath paths
                  (List.replicate decrypted.manifest.size 0)) with
                ⟨w, returned⟩
              rw [hcommit] at hends
              cases returned with
              | true =>
                  have hreturned : d.downloadFile fileId finalPath paths =
                      (w.rollback.paths, true) := by
                    simp only [downloadFile, hrecord, hdecrypt, hopen,
                      hallocate, hcommit]
                  rw [hreturned]
                  rcases hends with ⟨-, pieces, hfetched, hpaths⟩ | ⟨hno, -⟩
                  · exact Or.inr ⟨rfl, record, decrypted, pieces, rfl,
                      hdecrypt, hfetched, hpaths⟩
                  · cases hno
              | false =>
                  have hthrew : d.downloadFile fileId finalPath paths =
                      (w.rollback.rollback.paths, false) := by
                    simp only [downloadFile, hrecord, hdecrypt, hopen,
                      hallocate, hcommit]
                  rw [hthrew, rollback_rollback]
                  rcases hends with ⟨hno, -⟩ | ⟨-, hpaths⟩
                  · cases hno
                  · exact Or.inl ⟨rfl, Or.inr hpaths⟩
            · have hthrew : d.downloadFile fileId finalPath paths =
                  ((opened d.calls finalPath paths []).rollback.paths,
                    false) := by
                simp only [downloadFile, hrecord, hdecrypt, hopen, hallocate]
              rw [hthrew]
              exact Or.inl ⟨rfl, Or.inr rollback_opened⟩
          · have hthrew : d.downloadFile fileId finalPath paths =
                (paths, false) := by
              simp only [downloadFile, hrecord, hdecrypt, hopen]
            rw [hthrew]
            exact Or.inl ⟨rfl, Or.inl rfl⟩

/-- Whatever fails, and however the writes are split: after an exception the
target and every other path are as they were, and a temporary file that the
download has made is gone; after a normal return the target is the
preallocated file with the plaintext of every chunk at its place, and there is
no temporary file. -/
theorem download_all_or_nothing (d : Downloader ν) (fileId finalPath : String)
    (paths after : PathTable) :
    (d.downloadFile fileId finalPath paths = (after, false) →
      after finalPath = paths finalPath ∧
      (∀ path, path ≠ d.calls.tempPath finalPath → after path = paths path) ∧
      (after = paths ∨ after (d.calls.tempPath finalPath) = none)) ∧
    (d.downloadFile fileId finalPath paths = (after, true) →
      (∃ record decrypted pieces,
        d.getFileRecord fileId = some record ∧
        d.decrypt record = some decrypted ∧
        d.Fetched record decrypted.fileKey decrypted.manifest.chunks pieces ∧
        after finalPath = some (.file
          (downloaded decrypted.manifest.size pieces))) ∧
      after (d.calls.tempPath finalPath) = none ∧
      ∀ path, path ≠ finalPath → path ≠ d.calls.tempPath finalPath →
        after path = paths path) := by
  have hne := d.calls.tempPath_ne finalPath
  constructor
  · intro h
    rcases downloadFile_cases d fileId finalPath paths with
      ⟨-, hpaths⟩ | ⟨hreturned, -⟩
    · rw [h] at hpaths
      rcases hpaths with hsame | hremoved
      · change after = paths at hsame
        subst hsame
        exact ⟨rfl, fun _ _ => rfl, Or.inl rfl⟩
      · change after = _ at hremoved
        subst hremoved
        refine ⟨Function.update_of_ne hne.symm _ _, ?_,
          Or.inr (Function.update_self ..)⟩
        intro path hpath
        exact Function.update_of_ne hpath _ _
    · rw [h] at hreturned
      cases hreturned
  · intro h
    rcases downloadFile_cases d fileId finalPath paths with
      ⟨hthrew, -⟩ | ⟨-, record, decrypted, pieces, hrecord, hdecrypt, hfetched,
        hpaths⟩
    · rw [h] at hthrew
      cases hthrew
    · rw [h] at hpaths
      change after = _ at hpaths
      subst hpaths
      refine ⟨⟨record, decrypted, pieces, hrecord, hdecrypt, hfetched,
        Function.update_self ..⟩, ?_, ?_⟩
      · rw [Function.update_of_ne hne, Function.update_self]
      · intro path hfinal htemp
        rw [Function.update_of_ne hfinal, Function.update_of_ne htemp]

/-- The text of a manifest that declares five bytes and lists these chunks. -/
def fiveBytes (chunks : List Json) : JsonText where
  dump _ := none
  parse _ := some (.object [("size", .number 5), ("chunks", .array chunks)])

def fiveByteRecord : FileRecordResponse :=
  { fileId := "f", vaultId := "v", chunkSize := 4, totalChunks := 2
    plaintextSize := 5, encryptedHash := "", encryptedMetadata := ""
    encryptedFileKey := "", encryptedManifest := "", sourceUrl := "u" }

/-- A server with one file, under that manifest. -/
def fiveByteFile (chunks : List Json) (stored : Bytes) : Downloader Unit where
  crypto := UploadDownload.tagCrypto
  text := fiveBytes chunks
  masterKey := some [7]
  getFileRecord _ := some fiveByteRecord
  getRange _ _ offset length := some ((stored.drop offset).take length)
  calls := { hex := "00" }

/-- Two chunks that fit the five bytes. -/
def wholeFile : Downloader Unit :=
  fiveByteFile
    [.object [("cipher_size", .number 5), ("plain_size", .number 4)],
      .object [("cipher_size", .number 2), ("plain_size", .number 1)]]
    [0, 1, 2, 3, 4, 0, 5]

def wholeManifest : DownloadManifest :=
  { size := 5, chunkSize := 4, name := "", mime := ""
    chunks := [chunkAt64 0 0 0 5 4 "", chunkAt64 1 5 4 2 1 ""] }

/-- What its chunks decrypt to. -/
def wholePieces : List (DownloadChunk × Bytes) :=
  [(chunkAt64 0 0 0 5 4 "", [1, 2, 3, 4]), (chunkAt64 1 5 4 2 1 "", [5])]

theorem wholeFile_decrypts : wholeFile.decrypt fiveByteRecord = some
    { fileKey := [], metadataJson := [], manifest := wholeManifest } := rfl

/-- The same download, with a write that is interrupted and split. -/
def splitFile : Downloader Unit :=
  { wholeFile with
    calls := { hex := "00", pwrites := fun _ => [.interrupted, .wrote 1] } }

/-- And with a rename that fails. -/
def unnamedFile : Downloader Unit :=
  { wholeFile with calls := { hex := "00", rename := false } }

/-- The first of them leaves no temporary file, the second no file at all. -/
theorem splitFile_downloads :
    (∃ after, splitFile.downloadFile "f" "/t" (fun _ => none) = (after, true) ∧
      after (splitFile.calls.tempPath "/t") = none) ∧
    (∃ after,
      unnamedFile.downloadFile "f" "/t" (fun _ => none) = (after, false) ∧
        after "/t" = none) := by
  have hsplit : splitFile.downloadFile "f" "/t" (fun _ => none) =
      ((splitFile.downloadFile "f" "/t" (fun _ => none)).1, true) :=
    Prod.ext rfl rfl
  have hunnamed : unnamedFile.downloadFile "f" "/t" (fun _ => none) =
      ((unnamedFile.downloadFile "f" "/t" (fun _ => none)).1, false) :=
    Prod.ext rfl rfl
  refine ⟨⟨_, hsplit, ?_⟩, ⟨_, hunnamed, ?_⟩⟩
  · exact ((download_all_or_nothing splitFile "f" "/t" (fun _ => none)
      _).2 hsplit).2.1
  · exact ((download_all_or_nothing unnamedFile "f" "/t" (fun _ => none)
      _).1 hunnamed).1

end ArkiveSync.AtomicDownloads
