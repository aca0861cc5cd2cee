import ArkiveSync.Library.Spans
import ArkiveSync.Model.FileManifest

/-!
# The offsets of a manifest in 64 bits

`parseDownloadManifest` adds up the sizes that a manifest states.  Its offsets
are `uint64_t` and wrap without a word; here they do, too.

## Main results

* `parseDownloadChunks64_spec`: what is true of the chunks of every manifest
  that is accepted.
* `parseDownloadChunks64_eq`: while nothing wraps, the chunks are those of
  `parseDownloadChunks`.
-/

namespace ArkiveSync

open Library

/-- `json.value(key, default)` for a `uint64_t`.  A number that does not fit is
a `double` to the library, which this does not follow. -/
def Json.valueUInt64 (json : Json) (key : String) (default : Nat) :
    Option Nat :=
  (json.valueUnsigned key default).map (· % 18446744073709551616)

/-- The plain size of a chunk, when the manifest states none: a full chunk, or
what is left of the file. -/
def resolvedPlainSize (fallbackChunkSize plaintextSize plainOffset
    stated : Nat) : Nat :=
  if stated = 0 ∧ fallbackChunkSize > 0 then
    if plaintextSize > plainOffset ∧
        plaintextSize - plainOffset < fallbackChunkSize then
      plaintextSize - plainOffset
    else
      fallbackChunkSize
  else
    stated

/-- The chunk at the running offsets; `cipherEnd` is the last byte of it. -/
def chunkAt64 (index cipherOffset plainOffset cipherSize plainSize : Nat)
    (hash : String) : DownloadChunk :=
  { index := index
    cipherStart := cipherOffset
    cipherEnd := (cipherOffset + cipherSize + 18446744073709551615) %
      18446744073709551616
    cipherSize := cipherSize
    plainStart := plainOffset
    plainSize := plainSize
    hash := hash }

/-- The loop of `parseDownloadManifest` on its running offsets. -/
def parseDownloadChunks64 (fallbackChunkSize plaintextSize : Nat) :
    (index cipherOffset plainOffset : Nat) → List Json →
      Option (List DownloadChunk)
  | _, _, _, [] => some []
  | index, cipherOffset, plainOffset, json :: rest => do
      let cipherSize ← json.valueUInt64 "cipher_size" 0
      let stated ← json.valueUInt64 "plain_size" 0
      let plainSize := resolvedPlainSize fallbackChunkSize plaintextSize
        plainOffset stated
      if cipherSize = 0 ∨ plainSize = 0 then
        none
      else
        let hash ← json.valueString "hash" ""
        let chunks ← parseDownloadChunks64 fallbackChunkSize plaintextSize
          (index + 1) ((cipherOffset + cipherSize) % 18446744073709551616)
          ((plainOffset + plainSize) % 18446744073709551616) rest
        some (chunkAt64 index cipherOffset plainOffset cipherSize plainSize
          hash :: chunks)

/-- `parseDownloadManifest`; `none` is an exception. -/
def parseDownloadManifest64 (text : JsonText) (manifest : Bytes)
    (fallbackChunkSize plaintextSize : Nat) : Option DownloadManifest := do
  let json ← text.parse manifest
  let size ← json.valueUInt64 "size" plaintextSize
  let chunkSize ← json.valueUInt64 "chunk_size" fallbackChunkSize
  let name ← json.valueString "name" ""
  let mime ← json.valueString "mime" ""
  match json.field? "chunks" with
  | some (.array items) =>
      let chunks ← parseDownloadChunks64 fallbackChunkSize plaintextSize 0 0 0
        items
      some { size := size, chunkSize := chunkSize, name := name, mime := mime
             chunks := chunks }
  | _ => none

namespace DownloadChunk

/-- Where the chunk lies in storage. -/
def cipherSpan (chunk : DownloadChunk) : Span :=
  { start := chunk.cipherStart, length := chunk.cipherSize }

/-- Where the chunk lies in the file. -/
def plainSpan (chunk : DownloadChunk) : Span :=
  { start := chunk.plainStart, length := chunk.plainSize }

end DownloadChunk

/-! ## One chunk -/

theorem Json.valueUInt64_lt {json : Json} {key : String} {default n : Nat}
    (h : json.valueUInt64 key default = some n) : n < 18446744073709551616 := by
  unfold Json.valueUInt64 at h
  rw [Option.map_eq_some_iff] at h
  obtain ⟨m, -, rfl⟩ := h
  exact Nat.mod_lt _ (by decide)

theorem Json.valueUInt64_eq {json : Json} {key : String} {default n : Nat}
    (h : json.valueUnsigned key default = some n)
    (hlt : n < 18446744073709551616) :
    json.valueUInt64 key default = some n := by
  unfold Json.valueUInt64
  rw [h, Option.map_some, Nat.mod_eq_of_lt hlt]

/-- What the loop does with one entry. -/
theorem parseDownloadChunks64_cons {fallbackChunkSize plaintextSize index
    cipherOffset plainOffset : Nat} {json : Json} {rest : List Json}
    {chunks : List DownloadChunk}
    (h : parseDownloadChunks64 fallbackChunkSize plaintextSize index
      cipherOffset plainOffset (json :: rest) = some chunks) :
    ∃ cipherSize stated plainSize hash more,
      json.valueUInt64 "cipher_size" 0 = some cipherSize ∧
      json.valueUInt64 "plain_size" 0 = some stated ∧
      plainSize = resolvedPlainSize fallbackChunkSize plaintextSize plainOffset
        stated ∧
      0 < cipherSize ∧ 0 < plainSize ∧
      parseDownloadChunks64 fallbackChunkSize plaintextSize (index + 1)
        ((cipherOffset + cipherSize) % 18446744073709551616)
        ((plainOffset + plainSize) % 18446744073709551616) rest = some more ∧
      chunks = chunkAt64 index cipherOffset plainOffset cipherSize plainSize
        hash :: more := by
  simp only [parseDownloadChunks64, Option.bind_eq_bind,
    Option.bind_eq_some_iff] at h
  obtain ⟨cipherSize, hcipher, stated, hstated, h⟩ := h
  split at h
  next => cases h
  next hsizes =>
      rw [Option.bind_eq_some_iff] at h
      obtain ⟨hash, -, h⟩ := h
      rw [Option.bind_eq_some_iff] at h
      obtain ⟨more, hmore, h⟩ := h
      cases h
      exact ⟨cipherSize, stated, _, hash, more, hcipher, hstated, rfl,
        by omega, by omega, hmore, rfl⟩

theorem resolvedPlainSize_lt {fallbackChunkSize plaintextSize plainOffset
    stated : Nat} (hfallback : fallbackChunkSize < 18446744073709551616)
    (hstated : stated < 18446744073709551616) :
    resolvedPlainSize fallbackChunkSize plaintextSize plainOffset stated <
      18446744073709551616 := by
  unfold resolvedPlainSize
  split
  · split <;> omega
  · exact hstated

/-! ## All chunks -/

/-- The sizes of a chunk, and where its ciphertext ends. -/
structure WellSized (chunk : DownloadChunk) : Prop where
  cipher : 0 < chunk.cipherSize ∧ chunk.cipherSize < 18446744073709551616
  plain : 0 < chunk.plainSize ∧ chunk.plainSize < 18446744073709551616
  cipherEnd : chunk.cipherEnd =
    (chunk.cipherStart + chunk.cipherSize + 18446744073709551615) %
      18446744073709551616

/-- Chunks numbered from `index` on, whose offsets are running sums modulo
`2 ^ 64`. -/
structure LaidOut64 (index cipherOffset plainOffset : Nat)
    (chunks : List DownloadChunk) : Prop where
  numbered : ∀ i chunk, chunks[i]? = some chunk → chunk.index = index + i
  cipher : Wraps 18446744073709551616 cipherOffset
    (chunks.map DownloadChunk.cipherSpan)
  plain : Wraps 18446744073709551616 plainOffset
    (chunks.map DownloadChunk.plainSpan)
  sized : ∀ chunk ∈ chunks, WellSized chunk

theorem LaidOut64.nil (index cipherOffset plainOffset : Nat) :
    LaidOut64 index cipherOffset plainOffset [] where
  numbered i chunk h := by simp at h
  cipher := trivial
  plain := trivial
  sized chunk h := by cases h

/-- One more chunk in front. -/
theorem LaidOut64.cons {index cipherOffset plainOffset cipherSize
    plainSize : Nat} {hash : String} {more : List DownloadChunk}
    (hcipher : cipherOffset < 18446744073709551616)
    (hplain : plainOffset < 18446744073709551616)
    (hcipherSize : 0 < cipherSize ∧ cipherSize < 18446744073709551616)
    (hplainSize : 0 < plainSize ∧ plainSize < 18446744073709551616)
    (hmore : LaidOut64 (index + 1)
      ((cipherOffset + cipherSize) % 18446744073709551616)
      ((plainOffset + plainSize) % 18446744073709551616) more) :
    LaidOut64 index cipherOffset plainOffset
      (chunkAt64 index cipherOffset plainOffset cipherSize plainSize hash ::
        more) where
  numbered i chunk h := by
    cases i with
    | zero =>
        cases h
        rfl
    | succ i =>
        rw [List.getElem?_cons_succ] at h
        rw [hmore.numbered i chunk h]
        omega
  cipher := ⟨(Nat.mod_eq_of_lt hcipher).symm,
    hmore.cipher.congr (Nat.mod_mod _ _)⟩
  plain := ⟨(Nat.mod_eq_of_lt hplain).symm,
    hmore.plain.congr (Nat.mod_mod _ _)⟩
  sized chunk h := by
    rcases List.mem_cons.mp h with rfl | h
    · exact ⟨hcipherSize, hplainSize, rfl⟩
    · exact hmore.sized chunk h

/-- Whatever the entries say, the chunks are numbered and laid out. -/
theorem parseDownloadChunks64_spec {fallbackChunkSize plaintextSize : Nat}
    (hfallback : fallbackChunkSize < 18446744073709551616) {items : List Json} :
    ∀ {index cipherOffset plainOffset : Nat} {chunks : List DownloadChunk},
      cipherOffset < 18446744073709551616 →
      plainOffset < 18446744073709551616 →
      parseDownloadChunks64 fallbackChunkSize plaintextSize index cipherOffset
        plainOffset items = some chunks →
      LaidOut64 index cipherOffset plainOffset chunks := by
  induction items with
  | nil =>
      intro index cipherOffset plainOffset chunks _ _ h
      cases h
      exact .nil _ _ _
  | cons json rest ih =>
      intro index cipherOffset plainOffset chunks hcipher hplain h
      obtain ⟨cipherSize, stated, plainSize, hash, more, hsize, hstated,
        hresolved, hpos, hpos', hmore, rfl⟩ := parseDownloadChunks64_cons h
      have hlt : plainSize < 18446744073709551616 := by
        rw [hresolved]
        exact resolvedPlainSize_lt hfallback (Json.valueUInt64_lt hstated)
      exact .cons hcipher hplain ⟨hpos, Json.valueUInt64_lt hsize⟩
        ⟨hpos', hlt⟩ (ih (Nat.mod_lt _ (by decide)) (Nat.mod_lt _ (by decide))
          hmore)

/-- What an accepted manifest is made of. -/
theorem parseDownloadManifest64_eq_some {text : JsonText} {bytes : Bytes}
    {fallbackChunkSize plaintextSize : Nat} {manifest : DownloadManifest}
    (h : parseDownloadManifest64 text bytes fallbackChunkSize plaintextSize =
      some manifest) :
    ∃ json items, text.parse bytes = some json ∧
      json.field? "chunks" = some (.array items) ∧
      json.valueUInt64 "size" plaintextSize = some manifest.size ∧
      parseDownloadChunks64 fallbackChunkSize plaintextSize 0 0 0 items =
        some manifest.chunks := by
  simp only [parseDownloadManifest64, Option.bind_eq_bind,
    Option.bind_eq_some_iff] at h
  obtain ⟨json, hjson, size, hsize, chunkSize, -, name, -, mime, -, h⟩ := h
  split at h
  next items hitems =>
      rw [Option.bind_eq_some_iff] at h
      obtain ⟨chunks, hchunks, h⟩ := h
      cases h
      exact ⟨json, items, hjson, hitems, hsize, hchunks⟩
  next => cases h

/-! ## Without wrapping -/

/-- As long as the offsets fit, the loop is the one on natural numbers. -/
theorem parseDownloadChunks64_eq {fallbackChunkSize plaintextSize : Nat}
    {items : List Json} :
    ∀ {index cipherOffset plainOffset : Nat} {chunks : List DownloadChunk},
      parseDownloadChunks fallbackChunkSize plaintextSize index cipherOffset
        plainOffset items = some chunks →
      cipherOffset + total (chunks.map DownloadChunk.cipherSpan) <
        18446744073709551616 →
      plainOffset + total (chunks.map DownloadChunk.plainSpan) <
        18446744073709551616 →
      parseDownloadChunks64 fallbackChunkSize plaintextSize index cipherOffset
        plainOffset items = some chunks := by
  induction items with
  | nil =>
      intro index cipherOffset plainOffset chunks h _ _
      exact h
  | cons json rest ih =>
      intro index cipherOffset plainOffset chunks h hcipher hplain
      simp only [parseDownloadChunks, Option.bind_eq_bind,
        Option.bind_eq_some_iff] at h
      obtain ⟨cipherSize, hsize, stated, hstated, h⟩ := h
      change (if cipherSize = 0 ∨ resolvedPlainSize fallbackChunkSize
        plaintextSize plainOffset stated = 0 then none else _) = _ at h
      split at h
      next => cases h
      next hsizes =>
          rw [Option.bind_eq_some_iff] at h
          obtain ⟨hash, hhash, h⟩ := h
          rw [Option.bind_eq_some_iff] at h
          obtain ⟨more, hmore, h⟩ := h
          change parseDownloadChunks _ _ _ _ (plainOffset + resolvedPlainSize
            fallbackChunkSize plaintextSize plainOffset stated) _ = _ at hmore
          cases h
          rw [List.map_cons, total_cons] at hcipher hplain
          change cipherOffset + (cipherSize + _) < _ at hcipher
          change plainOffset + (resolvedPlainSize fallbackChunkSize
            plaintextSize plainOffset stated + _) < _ at hplain
          have hstatedLt : stated < 18446744073709551616 := by
            by_contra hlarge
            have hkept : resolvedPlainSize fallbackChunkSize plaintextSize
                plainOffset stated = stated :=
              if_neg (by omega)
            omega
          have hsize64 := Json.valueUInt64_eq hsize (by omega)
          have hstated64 := Json.valueUInt64_eq hstated hstatedLt
          have hend : (cipherOffset + cipherSize + 18446744073709551615) %
              18446744073709551616 = cipherOffset + cipherSize - 1 := by
            omega
          have hmore64 := ih hmore (by omega) (by omega)
          simp only [parseDownloadChunks64, Option.bind_eq_bind, hsize64,
            hstated64, Option.bind_some, if_neg hsizes, hhash]
          rw [Nat.mod_eq_of_lt (by omega), Nat.mod_eq_of_lt (by omega), hmore64,
            Option.bind_some, chunkAt64, hend]
          rfl

/-- A manifest whose numbers, and whose sums, are 64-bit numbers. -/
structure FitsWord (manifest : DownloadManifest) : Prop where
  size : manifest.size < 18446744073709551616
  chunkSize : manifest.chunkSize < 18446744073709551616
  cipher : total (manifest.chunks.map DownloadChunk.cipherSpan) <
    18446744073709551616
  plain : total (manifest.chunks.map DownloadChunk.plainSpan) <
    18446744073709551616

/-- So is the manifest as a whole. -/
theorem parseDownloadManifest64_eq {text : JsonText} {bytes : Bytes}
    {fallbackChunkSize plaintextSize : Nat} {manifest : DownloadManifest}
    (h : parseDownloadManifest text bytes fallbackChunkSize plaintextSize =
      some manifest) (hfits : FitsWord manifest) :
    parseDownloadManifest64 text bytes fallbackChunkSize plaintextSize =
      some manifest := by
  simp only [parseDownloadManifest, Option.bind_eq_bind,
    Option.bind_eq_some_iff] at h
  obtain ⟨json, hjson, size, hsize, chunkSize, hchunkSize, name, hname, mime,
    hmime, h⟩ := h
  split at h
  next items hitems =>
      rw [Option.bind_eq_some_iff] at h
      obtain ⟨chunks, hchunks, h⟩ := h
      cases h
      have hchunks64 := parseDownloadChunks64_eq hchunks
        (by simpa using hfits.cipher) (by simpa using hfits.plain)
      simp only [parseDownloadManifest64, hjson,
        Json.valueUInt64_eq hsize hfits.size,
        Json.valueUInt64_eq hchunkSize hfits.chunkSize, hname, hmime, hitems,
        hchunks64, Option.bind_eq_bind, Option.bind_some]
  next => cases h

end ArkiveSync
