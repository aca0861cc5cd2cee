import ArkiveSync.Model.ManifestArithmetic

/-!
# The ranges of a manifest

An accepted manifest says where the chunks of a file lie, in storage and in
the file.  Nothing is checked but that no chunk is empty; the ranges follow one
another because they are computed so.  When the manifest states no plain sizes,
the number of its chunks decides whether the last one ends with the file.

## Main results

* `total_of_omitted`: the plain sizes that are made up add to the file, when
  there are as many chunks as the file has.
* `manifest_ranges`: the ranges are consecutive, and tile the file.
-/

namespace ArkiveSync.ManifestRanges

open Library

variable {fallbackChunkSize plaintextSize : Nat}

/-- A chunk for each entry. -/
theorem length_parseDownloadChunks64 {items : List Json} :
    ∀ {index cipherOffset plainOffset : Nat} {chunks : List DownloadChunk},
      parseDownloadChunks64 fallbackChunkSize plaintextSize index cipherOffset
        plainOffset items = some chunks → chunks.length = items.length := by
  induction items with
  | nil =>
      intro index cipherOffset plainOffset chunks h
      cases h
      rfl
  | cons json rest ih =>
      intro index cipherOffset plainOffset chunks h
      obtain ⟨_, _, _, _, more, _, _, _, _, _, hmore, rfl⟩ :=
        parseDownloadChunks64_cons h
      rw [List.length_cons, ih hmore, List.length_cons]

/-- An entry that leaves out its plain size. -/
def OmitsPlainSize (json : Json) : Prop := json.field? "plain_size" = none

theorem stated_of_omits {json : Json} {n : Nat} (h : OmitsPlainSize json)
    (hstated : json.valueUInt64 "plain_size" 0 = some n) : n = 0 := by
  unfold Json.valueUInt64 Json.valueUnsigned at hstated
  cases json with
  | object fields =>
      unfold OmitsPlainSize at h
      rw [h] at hstated
      cases hstated
      rfl
  | _ => cases hstated

/-- A made-up size: a full chunk, or the rest. -/
theorem resolvedPlainSize_zero (hfallback : 0 < fallbackChunkSize)
    {plainOffset : Nat} (hleft : plainOffset < plaintextSize) :
    resolvedPlainSize fallbackChunkSize plaintextSize plainOffset 0 =
      min fallbackChunkSize (plaintextSize - plainOffset) := by
  unfold resolvedPlainSize
  rw [if_pos ⟨rfl, hfallback⟩]
  split <;> omega

/-- The made-up sizes from some offset on add to what is left, when there are
just enough entries; by induction on the entries. -/
theorem total_of_omitted (hfallback : 0 < fallbackChunkSize)
    (hplaintext : plaintextSize < 18446744073709551616) {items : List Json} :
    ∀ {index cipherOffset plainOffset : Nat} {chunks : List DownloadChunk},
      plainOffset ≤ plaintextSize →
      plaintextSize - plainOffset ≤ items.length * fallbackChunkSize →
      items.length * fallbackChunkSize <
        plaintextSize - plainOffset + fallbackChunkSize →
      (∀ json ∈ items, OmitsPlainSize json) →
      parseDownloadChunks64 fallbackChunkSize plaintextSize index cipherOffset
        plainOffset items = some chunks →
      total (chunks.map DownloadChunk.plainSpan) =
        plaintextSize - plainOffset := by
  induction items with
  | nil =>
      intro index cipherOffset plainOffset chunks _ hleft _ _ h
      cases h
      rw [List.length_nil, Nat.zero_mul] at hleft
      rw [List.map_nil, total_nil]
      omega
  | cons json rest ih =>
      intro index cipherOffset plainOffset chunks hoffset hleft henough homits h
      obtain ⟨cipherSize, stated, plainSize, hash, more, _, hstated, hresolved,
        _, _, hmore, rfl⟩ := parseDownloadChunks64_cons h
      rw [List.length_cons, Nat.succ_mul] at hleft henough
      have hzero := stated_of_omits (homits json List.mem_cons_self) hstated
      rw [hzero, resolvedPlainSize_zero hfallback (by omega)] at hresolved
      have hnext : (plainOffset + plainSize) % 18446744073709551616 =
          plainOffset + plainSize := Nat.mod_eq_of_lt (by omega)
      rw [hnext] at hmore
      have hrest : total (more.map DownloadChunk.plainSpan) =
          plaintextSize - (plainOffset + plainSize) := by
        refine ih (by omega) ?_ ?_
          (fun json' hjson' => homits json' (List.mem_cons_of_mem _ hjson'))
          hmore
        · omega
        · -- The last entry is the only one that is cut short.
          rcases Nat.le_total fallbackChunkSize (plaintextSize - plainOffset)
            with hfull | hshort
          · omega
          · have hlast : rest.length = 0 := by
              by_contra hmany
              have hone := Nat.le_mul_of_pos_left fallbackChunkSize
                (Nat.pos_of_ne_zero hmany)
              omega
            rw [hlast, Nat.zero_mul]
            omega
      rw [List.map_cons, total_cons, hrest]
      show plainSize + _ = _
      omega

/-- As many entries as there are chunks in the file are just enough. -/
theorem length_mul_of_ceil {length : Nat} (hfallback : 0 < fallbackChunkSize)
    (h : length =
      (plaintextSize + fallbackChunkSize - 1) / fallbackChunkSize) :
    plaintextSize ≤ length * fallbackChunkSize ∧
      length * fallbackChunkSize < plaintextSize + fallbackChunkSize := by
  have hsplit := Nat.div_add_mod (plaintextSize + fallbackChunkSize - 1)
    fallbackChunkSize
  have hrest := Nat.mod_lt (plaintextSize + fallbackChunkSize - 1) hfallback
  rw [← h, Nat.mul_comm] at hsplit
  omega

/-- Every accepted manifest whose sizes add to 64-bit numbers has its chunks
one behind the other; without stated plain sizes, as many chunks as the file
has tile it. -/
theorem manifest_ranges {text : JsonText} {bytes : Bytes}
    {manifest : DownloadManifest}
    (hfallback : fallbackChunkSize < 18446744073709551616)
    (hplaintext : plaintextSize < 18446744073709551616)
    (h : parseDownloadManifest64 text bytes fallbackChunkSize plaintextSize =
      some manifest) :
    (total (manifest.chunks.map DownloadChunk.cipherSpan) <
        18446744073709551616 →
      total (manifest.chunks.map DownloadChunk.plainSpan) <
        18446744073709551616 →
      (∀ (i : Nat) (chunk : DownloadChunk),
        manifest.chunks[i]? = some chunk →
        chunk.index = i ∧ chunk.cipherStart ≤ chunk.cipherEnd ∧
          chunk.cipherEnd - chunk.cipherStart + 1 = chunk.cipherSize) ∧
      Consecutive 0 (manifest.chunks.map DownloadChunk.cipherSpan) ∧
      Consecutive 0 (manifest.chunks.map DownloadChunk.plainSpan)) ∧
    (∀ json items, text.parse bytes = some json →
      json.field? "chunks" = some (.array items) →
      (∀ item ∈ items, OmitsPlainSize item) →
      0 < fallbackChunkSize → 1 ≤ plaintextSize →
      manifest.chunks.length =
        (plaintextSize + fallbackChunkSize - 1) / fallbackChunkSize →
      Consecutive 0 (manifest.chunks.map DownloadChunk.plainSpan) ∧
      Tiles (manifest.chunks.map DownloadChunk.plainSpan) plaintextSize) := by
  obtain ⟨json, items, hjson, hitems, -, hchunks⟩ :=
    parseDownloadManifest64_eq_some h
  have hlaid := parseDownloadChunks64_spec hfallback (by decide) (by decide)
    hchunks
  constructor
  · intro hcipher hplain
    have hstarts : Consecutive 0
        (manifest.chunks.map DownloadChunk.cipherSpan) :=
      hlaid.cipher.consecutive (by omega)
    refine ⟨?_, hstarts, hlaid.plain.consecutive (by omega)⟩
    intro i chunk hchunk
    have hmem := List.mem_of_getElem? hchunk
    have hsized := hlaid.sized chunk hmem
    have hinside := hstarts.inside chunk.cipherSpan
      (List.mem_map_of_mem hmem)
    change chunk.cipherStart + chunk.cipherSize ≤ _ at hinside
    have hnumber := hlaid.numbered i chunk hchunk
    have hsize := hsized.cipher
    have hend := hsized.cipherEnd
    omega
  · intro json' items' hjson' hitems' homits hpos _ hlength
    rw [hjson] at hjson'
    cases hjson'
    rw [hitems] at hitems'
    cases hitems'
    rw [length_parseDownloadChunks64 hchunks] at hlength
    obtain ⟨hlow, hhigh⟩ := length_mul_of_ceil hpos hlength
    have htotal : total (manifest.chunks.map DownloadChunk.plainSpan) =
        plaintextSize := by
      rw [total_of_omitted hpos hplaintext (Nat.zero_le _) (by omega)
        (by omega) homits hchunks, Nat.sub_zero]
    have hstarts : Consecutive 0
        (manifest.chunks.map DownloadChunk.plainSpan) :=
      hlaid.plain.consecutive (by omega)
    exact ⟨hstarts, (hstarts.tiles_iff _).mpr htotal⟩

/-- A text library that knows one manifest: two chunks without plain sizes. -/
def twoChunks : JsonText where
  dump _ := none
  parse _ := some (.object [("chunks", .array
    [.object [("cipher_size", .number 10)],
      .object [("cipher_size", .number 7)]])])

/-- A file of five bytes in chunks of four. -/
theorem twoChunks_ranges : ∃ manifest,
    parseDownloadManifest64 twoChunks [] 4 5 = some manifest ∧
      manifest.chunks.map DownloadChunk.plainSpan =
        [{ start := 0, length := 4 }, { start := 4, length := 1 }] ∧
      Tiles (manifest.chunks.map DownloadChunk.plainSpan) 5 := by
  have hparsed : parseDownloadManifest64 twoChunks [] 4 5 = some
      { size := 5, chunkSize := 4, name := "", mime := ""
        chunks := [chunkAt64 0 0 0 10 4 "", chunkAt64 1 10 4 7 1 ""] } := by
    rfl
  have hranges := manifest_ranges (by decide) (by decide) hparsed
  refine ⟨_, hparsed, rfl, ?_⟩
  refine (hranges.2 _ _ rfl rfl ?_ (by decide) (by decide) rfl).2
  intro item hitem
  simp only [List.mem_cons, List.not_mem_nil, or_false] at hitem
  rcases hitem with rfl | rfl <;> rfl

end ArkiveSync.ManifestRanges
