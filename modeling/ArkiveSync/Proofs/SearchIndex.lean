import ArkiveSync.Model.SearchTokens

/-!
# The search index

Names are found again because whoever searches makes the same tokens of what
he types as the upload made of the name.  The tokens depend on the normal form
alone, and the normal form on the letters and digits alone, not on their case
nor on what separates them.

## Main results

* `createSearchTokenEntries_eq`: the tokens are those of the first 128 windows
  of the normal form.
* `search_tokens_canonical`: texts with one normal form have one index.
* `prepareCompletion_searchTokens`: the request that completes an upload holds
  the tokens of the name.
-/

namespace ArkiveSync.SearchIndex

open Library FileEncryptor

/-- Some bytes that `normalizeText` turns into a space, at least one. -/
def IsSeparatorRun (run : Bytes) : Prop :=
  run ≠ [] ∧ ∀ raw ∈ run, isKept raw = false

/-- The bytes are equal but for the case of letters. -/
def SameButCase (text text' : Bytes) : Prop :=
  text.map toLower = text'.map toLower

/-- The tokens of the first 128 different windows, in their order; without a
window no key is asked for. -/
def tokensOf (crypto : SearchCrypto) (unlocked : Except UploadError Bytes)
    (vaultId : Bytes) (ws : List Bytes) :
    Except UploadError (List UploadCompleteSearchToken) :=
  if ws = [] then
    .ok []
  else do
    let masterKey ← unlocked
    let searchKey ← takeBytesResult (crypto.deriveSearchKey masterKey)
      "arkive_derive_search_key"
    (ws.eraseDups.take 128).mapM fun w =>
      searchToken crypto searchKey vaultId (nameTerm w)

/-! ## Normal forms -/

theorem normalizeText_idempotent (text : Bytes) :
    normalizeText (normalizeText text) = normalizeText text :=
  normalizeText_of_normalized (normalized_normalizeText text)

theorem normalizeText_eq_of_sameButCase {text text' : Bytes}
    (h : SameButCase text text') : normalizeText text = normalizeText text' := by
  unfold normalizeText
  rw [← normalizeLoop_map_toLower text, h, normalizeLoop_map_toLower]

theorem normalizeText_separators {run run' : Bytes} (h : IsSeparatorRun run)
    (h' : IsSeparatorRun run') (front back : Bytes) :
    normalizeText (front ++ (run ++ back)) =
      normalizeText (front ++ (run' ++ back)) := by
  unfold normalizeText
  rw [normalizeLoop_append_congr (fun lastWasSpace => ?_) front false]
  rw [normalizeLoop_separators h.2 h.1, normalizeLoop_separators h'.2 h'.1]

theorem not_doubled {text : Bytes} (h : Normalized text) :
    ¬[32, 32] <:+: text := fun hinfix => by
  have hpair := h.single.infix hinfix
  rw [List.isChain_pair] at hpair
  exact hpair ⟨rfl, rfl⟩

/-! ## Tokens -/

section Tokens

variable (crypto : SearchCrypto) (unlocked : Except UploadError Bytes)
variable (vaultId : Bytes)

theorem createSearchTokenEntries_eq (text : Bytes) :
    createSearchTokenEntries crypto unlocked vaultId text =
      tokensOf crypto unlocked vaultId (windows (normalizeText text)) := by
  unfold createSearchTokenEntries tokensOf
  rw [termsForText_eq]
  by_cases hws : windows (normalizeText text) = []
  · rw [if_pos hws, hws]
    rfl
  have hterms : ((windows (normalizeText text)).map nameTerm).isEmpty =
      false := by
    simpa using hws
  dsimp only
  rw [if_neg hws, hterms, if_neg Bool.false_ne_true]
  congr 1
  funext masterKey
  congr 1
  funext searchKey
  have hloop := entriesFrom_eq crypto searchKey vaultId
    (windows (normalizeText text)) [] [] (by decide)
  rw [List.map_nil, unseen_nil_left] at hloop
  rw [hloop]
  simp

end Tokens

/-- The normal form of a text is its own normal form; it does not depend on
the case of letters nor on which separators stand in a row, and it has no space
at its ends and no two in a row.  The index of a text is the list of the tokens
of its windows of three bytes, each once, in the order of first occurrence and
at most 128 of them; so texts with one normal form have one index. -/
theorem search_tokens_canonical :
    (∀ text, normalizeText (normalizeText text) = normalizeText text) ∧
    (∀ text text', SameButCase text text' →
      normalizeText text = normalizeText text') ∧
    (∀ front run run' back, IsSeparatorRun run → IsSeparatorRun run' →
      normalizeText (front ++ (run ++ back)) =
        normalizeText (front ++ (run' ++ back))) ∧
    (∀ text, (normalizeText text).head? ≠ some 32 ∧
      (normalizeText text).getLast? ≠ some 32 ∧
      ¬[32, 32] <:+: normalizeText text) ∧
    (∀ ws : List Bytes, ws.eraseDups.Nodup ∧
      (∀ w, w ∈ ws.eraseDups ↔ w ∈ ws) ∧
      ws.eraseDups.Pairwise (fun w w' => ws.idxOf w < ws.idxOf w')) ∧
    (∀ crypto unlocked vaultId text,
      createSearchTokenEntries crypto unlocked vaultId text =
        tokensOf crypto unlocked vaultId (windows (normalizeText text))) ∧
    ∀ crypto unlocked vaultId text text',
      normalizeText text = normalizeText text' →
        createSearchTokenEntries crypto unlocked vaultId text =
          createSearchTokenEntries crypto unlocked vaultId text' := by
  refine ⟨normalizeText_idempotent,
    fun _ _ => normalizeText_eq_of_sameButCase,
    fun front run run' back h h' => normalizeText_separators h h' front back,
    fun text => ?_, fun ws => ?_, createSearchTokenEntries_eq,
    fun crypto unlocked vaultId text text' hnormal => ?_⟩
  · have hnormal := normalized_normalizeText text
    exact ⟨hnormal.first, hnormal.last, not_doubled hnormal⟩
  · exact ⟨nodup_eraseDups ws, fun _ => List.mem_eraseDups,
      pairwise_idxOf_eraseDups ws⟩
  · rw [createSearchTokenEntries_eq, createSearchTokenEntries_eq, hnormal]

/-- A crypto library whose digest is the input, and a key. -/
def echoCrypto : SearchCrypto where
  deriveSearchKey := some
  hmacSha256 _ data := some data

/-- `"Aab -AAB"` and `"aab  aab"`. -/
theorem search_tokens_canonical_aab :
    normalizeText [65, 97, 98, 32, 45, 65, 65, 66] =
        [97, 97, 98, 32, 97, 97, 98] ∧
      createSearchTokenEntries echoCrypto (.ok []) []
          [65, 97, 98, 32, 45, 65, 65, 66] =
        createSearchTokenEntries echoCrypto (.ok []) []
          [97, 97, 98, 32, 32, 97, 97, 98] := by
  have hcase := search_tokens_canonical.2.1 [65, 97, 98, 32, 45, 65, 65, 66]
    [97, 97, 98, 32, 45, 97, 97, 98] (by unfold SameButCase; decide)
  have hdash : IsSeparatorRun [32, 45] := ⟨List.cons_ne_nil _ _,
    List.forall_mem_cons.mpr ⟨rfl, List.forall_mem_singleton.mpr rfl⟩⟩
  have hspaces : IsSeparatorRun [32, 32] := ⟨List.cons_ne_nil _ _,
    List.forall_mem_cons.mpr ⟨rfl, List.forall_mem_singleton.mpr rfl⟩⟩
  have hrun := search_tokens_canonical.2.2.1 [97, 97, 98] [32, 45] [32, 32]
    [97, 97, 98] hdash hspaces
  exact ⟨by decide, search_tokens_canonical.2.2.2.2.2.2 _ _ _ _ _
    (hcase.trans hrun)⟩

/-! ## The index of an upload -/

/-- `createSearchTokenEntries` as the finalizer calls it. -/
def indexer (crypto : SearchCrypto) (unlocked : Except UploadError Bytes)
    (vaultId text : String) :
    Except UploadError (List UploadCompleteSearchToken) :=
  createSearchTokenEntries crypto unlocked (ArkiveAad.toBytes vaultId)
    (ArkiveAad.toBytes text)

/-- A completed upload is indexed by the windows of its name. -/
theorem prepareCompletion_searchTokens {ν : Type} {finalizer : UploadFinalizer ν}
    {crypto : SearchCrypto} {unlocked : Except UploadError Bytes}
    (hindex : finalizer.createSearchTokenEntries = indexer crypto unlocked)
    {nonces : CompletionNonces ν} {attempt : ThumbnailAttempt} {path : String}
    {size : Option Int} {started : StartUploadResponse} {plan : UploadPlan}
    {parts : List UploadedPartResult} {fileKey : Bytes}
    {artifacts : UploadArtifacts} {request : UploadCompleteRequest}
    (h : finalizer.prepareCompletion nonces attempt path size started plan
      parts fileKey = .ok (artifacts, request)) :
    tokensOf crypto unlocked (ArkiveAad.toBytes started.vaultId)
        (windows (normalizeText
          (ArkiveAad.toBytes (finalizer.describeFileMime path).name))) =
      .ok request.searchTokens := by
  unfold UploadFinalizer.prepareCompletion at h
  obtain ⟨manifest, -, h⟩ := UploadFinalizer.bind_ok h
  obtain ⟨encryptedManifest, -, h⟩ := UploadFinalizer.bind_ok h
  obtain ⟨wrapped, -, h⟩ := UploadFinalizer.bind_ok h
  obtain ⟨metadata, -, h⟩ := UploadFinalizer.bind_ok h
  obtain ⟨encryptedMetadata, -, h⟩ := UploadFinalizer.bind_ok h
  obtain ⟨tokens, htokens, h⟩ := UploadFinalizer.bind_ok h
  cases h
  rw [hindex] at htokens
  rw [← createSearchTokenEntries_eq]
  exact htokens

end ArkiveSync.SearchIndex
