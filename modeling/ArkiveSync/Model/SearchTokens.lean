import ArkiveSync.Library.FirstOccurrences
import ArkiveSync.Model.Base64
import ArkiveSync.Model.UploadFinalizer
import Mathlib.Data.List.Chain
import Mathlib.Data.List.DropRight

/-!
# Search tokens

A name is indexed by the keyed hashes of its windows of three bytes.  Before
it is cut up it is brought to a normal form: letters in lower case, digits and
dots stay, and whatever stands between them becomes one space.

## Main results

* `normalized_normalizeText`, `normalizeText_of_normalized`: the normal forms
  are the texts that are their own normal form.
* `normalizeLoop_map_toLower`, `normalizeLoop_separators`: what the normal form
  does not depend on.
* `entriesFrom_eq`: the loop over the terms hashes the first 128 that are
  different from one another.
-/

namespace ArkiveSync

open Library

namespace FileEncryptor

/-- `std::isupper` in the C locale. -/
def isUpper (raw : UInt8) : Bool := 65 ≤ raw.toNat && raw.toNat ≤ 90

/-- `std::tolower` in the C locale. -/
def toLower (raw : UInt8) : UInt8 := if isUpper raw then raw + 32 else raw

/-- `std::isalnum` in the C locale. -/
def isAlnum (raw : UInt8) : Bool :=
  isUpper raw || (97 ≤ raw.toNat && raw.toNat ≤ 122) ||
    (48 ≤ raw.toNat && raw.toNat ≤ 57)

/-- The bytes that `normalizeText` does not turn into a space. -/
def isKept (raw : UInt8) : Bool := isAlnum raw || toLower raw == 46

/-- The loop of `normalizeText`. -/
def normalizeLoop : Bool → Bytes → Bytes
  | _, [] => []
  | lastWasSpace, raw :: rest =>
      if isKept raw then
        toLower raw :: normalizeLoop false rest
      else if !lastWasSpace then
        32 :: normalizeLoop true rest
      else
        normalizeLoop lastWasSpace rest

/-- `normalizeText`; the spaces at both ends are taken off at last. -/
def normalizeText (value : Bytes) : Bytes :=
  ((normalizeLoop false value).dropWhile (· == 32)).rdropWhile (· == 32)

/-- `SearchTerm`. -/
structure SearchTerm where
  term : Bytes
  field : String
  weight : Int
  deriving DecidableEq, Repr

/-- `termsForText`. -/
def termsForText (text : Bytes) : List SearchTerm :=
  let normalized := normalizeText text
  if normalized.length < 3 then
    []
  else
    (List.range (normalized.length - 2)).map fun i =>
      { term := (normalized.drop i).take 3, field := "name", weight := 10 }

/-- A character of `encodeBase64URL`. -/
def urlChar (ch : Char) : Char :=
  if ch = '+' then '-' else if ch = '/' then '_' else ch

/-- `encodeBase64URL`: the padding is taken off. -/
def encodeBase64URL (bytes : Bytes) : String :=
  String.ofList (((encodeBase64Chars bytes).map urlChar).rdropWhile (· == '='))

/-- The functions of `RustCrypto` that the index uses; `none` is a call that
throws. -/
structure SearchCrypto where
  deriveSearchKey : Bytes → Option Bytes
  hmacSha256 : (key data : Bytes) → Option Bytes

/-- One entry of `createSearchTokenEntries`. -/
def searchToken (crypto : SearchCrypto) (searchKey vaultId : Bytes)
    (term : SearchTerm) : Except UploadError UploadCompleteSearchToken := do
  let digest ← takeBytesResult
    (crypto.hmacSha256 searchKey (vaultId ++ 58 :: term.term))
    "arkive_hmac_sha256"
  return { token := encodeBase64URL digest
           field := term.field
           weight := term.weight }

/-- `dedupeKey`. -/
def dedupeKey (term : SearchTerm) : Bytes :=
  ArkiveAad.toBytes term.field ++ 58 :: term.term

/-- The loop of `createSearchTokenEntries`. -/
def entriesFrom (crypto : SearchCrypto) (searchKey vaultId : Bytes) :
    List SearchTerm → List Bytes → List UploadCompleteSearchToken →
      Except UploadError (List UploadCompleteSearchToken)
  | [], _, entries => .ok entries
  | term :: rest, seen, entries =>
      if dedupeKey term ∈ seen then
        entriesFrom crypto searchKey vaultId rest seen entries
      else do
        let entry ← searchToken crypto searchKey vaultId term
        if 128 ≤ (entries ++ [entry]).length then
          return entries ++ [entry]
        else
          entriesFrom crypto searchKey vaultId rest (dedupeKey term :: seen)
            (entries ++ [entry])

/-- `createSearchTokenEntries`; `unlocked` is the master key that
`ensureUnlocked` leaves, or its exception. -/
def createSearchTokenEntries (crypto : SearchCrypto)
    (unlocked : Except UploadError Bytes) (vaultId text : Bytes) :
    Except UploadError (List UploadCompleteSearchToken) :=
  let terms := termsForText text
  if terms.isEmpty then
    .ok []
  else do
    let masterKey ← unlocked
    let searchKey ← takeBytesResult (crypto.deriveSearchKey masterKey)
      "arkive_derive_search_key"
    entriesFrom crypto searchKey vaultId terms [] []

example : normalizeText [32, 65, 66, 45, 45, 46, 67, 33] =
    [97, 98, 32, 46, 99] := by decide

/-! ## Normal forms -/

section Bytes

variable (raw : UInt8)

theorem toNat_toLower : (toLower raw).toNat =
    if isUpper raw then raw.toNat + 32 else raw.toNat := by
  unfold toLower
  by_cases h : isUpper raw = true
  · have hle : raw.toNat ≤ 90 := by
      unfold isUpper at h
      simp only [Bool.and_eq_true, decide_eq_true_eq] at h
      exact h.2
    rw [if_pos h, if_pos h, UInt8.toNat_add]
    show (raw.toNat + 32) % 256 = _
    omega
  · rw [if_neg h, if_neg h]

theorem isUpper_toLower : isUpper (toLower raw) = false := by
  have hlower := toNat_toLower raw
  unfold isUpper at hlower ⊢
  by_cases h : (decide (65 ≤ raw.toNat) && decide (raw.toNat ≤ 90)) = true
  · rw [if_pos h] at hlower
    simp only [Bool.and_eq_true, decide_eq_true_eq] at h
    simp only [Bool.and_eq_false_iff, decide_eq_false_iff_not]
    omega
  · rw [if_neg h] at hlower
    rw [hlower]
    simpa using h

@[simp] theorem toLower_toLower : toLower (toLower raw) = toLower raw := by
  rw [toLower, isUpper_toLower]
  rfl

@[simp] theorem isAlnum_toLower : isAlnum (toLower raw) = isAlnum raw := by
  have hlower := toNat_toLower raw
  unfold isAlnum
  rw [isUpper_toLower]
  by_cases h : isUpper raw = true
  · rw [if_pos h] at hlower
    rw [h]
    unfold isUpper at h
    simp only [Bool.and_eq_true, decide_eq_true_eq] at h
    have hletter : 97 ≤ (toLower raw).toNat ∧ (toLower raw).toNat ≤ 122 := by
      omega
    simp [hletter.1, hletter.2]
  · rw [if_neg h] at hlower
    rw [hlower, eq_false_of_ne_true h]

@[simp] theorem isKept_toLower : isKept (toLower raw) = isKept raw := by
  simp [isKept]

end Bytes

/-- A space is a separator. -/
theorem isKept_space : isKept 32 = false := by decide

/-- The loop sees no difference between a letter and its capital. -/
theorem normalizeLoop_map_toLower (value : Bytes) (lastWasSpace : Bool) :
    normalizeLoop lastWasSpace (value.map toLower) =
      normalizeLoop lastWasSpace value := by
  induction value generalizing lastWasSpace with
  | nil => rfl
  | cons raw rest ih =>
      simp only [List.map_cons, normalizeLoop, isKept_toLower, toLower_toLower,
        ih]

/-- What the loop makes of separators: a space, unless one was there. -/
theorem normalizeLoop_separators {run : Bytes}
    (hrun : ∀ raw ∈ run, isKept raw = false) (hne : run ≠ []) (rest : Bytes)
    (lastWasSpace : Bool) :
    normalizeLoop lastWasSpace (run ++ rest) =
      (if lastWasSpace then [] else [32]) ++ normalizeLoop true rest := by
  have hskip : ∀ run : Bytes, (∀ raw ∈ run, isKept raw = false) →
      normalizeLoop true (run ++ rest) = normalizeLoop true rest := by
    intro run
    induction run with
    | nil => intro _; rfl
    | cons raw run ih =>
        intro hall
        rw [List.cons_append, normalizeLoop,
          hall raw (List.mem_cons_self ..)]
        exact ih (fun b hb => hall b (List.mem_cons_of_mem _ hb))
  cases run with
  | nil => exact absurd rfl hne
  | cons raw run =>
      have hrest := hskip run (fun b hb => hrun b (List.mem_cons_of_mem _ hb))
      rw [List.cons_append, normalizeLoop, hrun raw (List.mem_cons_self ..)]
      cases lastWasSpace with
      | false => simp [hrest]
      | true => simp [hrest]

/-- A part of the text at the front leaves the loop in some state. -/
theorem normalizeLoop_append_congr {tail tail' : Bytes}
    (h : ∀ lastWasSpace, normalizeLoop lastWasSpace tail =
      normalizeLoop lastWasSpace tail') (front : Bytes) (lastWasSpace : Bool) :
    normalizeLoop lastWasSpace (front ++ tail) =
      normalizeLoop lastWasSpace (front ++ tail') := by
  induction front generalizing lastWasSpace with
  | nil => exact h lastWasSpace
  | cons raw rest ih => simp only [List.cons_append, normalizeLoop, ih]

/-- Two spaces side by side. -/
def NotBothSpaces (a b : UInt8) : Prop := ¬(a = 32 ∧ b = 32)

/-- Lower case letters, digits, dots and single spaces, with none of these at
an end. -/
structure Normalized (text : Bytes) : Prop where
  bytes : ∀ b ∈ text, b = 32 ∨ isKept b = true ∧ toLower b = b
  single : text.IsChain NotBothSpaces
  first : text.head? ≠ some 32
  last : text.getLast? ≠ some 32

theorem ne_space_of_isKept {b : UInt8} (h : isKept b = true) : b ≠ 32 := by
  rintro rfl
  exact absurd h (by decide)

theorem bytes_normalizeLoop (value : Bytes) (lastWasSpace : Bool) :
    ∀ b ∈ normalizeLoop lastWasSpace value,
      b = 32 ∨ isKept b = true ∧ toLower b = b := by
  induction value generalizing lastWasSpace with
  | nil =>
      intro b hb
      cases hb
  | cons raw rest ih =>
      rw [normalizeLoop]
      split
      next hkept =>
          intro b hb
          rcases List.mem_cons.mp hb with rfl | hrest
          · exact Or.inr ⟨by rw [isKept_toLower, hkept], toLower_toLower raw⟩
          · exact ih _ b hrest
      next =>
          split
          · intro b hb
            rcases List.mem_cons.mp hb with rfl | hrest
            · exact Or.inl rfl
            · exact ih _ b hrest
          · exact ih _

/-- After a space the loop writes no space, and it never writes two. -/
theorem single_normalizeLoop (value : Bytes) (lastWasSpace : Bool) :
    (normalizeLoop lastWasSpace value).IsChain NotBothSpaces ∧
      (lastWasSpace = true →
        (normalizeLoop lastWasSpace value).head? ≠ some 32) := by
  induction value generalizing lastWasSpace with
  | nil => exact ⟨.nil, fun _ => by simp [normalizeLoop]⟩
  | cons raw rest ih =>
      rw [normalizeLoop]
      split
      next hkept =>
          have hne : toLower raw ≠ 32 :=
            ne_space_of_isKept (by rw [isKept_toLower, hkept])
          refine ⟨List.isChain_cons.mpr ⟨?_, (ih false).1⟩, fun _ => ?_⟩
          · exact fun _ _ h => hne h.1
          · simpa using hne
      next =>
          split
          next hlast =>
              refine ⟨List.isChain_cons.mpr ⟨?_, (ih true).1⟩, fun h => ?_⟩
              · intro b hb hboth
                rw [hboth.2] at hb
                exact (ih true).2 rfl hb
              · rw [h] at hlast
                cases hlast
          next => exact ih lastWasSpace

theorem normalized_normalizeText (value : Bytes) :
    Normalized (normalizeText value) := by
  have hsuffix := List.dropWhile_suffix (l := normalizeLoop false value)
    (· == 32)
  have hpre := List.rdropWhile_prefix (· == (32 : UInt8))
    ((normalizeLoop false value).dropWhile (· == 32))
  refine ⟨fun b hb => ?_, ?_, ?_, ?_⟩
  · exact bytes_normalizeLoop value false b
      (hsuffix.subset (hpre.subset hb))
  · have hmid := (single_normalizeLoop value false).1.suffix hsuffix
    obtain ⟨t, ht⟩ := hpre
    rw [← ht] at hmid
    exact hmid.left_of_append
  · intro hfirst
    have hmid : ((normalizeLoop false value).dropWhile (· == 32)).head? =
        some 32 := by
      obtain ⟨t, ht⟩ := hpre
      rw [← ht, List.head?_append]
      unfold normalizeText at hfirst
      rw [hfirst]
      rfl
    have hnot := List.head?_dropWhile_not (· == (32 : UInt8))
      (normalizeLoop false value)
    rw [hmid] at hnot
    simp at hnot
  · intro hlast
    have hne : normalizeText value ≠ [] := by
      intro h
      rw [h] at hlast
      cases hlast
    have hnot := List.rdropWhile_last_not (· == (32 : UInt8))
      ((normalizeLoop false value).dropWhile (· == 32)) hne
    rw [List.getLast?_eq_some_getLast hne] at hlast
    exact hnot (by simpa [normalizeText] using Option.some.inj hlast)

/-- The loop leaves single spaces and lower case alone. -/
theorem normalizeLoop_of_single {text : Bytes} {lastWasSpace : Bool}
    (hbytes : ∀ b ∈ text, b = 32 ∨ isKept b = true ∧ toLower b = b)
    (hsingle : text.IsChain NotBothSpaces)
    (hfirst : lastWasSpace = true → text.head? ≠ some 32) :
    normalizeLoop lastWasSpace text = text := by
  induction text generalizing lastWasSpace with
  | nil => rfl
  | cons b rest ih =>
      have hrest : ∀ c ∈ rest, c = 32 ∨ isKept c = true ∧ toLower c = c :=
        fun c hc => hbytes c (List.mem_cons_of_mem _ hc)
      obtain ⟨hhead, htail⟩ := List.isChain_cons.mp hsingle
      rw [normalizeLoop]
      rcases hbytes b (List.mem_cons_self ..) with rfl | ⟨hkept, hlower⟩
      · cases lastWasSpace with
        | true => exact absurd rfl (hfirst rfl)
        | false =>
            have htrue : normalizeLoop true rest = rest :=
              ih hrest htail (fun _ hc => hhead 32 hc ⟨rfl, rfl⟩)
            rw [isKept_space, htrue]
            rfl
      · rw [if_pos hkept, hlower, ih hrest htail (fun h => by cases h)]

theorem normalizeText_of_normalized {text : Bytes} (h : Normalized text) :
    normalizeText text = text := by
  unfold normalizeText
  rw [normalizeLoop_of_single h.bytes h.single (fun hlast => by cases hlast)]
  have hfront : text.dropWhile (· == 32) = text := by
    cases text with
    | nil => rfl
    | cons b rest =>
        have hne : b ≠ 32 := fun hb => h.first (by rw [hb]; rfl)
        rw [List.dropWhile_cons_of_neg (by simpa using hne)]
  rw [hfront, List.rdropWhile_eq_self_iff]
  intro hne hlast
  exact h.last (by
    rw [List.getLast?_eq_some_getLast hne]
    simpa using hlast)

/-! ## The windows of a text -/

/-- The windows of three bytes, from the front on. -/
def windows : Bytes → List Bytes
  | a :: b :: c :: rest => [a, b, c] :: windows (b :: c :: rest)
  | _ => []

/-- The term of a window. -/
def nameTerm (window : Bytes) : SearchTerm :=
  { term := window, field := "name", weight := 10 }

theorem dedupeKey_nameTerm {window window' : Bytes}
    (h : dedupeKey (nameTerm window) = dedupeKey (nameTerm window')) :
    window = window' := by
  have htail := List.append_cancel_left h
  exact (List.cons.inj htail).2

theorem windows_eq (text : Bytes) :
    windows text =
      (List.range (text.length - 2)).map fun i => (text.drop i).take 3 := by
  fun_induction windows text with
  | case1 a b c rest ih =>
      have hlength : (a :: b :: c :: rest).length - 2 =
          (b :: c :: rest).length - 2 + 1 := by simp
      rw [ih, hlength, List.range_succ_eq_map, List.map_cons, List.map_map]
      rfl
  | case2 text hshort =>
      have hlength : text.length - 2 = 0 := by
        match text, hshort with
        | [], _ => rfl
        | [_], _ => rfl
        | [_, _], _ => rfl
        | a :: b :: c :: rest, hshort => exact absurd rfl (hshort a b c rest)
      rw [hlength]
      rfl

theorem termsForText_eq (text : Bytes) :
    termsForText text = (windows (normalizeText text)).map nameTerm := by
  unfold termsForText
  dsimp only
  rw [windows_eq]
  split
  next hshort =>
      have hlength : (normalizeText text).length - 2 = 0 := by omega
      rw [hlength]
      rfl
  next =>
      rw [List.map_map]
      rfl

/-! ## The loop over the terms -/

section Entries

variable (crypto : SearchCrypto) (searchKey vaultId : Bytes)

/-- The loop appends the tokens of the windows that it has not seen, up to the
limit of 128. -/
theorem entriesFrom_eq (ws : List Bytes) :
    ∀ (seen : List Bytes) (entries : List UploadCompleteSearchToken),
      entries.length < 128 →
      entriesFrom crypto searchKey vaultId (ws.map nameTerm)
          (seen.map (fun w => dedupeKey (nameTerm w))) entries =
        (entries ++ ·) <$> ((unseen seen ws).take (128 - entries.length)).mapM
          (fun w => searchToken crypto searchKey vaultId (nameTerm w)) := by
  induction ws with
  | nil =>
      intro seen entries _
      rw [unseen_nil_right, List.take_nil, List.mapM_nil, map_pure,
        List.append_nil]
      rfl
  | cons w rest ih =>
      intro seen entries hlt
      rw [List.map_cons, entriesFrom]
      by_cases hseen : w ∈ seen
      · rw [if_pos (List.mem_map_of_mem hseen), unseen_cons_of_mem hseen]
        exact ih seen entries hlt
      have hmem : dedupeKey (nameTerm w) ∉
          seen.map (fun w => dedupeKey (nameTerm w)) := by
        intro hmem
        obtain ⟨w', hw', heq⟩ := List.mem_map.mp hmem
        exact hseen (dedupeKey_nameTerm heq ▸ hw')
      obtain ⟨left, hleft⟩ : ∃ left, 128 - entries.length = left + 1 :=
        ⟨127 - entries.length, by omega⟩
      rw [if_neg hmem, unseen_cons_of_not_mem hseen, hleft,
        List.take_succ_cons, List.mapM_cons, map_bind]
      congr 1
      funext entry
      rw [map_bind]
      by_cases hfull : 128 ≤ (entries ++ [entry]).length
      · have hnone : left = 0 := by
          rw [List.length_append, List.length_singleton] at hfull
          omega
        rw [if_pos hfull, hnone, List.take_zero, List.mapM_nil, pure_bind,
          map_pure]
      · have hlength : 128 - (entries ++ [entry]).length = left := by
          rw [List.length_append, List.length_singleton]
          omega
        have hrest := ih (w :: seen) (entries ++ [entry]) (by omega)
        rw [hlength, List.map_cons] at hrest
        rw [if_neg hfull, hrest, map_eq_pure_bind]
        congr 1
        funext tokens
        rw [map_pure, List.append_assoc, List.singleton_append]

end Entries

end FileEncryptor

end ArkiveSync
