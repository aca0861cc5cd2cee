import ArkiveSync.Model.Aad
import ArkiveSync.Model.Base64
import ArkiveSync.Model.StoredTimes

/-!
# Encodings

What the text forms of the program promise: base64 comes back from its text
however the text is laid out, and the additional data of two encryptions are
the same only when the encryptions are about the same thing.

## Main results

* `decodeBase64_of_withSpaces`: decoding undoes encoding, white space or not.
* `aads_separate`: AADs of different kinds are different, and within a kind
  they tell their arguments apart.
-/

namespace ArkiveSync.Encodings

open Library

/-! ## Base64 -/

/-- Decoding on the wrapping `int` gives the encoded bytes back, from the
encoded text and from that text with any white space put into it. -/
theorem decodeBase64_of_withSpaces (bytes : Bytes) :
    decodeBase64Int (encodeBase64 bytes) = some bytes ∧
      ∀ text : String, WithSpaces (encodeBase64 bytes).toList text.toList →
        decodeBase64Int text = some bytes := by
  refine ⟨?_, fun text htext => ?_⟩
  · rw [decodeBase64Int_eq]
    exact decodeBase64_encodeBase64 bytes
  · rw [decodeBase64Int_eq, decodeBase64, htext.decodeBase64From_eq]
    exact decodeBase64_encodeBase64 bytes

/-- Two bytes, with blanks in front, between and behind. -/
theorem decodeBase64_of_withSpaces_blanks :
    decodeBase64Int (encodeBase64 [255, 254]) = some [255, 254] ∧
      decodeBase64Int " / /\n4\t= " = some [255, 254] := by
  have hencoded : (encodeBase64 [255, 254]).toList = ['/', '/', '4', '='] := by
    decide
  have h := decodeBase64_of_withSpaces [255, 254]
  refine ⟨h.1, h.2 " / /\n4\t= " ?_⟩
  rw [hencoded]
  exact .insert (by decide) (.keep _ (.insert (by decide) (.keep _
    (.insert (by decide) (.keep _ (.insert (by decide) (.keep _
      (.insert (by decide) .nil))))))))

/-! ## Additional data -/

/-- None of the strings among the arguments holds a colon. -/
def ColonFree (aad : Aad) : Prop := ∀ id ∈ aad.ids, ':' ∉ id.toList

theorem colon_not_mem_toString (n : Int) : ':' ∉ (toString n).toList := by
  intro h
  rcases mem_toString_int h with hsign | hdigit
  · exact absurd hsign (by decide)
  · exact absurd hdigit (by decide)

/-- Nor do the integers in decimal. -/
theorem colon_not_mem_parts {aad : Aad} (h : ColonFree aad) :
    ∀ p ∈ aad.parts.map String.toList, ':' ∉ p := by
  intro p hp
  obtain ⟨text, htext, rfl⟩ := List.mem_map.mp hp
  cases aad with
  | fileChunk vaultId fileId chunkIndex chunkSize totalChunks =>
      simp only [Aad.parts, List.mem_cons, List.not_mem_nil, or_false] at htext
      rcases htext with rfl | rfl | rfl | rfl | rfl
      · exact h _ (by simp [Aad.ids])
      · exact h _ (by simp [Aad.ids])
      · exact colon_not_mem_toString chunkIndex
      · exact colon_not_mem_toString chunkSize
      · exact colon_not_mem_toString totalChunks
  | _ => exact h _ htext

/-- Equal texts are of one kind, whatever the ids are. -/
theorem kind_eq_of_value_eq {a b : Aad} (h : a.value = b.value) :
    a.kind = b.kind := by
  have htagged := congrArg String.toList h
  rw [Aad.value_eq_tagged, Aad.value_eq_tagged] at htagged
  exact Aad.kindPrefix_prefixFree.tag_eq htagged

/-- AADs of one kind with the same parts have the same arguments. -/
theorem eq_of_parts_eq {a b : Aad} (hkind : a.kind = b.kind)
    (hparts : a.parts = b.parts) : a = b := by
  cases a with
  | fileChunk =>
      cases b with
      | fileChunk =>
          simp only [Aad.parts, List.cons.injEq] at hparts
          obtain ⟨rfl, rfl, hindex, hsize, htotal, -⟩ := hparts
          rw [toString_int_injective hindex, toString_int_injective hsize,
            toString_int_injective htotal]
      | _ => cases hkind
  | _ => cases b <;> simp_all [Aad.kind, Aad.parts, Aad.ids]

/-- A constant is the only AAD of its kind; the others have parts. -/
theorem eq_or_parts_ne_nil {a b : Aad} (hkind : a.kind = b.kind) :
    a = b ∨ a.parts ≠ [] ∧ b.parts ≠ [] := by
  cases a <;> cases b <;> simp_all [Aad.kind, Aad.parts, Aad.ids]

/-- The loop of `ByteArray.toList` appends what is left of the array. -/
theorem toList_loop (bytes : ByteArray) (i : Nat) (acc : List UInt8) :
    ByteArray.toList.loop bytes i acc =
      acc.reverse ++ bytes.data.toList.drop i := by
  fun_induction ByteArray.toList.loop bytes i acc with
  | case1 i acc hlt ih =>
      have hsize : i < bytes.data.toList.length := hlt
      have hget : bytes.get! i = bytes.data.toList[i] := by
        show bytes.data[i]! = _
        rw [getElem!_pos bytes.data i hlt, Array.getElem_toList]
      rw [ih, List.drop_eq_getElem_cons hsize, hget]
      simp
  | case2 i acc hge =>
      have hsize : bytes.data.toList.length ≤ i := Nat.le_of_not_lt hge
      rw [List.drop_eq_nil_of_le hsize, List.append_nil]

/-- What the cipher is given determines the text. -/
theorem toBytes_injective : Function.Injective ArkiveAad.toBytes := by
  intro a b h
  unfold ArkiveAad.toBytes ByteArray.toList at h
  rw [toList_loop, toList_loop] at h
  have hdata : a.toUTF8.data = b.toUTF8.data := by
    apply Array.toList_inj.mp
    simpa using h
  exact String.toByteArray_inj.mp (ByteArray.ext hdata)

/-- AADs of different constants or constructors differ, for any ids; AADs of
one constructor whose ids hold no colon have equal arguments when they are
equal.  The same holds of their bytes. -/
theorem aads_separate :
    (∀ a b : Aad, a.kind ≠ b.kind → a.value ≠ b.value) ∧
      (∀ a b : Aad, a.kind = b.kind → ColonFree a → ColonFree b →
        a.value = b.value → a = b) ∧
      Function.Injective ArkiveAad.toBytes := by
  refine ⟨fun a b hkind hvalue => hkind (kind_eq_of_value_eq hvalue), ?_,
    toBytes_injective⟩
  intro a b hkind hfree hfree' hvalue
  rcases eq_or_parts_ne_nil hkind with heq | ⟨hne, hne'⟩
  · exact heq
  have htagged := congrArg String.toList hvalue
  rw [Aad.value_eq_tagged, Aad.value_eq_tagged] at htagged
  have hparts := Aad.kindPrefix_prefixFree.parts_eq (by simpa using hne)
    (by simpa using hne') (colon_not_mem_parts hfree)
    (colon_not_mem_parts hfree') htagged
  exact eq_of_parts_eq hkind
    (List.map_injective_iff.mpr (fun _ _ => String.toList_inj.mp) hparts)

/-- A file key of an id with a colon and a share key differ, chunks of a file
with their numbers exchanged differ, and equal chunks have equal arguments. -/
theorem aads_separate_chunks :
    (Aad.fileKey "a:b" "c").value ≠ (Aad.shareKey "a:b:c").value ∧
      (Aad.fileChunk "v" "f" 1 2 12).value ≠
        (Aad.fileChunk "v" "f" 12 2 1).value ∧
      Aad.fileChunk "v" "f" (-1) 2 3 = Aad.fileChunk "v" "f" (-1) 2 3 := by
  have hfree : ∀ chunkIndex chunkSize totalChunks : Int,
      ColonFree (.fileChunk "v" "f" chunkIndex chunkSize totalChunks) := by
    intro chunkIndex chunkSize totalChunks
    show ∀ id ∈ ["v", "f"], ':' ∉ id.toList
    decide
  refine ⟨aads_separate.1 _ _ (by decide), fun h => ?_,
    aads_separate.2.1 _ _ rfl (hfree _ _ _) (hfree _ _ _) rfl⟩
  have heq := aads_separate.2.1 (.fileChunk "v" "f" 1 2 12)
    (.fileChunk "v" "f" 12 2 1) rfl (hfree _ _ _) (hfree _ _ _) h
  exact absurd heq (by decide)

end ArkiveSync.Encodings
