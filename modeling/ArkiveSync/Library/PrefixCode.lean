import Mathlib.Data.List.Basic

/-!
# Prefix codes

Words that begin with a tag and go on with parts joined by a separator.  When
no tag is a prefix of another the tag can be read off the word, whatever
follows it; when no part holds the separator the parts can be read off too.

## Main results

* `PrefixFree.tag_eq`: equal words have equal tags.
* `PrefixFree.parts_eq`: and, without separators in them, equal parts.
-/

namespace ArkiveSync.Library

variable {κ α : Type}

/-- No code word is a prefix of the code word of something else. -/
def PrefixFree (code : κ → List α) : Prop :=
  ∀ k k', code k <+: code k' → k = k'

/-- The tag, then the parts with the separator between them. -/
def tagged (code : κ → List α) (sep : α) (k : κ) (parts : List (List α)) :
    List α :=
  code k ++ [sep].intercalate parts

namespace PrefixFree

variable {code : κ → List α} (hcode : PrefixFree code)

include hcode

/-- Of two code words at the front of one word, one is a prefix of the
other. -/
theorem eq_of_append_eq {k k' : κ} {rest rest' : List α}
    (h : code k ++ rest = code k' ++ rest') : k = k' := by
  have hleft : code k <+: code k ++ rest := List.prefix_append _ _
  have hright : code k' <+: code k ++ rest := h ▸ List.prefix_append _ _
  rcases List.prefix_or_prefix_of_prefix hleft hright with hle | hle
  · exact hcode k k' hle
  · exact (hcode k' k hle).symm

theorem tag_eq {sep : α} {k k' : κ} {parts parts' : List (List α)}
    (h : tagged code sep k parts = tagged code sep k' parts') : k = k' :=
  eq_of_append_eq hcode h

end PrefixFree

/-- Joining parts without the separator loses nothing, but for the number of
parts: no part and one empty part are joined to the same word. -/
theorem intercalate_injective [DecidableEq α] {sep : α}
    {parts parts' : List (List α)} (hne : parts ≠ []) (hne' : parts' ≠ [])
    (hfree : ∀ p ∈ parts, sep ∉ p) (hfree' : ∀ p ∈ parts', sep ∉ p)
    (h : [sep].intercalate parts = [sep].intercalate parts') :
    parts = parts' := by
  rw [← List.splitOn_intercalate sep hfree hne, h,
    List.splitOn_intercalate sep hfree' hne']

theorem PrefixFree.parts_eq [DecidableEq α] {code : κ → List α}
    (hcode : PrefixFree code) {sep : α} {k k' : κ}
    {parts parts' : List (List α)} (hne : parts ≠ []) (hne' : parts' ≠ [])
    (hfree : ∀ p ∈ parts, sep ∉ p) (hfree' : ∀ p ∈ parts', sep ∉ p)
    (h : tagged code sep k parts = tagged code sep k' parts') :
    parts = parts' := by
  obtain rfl := hcode.tag_eq h
  exact intercalate_injective hne hne' hfree hfree'
    (List.append_cancel_left h)

end ArkiveSync.Library
