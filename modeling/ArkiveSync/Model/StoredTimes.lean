import Mathlib.Data.List.TakeWhile
import ArkiveSync.Model.Base64

/-!
# The text of a modification time

`file_time_type` counts nanoseconds in 64 bits.  `toMtimeString` stores whole
milliseconds as decimal text, and `parseMtime` reads them back.

## Main results

* `stoll_toString`: the decimal text of a 64-bit integer reads back as it was.
* `parseMtime_toMtimeString`: what the column gives back is the stored number
  of milliseconds; the rest is gone.
-/

namespace ArkiveSync

/-- The range of a `long long`. -/
def fitsInt64 (n : Int) : Prop := -9223372036854775808 ≤ n ∧ n ≤ int64Max

instance (n : Int) : Decidable (fitsInt64 n) := by
  unfold fitsInt64
  infer_instance

/-- `std::filesystem::file_time_type`. -/
structure FileTime where
  ns : Int
  fits : fitsInt64 ns

/-- The value of the digits in front; `none` when there are none. -/
def leadingDigits (text : List Char) : Option Nat :=
  let digits := text.takeWhile Char.isDigit
  if digits.isEmpty then none else some (Nat.ofDigitChars 10 digits 0)

/-- A number with its sign. -/
def signedDigits : List Char → Option Int
  | '-' :: text => (leadingDigits text).map (fun n : Nat => -(n : Int))
  | '+' :: text => (leadingDigits text).map Int.ofNat
  | text => (leadingDigits text).map Int.ofNat

/-- `std::stoll`: blanks, a sign and digits, whatever follows.  `none` is an
exception. -/
def stoll (text : String) : Option Int :=
  (signedDigits (text.toList.dropWhile isSpace)).bind (fun n =>
    if fitsInt64 n then some n else none)

/-- `toMtimeString`. -/
def toMtimeString (time : FileTime) : String := toString (toMtimeMs time.ns)

/-- `parseMtime` of a column that is not null, in nanoseconds. -/
def parseMtime (raw : String) : Option Int :=
  (stoll raw).map (· * 1000000)

example : stoll " -12x" = some (-12) := by decide

/-! ## Decimal text -/

theorem leadingDigits_toDigits (n : Nat) :
    leadingDigits (Nat.toDigits 10 n) = some n := by
  have hall : ∀ c ∈ Nat.toDigits 10 n, c.isDigit = true := fun c hc =>
    Nat.isDigit_of_mem_toDigits (by decide) (by decide) hc
  unfold leadingDigits
  rw [List.takeWhile_eq_self_iff.mpr hall]
  have hne : Nat.toDigits 10 n ≠ [] := Nat.toDigits_ne_nil
  simp [hne]

/-- A digit is neither a sign nor a blank. -/
theorem not_isSpace_of_isDigit {c : Char} (h : c.isDigit = true) :
    isSpace c = false := by
  rw [Char.isDigit_iff_toNat] at h
  have hlow : 48 ≤ c.toNat := h.1
  unfold isSpace
  rw [Bool.or_eq_false_iff, Bool.and_eq_false_iff, decide_eq_false_iff_not,
    decide_eq_false_iff_not, decide_eq_false_iff_not]
  refine ⟨?_, Or.inr (by omega)⟩
  rintro rfl
  revert hlow
  decide

theorem signedDigits_toDigits (n : Nat) :
    signedDigits (Nat.toDigits 10 n) = some (n : Int) := by
  have hread := leadingDigits_toDigits n
  have hall : ∀ c ∈ Nat.toDigits 10 n, c.isDigit = true := fun c hc =>
    Nat.isDigit_of_mem_toDigits (by decide) (by decide) hc
  unfold signedDigits
  split
  next text htext =>
      rw [htext] at hall
      exact absurd (hall '-' (List.mem_cons_self ..)) (by decide)
  next text htext =>
      rw [htext] at hall
      exact absurd (hall '+' (List.mem_cons_self ..)) (by decide)
  next =>
      rw [hread]
      rfl

/-- Nothing is skipped in front of a number. -/
theorem dropWhile_isSpace_toDigits (n : Nat) :
    (Nat.toDigits 10 n).dropWhile isSpace = Nat.toDigits 10 n := by
  cases htext : Nat.toDigits 10 n with
  | nil => rfl
  | cons c text =>
      have hdigit : c.isDigit = true :=
        Nat.isDigit_of_mem_toDigits (by decide) (by decide)
          (htext ▸ List.mem_cons_self ..)
      rw [List.dropWhile_cons, not_isSpace_of_isDigit hdigit]
      rfl

theorem toList_toString_ofNat (n : Nat) :
    (toString (Int.ofNat n)).toList = Nat.toDigits 10 n := by
  show (Nat.repr n).toList = _
  simp [Nat.repr]

theorem toList_toString_negSucc (n : Nat) :
    (toString (Int.negSucc n)).toList = '-' :: Nat.toDigits 10 (n + 1) := by
  show ("-" ++ Nat.repr (n + 1)).toList = _
  simp [Nat.repr]

theorem signedDigits_toString (n : Int) :
    signedDigits ((toString n).toList.dropWhile isSpace) = some n := by
  cases n with
  | ofNat n =>
      rw [toList_toString_ofNat, dropWhile_isSpace_toDigits]
      exact signedDigits_toDigits n
  | negSucc n =>
      rw [toList_toString_negSucc, List.dropWhile_cons_of_neg (by decide)]
      show (leadingDigits (Nat.toDigits 10 (n + 1))).map _ = _
      rw [leadingDigits_toDigits]
      rfl

/-- Different numbers have different texts. -/
theorem toString_int_injective {m n : Int} (h : toString m = toString n) :
    m = n := by
  have hread := signedDigits_toString m
  rw [h, signedDigits_toString n] at hread
  exact (Option.some.inj hread).symm

/-- A number is written with digits and a sign. -/
theorem mem_toString_int {n : Int} {c : Char} (h : c ∈ (toString n).toList) :
    c = '-' ∨ c.isDigit = true := by
  cases n with
  | ofNat n =>
      rw [toList_toString_ofNat] at h
      exact Or.inr (Nat.isDigit_of_mem_toDigits (by decide) (by decide) h)
  | negSucc n =>
      rw [toList_toString_negSucc] at h
      rcases List.mem_cons.mp h with hsign | hdigit
      · exact Or.inl hsign
      · exact Or.inr
          (Nat.isDigit_of_mem_toDigits (by decide) (by decide) hdigit)

/-- `std::to_string` and back. -/
theorem stoll_toString {n : Int} (h : fitsInt64 n) :
    stoll (toString n) = some n := by
  unfold stoll
  rw [signedDigits_toString]
  exact if_pos h

/-! ## Modification times -/

/-- Rounding to milliseconds is towards zero. -/
theorem natAbs_toMtimeMs (ns : Int) :
    (toMtimeMs ns).natAbs = ns.natAbs / 1000000 :=
  Int.natAbs_tdiv ns 1000000

/-- Milliseconds are fewer than nanoseconds. -/
theorem toMtimeMs_fits (time : FileTime) : fitsInt64 (toMtimeMs time.ns) := by
  obtain ⟨ns, hlow, hhigh⟩ := time
  have hbound := natAbs_toMtimeMs ns
  unfold int64Max at hhigh
  unfold fitsInt64 int64Max
  simp only
  omega

/-- What is read back is the stored number of milliseconds. -/
theorem parseMtime_toMtimeString (time : FileTime) :
    parseMtime (toMtimeString time) =
      some (toMtimeMs time.ns * 1000000) := by
  unfold parseMtime toMtimeString
  rw [stoll_toString (toMtimeMs_fits time)]
  rfl

/-- The time that is read back fits its type as well. -/
theorem readBack_fits (time : FileTime) :
    fitsInt64 (toMtimeMs time.ns * 1000000) := by
  obtain ⟨ns, hlow, hhigh⟩ := time
  have hbound := natAbs_toMtimeMs ns
  unfold int64Max at hhigh
  unfold fitsInt64 int64Max
  simp only
  omega

/-- A time survives the round trip when it is a whole number of
milliseconds. -/
theorem toMtimeMs_mul_eq_iff (ns : Int) :
    toMtimeMs ns * 1000000 = ns ↔ ns % 1000000 = 0 := by
  unfold toMtimeMs
  constructor
  · intro h
    omega
  · intro h
    exact Int.tdiv_mul_cancel (Int.dvd_of_emod_eq_zero h)

end ArkiveSync
