import ArkiveSync.Model.SyncReconciler

/-!
# Base64

The codec of `helpers/Base64.cpp`, in which the keys, hashes and artifacts of
an upload travel.  The encoder turns three bytes into four characters and pads
the last group; the decoder shifts six bits at a time into a 32-bit
accumulator, skips white space and stops at the first padding character.

## Main results

* `decodeBase64_encodeBase64`: decoding undoes encoding.
* `decodeBase64Int_eq`: the loop on the machine's `int`, which wraps and whose
  right shift keeps the sign, yields the same bytes.
* `WithSpaces.decodeBase64From_eq`: white space anywhere in the text changes
  nothing.
-/

namespace ArkiveSync

/-- `kBase64Alphabet`. -/
def kBase64Alphabet : List Char :=
  "ABCDEFGHIJKLMNOPQRSTUVWXYZabcdefghijklmnopqrstuvwxyz0123456789+/".toList

/-- `kBase64Alphabet[i]`. -/
def base64Char (i : Nat) : Char := kBase64Alphabet.getD i 'A'

/-- `decodeBase64Char`; `none` is the answer -1. -/
def decodeBase64Char (ch : Char) : Option Nat :=
  if 'A' ≤ ch ∧ ch ≤ 'Z' then
    some (ch.toNat - 'A'.toNat)
  else if 'a' ≤ ch ∧ ch ≤ 'z' then
    some (ch.toNat - 'a'.toNat + 26)
  else if '0' ≤ ch ∧ ch ≤ '9' then
    some (ch.toNat - '0'.toNat + 52)
  else if ch = '+' then
    some 62
  else if ch = '/' then
    some 63
  else
    none

/-- `std::isspace` in the C locale. -/
def isSpace (ch : Char) : Bool :=
  ch = ' ' || (9 ≤ ch.toNat && ch.toNat ≤ 13)

/-- The groups of `encodeBase64`; `block` is the 24-bit word of a group. -/
def encodeBase64Chars : Bytes → List Char
  | [] => []
  | [b₀] =>
      let block := b₀.toNat * 65536
      [base64Char (block / 262144 % 64), base64Char (block / 4096 % 64),
        '=', '=']
  | [b₀, b₁] =>
      let block := b₀.toNat * 65536 + b₁.toNat * 256
      [base64Char (block / 262144 % 64), base64Char (block / 4096 % 64),
        base64Char (block / 64 % 64), '=']
  | b₀ :: b₁ :: b₂ :: rest =>
      let block := b₀.toNat * 65536 + b₁.toNat * 256 + b₂.toNat
      base64Char (block / 262144 % 64) :: base64Char (block / 4096 % 64) ::
        base64Char (block / 64 % 64) :: base64Char (block % 64) ::
        encodeBase64Chars rest

/-- `encodeBase64`. -/
def encodeBase64 (bytes : Bytes) : String :=
  String.ofList (encodeBase64Chars bytes)

/-- The loop of `decodeBase64` on the accumulator and its bit position. -/
def decodeBase64From : Nat → Int → List Char → Option Bytes
  | _, _, [] => some []
  | val, valb, ch :: rest =>
      if isSpace ch then
        decodeBase64From val valb rest
      else if ch = '=' then
        some []
      else
        match decodeBase64Char ch with
        | none => none
        | some decoded =>
            let val := (val * 64 + decoded) % 4294967296
            let valb := valb + 6
            if 0 ≤ valb then
              (decodeBase64From val (valb - 8) rest).map
                (UInt8.ofNat (val / 2 ^ valb.toNat % 256) :: ·)
            else
              decodeBase64From val valb rest

/-- `decodeBase64`; `none` is the exception. -/
def decodeBase64 (input : String) : Option Bytes :=
  decodeBase64From 0 (-8) input.toList

/-! ## Decoding undoes encoding -/

/-- Every character of the alphabet decodes to its index, is no white space
and no padding. -/
theorem base64Char_spec : ∀ i < 64, isSpace (base64Char i) = false ∧
    base64Char i ≠ '=' ∧ decodeBase64Char (base64Char i) = some i := by
  decide +kernel

/-- One character of the alphabet. -/
theorem decodeBase64From_char (val : Nat) (valb : Int) {j : Nat}
    (hj : j < 64) (rest : List Char) :
    decodeBase64From val valb (base64Char j :: rest) =
      if 0 ≤ valb + 6 then
        (decodeBase64From ((val * 64 + j) % 4294967296) (valb + 6 - 8)
          rest).map (UInt8.ofNat ((val * 64 + j) % 4294967296 /
            2 ^ (valb + 6).toNat % 256) :: ·)
      else
        decodeBase64From ((val * 64 + j) % 4294967296) (valb + 6) rest := by
  have hspec := base64Char_spec j hj
  rw [decodeBase64From, hspec.1, hspec.2.2]
  simp only [Bool.false_eq_true, if_false, if_neg hspec.2.1]

theorem decodeBase64From_pad (val : Nat) (valb : Int) (rest : List Char) :
    decodeBase64From val valb ('=' :: rest) = some [] := by
  have hspace : isSpace '=' = false := by decide
  rw [decodeBase64From, hspace]
  simp

section Groups

variable {val i j : Nat} (rest : List Char)

/-- The first character of a group completes no byte. -/
theorem decodeBase64From_first (val : Nat) (hj : j < 64) :
    ∃ val', val' % 64 = j ∧
      decodeBase64From val (-8) (base64Char j :: rest) =
        decodeBase64From val' (-2) rest := by
  refine ⟨(val * 64 + j) % 4294967296, by omega, ?_⟩
  rw [decodeBase64From_char val (-8) hj rest, if_neg (by omega)]
  rfl

/-- The second one completes the first byte. -/
theorem decodeBase64From_second (hval : val % 64 = i) (hj : j < 64) :
    ∃ val', val' % 64 = j ∧
      decodeBase64From val (-2) (base64Char j :: rest) =
        (decodeBase64From val' (-4) rest).map
          (UInt8.ofNat (i * 4 + j / 16) :: ·) := by
  refine ⟨(val * 64 + j) % 4294967296, by omega, ?_⟩
  have hbyte : (val * 64 + j) % 4294967296 / 2 ^ ((-2 : Int) + 6).toNat % 256 =
      i * 4 + j / 16 := by
    have hshift : 2 ^ ((-2 : Int) + 6).toNat = 16 := by decide
    rw [hshift]
    omega
  rw [decodeBase64From_char val (-2) hj rest, if_pos (by omega), hbyte]
  rfl

/-- The third one completes the second byte. -/
theorem decodeBase64From_third (hval : val % 64 = i) (hj : j < 64) :
    ∃ val', val' % 64 = j ∧
      decodeBase64From val (-4) (base64Char j :: rest) =
        (decodeBase64From val' (-6) rest).map
          (UInt8.ofNat (i % 16 * 16 + j / 4) :: ·) := by
  refine ⟨(val * 64 + j) % 4294967296, by omega, ?_⟩
  have hbyte : (val * 64 + j) % 4294967296 / 2 ^ ((-4 : Int) + 6).toNat % 256 =
      i % 16 * 16 + j / 4 := by
    have hshift : 2 ^ ((-4 : Int) + 6).toNat = 4 := by decide
    rw [hshift]
    omega
  rw [decodeBase64From_char val (-4) hj rest, if_pos (by omega), hbyte]
  rfl

/-- The fourth one completes the third byte. -/
theorem decodeBase64From_fourth (hval : val % 64 = i) (hj : j < 64) :
    ∃ val', decodeBase64From val (-6) (base64Char j :: rest) =
      (decodeBase64From val' (-8) rest).map
        (UInt8.ofNat (i % 4 * 64 + j) :: ·) := by
  refine ⟨(val * 64 + j) % 4294967296, ?_⟩
  have hbyte : (val * 64 + j) % 4294967296 / 2 ^ ((-6 : Int) + 6).toNat % 256 =
      i % 4 * 64 + j := by
    have hshift : 2 ^ ((-6 : Int) + 6).toNat = 1 := by decide
    rw [hshift]
    omega
  rw [decodeBase64From_char val (-6) hj rest, if_pos (by omega), hbyte]
  rfl

end Groups

theorem ofNat_eq_of_toNat {b : UInt8} {m : Nat} (h : m = b.toNat) :
    UInt8.ofNat m = b := by
  rw [h, UInt8.ofNat_toNat]

/-- The decoder reads back the groups of the encoder, whatever is left in its
accumulator from before. -/
theorem decodeBase64From_encode (bytes : Bytes) :
    ∀ val, decodeBase64From val (-8) (encodeBase64Chars bytes) =
      some bytes := by
  induction bytes using encodeBase64Chars.induct with
  | case1 =>
      intro val
      rfl
  | case2 b₀ =>
      intro val
      have h₀ := b₀.toNat_lt
      rw [encodeBase64Chars]
      generalize hblock : b₀.toNat * 65536 = block
      obtain ⟨v₁, hv₁, heq₁⟩ := decodeBase64From_first
        (base64Char (block / 4096 % 64) :: ['=', '=']) val
        (show block / 262144 % 64 < 64 by omega)
      obtain ⟨v₂, -, heq₂⟩ := decodeBase64From_second ['=', '='] hv₁
        (show block / 4096 % 64 < 64 by omega)
      rw [heq₁, heq₂, decodeBase64From_pad,
        ofNat_eq_of_toNat (b := b₀) (by omega)]
      rfl
  | case3 b₀ b₁ =>
      intro val
      have h₀ := b₀.toNat_lt
      have h₁ := b₁.toNat_lt
      rw [encodeBase64Chars]
      generalize hblock : b₀.toNat * 65536 + b₁.toNat * 256 = block
      obtain ⟨v₁, hv₁, heq₁⟩ := decodeBase64From_first
        (base64Char (block / 4096 % 64) :: base64Char (block / 64 % 64) ::
          ['=']) val (show block / 262144 % 64 < 64 by omega)
      obtain ⟨v₂, hv₂, heq₂⟩ := decodeBase64From_second
        (base64Char (block / 64 % 64) :: ['=']) hv₁
        (show block / 4096 % 64 < 64 by omega)
      obtain ⟨v₃, -, heq₃⟩ := decodeBase64From_third ['='] hv₂
        (show block / 64 % 64 < 64 by omega)
      rw [heq₁, heq₂, heq₃, decodeBase64From_pad,
        ofNat_eq_of_toNat (b := b₀) (by omega),
        ofNat_eq_of_toNat (b := b₁) (by omega)]
      rfl
  | case4 b₀ b₁ b₂ rest ih =>
      intro val
      have h₀ := b₀.toNat_lt
      have h₁ := b₁.toNat_lt
      have h₂ := b₂.toNat_lt
      rw [encodeBase64Chars]
      generalize hblock : b₀.toNat * 65536 + b₁.toNat * 256 + b₂.toNat = block
      obtain ⟨v₁, hv₁, heq₁⟩ := decodeBase64From_first
        (base64Char (block / 4096 % 64) :: base64Char (block / 64 % 64) ::
          base64Char (block % 64) :: encodeBase64Chars rest) val
        (show block / 262144 % 64 < 64 by omega)
      obtain ⟨v₂, hv₂, heq₂⟩ := decodeBase64From_second
        (base64Char (block / 64 % 64) :: base64Char (block % 64) ::
          encodeBase64Chars rest) hv₁ (show block / 4096 % 64 < 64 by omega)
      obtain ⟨v₃, hv₃, heq₃⟩ := decodeBase64From_third
        (base64Char (block % 64) :: encodeBase64Chars rest) hv₂
        (show block / 64 % 64 < 64 by omega)
      obtain ⟨v₄, heq₄⟩ := decodeBase64From_fourth (encodeBase64Chars rest)
        hv₃ (show block % 64 < 64 by omega)
      rw [heq₁, heq₂, heq₃, heq₄, ih v₄,
        ofNat_eq_of_toNat (b := b₀) (by omega),
        ofNat_eq_of_toNat (b := b₁) (by omega),
        ofNat_eq_of_toNat (b := b₂) (by omega)]
      rfl

/-- Decoding undoes encoding. -/
theorem decodeBase64_encodeBase64 (bytes : Bytes) :
    decodeBase64 (encodeBase64 bytes) = some bytes := by
  unfold decodeBase64 encodeBase64
  rw [String.toList_ofList]
  exact decodeBase64From_encode bytes 0

/-! ## The accumulator as a machine word -/

/-- `static_cast<uint8_t>((val >> valb) & 0xFF)` of an `int`. -/
def shiftedByte (val : BitVec 32) (valb : Int) : UInt8 :=
  UInt8.ofBitVec ((val.sshiftRight valb.toNat &&& 0xFF#32).setWidth 8)

/-- The loop of `decodeBase64` on the `int` it has: `val << 6` and the sum
are taken modulo `2 ^ 32`. -/
def decodeBase64IntFrom : BitVec 32 → Int → List Char → Option Bytes
  | _, _, [] => some []
  | val, valb, ch :: rest =>
      if isSpace ch then
        decodeBase64IntFrom val valb rest
      else if ch = '=' then
        some []
      else
        match decodeBase64Char ch with
        | none => none
        | some decoded =>
            let val := (val <<< 6) + BitVec.ofNat 32 decoded
            let valb := valb + 6
            if 0 ≤ valb then
              (decodeBase64IntFrom val (valb - 8) rest).map
                (shiftedByte val valb :: ·)
            else
              decodeBase64IntFrom val valb rest

/-- `decodeBase64` on machine words. -/
def decodeBase64Int (input : String) : Option Bytes :=
  decodeBase64IntFrom 0 (-8) input.toList

/-- The copies of the sign bit that the shift brings in are masked off again:
the eight bits of the byte are bits of the word itself. -/
theorem shiftedByte_eq (val : BitVec 32) {valb : Int} (h : valb < 24) :
    shiftedByte val valb = UInt8.ofNat (val.toNat / 2 ^ valb.toNat % 256) := by
  have hright : UInt8.ofNat (val.toNat / 2 ^ valb.toNat % 256) =
      UInt8.ofBitVec (BitVec.ofNat 8 (val.toNat / 2 ^ valb.toNat)) := by
    apply UInt8.toNat_inj.mp
    rw [UInt8.toNat_ofNat', UInt8.toNat_ofBitVec, BitVec.toNat_ofNat]
    omega
  rw [hright, shiftedByte]
  congr 1
  apply BitVec.eq_of_getLsbD_eq
  intro i hi
  have hbit : valb.toNat + i < 32 := by omega
  have hmask : (0xFF#32).getLsbD i = true := by
    have hall : ∀ j < 8, (0xFF#32).getLsbD j = true := by decide
    exact hall i hi
  rw [BitVec.getLsbD_setWidth, BitVec.getLsbD_and, hmask,
    BitVec.getLsbD_sshiftRight, if_pos hbit, BitVec.getLsbD_ofNat,
    Nat.testBit_div_two_pow, Nat.add_comm i]
  have hword : ¬32 ≤ i := by omega
  simp [hi, hword, BitVec.getLsbD]

/-- The word after one character is the number after it. -/
theorem toNat_shiftLeft_add (val : BitVec 32) (decoded : Nat) :
    ((val <<< 6) + BitVec.ofNat 32 decoded).toNat =
      (val.toNat * 64 + decoded) % 4294967296 := by
  simp only [BitVec.toNat_add, BitVec.toNat_shiftLeft, BitVec.toNat_ofNat,
    Nat.shiftLeft_eq]
  omega

theorem decodeBase64IntFrom_eq (cs : List Char) :
    ∀ (val : BitVec 32) (valb : Int), valb < 0 →
      decodeBase64IntFrom val valb cs = decodeBase64From val.toNat valb cs := by
  induction cs with
  | nil =>
      intro val valb _
      rfl
  | cons ch rest ih =>
      intro val valb hvalb
      rw [decodeBase64IntFrom, decodeBase64From]
      by_cases hspace : isSpace ch = true
      · rw [if_pos hspace, if_pos hspace, ih val valb hvalb]
      rw [if_neg hspace, if_neg hspace]
      by_cases hpad : ch = '='
      · rw [if_pos hpad, if_pos hpad]
      rw [if_neg hpad, if_neg hpad]
      cases decodeBase64Char ch with
      | none => rfl
      | some decoded =>
          dsimp only
          rw [← toNat_shiftLeft_add]
          by_cases hfull : 0 ≤ valb + 6
          · rw [if_pos hfull, if_pos hfull, ih _ _ (by omega),
              shiftedByte_eq _ (by omega)]
          · rw [if_neg hfull, if_neg hfull, ih _ _ (by omega)]

/-- The bytes do not depend on the sign of the accumulator. -/
theorem decodeBase64Int_eq (input : String) :
    decodeBase64Int input = decodeBase64 input :=
  decodeBase64IntFrom_eq input.toList 0 (-8) (by decide)

/-! ## White space in the text -/

/-- The second text is the first one with white space inserted. -/
inductive WithSpaces : List Char → List Char → Prop
  | nil : WithSpaces [] []
  | keep (ch : Char) {cs ds : List Char} :
      WithSpaces cs ds → WithSpaces (ch :: cs) (ch :: ds)
  | insert {ch : Char} {cs ds : List Char} :
      isSpace ch = true → WithSpaces cs ds → WithSpaces cs (ch :: ds)

theorem WithSpaces.refl : ∀ cs, WithSpaces cs cs
  | [] => .nil
  | ch :: cs => .keep ch (WithSpaces.refl cs)

/-- The decoder sees no difference, whatever stands in its accumulator. -/
theorem WithSpaces.decodeBase64From_eq {cs ds : List Char}
    (h : WithSpaces cs ds) : ∀ (val : Nat) (valb : Int),
      decodeBase64From val valb ds = decodeBase64From val valb cs := by
  induction h with
  | nil =>
      intro val valb
      rfl
  | keep ch _ ih =>
      intro val valb
      rw [decodeBase64From, decodeBase64From]
      simp only [ih]
  | insert hspace _ ih =>
      intro val valb
      rw [decodeBase64From, if_pos hspace, ih]

end ArkiveSync
