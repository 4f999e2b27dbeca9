import MiniLisp.Proofs.Text.Newline

/-!
# Bytes of characters

Every character is read back from the bytes that stand for it, whatever bytes follow.  So a text
that was written as bytes is read as it was.
-/

namespace MiniLisp.Text

/-- The bytes that may follow a lead byte. -/
theorem isSecond_of_bounds {lead second : UInt8} (low : 0x80 ≤ second.toNat)
    (high : second.toNat ≤ 0xbf) (notOverlong : lead.toNat = 0xe0 → 0xa0 ≤ second.toNat)
    (noSurrogate : lead.toNat = 0xed → second.toNat ≤ 0x9f)
    (notOverlong' : lead.toNat = 0xf0 → 0x90 ≤ second.toNat)
    (inRange : lead.toNat = 0xf4 → second.toNat ≤ 0x8f) : isSecond lead second = true := by
  fun_cases isSecond lead second
  all_goals simp_all [isContinuation, UInt8.le_iff_toNat_le]

/-- The byte that continues a character with the last six bits of a number. -/
def continuation (bits : Nat) : UInt8 :=
  UInt8.ofNat (bits % 64 + 128)

theorem toNat_continuation (bits : Nat) : (continuation bits).toNat = bits % 64 + 128 := by
  rw [continuation, UInt8.toNat_ofNat']
  omega

@[simp] theorem payload_continuation (bits : Nat) : payload (continuation bits) = bits % 64 := by
  rw [payload, toNat_continuation]
  omega

@[simp] theorem isContinuation_continuation (bits : Nat) :
    isContinuation (continuation bits) = true := by
  simp only [isContinuation, UInt8.le_iff_toNat_le, toNat_continuation, Bool.and_eq_true,
    decide_eq_true_eq, UInt8.reduceToNat]
  omega

/-! ## One character

A lead byte holds the bits of a code in front of those that the continuation bytes hold. -/

section Lead

variable {lead : UInt8} {code : Nat} (rest : List UInt8)

theorem character?_one (short : code ≤ 0x7f) (begins : lead.toNat = code) :
    character? lead rest = some (Char.ofNat code, 0) := by
  have small : lead < 0x80 := UInt8.lt_iff_toNat_lt.mpr (by simp only [UInt8.reduceToNat]; omega)
  rw [character?.eq_def, if_pos small, begins]

theorem character?_two (low : 0x7f < code) (high : code ≤ 0x7ff)
    (begins : lead.toNat = code / 64 + 0xc0) :
    character? lead (continuation code :: rest) = some (Char.ofNat code, 1) := by
  have second := toNat_continuation code
  have follows : isSecond lead (continuation code) = true := by
    apply isSecond_of_bounds <;> omega
  have long : ¬lead.toNat < 0x80 := by omega
  have two : 0xc2 ≤ lead.toNat ∧ lead.toNat ≤ 0xdf := by omega
  have whole : lead.toNat % 32 * 64 + code % 64 = code := by omega
  simp [character?, UInt8.lt_iff_toNat_lt, UInt8.le_iff_toNat_le, long, two, follows, whole]

theorem character?_three (low : 0x7ff < code) (high : code ≤ 0xffff)
    (noSurrogate : code < 0xd800 ∨ 0xdfff < code) (begins : lead.toNat = code / 4096 + 0xe0) :
    character? lead (continuation (code / 64) :: continuation code :: rest) =
      some (Char.ofNat code, 2) := by
  have second := toNat_continuation (code / 64)
  have follows : isSecond lead (continuation (code / 64)) = true := by
    apply isSecond_of_bounds <;> omega
  have long : ¬lead.toNat < 0x80 := by omega
  have notTwo : ¬lead.toNat ≤ 0xdf := by omega
  have three : 0xe0 ≤ lead.toNat ∧ lead.toNat ≤ 0xef := by omega
  have whole : (lead.toNat % 16 * 64 + code / 64 % 64) * 64 + code % 64 = code := by omega
  simp [character?, UInt8.lt_iff_toNat_lt, UInt8.le_iff_toNat_le, long, notTwo, three, follows,
    whole]

theorem character?_four (low : 0xffff < code) (high : code < 0x110000)
    (begins : lead.toNat = code / 262144 + 0xf0) :
    character? lead
        (continuation (code / 4096) :: continuation (code / 64) :: continuation code :: rest) =
      some (Char.ofNat code, 3) := by
  have second := toNat_continuation (code / 4096)
  have follows : isSecond lead (continuation (code / 4096)) = true := by
    apply isSecond_of_bounds <;> omega
  have long : ¬lead.toNat < 0x80 := by omega
  have notTwo : ¬lead.toNat ≤ 0xdf := by omega
  have notThree : ¬lead.toNat ≤ 0xef := by omega
  have four : 0xf0 ≤ lead.toNat ∧ lead.toNat ≤ 0xf4 := by omega
  have whole : ((lead.toNat % 8 * 64 + code / 4096 % 64) * 64 + code / 64 % 64) * 64 +
      code % 64 = code := by omega
  simp [character?, UInt8.lt_iff_toNat_lt, UInt8.le_iff_toNat_le, long, notTwo, notThree, four,
    follows, whole]

end Lead

/-- A character is read back from the bytes that stand for it. -/
theorem character?_encoded (character : Char) (rest : List UInt8) :
    ∃ lead further, String.utf8EncodeChar character = lead :: further ∧
      character? lead (further ++ rest) = some (character, further.length) := by
  have valid : character.toNat < 0xd800 ∨ 0xdfff < character.toNat ∧ character.toNat < 0x110000 :=
    character.valid
  have back := Char.ofNat_toNat character
  have code : character.val.toNat = character.toNat := rfl
  rw [String.utf8EncodeChar, code]
  generalize character.toNat = code at valid back
  rw [← back]
  split
  case isTrue one =>
    refine ⟨_, [], rfl, character?_one rest one ?_⟩
    rw [UInt8.toNat_ofNat']
    omega
  case isFalse long =>
    split
    case isTrue two =>
      refine ⟨_, [continuation code], rfl, character?_two rest (by omega) two ?_⟩
      rw [UInt8.toNat_ofNat']
      omega
    case isFalse longer =>
      split
      case isTrue three =>
        refine ⟨_, [continuation (code / 64), continuation code], rfl,
          character?_three rest (by omega) three (by omega) ?_⟩
        rw [UInt8.toNat_ofNat']
        omega
      case isFalse longest =>
        refine ⟨_, [continuation (code / 4096), continuation (code / 64), continuation code], rfl,
          character?_four rest (by omega) (by omega) ?_⟩
        rw [UInt8.toNat_ofNat']
        omega

/-! ## Whole texts -/

theorem glyphsFrom_covered (covered rest : List UInt8) :
    glyphsFrom covered.length (covered ++ rest) = glyphs rest := by
  induction covered with
  | nil => rfl
  | cons byte covered ih => exact ih

/-- The bytes of some characters are read as these characters. -/
theorem glyphs_bytes (text : List Char) :
    glyphs (bytes (ofCharacters text)) = ofCharacters text := by
  induction text with
  | nil => rfl
  | cons first text ih =>
    obtain ⟨lead, further, encoded, read⟩ := character?_encoded first (bytes (ofCharacters text))
    have split : bytes (ofCharacters (first :: text)) =
        lead :: (further ++ bytes (ofCharacters text)) := by
      rw [← List.cons_append, ← encoded]
      rfl
    rw [split, glyphs, glyphsFrom, read]
    simp only [glyphsFrom_covered, ih]
    rfl

/-- A text is read back from its bytes. -/
theorem decode_toUTF8 (text : String) : decode text.toUTF8.data.toList = text.toList := by
  have encoded : text.toUTF8.data.toList = bytes (ofCharacters text.toList) := by
    rw [String.toUTF8_eq_toByteArray, ← String.utf8Encode_toList, List.utf8Encode,
      List.data_toByteArray, bytes, ofCharacters, List.flatMap_map]
    rfl
  rw [encoded, decode, glyphs_bytes, characters_ofCharacters]

end MiniLisp.Text
