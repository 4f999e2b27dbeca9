import MiniLisp.Text.Glyph

/-!
# Reading bytes as text

Program text may arrive as bytes that are not well-formed UTF-8.  Each byte that is not part of a
well-formed sequence is a stray byte, and all the others keep their meaning, so every sequence of
bytes is some text.
-/

namespace MiniLisp.Text

/-- A byte of the form `10xxxxxx`. -/
def isContinuation (byte : UInt8) : Bool :=
  0x80 ≤ byte && byte ≤ 0xbf

/-- The six payload bits of a continuation byte. -/
def payload (byte : UInt8) : Nat :=
  byte.toNat % 0x40

/-- The bytes that may follow a lead byte: overlong forms, surrogates and codes above `10FFFF` are
ruled out by the second byte alone. -/
def isSecond (lead second : UInt8) : Bool :=
  if lead == 0xe0 then 0xa0 ≤ second && second ≤ 0xbf
  else if lead == 0xed then 0x80 ≤ second && second ≤ 0x9f
  else if lead == 0xf0 then 0x90 ≤ second && second ≤ 0xbf
  else if lead == 0xf4 then 0x80 ≤ second && second ≤ 0x8f
  else isContinuation second

/-- The character encoded at the head of the bytes `lead :: rest`, with the number of bytes of
`rest` that belong to it; `none` if no well-formed sequence starts there. -/
def character? (lead : UInt8) (rest : List UInt8) : Option (Char × Nat) :=
  if lead < 0x80 then
    some (Char.ofNat lead.toNat, 0)
  else if 0xc2 ≤ lead && lead ≤ 0xdf then
    match rest with
    | second :: _ =>
      if isSecond lead second then
        some (Char.ofNat (lead.toNat % 0x20 * 0x40 + payload second), 1)
      else none
    | _ => none
  else if 0xe0 ≤ lead && lead ≤ 0xef then
    match rest with
    | second :: third :: _ =>
      if isSecond lead second && isContinuation third then
        some (Char.ofNat ((lead.toNat % 0x10 * 0x40 + payload second) * 0x40 + payload third), 2)
      else none
    | _ => none
  else if 0xf0 ≤ lead && lead ≤ 0xf4 then
    match rest with
    | second :: third :: fourth :: _ =>
      if isSecond lead second && isContinuation third && isContinuation fourth then
        let high := lead.toNat % 0x08 * 0x40 + payload second
        some (Char.ofNat ((high * 0x40 + payload third) * 0x40 + payload fourth), 3)
      else none
    | _ => none
  else none

/-- The glyphs of some bytes, the first `covered` of which belong to a character that was already
read. -/
def glyphsFrom : (covered : Nat) → List UInt8 → List Glyph
  | _, [] => []
  | covered + 1, _ :: rest => glyphsFrom covered rest
  | 0, lead :: rest =>
    match character? lead rest with
    | some (character, further) => .char character :: glyphsFrom further rest
    | none => .stray lead :: glyphsFrom 0 rest

/-- The glyphs of a sequence of bytes. -/
def glyphs (bytes : List UInt8) : List Glyph :=
  glyphsFrom 0 bytes

/-- The characters that a sequence of bytes is read as. -/
def decode (bytes : List UInt8) : List Char :=
  characters (glyphs bytes)

@[simp] theorem decode_nil : decode [] = [] := rfl

end MiniLisp.Text
