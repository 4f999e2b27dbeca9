/-!
# Integers in arguments

An integer argument is written in decimal, or with the base prefix `0b`, `0o`, `0x` or a plain
leading `0` for octal.  It may have a sign, and underscores may stand between its digits and behind
a base prefix.
-/

namespace MiniLisp.Text

/-- Why a text is no integer. -/
inductive IntegerFault where
  | malformed
  | outOfRange
  deriving DecidableEq, Repr

/-- The words in which the fault is reported. -/
def IntegerFault.message : IntegerFault → String
  | malformed => "parse error"
  | outOfRange => "value out of range"

/-- The value of a digit in any base up to 36. -/
def digitValue? (character : Char) : Option Nat :=
  if character.isDigit then some (character.toNat - '0'.toNat)
  else if character.isAlpha then some (character.toLower.toNat - 'a'.toNat + 10)
  else none

/-- The base that a text announces, with the digits behind the announcement. -/
def base : List Char → Nat × List Char
  | '0' :: mark :: first :: rest =>
    let digits := first :: rest
    if mark.toLower = 'b' then (2, digits)
    else if mark.toLower = 'o' then (8, digits)
    else if mark.toLower = 'x' then (16, digits)
    else (8, mark :: digits)
  | '0' :: rest => (8, rest)
  | digits => (10, digits)

/-- The number that digits continue.  It must fit 64 bits at every step, and underscores are passed
over. -/
def number (base value : Nat) : List Char → Except IntegerFault Nat
  | [] => .ok value
  | character :: rest =>
    if character = '_' then number base value rest
    else
      match digitValue? character with
      | none => .error .malformed
      | some digit =>
        if digit < base then
          if base * value + digit < 0x10000000000000000 then number base (base * value + digit) rest
          else .error .outOfRange
        else .error .malformed

/-- Whether every underscore stands between digits; `digit` tells whether the character in front is
one. -/
def underscoresBetween (digit : Bool) : List Char → Bool
  | [] => true
  | '_' :: rest =>
    digit && (match rest with
      | [] => false
      | next :: _ => next != '_' && underscoresBetween false rest)
  | _ :: rest => underscoresBetween true rest

/-- Whether the underscores of a number without sign stand where they may; a base prefix counts as a
digit. -/
def underscoresFit : List Char → Bool
  | '0' :: mark :: rest =>
    if ['b', 'o', 'x'].contains mark.toLower then underscoresBetween true rest
    else underscoresBetween true (mark :: rest)
  | digits => underscoresBetween false digits

/-- A number without sign. -/
def natural (digits : List Char) : Except IntegerFault Nat :=
  match digits with
  | [] => .error .malformed
  | digits => do
    let (base, rest) := base digits
    let value ← number base 0 rest
    if underscoresFit digits then .ok value else .error .malformed

/-- An integer of 64 bits with an optional sign. -/
def integer (text : String) : Except IntegerFault Int := do
  let (negative, digits) := match text.toList with
    | '+' :: rest => (false, rest)
    | '-' :: rest => (true, rest)
    | digits => (false, digits)
  let value ← natural digits
  if negative then
    if value ≤ 0x8000000000000000 then .ok (-value) else .error .outOfRange
  else if value < 0x8000000000000000 then .ok value
  else .error .outOfRange

end MiniLisp.Text
