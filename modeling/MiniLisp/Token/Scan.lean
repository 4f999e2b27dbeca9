import MiniLisp.Token
import MiniLisp.Text.Blank

/-!
# Scanning

A program is cut into tokens from left to right.  Parentheses are tokens of their own, blanks
separate, a string runs from a double quote to the next one on the same line, and every other run of
characters is an atom.  A string holds at least one character, so a quote opens a string only if
another one follows on its line at least two places later; otherwise it is an ordinary character of
an atom.
-/

namespace MiniLisp.Token

/-- The number of characters in front of the next double quote, if one stands on the same line. -/
def quoteOnLine? : List Char → Option Nat
  | [] => none
  | first :: rest =>
    if first = '"' then some 0
    else if first = '\n' then none
    else (quoteOnLine? rest).map (· + 1)

/-- The number of characters after `first` that belong to the string literal which `first` opens in
front of `rest`, or `none` if no string literal starts there. -/
def stringExtent? (first : Char) : (rest : List Char) → Option Nat
  | [] => none
  | second :: rest =>
    if first = '"' ∧ second ≠ '\n' then (quoteOnLine? rest).map (· + 2) else none

/-- Whether an atom ends in front of `first`, which is followed by `rest`. -/
def endsAtom (first : Char) (rest : List Char) : Bool :=
  first == '(' || first == ')' || Text.isBlank first || (stringExtent? first rest).isSome

/-- The number of characters of `text` that continue an atom. -/
def atomExtent : (text : List Char) → Nat
  | [] => 0
  | first :: rest => if endsAtom first rest then 0 else atomExtent rest + 1

/-- What the character `first` starts in front of `rest`, with the number of further characters it
covers: nothing for a blank, a token otherwise. -/
def cut (first : Char) (rest : List Char) : Option TokenKind × Nat :=
  if first = '(' then (some .openList, 0)
  else if first = ')' then (some .closeList, 0)
  else if Text.isBlank first then (none, 0)
  else
    match stringExtent? first rest with
    | some extent => (some .string, extent)
    | none => (some .atom, atomExtent rest)

/-- The tokens of a text that starts at `position`; the first `covered` characters belong to a token
that was already cut. -/
def scanFrom (position : Position) : (covered : Nat) → List Char → List Token
  | _, [] => []
  | covered + 1, first :: rest => scanFrom (position.next first) covered rest
  | 0, first :: rest =>
    match cut first rest with
    | (none, extent) => scanFrom (position.next first) extent rest
    | (some kind, extent) =>
      ⟨kind, String.ofList (first :: rest.take extent), position⟩ ::
        scanFrom (position.next first) extent rest

/-- The tokens of a text, without the one that marks its end. -/
def scan (source : List Char) : List Token :=
  scanFrom Position.start 0 source

/-- The tokens of a text after a number of passes over it: the first pass finds them all, and every
pass marks the end once more. -/
def scanPasses : (passes : Nat) → List Char → List Token
  | 0, _ => []
  | passes + 1, source =>
    scan source ++ List.replicate (passes + 1) (endAt (Position.start.after source))

/-- The tokens of a text, the last of which marks its end. -/
def tokenize (source : List Char) : List Token :=
  scan source ++ [endAt (Position.start.after source)]

/-- The texts of the tokens of a source, in order. -/
def lexemes (source : List Char) : List String :=
  (scan source).map Token.text

@[simp] theorem scanPasses_one (source : List Char) : scanPasses 1 source = tokenize source := rfl

/-- Characters that are already covered only move the position. -/
theorem scanFrom_covered (position : Position) (covered : Nat) (source : List Char) :
    scanFrom position covered source =
      scanFrom (position.after (source.take covered)) 0 (source.drop covered) := by
  induction covered generalizing position source with
  | zero => simp
  | succ covered ih =>
    cases source with
    | nil => simp [scanFrom]
    | cons first rest => simpa [scanFrom] using ih (position.next first) rest

end MiniLisp.Token
