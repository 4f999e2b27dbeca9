import MiniLisp.Proofs.Token.Newline
import MiniLisp.Proofs.Token.Segmentation

/-!
# Places of tokens

The position of an offset is said of the whole text: its line counts the newlines in front of the
offset, and its column the characters since the last of them.  Scanning carries a position along
from character to character, and reaches every token with the position of its first one.
-/

namespace MiniLisp

namespace Position

/-- The characters between the last newline in front of an offset, or the start of the text, and the
offset, from right to left. -/
def lineBefore (source : List Char) (offset : Nat) : List Char :=
  (source.take offset).reverse.takeWhile (· ≠ '\n')

/-- The position of the character at an offset. -/
def ofOffset (source : List Char) (offset : Nat) : Position :=
  ⟨1 + (source.take offset).count '\n', 1 + (lineBefore source offset).length⟩

/-- A position stands on an earlier line than another one, or further left on the same line. -/
def Before (left right : Position) : Prop :=
  left.line < right.line ∨ left.line = right.line ∧ left.column < right.column

theorem Before.trans {left middle right : Position} (first : left.Before middle)
    (second : middle.Before right) : left.Before right := by
  unfold Before at *
  omega

/-! ## The position behind a text -/

theorem column_after_reverse (text : List Char) :
    (start.after text.reverse).column = 1 + (text.takeWhile (· ≠ '\n')).length := by
  induction text with
  | nil => rfl
  | cons last front ih =>
    rw [List.reverse_cons, after_append, after_cons, after_nil]
    by_cases newline : last = '\n'
    · simp [next, newline]
    · simp [next, newline, ih, Int.add_assoc]

theorem after_take (source : List Char) (offset : Nat) :
    start.after (source.take offset) = ofOffset source offset := by
  have line := line_after start (source.take offset)
  have column := column_after_reverse (source.take offset).reverse
  rw [List.reverse_reverse] at column
  rw [ofOffset, lineBefore, ← column]
  change _ = (⟨start.line + _, _⟩ : Position)
  rw [← line]

theorem after_length (source : List Char) :
    start.after source = ofOffset source source.length := by
  rw [← after_take, List.take_length]

theorem after_ofOffset {source text after : List Char} {offset : Nat}
    (ahead : source.drop offset = text ++ after) :
    (ofOffset source offset).after text = ofOffset source (offset + text.length) := by
  rw [← after_take, ← after_take, ← after_append, List.take_add, ahead, List.take_left']
  rfl

/-- Every character leads further. -/
theorem before_next (position : Position) (character : Char) :
    position.Before (position.next character) := by
  by_cases newline : character = '\n'
  · rw [next, if_pos newline]
    exact .inl (Int.lt_succ _)
  · rw [next, if_neg newline]
    exact .inr ⟨rfl, Int.lt_succ _⟩

theorem before_after (position : Position) (first : Char) (rest : List Char) :
    position.Before (position.after (first :: rest)) := by
  induction rest generalizing position first with
  | nil => exact position.before_next first
  | cons second rest ih =>
    exact (position.before_next first).trans (ih (position.next first) second)

/-- Of two offsets of a text, the earlier one has the earlier position. -/
theorem ofOffset_before {source : List Char} {left right : Nat} (earlier : left < right)
    (inside : right ≤ source.length) :
    (ofOffset source left).Before (ofOffset source right) := by
  obtain ⟨further, rfl⟩ := Nat.exists_eq_add_of_lt earlier
  cases ahead : source.drop left with
  | nil =>
    have short := List.drop_eq_nil_iff.mp ahead
    omega
  | cons first rest =>
    have length := congrArg List.length ahead
    rw [List.length_drop, List.length_cons] at length
    have split : source.drop left = (first :: rest.take further) ++ rest.drop further := by
      rw [List.cons_append, List.take_append_drop, ahead]
    have reached := after_ofOffset split
    rw [List.length_cons, List.length_take, Nat.min_eq_left (by omega), ← Nat.add_assoc] at reached
    rw [← reached]
    exact before_after _ first _

end Position

namespace Token

/-! ## The positions of tokens -/

/-- The tokens of pieces that follow each other from an offset on, each with the position of its
first character. -/
def Piece.placed (source : List Char) : (offset : Nat) → List Piece → List Token
  | _, [] => []
  | offset, piece :: pieces =>
    ⟨piece.kind, String.ofList piece.text, Position.ofOffset source (offset + piece.gap.length)⟩ ::
      placed source (offset + piece.span.length) pieces

variable {source : List Char} {start : Nat} {pieces : List Piece} {tail : List Char}

/-- The positions that follow from the texts of the pieces are those in the whole text. -/
theorem Segmentation.tokens_eq (segmentation : Segmentation source start pieces tail) :
    Piece.tokens (Position.ofOffset source start) pieces = Piece.placed source start pieces := by
  induction pieces generalizing start with
  | nil => rfl
  | cons piece pieces ih =>
    obtain ⟨⟨after, ahead⟩, -, -, rest⟩ := segmentation_cons.mp segmentation
    have gap : source.drop start = piece.gap ++ (piece.text ++ after) := by
      rw [ahead, Piece.span, List.append_assoc]
    rw [Piece.tokens, Piece.placed, Position.after_ofOffset gap, Position.after_ofOffset ahead,
      ih rest]

theorem Segmentation.tokenize_eq (segmentation : Segmentation source 0 pieces tail) :
    tokenize source =
      Piece.placed source 0 pieces ++ [endAt (Position.ofOffset source source.length)] := by
  have scanned := segmentation.scanFrom_eq (Position.ofOffset source 0)
  rw [List.drop_zero, segmentation.tokens_eq] at scanned
  rw [tokenize, Position.after_length, scan, ← scanned]
  rfl

theorem Segmentation.length_le (segmentation : Segmentation source start pieces tail) :
    (pieces.flatMap Piece.span).length ≤ source.length - start := by
  have length := congrArg List.length segmentation.joined
  rw [List.length_append, List.length_drop] at length
  omega

/-- No token stands in front of the first piece or behind the text. -/
theorem Segmentation.exists_offset (segmentation : Segmentation source start pieces tail)
    {token : Token} (member : token ∈ Piece.placed source start pieces) :
    ∃ offset, start ≤ offset ∧ offset < source.length ∧
      token.position = Position.ofOffset source offset := by
  induction pieces generalizing start with
  | nil => cases member
  | cons piece pieces ih =>
    obtain ⟨-, -, lexeme, rest⟩ := segmentation_cons.mp segmentation
    rcases List.mem_cons.mp member with rfl | later
    · have nonempty := List.length_pos_iff.mpr lexeme.ne_nil
      have fits := segmentation.length_le
      rw [List.flatMap_cons, List.length_append, Piece.span, List.length_append] at fits
      exact ⟨_, Nat.le_add_right _ _, by omega, rfl⟩
    · obtain ⟨offset, behind, inside, found⟩ := ih rest later
      exact ⟨offset, Nat.le_of_add_right_le behind, inside, found⟩

/-- The tokens stand one behind the other. -/
theorem Segmentation.pairwise_before (segmentation : Segmentation source start pieces tail) :
    (Piece.placed source start pieces).Pairwise (·.position.Before ·.position) := by
  induction pieces generalizing start with
  | nil => exact .nil
  | cons piece pieces ih =>
    obtain ⟨-, -, lexeme, rest⟩ := segmentation_cons.mp segmentation
    refine .cons ?_ (ih rest)
    intro token later
    obtain ⟨offset, behind, inside, found⟩ := rest.exists_offset later
    have nonempty := List.length_pos_iff.mpr lexeme.ne_nil
    rw [Piece.span, List.length_append] at behind
    rw [found]
    exact Position.ofOffset_before (by omega) (Nat.le_of_lt inside)

/-- Every token stands behind the one in front of it, and the mark of the end behind them all. -/
theorem tokenize_pairwise_before (source : List Char) :
    (tokenize source).Pairwise (·.position.Before ·.position) := by
  obtain ⟨pieces, tail, segmentation⟩ := exists_segmentation source 0
  rw [segmentation.tokenize_eq, List.pairwise_append]
  refine ⟨segmentation.pairwise_before, List.pairwise_singleton _ _, ?_⟩
  intro token member last isLast
  obtain ⟨offset, -, inside, found⟩ := segmentation.exists_offset member
  rw [List.mem_singleton.mp isLast, found]
  exact Position.ofOffset_before inside (Nat.le_refl _)

end Token

end MiniLisp
