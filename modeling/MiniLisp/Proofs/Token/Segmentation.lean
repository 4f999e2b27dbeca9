import MiniLisp.Proofs.Token.Lexeme

/-!
# Segmentations

A text is cut into lexemes, with nothing but blanks between them.  There is exactly one way to do
so, and scanning finds it.
-/

namespace MiniLisp.Token

/-- A lexeme of a text with the blanks in front of it. -/
structure Piece where
  gap : List Char
  kind : TokenKind
  text : List Char

/-- All characters of a piece. -/
def Piece.span (piece : Piece) : List Char :=
  piece.gap ++ piece.text

/-- The tokens of pieces that follow each other from `position` on. -/
def Piece.tokens (position : Position) : List Piece → List Token
  | [] => []
  | piece :: pieces =>
    ⟨piece.kind, String.ofList piece.text, position.after piece.gap⟩ ::
      tokens (position.after piece.span) pieces

/-- The pieces cut a text from `start` on, and the blanks `tail` are left behind the last one.  Each
text is a lexeme at the offset where it stands. -/
structure Segmentation (source : List Char) (start : Nat) (pieces : List Piece)
    (tail : List Char) : Prop where
  joined : pieces.flatMap Piece.span ++ tail = source.drop start
  separated : ∀ piece ∈ pieces, ∀ character ∈ piece.gap, Text.isBlank character = true
  trailing : ∀ character ∈ tail, Text.isBlank character = true
  typed : ∀ before piece after, pieces = before ++ piece :: after →
    Lexeme source (start + (before.flatMap Piece.span).length + piece.gap.length) piece.kind
      piece.text

variable {source : List Char} {start : Nat} {piece : Piece} {pieces : List Piece}
  {tail : List Char}

/-! ## One piece -/

theorem drop_gap {after : List Char} (ahead : source.drop start = piece.span ++ after) :
    source.drop (start + piece.gap.length) = piece.text ++ after := by
  rw [← List.drop_drop, ahead, Piece.span, List.append_assoc, List.drop_left]

theorem drop_span {after : List Char} (ahead : source.drop start = piece.span ++ after) :
    source.drop (start + piece.span.length) = after := by
  rw [← List.drop_drop, ahead, List.drop_left]

theorem segmentation_nil :
    Segmentation source start [] tail ↔
      tail = source.drop start ∧ ∀ character ∈ tail, Text.isBlank character = true := by
  constructor
  · intro segmentation
    exact ⟨segmentation.joined, segmentation.trailing⟩
  · rintro ⟨joined, trailing⟩
    refine ⟨joined, nofun, trailing, ?_⟩
    intro before piece after split
    cases List.append_eq_nil_iff.mp split.symm |>.2

/-- A segmentation is its first piece and a segmentation of what stands behind this. -/
theorem segmentation_cons :
    Segmentation source start (piece :: pieces) tail ↔
      (∃ after, source.drop start = piece.span ++ after) ∧
      (∀ character ∈ piece.gap, Text.isBlank character = true) ∧
      Lexeme source (start + piece.gap.length) piece.kind piece.text ∧
      Segmentation source (start + piece.span.length) pieces tail := by
  constructor
  · rintro ⟨joined, separated, trailing, typed⟩
    rw [List.flatMap_cons, List.append_assoc] at joined
    rcases List.forall_mem_cons.mp separated with ⟨blank, blanks⟩
    refine ⟨⟨_, joined.symm⟩, blank, typed [] piece pieces rfl, ?_, blanks, trailing, ?_⟩
    · exact (drop_span joined.symm).symm
    · intro before piece' after split
      have lexeme := typed (piece :: before) piece' after (by rw [split, List.cons_append])
      rwa [List.flatMap_cons, List.length_append, ← Nat.add_assoc] at lexeme
  · rintro ⟨⟨after, ahead⟩, blank, lexeme, joined, blanks, trailing, typed⟩
    refine ⟨?_, List.forall_mem_cons.mpr ⟨blank, blanks⟩, trailing, ?_⟩
    · rw [drop_span ahead] at joined
      rw [List.flatMap_cons, List.append_assoc, joined, ahead]
    · intro before piece' after split
      cases before with
      | nil =>
        rcases List.cons.inj split with ⟨rfl, rfl⟩
        exact lexeme
      | cons first before =>
        rcases List.cons.inj split with ⟨rfl, split'⟩
        rw [List.flatMap_cons, List.length_append, ← Nat.add_assoc]
        exact typed before piece' after split'

/-! ## Scanning a segmentation -/

/-- Scanning gives the tokens of any segmentation. -/
theorem Segmentation.scanFrom_eq (segmentation : Segmentation source start pieces tail)
    (position : Position) :
    scanFrom position 0 (source.drop start) = Piece.tokens position pieces := by
  induction pieces generalizing start position with
  | nil =>
    rcases segmentation_nil.mp segmentation with ⟨rfl, blank⟩
    have scanned := scanFrom_blanks blank position []
    rwa [List.append_nil] at scanned
  | cons piece pieces ih =>
    rcases segmentation_cons.mp segmentation with ⟨⟨after, ahead⟩, blank, lexeme, rest⟩
    have further := ih rest (position.after piece.span)
    rw [drop_span ahead] at further
    rw [ahead, Piece.span, List.append_assoc, scanFrom_blanks blank,
      lexeme.scanFrom_eq (drop_gap ahead), ← Position.after_append]
    rw [Piece.span] at further
    rw [further, Piece.tokens, Piece.span]

/-! ## There is a segmentation -/

theorem Segmentation.skipBlank {first : Char} {rest : List Char}
    (segmentation : Segmentation source (start + 1) pieces tail)
    (ahead : source.drop start = first :: rest) (blank : Text.isBlank first = true) :
    ∃ pieces tail, Segmentation source start pieces tail := by
  have ahead' := drop_succ_of_ahead ahead
  cases pieces with
  | nil =>
    rcases segmentation_nil.mp segmentation with ⟨rfl, trailing⟩
    refine ⟨[], source.drop start, segmentation_nil.mpr ⟨rfl, ?_⟩⟩
    rw [ahead, ← ahead']
    exact List.forall_mem_cons.mpr ⟨blank, trailing⟩
  | cons piece pieces =>
    rcases segmentation_cons.mp segmentation with ⟨⟨after, split⟩, gap, lexeme, others⟩
    refine ⟨⟨first :: piece.gap, piece.kind, piece.text⟩ :: pieces, tail,
      segmentation_cons.mpr ⟨⟨after, ?_⟩, List.forall_mem_cons.mpr ⟨blank, gap⟩, ?_, ?_⟩⟩
    · rw [ahead, ← ahead', split]
      rfl
    · rw [List.length_cons, Nat.add_comm piece.gap.length, ← Nat.add_assoc]
      exact lexeme
    · have length : (Piece.span ⟨first :: piece.gap, piece.kind, piece.text⟩).length =
          1 + piece.span.length := by
        rw [Nat.add_comm]
        rfl
      rw [length, ← Nat.add_assoc]
      exact others

theorem exists_segmentation (source : List Char) (start : Nat) :
    ∃ pieces tail, Segmentation source start pieces tail := by
  -- The offset moves behind a blank or behind a whole lexeme, so fewer characters are left.
  induction left : source.length - start using Nat.strongRecOn generalizing start with
  | ind left ih =>
    cases ahead : source.drop start with
    | nil => exact ⟨[], [], segmentation_nil.mpr ⟨ahead.symm, nofun⟩⟩
    | cons first rest =>
      have length := congrArg List.length ahead
      rw [List.length_drop, List.length_cons] at length
      cases blank : Text.isBlank first with
      | true =>
        rcases ih (source.length - (start + 1)) (by omega) _ rfl with ⟨pieces, tail, segmentation⟩
        exact segmentation.skipBlank ahead blank
      | false =>
        rcases exists_lexeme ahead blank with ⟨kind, extent, fits, _, lexeme⟩
        obtain ⟨pieces, tail, segmentation⟩ :=
          ih (source.length - (start + (extent + 1))) (by omega) _ rfl
        refine ⟨⟨[], kind, first :: rest.take extent⟩ :: pieces, tail,
          segmentation_cons.mpr ⟨⟨rest.drop extent, ?_⟩, nofun, lexeme, ?_⟩⟩
        · rw [ahead, Piece.span, List.nil_append, List.cons_append, List.take_append_drop]
        · have size : (first :: rest.take extent).length = extent + 1 := by
            rw [List.length_cons, List.length_take, Nat.min_eq_left fits]
          rw [Piece.span, List.nil_append, size]
          exact segmentation

/-! ## There is only one -/

/-- The blanks in front of a character that is none are the same however they are found. -/
theorem gap_unique {gap gap' rest rest' : List Char} {first first' : Char}
    (blank : ∀ character ∈ gap, Text.isBlank character = true)
    (blank' : ∀ character ∈ gap', Text.isBlank character = true)
    (visible : Text.isBlank first = false) (visible' : Text.isBlank first' = false)
    (joined : gap ++ first :: rest = gap' ++ first' :: rest') : gap = gap' := by
  have taken : ∀ {gap rest : List Char} {first : Char},
      (∀ character ∈ gap, Text.isBlank character = true) → Text.isBlank first = false →
      (gap ++ first :: rest).takeWhile Text.isBlank = gap := by
    intro gap rest first blank visible
    rw [List.takeWhile_append_of_pos blank, List.takeWhile_cons_of_neg (by simp [visible]),
      List.append_nil]
  rw [← taken blank visible, joined, taken blank' visible']

/-- Where a piece is left, not all that is left is blank. -/
theorem not_blank_of_lexeme {after : List Char} (ahead : source.drop start = piece.span ++ after)
    (lexeme : Lexeme source (start + piece.gap.length) piece.kind piece.text) :
    ¬∀ character ∈ source.drop start, Text.isBlank character = true := by
  intro blank
  rcases lexeme.exists_visible (drop_gap ahead) with ⟨first, rest, text, visible⟩
  have inside : first ∈ source.drop start := by simp [ahead, Piece.span, text]
  cases visible.symm.trans (blank first inside)

theorem Segmentation.unique {pieces' : List Piece} {tail' : List Char}
    (segmentation : Segmentation source start pieces tail)
    (segmentation' : Segmentation source start pieces' tail') :
    pieces = pieces' ∧ tail = tail' := by
  induction pieces generalizing start pieces' with
  | nil =>
    rcases segmentation_nil.mp segmentation with ⟨rfl, blank⟩
    cases pieces' with
    | nil => exact ⟨rfl, (segmentation_nil.mp segmentation').1.symm⟩
    | cons piece' pieces' =>
      rcases segmentation_cons.mp segmentation' with ⟨⟨after, ahead⟩, _, lexeme, _⟩
      exact absurd blank (not_blank_of_lexeme ahead lexeme)
  | cons piece pieces ih =>
    rcases segmentation_cons.mp segmentation with ⟨⟨after, ahead⟩, blank, lexeme, others⟩
    cases pieces' with
    | nil =>
      rcases segmentation_nil.mp segmentation' with ⟨rfl, blank'⟩
      exact absurd blank' (not_blank_of_lexeme ahead lexeme)
    | cons piece' pieces' =>
      rcases segmentation_cons.mp segmentation' with ⟨⟨after', ahead'⟩, blank', lexeme', others'⟩
      rcases lexeme.exists_visible (drop_gap ahead) with ⟨first, rest, text, visible⟩
      rcases lexeme'.exists_visible (drop_gap ahead') with ⟨first', rest', text', visible'⟩
      have joined : piece.gap ++ first :: (rest ++ after) =
          piece'.gap ++ first' :: (rest' ++ after') := by
        simpa [Piece.span, text, text'] using ahead.symm.trans ahead'
      have sameGap := gap_unique blank blank' visible visible' joined
      rw [← sameGap] at lexeme'
      have behind' : source.drop (start + piece.gap.length) = piece'.text ++ after' := by
        rw [sameGap]
        exact drop_gap ahead'
      rcases lexeme.unique lexeme' (drop_gap ahead) behind' with ⟨sameKind, sameText⟩
      have samePiece : piece = piece' := by
        cases piece
        cases piece'
        simp_all only
      subst samePiece
      rcases ih others others' with ⟨rfl, sameTail⟩
      exact ⟨rfl, sameTail⟩

/-- Every text has exactly one segmentation.  Its pieces are the tokens that scanning gives, and one
more token marks the end. -/
theorem tokenize_unique_segmentation (source : List Char) :
    ∃ pieces tail, Segmentation source 0 pieces tail ∧
      tokenize source =
        Piece.tokens Position.start pieces ++ [endAt (Position.start.after source)] ∧
      ∀ pieces' tail', Segmentation source 0 pieces' tail' → pieces' = pieces ∧ tail' = tail := by
  rcases exists_segmentation source 0 with ⟨pieces, tail, segmentation⟩
  refine ⟨pieces, tail, segmentation, ?_, ?_⟩
  · have scanned := segmentation.scanFrom_eq Position.start
    rw [List.drop_zero] at scanned
    rw [tokenize, scan, scanned]
  · intro pieces' tail' other
    exact other.unique segmentation

end MiniLisp.Token
