import MiniLisp.Proofs.Text.Newline
import MiniLisp.Proofs.Token.Lexeme

/-!
# Scanning around a newline

No token reaches into a blank on the same line unless a string literal does, and no string literal
reaches a newline.  So a text is cut into the same tokens whatever follows on the next line, and
what follows is cut as if it stood alone, only further down.
-/

namespace MiniLisp

/-! ## Positions further down -/

/-- The position some lines below another one, in the same column. -/
def Position.below (lines : Nat) (position : Position) : Position :=
  ⟨position.line + lines, position.column⟩

/-- The token as it would be if the text stood some lines further down. -/
def Token.below (lines : Nat) (token : Token) : Token :=
  { token with position := token.position.below lines }

namespace Position

theorem next_below (lines : Nat) (position : Position) (character : Char) :
    (position.below lines).next character = (position.next character).below lines := by
  by_cases newline : character = '\n'
  · simp [next, below, newline, Int.add_right_comm]
  · simp [next, below, newline]

theorem after_below (lines : Nat) (position : Position) (text : List Char) :
    (position.below lines).after text = (position.after text).below lines := by
  induction text generalizing position with
  | nil => rfl
  | cons first rest ih => simp [next_below, ih]

/-- Every newline leads one line down. -/
theorem line_after (position : Position) (text : List Char) :
    (position.after text).line = position.line + text.count '\n' := by
  induction text generalizing position with
  | nil => simp
  | cons first rest ih =>
    by_cases newline : first = '\n'
    · simp [ih, next, newline, Int.add_assoc, Int.add_comm 1]
    · simp [ih, next, newline]

/-- Behind a text and a newline a new line begins. -/
theorem next_newline (text : List Char) :
    (start.after text).next '\n' = start.below (1 + text.count '\n') := by
  simp [next, below, line_after, start, Int.add_comm]

end Position

namespace Token

/-- Scanning further down gives the same tokens further down. -/
theorem scanFrom_below (lines : Nat) (position : Position) (covered : Nat) (source : List Char) :
    scanFrom (position.below lines) covered source =
      (scanFrom position covered source).map (below lines) := by
  fun_induction scanFrom position covered source with
  | case1 position covered => simp [scanFrom]
  | case2 position covered first rest ih => simp [scanFrom, Position.next_below, ih]
  | case3 position first rest extent found ih =>
    simp [scanFrom, found, Position.next_below, ih]
  | case4 position first rest kind extent found ih =>
    simp [scanFrom, found, Position.next_below, ih, below]

/-- The lexemes of a text are the same wherever it stands. -/
theorem map_text_scanFrom (position position' : Position) (covered : Nat) (source : List Char) :
    (scanFrom position covered source).map text =
      (scanFrom position' covered source).map text := by
  fun_induction scanFrom position covered source generalizing position' with
  | case1 position covered => simp [scanFrom]
  | case2 position covered first rest ih => simpa [scanFrom] using ih _
  | case3 position first rest extent found ih => simpa [scanFrom, found] using ih _
  | case4 position first rest kind extent found ih => simpa [scanFrom, found] using ih _

/-! ## Texts that no token reaches into -/

/-- A text that nothing in front of it reaches into: a blank comes first, and no string literal can
close on its first line. -/
structure Separates (more : List Char) : Prop where
  blank : ∀ first ∈ more.head?, Text.isBlank first = true
  unquoted : quoteOnLine? more = none

theorem separates_newline (more : List Char) : Separates ('\n' :: more) :=
  ⟨by simp [Text.isBlank], rfl⟩

theorem ne_quote_of_isBlank {character : Char} (blank : Text.isBlank character = true) :
    character ≠ '"' := by
  intro quote
  rw [quote] at blank
  cases blank

theorem quoteOnLine?_of_unquoted {text : List Char} (unquoted : '"' ∉ text) :
    quoteOnLine? text = none := by
  cases found : quoteOnLine? text with
  | none => rfl
  | some extent => exact absurd (List.mem_of_getElem? (quoteOnLine?_found found).1) unquoted

theorem quoteOnLine?_blanks {gap : List Char}
    (blank : ∀ character ∈ gap, Text.isBlank character = true) : quoteOnLine? gap = none :=
  quoteOnLine?_of_unquoted fun quote => ne_quote_of_isBlank (blank _ quote) rfl

theorem separates_blanks {gap : List Char}
    (blank : ∀ character ∈ gap, Text.isBlank character = true) : Separates gap :=
  ⟨fun first head => blank first (List.mem_of_mem_head? head), quoteOnLine?_blanks blank⟩

variable {more : List Char}

theorem quoteOnLine?_append (separates : Separates more) (text : List Char) :
    quoteOnLine? (text ++ more) = quoteOnLine? text := by
  induction text with
  | nil => exact separates.unquoted
  | cons first rest ih => rw [List.cons_append, quoteOnLine?, quoteOnLine?, ih]

theorem stringExtent?_append (separates : Separates more) (first : Char) (rest : List Char) :
    stringExtent? first (rest ++ more) = stringExtent? first rest := by
  cases rest with
  | cons second rest =>
    rw [List.cons_append, stringExtent?, stringExtent?, quoteOnLine?_append separates]
  | nil =>
    cases more with
    | nil => rfl
    | cons second more =>
      by_cases newline : second = '\n'
      · simp [stringExtent?, newline]
      · have notQuote := ne_quote_of_isBlank (separates.blank second rfl)
        have unquoted : quoteOnLine? more = none := by
          simpa [quoteOnLine?, notQuote, newline] using separates.unquoted
        simp [stringExtent?, unquoted]

theorem endsAtom_append (separates : Separates more) (first : Char) (rest : List Char) :
    endsAtom first (rest ++ more) = endsAtom first rest := by
  rw [endsAtom, endsAtom, stringExtent?_append separates]

theorem atomExtent_append (separates : Separates more) (text : List Char) :
    atomExtent (text ++ more) = atomExtent text := by
  induction text with
  | cons first rest ih =>
    rw [List.cons_append, atomExtent, atomExtent, endsAtom_append separates, ih]
  | nil =>
    cases more with
    | nil => rfl
    | cons first more =>
      have blank := separates.blank first rfl
      simp [atomExtent, endsAtom, blank]

theorem cut_append (separates : Separates more) (first : Char) (rest : List Char) :
    cut first (rest ++ more) = cut first rest := by
  rw [cut, cut, stringExtent?_append separates, atomExtent_append separates]

/-- A token that is cut off lies inside the text. -/
theorem extent_le_length (first : Char) (rest : List Char) : (cut first rest).2 ≤ rest.length := by
  cases blank : Text.isBlank first with
  | true =>
    rw [cut_blank blank]
    exact Nat.zero_le _
  | false =>
    have ahead : (first :: rest).drop 0 = first :: rest := rfl
    obtain ⟨kind, extent, fits, found, -⟩ := exists_lexeme ahead blank
    rw [found]
    exact fits

/-! ## Scanning -/

/-- A text is cut into the same tokens with more behind it, if each of its tokens is cut the same.
That may be known only of tokens that are whole in some sense. -/
theorem scanFrom_append_of_cut {Whole : TokenKind → List Char → Prop}
    (same : ∀ first rest,
      (∀ kind ∈ (cut first rest).1, Whole kind (first :: rest.take (cut first rest).2)) →
        cut first (rest ++ more) = cut first rest)
    {position : Position} {covered : Nat} {left : List Char} (inside : covered ≤ left.length)
    (whole : ∀ token ∈ scanFrom position covered left, Whole token.kind token.text.toList) :
    scanFrom position covered (left ++ more) =
      scanFrom position covered left ++ scanFrom (position.after left) 0 more := by
  fun_induction scanFrom position covered left with
  | case1 position covered =>
    cases Nat.le_zero.mp inside
    rfl
  | case2 position covered first rest ih => exact ih (Nat.le_of_succ_le_succ inside) whole
  | case3 position first rest extent found ih =>
    have fits := extent_le_length first rest
    have kept := same first rest
    rw [found] at fits kept
    have blank : ∀ kind ∈ none, Whole kind (first :: rest.take extent) := by
      intro _ impossible
      cases impossible
    rw [List.cons_append, scanFrom, kept blank]
    exact ih fits whole
  | case4 position first rest kind extent found ih =>
    obtain ⟨here, behind⟩ := List.forall_mem_cons.mp whole
    rw [String.toList_ofList] at here
    have fits := extent_le_length first rest
    have kept := same first rest
    rw [found] at fits kept
    have token : ∀ other ∈ some kind, Whole other (first :: rest.take extent) := by
      rintro _ ⟨⟩
      exact here
    rw [List.cons_append, scanFrom, kept token]
    simp only [List.take_append_of_le_length fits, ih fits behind]
    rfl

theorem scanFrom_append (separates : Separates more) {position : Position} {covered : Nat}
    {left : List Char} (inside : covered ≤ left.length) :
    scanFrom position covered (left ++ more) =
      scanFrom position covered left ++ scanFrom (position.after left) 0 more :=
  @scanFrom_append_of_cut more (fun _ _ => True)
    (fun first rest _ => cut_append separates first rest) _ _ _ inside fun _ _ => trivial

/-- Blanks at the end of a text are no tokens. -/
theorem scanFrom_append_blanks {gap : List Char}
    (blank : ∀ character ∈ gap, Text.isBlank character = true) (position : Position)
    (text : List Char) : scanFrom position 0 (text ++ gap) = scanFrom position 0 text := by
  have skipped := scanFrom_blanks blank (position.after text) []
  rw [List.append_nil] at skipped
  rw [scanFrom_append (separates_blanks blank) (Nat.zero_le _), skipped, scanFrom, List.append_nil]

/-- The tokens of two texts with a newline between them are the tokens of the first and those of the
second, which start on a new line. -/
theorem scan_newline (left right : List Char) :
    scan (left ++ '\n' :: right) =
      scan left ++ scanFrom ((Position.start.after left).next '\n') 0 right :=
  scanFrom_append (separates_newline right) (Nat.zero_le _)

/-- The tokens of the second text are those it has on its own, further down. -/
theorem scan_newline_below (left right : List Char) :
    scan (left ++ '\n' :: right) =
      scan left ++ (scan right).map (below (1 + left.count '\n')) := by
  rw [scan_newline, Position.next_newline, scanFrom_below]
  rfl

theorem lexemes_newline (left right : List Char) :
    lexemes (left ++ '\n' :: right) = lexemes left ++ lexemes right := by
  simp [lexemes, scan_newline_below, below, Function.comp_def]

/-- Texts of any bytes that are joined by newlines have the lexemes that they have on their own. -/
theorem lexemes_joined (sources : List (List UInt8)) :
    lexemes (Text.decode (List.intercalate [Text.newlineByte] sources)) =
      sources.flatMap fun source => lexemes (Text.decode source) := by
  induction sources with
  | nil => rfl
  | cons source rest ih =>
    cases rest with
    | nil => simp
    | cons next rest =>
      have joined : List.intercalate [Text.newlineByte] (source :: next :: rest) =
          source ++ Text.newlineByte :: List.intercalate [Text.newlineByte] (next :: rest) := by
        simp [List.intercalate]
      rw [joined, Text.decode_newline, lexemes_newline, ih]
      rfl

/-- Two texts of any bytes with a newline between them have the tokens of the first without the mark
of its end, and behind these the tokens of the second, each as many lines further down as the first
text and the newline take. -/
theorem tokenize_newline (left right : List UInt8) :
    tokenize (Text.decode (left ++ Text.newlineByte :: right)) =
      (tokenize (Text.decode left)).dropLast ++
        (tokenize (Text.decode right)).map (below (1 + left.count Text.newlineByte)) := by
  have stop : Position.start.after (Text.decode left ++ '\n' :: Text.decode right) =
      (Position.start.after (Text.decode right)).below (1 + (Text.decode left).count '\n') := by
    rw [Position.after_append, Position.after_cons, Position.next_newline, Position.after_below]
  rw [Text.decode_newline, ← Text.count_decode]
  simp only [tokenize, List.dropLast_concat, List.map_append, List.map_singleton]
  rw [scan_newline_below, stop, List.append_assoc]
  rfl

end Token

end MiniLisp
