import MiniLisp.Proofs.Text.Encoding
import MiniLisp.Proofs.Token.Newline
import MiniLisp.Proofs.Token.Segmentation

/-!
# Scanning lexemes again

Whether a quote opens a string depends on what follows on its line, but no further than to the end
of the lexeme that holds it.  So a lexeme that stands alone is the lexeme it was, and a text that
holds nothing but the lexemes of another one, on a line each, is cut into the same lexemes of the
same kinds.
-/

namespace MiniLisp.Token

/-! ## A lexeme on its own -/

section Alone

variable {source text after : List Char} {start : Nat}

theorem getElem?_inside (ahead : source.drop start = text ++ after) {offset : Nat}
    (inside : offset < text.length) : source[start + offset]? = text[offset]? := by
  rw [getElem?_ahead ahead, List.getElem?_append_left inside]

/-- What could close a literal in a part of a text could close it in the whole. -/
theorem Closes.in_whole {offset stop : Nat} (closes : Closes text offset stop)
    (ahead : source.drop start = text ++ after) :
    Closes source (start + offset) (start + stop) := by
  obtain ⟨apart, quote, sameLine⟩ := closes
  have inside : stop < text.length := (List.getElem?_eq_some_iff.mp quote).1
  refine ⟨by omega, ?_, ?_⟩
  · rw [getElem?_inside ahead inside, quote]
  · intro place behind before
    obtain ⟨further, rfl⟩ := Nat.exists_eq_add_of_le (Nat.le_of_add_right_le (Nat.le_of_lt behind))
    rw [getElem?_inside ahead (by omega)]
    exact sameLine further (by omega) (by omega)

theorem Closes.in_part {stop : Nat} (closes : Closes source start (start + stop))
    (ahead : source.drop start = text ++ after) (inside : stop < text.length) :
    Closes text 0 stop := by
  obtain ⟨apart, quote, sameLine⟩ := closes
  refine ⟨by omega, ?_, ?_⟩
  · rw [← getElem?_inside ahead inside, quote]
  · intro place behind before
    rw [← getElem?_inside ahead (by omega)]
    exact sameLine (start + place) (by omega) (by omega)

theorem StartsString.in_whole {offset : Nat} (starts : StartsString text offset)
    (ahead : source.drop start = text ++ after) : StartsString source (start + offset) := by
  obtain ⟨quote, stop, closes⟩ := starts
  have inside : offset < text.length := (List.getElem?_eq_some_iff.mp quote).1
  refine ⟨?_, start + stop, closes.in_whole ahead⟩
  rw [getElem?_inside ahead inside, quote]

/-- Where an atom ends inside a part of a text, it ends in the whole. -/
theorem Breaks.in_whole {offset : Nat} (breaks : Breaks text offset)
    (ahead : source.drop start = text ++ after) (inside : offset < text.length) :
    Breaks source (start + offset) := by
  have same := getElem?_inside ahead inside
  cases breaks with
  | ends ends => omega
  | parenthesis found =>
    rw [← same] at found
    exact .parenthesis found
  | blank found isBlank =>
    rw [← same] at found
    exact .blank found isBlank
  | string starts => exact .string (starts.in_whole ahead)

/-- A lexeme is a lexeme where nothing stands around it. -/
theorem Lexeme.alone {kind : TokenKind} (lexeme : Lexeme source start kind text)
    (ahead : source.drop start = text ++ after) : Lexeme text 0 kind text := by
  cases lexeme with
  | openList => exact .openList
  | closeList => exact .closeList
  | @string _ stop literal spans =>
    obtain ⟨extent, rfl⟩ := Nat.exists_eq_add_of_le
      (Nat.le_trans (Nat.le_add_right _ 2) literal.closes.apart)
    refine .string ⟨?_, literal.closes.in_part ahead (by omega), ?_⟩ (by omega)
    · rw [← getElem?_inside ahead (by omega), Nat.add_zero, literal.quote]
    · intro other closes
      have least := literal.least (start + other) (closes.in_whole ahead)
      omega
  | atom nonempty unbroken =>
    refine .atom nonempty ?_ (.ends (by omega))
    intro offset _ inside breaks
    exact unbroken (start + offset) (by omega) (by omega) (breaks.in_whole ahead (by omega))

end Alone

/-! ## Lexemes on lines of their own -/

/-- What a token is, wherever it stands. -/
def content (token : Token) : TokenKind × String :=
  (token.kind, token.text)

/-- The kinds and texts of the tokens of a source, in order. -/
def contents (source : List Char) : List (TokenKind × String) :=
  (scan source).map content

theorem map_fst_contents (source : List Char) :
    (contents source).map Prod.fst = (scan source).map Token.kind := by
  rw [contents, List.map_map]
  rfl

theorem map_snd_contents (source : List Char) :
    (contents source).map Prod.snd = lexemes source := by
  rw [contents, List.map_map]
  rfl

theorem contents_newline (left right : List Char) :
    contents (left ++ '\n' :: right) = contents left ++ contents right := by
  simp [contents, scan_newline_below, content, below, Function.comp_def]

/-- Texts on lines of their own have the tokens that they have alone. -/
theorem contents_joined (texts : List (List Char)) :
    contents (List.intercalate ['\n'] texts) = texts.flatMap contents := by
  induction texts with
  | nil => rfl
  | cons text rest ih =>
    cases rest with
    | nil => simp
    | cons next rest =>
      have joined : List.intercalate ['\n'] (text :: next :: rest) =
          text ++ '\n' :: List.intercalate ['\n'] (next :: rest) := by
        simp [List.intercalate]
      rw [joined, contents_newline, ih]
      rfl

theorem Lexeme.contents_eq {source text after : List Char} {start : Nat} {kind : TokenKind}
    (lexeme : Lexeme source start kind text) (ahead : source.drop start = text ++ after) :
    contents text = [(kind, String.ofList text)] := by
  have scanned := (lexeme.alone ahead).scanFrom_eq (List.append_nil text).symm Position.start
  rw [List.append_nil] at scanned
  rw [contents, scan, scanned]
  rfl

variable {source : List Char} {start : Nat} {pieces : List Piece} {tail : List Char}

theorem Segmentation.contents_flatMap (segmentation : Segmentation source start pieces tail) :
    (pieces.map Piece.text).flatMap contents =
      pieces.map fun piece => (piece.kind, String.ofList piece.text) := by
  induction pieces generalizing start with
  | nil => rfl
  | cons piece pieces ih =>
    obtain ⟨⟨after, ahead⟩, -, lexeme, rest⟩ := segmentation_cons.mp segmentation
    rw [List.map_cons, List.flatMap_cons, lexeme.contents_eq (drop_gap ahead), ih rest]
    rfl

theorem content_tokens (position : Position) (pieces : List Piece) :
    (Piece.tokens position pieces).map content =
      pieces.map fun piece => (piece.kind, String.ofList piece.text) := by
  induction pieces generalizing position with
  | nil => rfl
  | cons piece pieces ih => rw [Piece.tokens, List.map_cons, ih, List.map_cons]; rfl

/-- The lexemes of a source, on a line each. -/
def listing (source : List Char) : String :=
  String.intercalate "\n" (lexemes source)

/-- The lexemes of a text, on a line each, are cut into the same lexemes of the same kinds. -/
theorem contents_listing (source : List Char) :
    contents (listing source).toList = contents source := by
  obtain ⟨pieces, tail, segmentation⟩ := exists_segmentation source 0
  have found : contents source =
      pieces.map fun piece => (piece.kind, String.ofList piece.text) := by
    have scanned := segmentation.scanFrom_eq Position.start
    rw [List.drop_zero] at scanned
    rw [contents, scan, scanned, content_tokens]
  have texts : (lexemes source).map String.toList = pieces.map Piece.text := by
    simp [← map_snd_contents, found, Function.comp_def]
  rw [listing, String.toList_intercalate, texts, found]
  exact (contents_joined _).trans segmentation.contents_flatMap

/-- Lexemes are stable: the lexemes of a text of any bytes, written one on a line, are the lexemes
of the text that they make up, with the same kinds as before. -/
theorem lexemes_stable (source : List UInt8) :
    lexemes (Text.decode (listing (Text.decode source)).toUTF8.data.toList) =
        lexemes (Text.decode source) ∧
      (scan (Text.decode (listing (Text.decode source)).toUTF8.data.toList)).map Token.kind =
        (scan (Text.decode source)).map Token.kind := by
  have same := contents_listing (Text.decode source)
  rw [Text.decode_toUTF8, ← map_snd_contents, ← map_fst_contents, same, map_snd_contents,
    map_fst_contents]
  exact ⟨rfl, rfl⟩

end MiniLisp.Token
