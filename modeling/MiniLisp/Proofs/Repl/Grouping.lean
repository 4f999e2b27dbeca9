import Mathlib.Algebra.GroupWithZero.Nat
import Mathlib.Data.List.TakeWhile
import MiniLisp.Proofs.Reader.Lexemes
import MiniLisp.Proofs.Repl.Completion

/-!
# Lines make up texts

A program that is entered line by line is handed on as one text with all its lexemes: in front of
its last lexeme a list is open, and so more lines are asked for.  The lines without lexemes around
it are handed on one by one, and there is nothing in them to answer.
-/

namespace MiniLisp

/-! ## Blanks around a text -/

namespace Text

/-- A text is trimmed at its end by the blanks there, once the blanks at its start are dropped. -/
theorem exists_dropWhile_eq (text : List Glyph) :
    ∃ after, (text.dropWhile fun glyph => isBlank glyph.character) = trim text ++ after ∧
      ∀ glyph ∈ after, isBlank glyph.character = true := by
  let blank : Glyph → Bool := fun glyph => isBlank glyph.character
  refine ⟨((text.dropWhile blank).reverse.takeWhile blank).reverse, ?_, ?_⟩
  · rw [trim, ← List.reverse_append, List.takeWhile_append_dropWhile, List.reverse_reverse]
  · intro glyph member
    have blank := List.mem_takeWhile_imp (List.mem_reverse.mp member)
    exact blank

theorem exists_trim (text : List Glyph) :
    ∃ before after, text = before ++ (trim text ++ after) ∧
      (∀ glyph ∈ before, isBlank glyph.character = true) ∧
      ∀ glyph ∈ after, isBlank glyph.character = true := by
  obtain ⟨after, dropped, blankAfter⟩ := exists_dropWhile_eq text
  refine ⟨text.takeWhile fun glyph => isBlank glyph.character, after, ?_, ?_, blankAfter⟩
  · rw [← dropped, List.takeWhile_append_dropWhile]
  · intro glyph member
    have blank := List.mem_takeWhile_imp member
    exact blank

/-- The first glyph of a trimmed text is no blank. -/
theorem not_blank_of_head_trim {text : List Glyph} {first : Glyph} {rest : List Glyph}
    (trimmed : trim text = first :: rest) : isBlank first.character = false := by
  obtain ⟨after, dropped, -⟩ := exists_dropWhile_eq text
  have head := List.head?_dropWhile_not (fun glyph : Glyph => isBlank glyph.character) text
  rw [dropped, trimmed] at head
  simpa using head

end Text

namespace Token

theorem lexemes_trim (text : List Text.Glyph) :
    lexemes (Text.characters (Text.trim text)) = lexemes (Text.characters text) := by
  obtain ⟨before, after, split, blankBefore, blankAfter⟩ := Text.exists_trim text
  have gapBefore : ∀ character ∈ Text.characters before, Text.isBlank character = true := by
    simpa [Text.characters] using blankBefore
  have gapAfter : ∀ character ∈ Text.characters after, Text.isBlank character = true := by
    simpa [Text.characters] using blankAfter
  conv_rhs => rw [split]
  rw [Text.characters_append, Text.characters_append, lexemes, lexemes, scan, scan,
    scanFrom_blanks gapBefore, scanFrom_append_blanks gapAfter]
  exact map_text_scanFrom _ _ _ _

theorem lexemes_ne_nil_of_visible {first : Char} (visible : Text.isBlank first = false)
    (rest : List Char) : lexemes (first :: rest) ≠ [] := by
  have ahead : (first :: rest).drop 0 = first :: rest := rfl
  obtain ⟨kind, extent, -, found, -⟩ := exists_lexeme ahead visible
  simp [lexemes, scan, scanFrom, found]

/-- A text without lexemes is blank. -/
theorem trim_eq_nil {text : List Text.Glyph} (bare : lexemes (Text.characters text) = []) :
    Text.trim text = [] := by
  rw [← lexemes_trim] at bare
  cases trimmed : Text.trim text with
  | nil => rfl
  | cons first rest =>
    rw [trimmed] at bare
    exact absurd bare (lexemes_ne_nil_of_visible (Text.not_blank_of_head_trim trimmed) _)

end Token

namespace Repl

open Reader Token

/-! ## Where more lines are asked for -/

theorem incomplete_of_complete {text : List Char} (complete : Complete text) :
    incomplete text = false := by
  cases asked : incomplete text with
  | false => rfl
  | true => exact absurd complete (unread_of_incomplete asked)

theorem complete_of_blank {text : List Char} (bare : lexemes text = []) : Complete text := by
  obtain ⟨forms, parsed, -⟩ := Form.parseAll_of_lexemes [] nofun bare
  exact ⟨forms, parsed⟩

variable {source : List Char} {form : Form}

theorem complete_of_whole (accepted : Form.parse source = .ok form) {text : List Char}
    (whole : lexemes text = lexemes source) : Complete text := by
  obtain ⟨forms, parsed, -⟩ := Form.parseAll_of_lexemes [source]
    (by simpa using ⟨form, accepted⟩) (by simpa using whole)
  exact ⟨forms, parsed⟩

/-- Some lexemes of a form, but not all of them, make up no program. -/
theorem not_complete_of_front (accepted : Form.parse source = .ok form) {text : List Char}
    {rest : List String} (split : lexemes text ++ rest = lexemes source)
    (started : lexemes text ≠ []) (unfinished : rest ≠ []) : ¬Complete text := by
  intro complete
  have derives := Form.derives_lexemes accepted
  rw [← split, List.map_append] at derives
  have opened := derives.open_of_front (by simpa using started) (by simpa using unfinished)
  have front : (lexemes text).map ofLexeme = (scan text).map bare := (scanFrom_bare _ _ _).symm
  rw [front, openings_bare, closings_bare] at opened
  have balanced := (complete_iff.mp complete).closed
  omega

/-- Where lexemes of a form are missing, more lines are asked for. -/
theorem incomplete_of_front (accepted : Form.parse source = .ok form) {text : List Char}
    {rest : List (List UInt8)}
    (split : lexemes text ++ (rest.flatMap fun line => lexemes (Text.decode line)) = lexemes source)
    (started : lexemes text ≠ []) (unfinished : lexemes text ≠ lexemes source) :
    incomplete text = true := by
  rw [← lexemes_joined] at split
  have missing : lexemes (Text.decode (List.intercalate [Text.newlineByte] rest)) ≠ [] := by
    intro nothing
    rw [nothing, List.append_nil] at split
    exact unfinished split
  apply incomplete_of_completed (not_complete_of_front accepted split started missing)
  exact complete_of_whole accepted ((lexemes_newline _ _).trans split)

/-! ## Grouping lines -/

/-- The lines of a source. -/
def lines (source : List UInt8) : List (List Text.Glyph) :=
  (source.splitOn Text.newlineByte).map Text.glyphs

/-- Texts hold sources: each source stands in one of the texts, with all its lexemes and no others,
and all other texts are blank. -/
inductive Holds : List (List UInt8) → List (List Text.Glyph) → Prop where
  | nothing : Holds [] []
  | blank {sources : List (List UInt8)} {text : List Text.Glyph} {rest : List (List Text.Glyph)}
      (bare : lexemes (Text.characters text) = []) (others : Holds sources rest) :
      Holds sources (text :: rest)
  | source {source : List UInt8} {sources : List (List UInt8)} {text : List Text.Glyph}
      {rest : List (List Text.Glyph)}
      (whole : lexemes (Text.characters text) = lexemes (Text.decode source))
      (others : Holds sources rest) : Holds (source :: sources) (text :: rest)

/-- Lines behind the text `pending` are grouped into texts that hold sources, and nothing is left
over. -/
def Groups (sources : List (List UInt8)) (pending : List Text.Glyph)
    (lines : List (List Text.Glyph)) : Prop :=
  ∃ complete, texts pending lines = (complete, []) ∧ Holds sources complete

variable {sources : List (List UInt8)} {pending line : List Text.Glyph}
variable {rest : List (List Text.Glyph)}

theorem lexemes_join (pending line : List Text.Glyph) :
    lexemes (Text.characters (join pending line)) =
      lexemes (Text.characters pending) ++ lexemes (Text.characters line) := by
  cases pending with
  | nil => rfl
  | cons first others =>
    rw [join, if_neg (by simp), Text.characters_append]
    exact lexemes_newline _ _

theorem Groups.more (asked : incomplete (Text.characters (join pending line)) = true)
    (groups : Groups sources (join pending line) rest) : Groups sources pending (line :: rest) := by
  obtain ⟨complete, grouped, holds⟩ := groups
  refine ⟨complete, ?_, holds⟩
  simp only [texts, asked, if_true, grouped]

theorem texts_of_answered (answered : incomplete (Text.characters (join pending line)) = false)
    {complete : List (List Text.Glyph)} (grouped : texts [] rest = (complete, [])) :
    texts pending (line :: rest) = (join pending line :: complete, []) := by
  simp [texts, answered, grouped]

theorem Groups.blank (bare : lexemes (Text.characters line) = [])
    (groups : Groups sources [] rest) : Groups sources [] (line :: rest) := by
  obtain ⟨complete, grouped, holds⟩ := groups
  have answered : incomplete (Text.characters (join [] line)) = false :=
    incomplete_of_complete (complete_of_blank bare)
  exact ⟨line :: complete, texts_of_answered answered grouped, .blank bare holds⟩

theorem Groups.whole {first : List UInt8} (accepted : Form.parse (Text.decode first) = .ok form)
    (whole : lexemes (Text.characters (join pending line)) = lexemes (Text.decode first))
    (groups : Groups sources [] rest) : Groups (first :: sources) pending (line :: rest) := by
  obtain ⟨complete, grouped, holds⟩ := groups
  have answered := incomplete_of_complete (complete_of_whole accepted whole)
  exact ⟨join pending line :: complete, texts_of_answered answered grouped, .source whole holds⟩

theorem Groups.blanks {blanks : List (List UInt8)}
    (bare : (blanks.flatMap fun line => lexemes (Text.decode line)) = [])
    (groups : Groups sources [] rest) : Groups sources [] (blanks.map Text.glyphs ++ rest) := by
  induction blanks with
  | nil => exact groups
  | cons line blanks ih =>
    rw [List.flatMap_cons, List.append_eq_nil_iff] at bare
    exact (ih bare.2).blank bare.1

/-- The lines of a form are grouped into the text of the form and blank lines.  What is pending has
some lexemes of the form and waits for the others, or it is empty. -/
theorem Groups.program {first : List UInt8} (accepted : Form.parse (Text.decode first) = .ok form)
    (groups : Groups sources [] rest) {ahead : List (List UInt8)}
    (split : lexemes (Text.characters pending) ++
      (ahead.flatMap fun line => lexemes (Text.decode line)) = lexemes (Text.decode first))
    (unfinished : lexemes (Text.characters pending) ≠ lexemes (Text.decode first))
    (waits : pending ≠ [] → lexemes (Text.characters pending) ≠ []) :
    Groups (first :: sources) pending (ahead.map Text.glyphs ++ rest) := by
  induction ahead generalizing pending with
  | nil =>
    rw [List.flatMap_nil, List.append_nil] at split
    exact absurd split unfinished
  | cons line ahead ih =>
    have joined : lexemes (Text.characters (join pending (Text.glyphs line))) =
        lexemes (Text.characters pending) ++ lexemes (Text.decode line) := lexemes_join _ _
    rw [List.flatMap_cons, ← List.append_assoc, ← joined] at split
    by_cases whole : lexemes (Text.characters (join pending (Text.glyphs line))) =
        lexemes (Text.decode first)
    · -- The last lexeme is there, so the lines that are left are blank.
      rw [whole, List.append_right_eq_self] at split
      exact (groups.blanks split).whole accepted whole
    by_cases started : lexemes (Text.characters (join pending (Text.glyphs line))) = []
    · obtain ⟨nothing, bare⟩ := List.append_eq_nil_iff.mp (joined.symm.trans started)
      have empty : pending = [] := by
        by_contra waiting
        exact waits waiting nothing
      rw [empty]
      apply Groups.blank bare
      apply ih _ _ nofun
      · rwa [started] at split
      · rwa [started] at whole
    · exact .more (incomplete_of_front accepted split started whole)
        (ih split whole fun _ => started)

/-- The lines of several programs are grouped into their texts. -/
theorem groups_lines {sources : List (List UInt8)}
    (accepted : ∀ source ∈ sources, ∃ form, Form.parse (Text.decode source) = .ok form) :
    Groups sources [] (sources.flatMap lines) := by
  induction sources with
  | nil => exact ⟨[], rfl, .nothing⟩
  | cons source sources ih =>
    obtain ⟨⟨form, parsed⟩, others⟩ := List.forall_mem_cons.mp accepted
    have joined := lexemes_joined (source.splitOn Text.newlineByte)
    rw [List.intercalate_splitOn] at joined
    have split : lexemes (Text.characters []) ++
        ((source.splitOn Text.newlineByte).flatMap fun line => lexemes (Text.decode line)) =
          lexemes (Text.decode source) := joined.symm
    exact (ih others).program parsed split (Form.lexemes_ne_nil parsed).symm nofun

/-! ## Counting lines -/

/-- No line holds a newline. -/
theorem newline_not_mem_lines (source : List UInt8) :
    ∀ line ∈ lines source, .char '\n' ∉ line := by
  intro line among
  obtain ⟨bytes, piece, rfl⟩ := List.mem_map.mp among
  intro newline
  have read : '\n' ∈ Text.decode bytes := List.mem_map_of_mem newline
  rw [← List.count_pos_iff, Text.count_decode, List.count_pos_iff] at read
  exact Text.not_mem_of_mem_splitOn bytes piece read

/-- The number of lines of a text. -/
def lineCount (text : List Text.Glyph) : Nat :=
  text.count (.char '\n') + 1

/-- The number of lines that wait for more. -/
def waiting (pending : List Text.Glyph) : Nat :=
  if pending.isEmpty then 0 else lineCount pending

theorem lineCount_join (pending : List Text.Glyph) {line : List Text.Glyph}
    (unbroken : .char '\n' ∉ line) : lineCount (join pending line) = waiting pending + 1 := by
  have none := List.count_eq_zero.mpr unbroken
  cases pending with
  | nil => simp [join, lineCount, waiting, none]
  | cons first others =>
    rw [join, if_neg (by simp), lineCount, List.count_append, List.count_cons_self, none]
    rfl

/-- Every line is taken into one text. -/
theorem lineCount_texts (pending : List Text.Glyph) {lines : List (List Text.Glyph)}
    (unbroken : ∀ line ∈ lines, .char '\n' ∉ line) :
    ((texts pending lines).1.map lineCount).sum + waiting (texts pending lines).2 =
      waiting pending + lines.length := by
  induction lines generalizing pending with
  | nil => simp [texts]
  | cons line rest ih =>
    obtain ⟨here, behind⟩ := List.forall_mem_cons.mp unbroken
    have taken := lineCount_join pending here
    cases asked : incomplete (Text.characters (join pending line)) with
    | true =>
      have waits : waiting (join pending line) = lineCount (join pending line) := by
        rw [waiting, if_neg]
        intro empty
        rw [List.isEmpty_iff.mp empty] at asked
        cases asked
      have counted := ih (join pending line) behind
      simp only [texts, asked, if_true, List.length_cons]
      omega
    | false =>
      have counted := ih [] behind
      have nothing : waiting [] = 0 := rfl
      simp only [texts, asked, Bool.false_eq_true, if_false, List.map_cons, List.sum_cons,
        List.length_cons]
      omega

end Repl

end MiniLisp
