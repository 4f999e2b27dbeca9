import MiniLisp.Proofs.Repl.Conservation
import MiniLisp.Proofs.Token.OneLine

/-!
# Texts recalled from the history

The history keeps a text on one line.  What stood on several lines is entered again as it was meant
only if it has the same lexemes on one line, and these change where a stray quote is followed by
a quote on a later line.  In every other case the entry is a complete text by itself, and where the
text is evaluated the entry is evaluated to the same answer.
-/

namespace MiniLisp

theorem Fault.cause?_bare (fault : Fault) : fault.bare.cause? = fault.cause? := by
  cases fault <;> rfl

namespace Repl

open Token

variable {text : List Text.Glyph}

/-! ## Complete texts -/

/-- Whether more lines are asked for depends on the lexemes alone. -/
theorem incomplete_eq_of_lexemes {source other : List Char}
    (same : lexemes other = lexemes source) : incomplete other = incomplete source := by
  have read := Form.readAll_lexemes other
  rw [same, Form.readAll_lexemes source] at read
  rw [incomplete, incomplete]
  cases first : Form.parseAll source with
  | ok forms =>
    rw [first] at read
    cases second : Form.parseAll other with
    | ok others => rfl
    | error stop =>
      rw [second] at read
      cases read
  | error stop =>
    rw [first] at read
    cases second : Form.parseAll other with
    | ok others =>
      rw [second] at read
      cases read
    | error stop' =>
      rw [second] at read
      have blamed : stop.bare = stop'.bare := Except.error.inj read
      cases stop <;> cases stop' <;> try cases blamed
      case fault.fault fault fault' =>
        have cause := congrArg Fault.cause? (Stop.fault.inj blamed)
        rw [Fault.cause?_bare, Fault.cause?_bare] at cause
        simp only [cause]
      all_goals rfl

/-- A text is handed on once nothing is missing. -/
theorem incomplete_of_mem_texts {pending : List Text.Glyph} {lines : List (List Text.Glyph)}
    (returned : text ∈ (texts pending lines).1) : incomplete (Text.characters text) = false := by
  induction lines generalizing pending with
  | nil => cases returned
  | cons line rest ih =>
    rw [texts] at returned
    cases asked : incomplete (Text.characters (join pending line)) with
    | true =>
      rw [asked] at returned
      exact ih returned
    | false =>
      rw [asked] at returned
      rcases List.mem_cons.mp returned with rfl | later
      · exact asked
      · exact ih later

/-! ## Entries -/

theorem characters_entry (text : List Text.Glyph) :
    Text.characters (entry text) = oneLine (Text.characters text) := by
  rw [Text.characters, Text.characters, entry, oneLine, List.map_map, List.map_map]
  apply List.map_congr_left
  intro glyph _
  cases glyph with
  | char character =>
    by_cases newline : character = '\n'
    · simp [newline, Text.Glyph.character]
    · simp [newline, Text.Glyph.character]
  | stray byte => rfl

theorem isBlank_entry (glyph : Text.Glyph) :
    Text.isBlank (if glyph = .char '\n' then .char ' ' else glyph).character =
      Text.isBlank glyph.character := by
  split
  case isTrue newline =>
    rw [newline]
    rfl
  case isFalse => rfl

/-- The blanks around a text are those around its entry. -/
theorem trim_entry (text : List Text.Glyph) : Text.trim (entry text) = entry (Text.trim text) := by
  simp only [Text.trim, entry, ← List.map_reverse, List.dropWhile_map, Function.comp_def,
    isBlank_entry]

/-- The entry of a text is the last one of the history. -/
theorem getLast?_add (history : History) (entered : List Text.Glyph) :
    (history.add entered).getLast? = some entered := by
  rw [History.add]
  split
  case isTrue repeated => exact repeated
  case isFalse =>
    rw [History.push]
    split
    case isFalse => simp
    case isTrue full =>
      cases history with
      | nil => exact absurd full (by simp [History.limit])
      | cons oldest others => simp

/-! ## Requests -/

/-- A text that is evaluated does not look like a command. -/
theorem Request.of_evaluate {source : List Char}
    (request : Request.ofText text = .evaluate source) :
    source = Text.characters (Text.trim text) ∧ source ≠ [] ∧ source.head? ≠ some ':' ∧
      String.ofList source ≠ "exit" ∧ String.ofList source ≠ "help" := by
  revert request
  fun_cases Request.ofText text with
  | case7 line trimmed some staying alone _ _ colon =>
    intro request
    obtain rfl : Text.characters (Text.trim text) = source := Request.evaluate.inj request
    refine ⟨rfl, by simpa using some, colon, ?_, ?_⟩
    · intro exit
      exact staying (by rw [exit]; rfl)
    · intro help
      exact alone (by rw [help]; rfl)
  | case1 | case2 | case3 | case4 | case5 | case6 =>
    intro request
    cases request

theorem head?_oneLine_ne {source : List Char} (colon : source.head? ≠ some ':') :
    (oneLine source).head? ≠ some ':' := by
  cases source with
  | nil => exact colon
  | cons first rest =>
    rw [oneLine, List.map_cons, List.head?_cons]
    split
    case isTrue => decide
    case isFalse => exact colon

/-- A word without a space is on one line only what it was. -/
theorem oneLine_ne {source : List Char} {word : String} (unspaced : ' ' ∉ word.toList)
    (other : String.ofList source ≠ word) : String.ofList (oneLine source) ≠ word := by
  rintro rfl
  rw [String.toList_ofList] at unspaced
  have unbroken : '\n' ∉ source := by
    intro newline
    exact unspaced (List.mem_map.mpr ⟨'\n', newline, rfl⟩)
  exact other (by rw [oneLine_of_unbroken unbroken])

/-- The entry of a text that is evaluated is evaluated. -/
theorem Request.ofText_entry {source : List Char}
    (request : Request.ofText text = .evaluate source) :
    Request.ofText (entry text) = .evaluate (oneLine source) := by
  obtain ⟨trimmed, nonempty, colon, exit, help⟩ := Request.of_evaluate request
  apply Request.ofText_eq_evaluate
  · rw [trim_entry, characters_entry, trimmed]
  · simpa [oneLine] using nonempty
  · exact head?_oneLine_ne colon
  · exact oneLine_ne (by decide) exit
  · exact oneLine_ne (by decide) help

/-! ## Entering an entry -/

/-- An entry stands for a text: as a line it is a text of its own, which is read alike, and where
the text is to be evaluated so is the entry.  If there is a form to evaluate, the reply is the same
on all machines. -/
structure StandsFor (recalled text : List Text.Glyph) : Prop where
  complete : texts [] [recalled] = ([recalled], [])
  alike : Form.ReadsAlike (Form.parse (Text.characters recalled))
    (Form.parse (Text.characters text))
  evaluated : ∀ source, Request.ofText text = .evaluate source →
    ∃ source', Request.ofText recalled = .evaluate source' ∧
      Form.ReadsAlike (Form.parse source') (Form.parse source)
  answered : ∀ source form, Request.ofText text = .evaluate source →
    Form.parse source = .ok form → ∀ (interpreter : Interpreter) (machine machine' : Machine),
      (handle interpreter recalled machine).1 = (handle interpreter text machine').1

theorem handle_evaluate {source : List Char} (request : Request.ofText text = .evaluate source)
    (interpreter : Interpreter) (machine : Machine) :
    (handle interpreter text machine).1 =
      ⟨display (interpreter.interpret source machine).1, false⟩ := by
  rw [handle, request]
  rfl

/-- The entry of a complete text stands for it if it has the same lexemes. -/
theorem standsFor_entry (finished : incomplete (Text.characters text) = false)
    (same : lexemes (Text.characters (entry text)) = lexemes (Text.characters text)) :
    StandsFor (entry text) text := by
  have answered : incomplete (Text.characters (join [] (entry text))) = false :=
    (incomplete_eq_of_lexemes same).trans finished
  have trimmed : lexemes (oneLine (Text.characters (Text.trim text))) =
      lexemes (Text.characters (Text.trim text)) := by
    rw [← characters_entry, ← trim_entry, lexemes_trim, lexemes_trim, same]
  refine ⟨texts_of_answered answered rfl, Form.parse_alike same, ?_, ?_⟩
  · intro source request
    obtain ⟨rfl, -⟩ := Request.of_evaluate request
    exact ⟨_, Request.ofText_entry request, Form.parse_alike trimmed⟩
  · intro source form request accepted interpreter machine machine'
    obtain ⟨rfl, -⟩ := Request.of_evaluate request
    have shown := (interpreter.interpret_alike trimmed accepted machine machine').display_eq
    rw [handle_evaluate request, handle_evaluate (Request.ofText_entry request), shown]

/-- A text that was entered at the prompt, on any number of lines, is kept as the last entry of the
history unless it is blank.  The entry has the lexemes of the text exactly if no stray quote of the
text is followed by a quote on a later line, and then it stands for the text. -/
theorem entry_standsFor_of_quotesApart {lines : List (List Text.Glyph)}
    (returned : text ∈ (texts [] lines).1) :
    (Text.trim text ≠ [] → ∀ (interpreter : Interpreter) (history : History) (machine : Machine),
      (accept interpreter history text machine).1.2.getLast? = some (entry text)) ∧
    (lexemes (Text.characters (entry text)) = lexemes (Text.characters text) ↔
      QuotesApart ((Text.characters text).splitOn '\n')) ∧
    (QuotesApart ((Text.characters text).splitOn '\n') → StandsFor (entry text) text) := by
  have same_iff : lexemes (Text.characters (entry text)) = lexemes (Text.characters text) ↔
      QuotesApart ((Text.characters text).splitOn '\n') := by
    rw [characters_entry]
    exact lexemes_oneLine_iff _
  refine ⟨?_, same_iff, ?_⟩
  · intro visible interpreter history machine
    rw [accept_visible interpreter history visible]
    exact getLast?_add history _
  · intro apart
    exact standsFor_entry (incomplete_of_mem_texts returned) (same_iff.mpr apart)

/-- A stray quote on the last line and a string on a line before it: the entry has the same lexemes
and the same value. -/
theorem entry_standsFor_of_quotesApart_stray :
    let text := Text.ofCharacters "(list (car (\"x y\"))\n\"z)".toList
    StandsFor (entry text) text ∧
      (handle {} text Machine.empty).1.output = "[\"x y\" \"z]\n" ∧
      (handle {} (entry text) Machine.empty).1.output = "[\"x y\" \"z]\n" := by
  have returned : Text.ofCharacters "(list (car (\"x y\"))\n\"z)".toList ∈
      (texts [] [Text.ofCharacters "(list (car (\"x y\"))".toList,
        Text.ofCharacters "\"z)".toList]).1 := by decide +kernel
  have apart := (entry_standsFor_of_quotesApart returned).2.2
  exact ⟨apart (by decide +kernel), by decide +kernel, by decide +kernel⟩

/-- Two stray quotes on different lines make up a string on one line.  The text of these lines is a
call with two strings, and its entry a call with one, so they have different values. -/
theorem entry_not_standsFor :
    let lines := ["(len (\"a", "\"))"].map fun line => Text.ofCharacters line.toList
    let text := Text.ofCharacters "(len (\"a\n\"))".toList
    texts [] lines = ([text], []) ∧
      ¬lexemes (Text.characters (entry text)) = lexemes (Text.characters text) ∧
      (accept {} [] text Machine.empty).1.2 = [entry text] ∧
      (handle {} text Machine.empty).1.output = "2\n" ∧
      (handle {} (entry text) Machine.empty).1.output = "1\n" := by
  decide +kernel

end Repl

end MiniLisp
