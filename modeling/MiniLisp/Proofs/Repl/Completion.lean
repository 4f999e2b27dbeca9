import MiniLisp.Proofs.Reader.Completion
import MiniLisp.Proofs.Text.Newline
import MiniLisp.Proofs.Token.Newline
import MiniLisp.Repl

/-!
# Asking for more lines

The prompt asks for more lines exactly when more lines can help: what was entered cannot be read,
but with some further line it can be.  The closing parentheses of the lists that are still open are
such a line.
-/

namespace MiniLisp.Repl

open Reader

variable {text : List Char}

/-- A text can be read. -/
def Complete (text : List Char) : Prop :=
  ∃ forms, Form.parseAll text = .ok forms

/-- The number of lists that a text leaves open. -/
def unclosed (text : List Char) : Nat :=
  openings (Token.scan text) - closings (Token.scan text)

/-- The byte of a closing parenthesis. -/
def closingByte : UInt8 := 0x29

/-! ## Texts that end inside a list -/

theorem complete_iff : Complete text ↔ Acceptable 0 (Token.scan text) := by
  obtain ⟨reader, ran, sound⟩ := consume_acceptable (Form.tokenize_named text) [] []
  have parsed : Form.parseAll text = _ := readAll_of_consume ran
  rw [Form.beforeEnd_tokenize, List.length_nil] at sound
  rw [← sound, Complete, parsed]
  cases reader.fault with
  | none => exact ⟨fun _ => rfl, fun _ => ⟨_, rfl⟩⟩
  | some fault => exact ⟨nofun, nofun⟩

/-- More lines are asked for where closing parentheses complete the tokens.  Where none are, the
text can be read, or no program begins with its tokens. -/
theorem incomplete_cases (text : List Char) :
    (incomplete text = true ∧ ¬Complete text ∧ ∃ count, ∀ closers : List Token,
      (∀ closer ∈ closers, closer.kind = .closeList) → closers.length = count →
        Acceptable 0 (Token.scan text ++ closers)) ∨
      incomplete text = false ∧ (Complete text ∨ ¬Promising 0 (Token.scan text)) := by
  obtain ⟨reader, ran, stops⟩ := consume_stops (Form.tokenize_named text) [] []
  have parsed : Form.parseAll text = _ := readAll_of_consume ran
  rw [Form.beforeEnd_tokenize] at stops
  simp only [incomplete, Complete, parsed]
  cases stops with
  | @atEnd token ahead pending finished completed =>
    cases pending with
    | nil => exact .inr ⟨rfl, .inl ⟨_, rfl⟩⟩
    | cons innermost outer => exact .inl ⟨rfl, nofun, _, completed⟩
  | atToken offence hopeless =>
    refine .inr ⟨?_, .inr hopeless⟩
    cases offence <;> rfl

/-- As many closing parentheses complete a program as lists are open. -/
theorem unclosed_eq_length {closers : List Token}
    (closing : ∀ closer ∈ closers, closer.kind = .closeList)
    (acceptable : Acceptable 0 (Token.scan text ++ closers)) : unclosed text = closers.length := by
  have opened : openings closers = 0 := by
    simp +contextual [openings, closing]
  have closed : closings closers = closers.length := by
    simp +contextual [closings, List.countP_eq_length, closing]
  have balance := acceptable.closed
  simp only [openings, closings, List.countP_append] at balance opened closed
  simp only [unclosed, openings, closings]
  omega

/-! ## One more line -/

theorem promising_of_complete {more : List Char} (complete : Complete (text ++ '\n' :: more)) :
    Promising 0 (Token.scan text) := by
  rw [complete_iff, Token.scan_newline] at complete
  exact ⟨_, complete⟩

theorem scanFrom_closers (position : Position) (count : Nat) :
    (∀ token ∈ Token.scanFrom position 0 (List.replicate count ')'), token.kind = .closeList) ∧
      (Token.scanFrom position 0 (List.replicate count ')')).length = count := by
  induction count generalizing position with
  | zero => exact ⟨nofun, rfl⟩
  | succ count ih =>
    obtain ⟨closing, length⟩ := ih (position.next ')')
    exact ⟨List.forall_mem_cons.mpr ⟨rfl, closing⟩, congrArg (· + 1) length⟩

theorem decode_closers (count : Nat) :
    Text.decode (List.replicate count closingByte) = List.replicate count ')' := by
  induction count with
  | zero => rfl
  | succ count ih => exact congrArg (')' :: ·) ih

/-- The closing parentheses of the open lists complete a text that asks for more lines. -/
theorem complete_of_incomplete (asked : incomplete text = true) :
    Complete (text ++ '\n' :: List.replicate (unclosed text) ')') := by
  rcases incomplete_cases text with ⟨-, -, count, completed⟩ | ⟨answered, -⟩
  · have enough : unclosed text = count := by
      obtain ⟨closing, length⟩ := scanFrom_closers Position.start count
      rw [unclosed_eq_length closing (completed _ closing length), length]
    obtain ⟨closing, length⟩ :=
      scanFrom_closers ((Position.start.after text).next '\n') (unclosed text)
    rw [complete_iff, Token.scan_newline]
    exact completed _ closing (length.trans enough)
  · cases asked.symm.trans answered

theorem incomplete_of_completed {more : List Char} (unread : ¬Complete text)
    (complete : Complete (text ++ '\n' :: more)) : incomplete text = true := by
  rcases incomplete_cases text with ⟨asked, -⟩ | ⟨-, read | hopeless⟩
  · exact asked
  · exact absurd read unread
  · exact absurd (promising_of_complete complete) hopeless

theorem unread_of_incomplete (asked : incomplete text = true) : ¬Complete text := by
  rcases incomplete_cases text with ⟨-, unread, -⟩ | ⟨answered, -⟩
  · exact unread
  · cases asked.symm.trans answered

theorem not_complete_iff : ¬Complete text ↔ ∃ stop, Form.parseAll text = .error stop := by
  rw [Complete]
  cases Form.parseAll text with
  | ok forms => exact ⟨fun unread => absurd ⟨forms, rfl⟩ unread, nofun⟩
  | error stop => exact ⟨fun _ => ⟨stop, rfl⟩, nofun⟩

/-- More lines are asked for exactly where a text cannot be read as it is, but can be read with one
more line.  The closing parentheses of the lists still open will do. -/
theorem incomplete_iff_completable (bytes : List UInt8) :
    (incomplete (Text.decode bytes) = true ↔
      (∃ stop, Form.parseAll (Text.decode bytes) = .error stop) ∧
        ∃ (more : List UInt8) (forms : List Form),
          Form.parseAll (Text.decode (bytes ++ Text.newlineByte :: more)) = .ok forms) ∧
    (incomplete (Text.decode bytes) = true ↔
      (∃ stop, Form.parseAll (Text.decode bytes) = .error stop) ∧
        ∃ forms, Form.parseAll (Text.decode (bytes ++ Text.newlineByte ::
          List.replicate (unclosed (Text.decode bytes)) closingByte)) = .ok forms) := by
  have completed : incomplete (Text.decode bytes) = true →
      Complete (Text.decode (bytes ++ Text.newlineByte ::
        List.replicate (unclosed (Text.decode bytes)) closingByte)) := by
    intro asked
    rw [Text.decode_newline, decode_closers]
    exact complete_of_incomplete asked
  have asked : ¬Complete (Text.decode bytes) → ∀ more,
      Complete (Text.decode (bytes ++ Text.newlineByte :: more)) →
        incomplete (Text.decode bytes) = true := by
    intro unread more complete
    rw [Text.decode_newline] at complete
    exact incomplete_of_completed unread complete
  rw [← not_complete_iff]
  constructor
  · constructor
    · exact fun asks => ⟨unread_of_incomplete asks, _, completed asks⟩
    · exact fun ⟨unread, more, complete⟩ => asked unread more complete
  · constructor
    · exact fun asks => ⟨unread_of_incomplete asks, completed asks⟩
    · exact fun ⟨unread, complete⟩ => asked unread _ complete

end MiniLisp.Repl
