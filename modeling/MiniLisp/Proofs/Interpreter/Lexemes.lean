import MiniLisp.Proofs.Fault.Raised
import MiniLisp.Proofs.Reader.Lexemes
import MiniLisp.Proofs.Semantics.Sameness

/-!
# What a program owes to its lexemes

A program is its lexemes: read from these alone it is the same form, or it is refused for the same
reason at the same lexeme.  Two texts with the same lexemes may differ in blanks and line breaks,
and therefore in the positions of their tokens, but no evaluation tells them apart.
-/

namespace MiniLisp

namespace Form

/-- Reading comes to the same: to forms that are the same, or to one cause of failure, which blames
tokens with the same text or no token at all. -/
inductive ReadsAlike : Except Stop Form → Except Stop Form → Prop where
  | form {left right : Form} (same : left.same right = true) : ReadsAlike (.ok left) (.ok right)
  | fault (cause : Fault) {token token' : Option Token}
      (text : token.map Token.text = token'.map Token.text) :
      ReadsAlike (.error (.fault (.reading cause token))) (.error (.fault (.reading cause token')))

namespace ReadsAlike

variable {left middle right : Except Stop Form}

theorem symm (alike : ReadsAlike left right) : ReadsAlike right left := by
  cases alike with
  | form same => exact .form (same_symm same)
  | fault cause text => exact .fault cause text.symm

theorem trans (first : ReadsAlike left middle) (second : ReadsAlike middle right) :
    ReadsAlike left right := by
  cases first with
  | form same =>
    cases second with
    | form same' => exact .form (same_of_same_same _ (same_symm same) same')
  | fault cause text =>
    cases second with
    | fault _ text' => exact .fault cause (text.trans text')

end ReadsAlike

/-- A text and its bare lexemes are read alike. -/
theorem parseLexemes_alike (source : List Char) :
    ReadsAlike (parseLexemes (Token.lexemes source)) (parse source) := by
  rw [parseLexemes_lexemes]
  rcases parse_cases source with ⟨fault, failed⟩ | ⟨form, accepted⟩
  · rw [failed]
    cases parse_unreadable failed with
    | endOfInput token | unexpectedEnd token | unexpectedToken token | integerRange _ token =>
      exact .fault _ (by cases token <;> rfl)
  · rw [accepted]
    exact .form (same_symm (same_bare form))

/-- Texts with the same lexemes are read alike. -/
theorem parse_alike {source other : List Char}
    (lexemes : Token.lexemes other = Token.lexemes source) :
    ReadsAlike (parse other) (parse source) := by
  apply (parseLexemes_alike other).symm.trans
  rw [lexemes]
  exact parseLexemes_alike source

end Form

/-- Texts with the same lexemes give the same answer on any two machines, if one of them can be
read. -/
theorem Interpreter.interpret_alike (interpreter : Interpreter) {source other : List Char}
    {form : Form} (lexemes : Token.lexemes other = Token.lexemes source)
    (accepted : Form.parse source = .ok form) (machine machine' : Machine) :
    SameAnswer (interpreter.interpret other machine).1
      (interpreter.interpret source machine').1 := by
  have alike := Form.parse_alike lexemes
  rw [accepted] at alike
  cases read : Form.parse other with
  | error stop =>
    rw [read] at alike
    cases alike
  | ok form' =>
    rw [read] at alike
    cases alike with
    | form same =>
      rw [Semantics.interpret_eq_evaluate read, Semantics.interpret_eq_evaluate accepted]
      exact interpreter.evaluate_same same machine machine'

/-- Reading a text and reading its bare lexemes come to the same, and so does reading any two texts
with the same lexemes.  Where they can be read, every interpreter answers both with values of the
same text, or with the same fault. -/
theorem Interpreter.lexemes_decide (source : List Char) :
    Form.ReadsAlike (Form.parseLexemes (Token.lexemes source)) (Form.parse source) ∧
      ∀ other, Token.lexemes other = Token.lexemes source →
        Form.ReadsAlike (Form.parse other) (Form.parse source) ∧
        ∀ form, Form.parse source = .ok form →
          ∀ (interpreter : Interpreter) (machine machine' : Machine),
            SameAnswer (interpreter.interpret other machine).1
              (interpreter.interpret source machine').1 := by
  refine ⟨Form.parseLexemes_alike source, ?_⟩
  intro other lexemes
  refine ⟨Form.parse_alike lexemes, ?_⟩
  intro form accepted interpreter machine machine'
  exact interpreter.interpret_alike lexemes accepted machine machine'

/-- A name may end in a quote, which opens no string as long as no other quote follows on its line.
The two texts differ in their blanks and line breaks. -/
theorem Interpreter.lexemes_decide_stray_quotes :
    Token.lexemes "\n((lambda\t(a\")\n\n  a\" )\n41) ".toList =
        Token.lexemes "((lambda (a\")\na\") 41)".toList ∧
      ∀ (interpreter : Interpreter) (machine machine' : Machine),
        SameAnswer
          (interpreter.interpret "\n((lambda\t(a\")\n\n  a\" )\n41) ".toList machine).1
          (interpreter.interpret "((lambda (a\")\na\") 41)".toList machine').1 := by
  have lexemes : Token.lexemes "\n((lambda\t(a\")\n\n  a\" )\n41) ".toList =
      Token.lexemes "((lambda (a\")\na\") 41)".toList := by decide
  refine ⟨lexemes, ?_⟩
  intro interpreter machine machine'
  exact ((lexemes_decide _).2 _ lexemes).2 _ rfl interpreter machine machine'

end MiniLisp
