import MiniLisp.Proofs.Form.RoundTrip
import MiniLisp.Proofs.Reader.Faults

/-!
# Reading bare lexemes

Where a token stands plays no part in reading it, and whether it is an atom or a string shows in its
text.  So nothing is lost if only the texts of the tokens are kept: reading them gives the same
forms, or the same fault at a token with the same text.  What is kept of a token, of a form and of a
fault is said by a function, with which every step of reading commutes.
-/

namespace MiniLisp

/-- The kind of a token as its text shows it: a string is an atom that opens with a quote. -/
def TokenKind.bare : TokenKind → TokenKind
  | .string => .atom
  | kind => kind

/-- A token without its position. -/
def Token.bare (token : Token) : Token :=
  ⟨token.kind.bare, token.text, ⟨0, 0⟩⟩

namespace Form

mutual

/-- A form without the positions of its tokens. -/
def bare : Form → Form
  | absent => absent
  | atom token value => atom (token.map Token.bare) value
  | list token label items => list (token.map Token.bare) label (bareItems items)

/-- The elements of a list, without positions. -/
def bareItems : List Form → List Form
  | [] => []
  | first :: rest => bare first :: bareItems rest

end

@[simp] theorem bareItems_eq_map (items : List Form) : bareItems items = items.map bare := by
  induction items with
  | nil => rfl
  | cons first rest ih => simp [bareItems, ih]

mutual

/-- A form is the same without positions. -/
theorem same_bare : (form : Form) → form.same form.bare = true
  | absent => rfl
  | atom _ _ => by simp [bare, same]
  | list _ _ items => by
    rw [bare, same]
    exact sameItems_bareItems items

theorem sameItems_bareItems : (items : List Form) → sameItems items (bareItems items) = true
  | [] => rfl
  | first :: rest => by
    rw [bareItems, sameItems, same_bare first, sameItems_bareItems rest]
    rfl

end

theorem same_of_bare_eq {left right : Form} (equal : left.bare = right.bare) :
    left.same right = true := by
  have sameLeft := same_symm (same_bare left)
  rw [equal] at sameLeft
  exact same_of_same_same _ sameLeft (same_symm (same_bare right))

@[simp] theorem token?_bare (form : Form) : form.bare.token? = form.token?.map Token.bare := by
  cases form <;> rfl

end Form

/-- A fault without the position of the token it blames. -/
def Fault.bare : Fault → Fault
  | .reading cause token => .reading cause (token.map Token.bare)
  | fault => fault

/-- A stop without the position of the token it blames. -/
def Stop.bare : Stop → Stop
  | .fault reason => .fault reason.bare
  | stop => stop

/-- What reading comes to, without positions. -/
def bareResult {α : Type} (bare : α → α) (result : Except Stop α) : Except Stop α :=
  (result.map bare).mapError Stop.bare

/-- A list that is still open, without positions. -/
def OpenList.bare (pending : OpenList) : OpenList :=
  ⟨pending.opener.bare, pending.items.map Form.bare⟩

/-! ## Steps of reading -/

namespace Reader

variable {token : Token} {pending : List OpenList} {finished : List Form}

theorem kind_bare {kind : TokenKind} (found : token.kind = kind) (notString : kind ≠ .string) :
    token.bare.kind = kind := by
  cases kind with
  | string => exact absurd rfl notString
  | invalid | openList | closeList | atom | endOfInput => simp [Token.bare, TokenKind.bare, found]

theorem isAtom_bare (token : Token) : token.bare.kind.isAtom = token.kind.isAtom := by
  obtain ⟨kind, text, position⟩ := token
  cases kind <;> rfl

theorem isEnd_bare (token : Token) :
    (token.bare.kind == .endOfInput) = (token.kind == .endOfInput) := by
  obtain ⟨kind, text, position⟩ := token
  cases kind <;> rfl

theorem ofToken_bare (atomic : token.kind.isAtom = true) :
    Form.ofToken token.bare = (Form.ofToken token).map Form.bare := by
  have atomic' := (isAtom_bare token).trans atomic
  simp only [Form.ofToken, atomic, atomic', if_true]
  simp only [Token.bare]
  repeat' split
  all_goals rfl

@[simp] theorem close_bare (pending : OpenList) : pending.bare.close = pending.close.bare := by
  simp [OpenList.close, OpenList.bare, Form.bare]

@[simp] theorem push_bare (form : Form) (pending : List OpenList) (finished : List Form) :
    push form.bare (pending.map OpenList.bare) (finished.map Form.bare) =
      ((push form pending finished).1.map OpenList.bare,
        (push form pending finished).2.map Form.bare) := by
  cases pending with
  | nil => simp [push]
  | cons innermost outer => simp [push, OpenList.bare]

/-- The forms of a reader that met no fault. -/
def result (reader : Reader) : Except Stop (List Form) :=
  match reader.fault with
  | some fault => .error (.fault fault)
  | none => .ok reader.forms

theorem readAll_eq_bind (tokens : List Token) :
    Form.readAll tokens = (consume [] [] none tokens).bind result := rfl

theorem result_stopAtEnd_bare (token : Token) (ahead ahead' : List Token) :
    (stopAtEnd token.bare ahead (pending.map OpenList.bare) (finished.map Form.bare) none).result =
      bareResult (List.map Form.bare) (stopAtEnd token ahead' pending finished none).result := by
  cases pending with
  | nil => simp [stopAtEnd, result, forms, bareResult, Except.map, Except.mapError]
  | cons innermost outer => rfl

/-- Reading tokens without their positions, and without a mark behind the last one, gives what
reading them gives, without positions. -/
theorem consume_bare (pending : List OpenList) (finished : List Form) (tokens : List Token)
    (stop : Position) :
    (consume (pending.map OpenList.bare) (finished.map Form.bare) none
      (tokens.map Token.bare)).bind result =
        bareResult (List.map Form.bare)
          ((consume pending finished none (tokens ++ [Token.endAt stop])).bind result) := by
  induction tokens generalizing pending finished with
  | nil => exact result_stopAtEnd_bare (Token.endAt stop) [] []
  | cons token ahead ih =>
    rw [List.map_cons, List.cons_append]
    cases kind : token.kind with
    | endOfInput =>
      rw [consume_end kind, consume_end (kind_bare kind nofun)]
      exact result_stopAtEnd_bare token _ _
    | openList =>
      rw [consume_open kind, consume_open (kind_bare kind nofun)]
      exact ih (⟨token, []⟩ :: pending) finished
    | closeList =>
      cases pending with
      | nil =>
        rw [consume_close_top kind, List.map_nil, consume_close_top (kind_bare kind nofun)]
        rfl
      | cons innermost outer =>
        rw [consume_close kind, List.map_cons, consume_close (kind_bare kind nofun), close_bare,
          push_bare]
        exact ih _ _
    | invalid =>
      rw [consume_invalid kind, consume_invalid (kind_bare kind nofun)]
      rfl
    | atom | string =>
      have atomic : token.kind.isAtom = true := by
        rw [kind]
        rfl
      rw [consume_atom atomic, consume_atom ((isAtom_bare token).trans atomic), ofToken_bare atomic]
      cases Form.ofToken token with
      | ok form =>
        simp only [Except.map, push_bare]
        exact ih _ _
      | error stop => cases stop <;> rfl

end Reader

/-! ## Whole programs -/

namespace Form

theorem readAll_bare (tokens : List Token) (stop : Position) :
    readAll (tokens.map Token.bare) =
      bareResult (List.map bare) (readAll (tokens ++ [Token.endAt stop])) := by
  rw [Reader.readAll_eq_bind, Reader.readAll_eq_bind]
  exact Reader.consume_bare [] [] tokens stop

theorem readOne_bare (tokens : List Token) (stop : Position) :
    readOne (tokens.map Token.bare) = bareResult bare (readOne (tokens ++ [Token.endAt stop])) := by
  have ends : (tokens.map Token.bare).all (fun token => token.kind == .endOfInput) =
      (tokens ++ [Token.endAt stop]).all fun token => token.kind == .endOfInput := by
    simp [Function.comp_def, Reader.isEnd_bare, Token.endAt]
  rw [readOne, readOne, ends, readAll_bare tokens stop]
  split
  · rfl
  · cases readAll (tokens ++ [Token.endAt stop]) with
    | error stop => rfl
    | ok forms =>
      rcases forms with _ | ⟨form, _ | ⟨second, rest⟩⟩
      · rfl
      · rfl
      · simp [bareResult, Except.map, Except.mapError, bind, Except.bind, Stop.bare, Fault.bare]

end Form

namespace Token

theorem ofLexeme_of_ne {first : Char} (notOpen : first ≠ '(') (notClose : first ≠ ')')
    (rest : List Char) :
    ofLexeme (String.ofList (first :: rest)) =
      ⟨.atom, String.ofList (first :: rest), ⟨0, 0⟩⟩ := by
  have different : ∀ {other : Char}, first ≠ other →
      String.ofList (first :: rest) ≠ String.ofList [other] := by
    intro other apart same
    have heads := String.ofList_injective same
    exact apart (List.cons.inj heads).1
  simp only [ofLexeme]
  rw [if_neg (different notOpen), if_neg (different notClose)]

/-- A token that is cut off is what its text alone shows it to be. -/
theorem bare_of_cut {first : Char} {rest : List Char} {kind : TokenKind} {extent : Nat}
    (found : cut first rest = (some kind, extent)) (position : Position) :
    bare ⟨kind, String.ofList (first :: rest.take extent), position⟩ =
      ofLexeme (String.ofList (first :: rest.take extent)) := by
  by_cases opens : first = '('
  · rw [cut, if_pos opens] at found
    cases found
    rw [opens]
    rfl
  by_cases closes : first = ')'
  · rw [cut, if_neg opens, if_pos closes] at found
    cases found
    rw [closes]
    rfl
  · rw [cut, if_neg opens, if_neg closes] at found
    rw [ofLexeme_of_ne opens closes]
    repeat' split at found
    all_goals cases found
    all_goals rfl

theorem scanFrom_bare (position : Position) (covered : Nat) (source : List Char) :
    (scanFrom position covered source).map bare =
      ((scanFrom position covered source).map text).map ofLexeme := by
  fun_induction scanFrom position covered source with
  | case1 => rfl
  | case2 position covered first rest ih => exact ih
  | case3 position first rest extent found ih => exact ih
  | case4 position first rest kind extent found ih =>
    simp only [List.map_cons, bare_of_cut found]
    rw [ih]

end Token

namespace Form

/-- Reading the bare lexemes of a text gives what reading the text gives, without positions. -/
theorem parseLexemes_lexemes (source : List Char) :
    parseLexemes (Token.lexemes source) = bareResult bare (parse source) := by
  rw [parseLexemes, Token.lexemes, Token.scan, ← Token.scanFrom_bare]
  exact readOne_bare _ _

theorem readAll_lexemes (source : List Char) :
    readAll ((Token.lexemes source).map Token.ofLexeme) =
      bareResult (List.map bare) (parseAll source) := by
  rw [Token.lexemes, Token.scan, ← Token.scanFrom_bare]
  exact readAll_bare _ _

end Form

/-! ## Derivations -/

namespace Reader

variable {form : Form} {tokens : List Token}

/-- A derivation is one of the form without positions from the tokens without positions. -/
theorem Derives.bare (derives : Derives form tokens) :
    Derives form.bare (tokens.map Token.bare) := by
  induction derives with
  | @atom token form atomic read =>
    have read' : Form.ofToken token.bare = .ok form.bare := by
      rw [ofToken_bare atomic, read]
      rfl
    exact .atom ((isAtom_bare token).trans atomic) read'
  | @list opener closer items opens closes each ih =>
    let items' := items.map fun item => (item.1.bare, item.2.map Token.bare)
    have inside : ∀ item ∈ items', Derives item.1 item.2 := by
      intro item member
      obtain ⟨item, among, rfl⟩ := List.mem_map.mp member
      exact ih item among
    have whole := Derives.list (kind_bare opens nofun) (kind_bare closes nofun) inside
    simpa [items', Form.bare, List.map_flatMap, List.flatMap_map, Function.comp_def] using whole

theorem openings_bare (tokens : List Token) :
    openings (tokens.map Token.bare) = openings tokens := by
  rw [openings, List.countP_map]
  congr
  funext token
  obtain ⟨kind, text, position⟩ := token
  cases kind <;> rfl

theorem closings_bare (tokens : List Token) :
    closings (tokens.map Token.bare) = closings tokens := by
  rw [closings, List.countP_map]
  congr
  funext token
  obtain ⟨kind, text, position⟩ := token
  cases kind <;> rfl

theorem DerivesAll.derives (derives : DerivesAll [form] tokens) : Derives form tokens := by
  obtain ⟨items, single, rfl, each⟩ := derives
  match items with
  | [item] =>
    cases single
    simpa using each item

end Reader

namespace Form

open Reader

theorem parseAll_of_parse {source : List Char} {form : Form} (parsed : parse source = .ok form) :
    parseAll source = .ok [form] := by
  rw [parse, readOne] at parsed
  split at parsed
  · cases parsed
  · rw [parseAll]
    cases read : readAll (Token.tokenize source) with
    | error stop =>
      rw [read] at parsed
      cases parsed
    | ok forms =>
      rw [read] at parsed
      rcases forms with _ | ⟨first, _ | ⟨second, rest⟩⟩
      · cases parsed
      · cases parsed
        rfl
      · cases parsed

/-- A form that is read from a text derives from the tokens of the text. -/
theorem derives_of_parse {source : List Char} {form : Form} (parsed : parse source = .ok form) :
    Derives form (Token.scan source) := by
  rcases readAll_cases (tokenize_named source) with ⟨fault, failed⟩ | ⟨forms, read, derives⟩
  · cases failed.symm.trans (parseAll_of_parse parsed)
  · cases read.symm.trans (parseAll_of_parse parsed)
    rw [beforeEnd_tokenize] at derives
    exact derives.derives

theorem lexemes_ne_nil {source : List Char} {form : Form} (parsed : parse source = .ok form) :
    Token.lexemes source ≠ [] := by
  obtain ⟨token, member, -⟩ := exists_ne_endOfInput (derives_of_parse parsed)
  exact List.ne_nil_of_mem (List.mem_map_of_mem member)

theorem derives_lexemes {source : List Char} {form : Form} (parsed : parse source = .ok form) :
    Derives form.bare ((Token.lexemes source).map Token.ofLexeme) := by
  rw [Token.lexemes, Token.scan, ← Token.scanFrom_bare]
  exact (derives_of_parse parsed).bare

/-- A form is what a text is read as, but for the positions. -/
def ReadFrom (source : List Char) (form : Form) : Prop :=
  ∃ read, parse source = .ok read ∧ form.same read = true

theorem derivesAll_lexemes {sources : List (List Char)}
    (accepted : ∀ source ∈ sources, ∃ form, parse source = .ok form) :
    ∃ forms, DerivesAll forms ((sources.flatMap Token.lexemes).map Token.ofLexeme) ∧
      List.Forall₂ (fun source form => ∃ read, parse source = .ok read ∧ read.bare = form)
        sources forms := by
  induction sources with
  | nil => exact ⟨[], .nil, .nil⟩
  | cons source sources ih =>
    obtain ⟨⟨form, parsed⟩, others⟩ := List.forall_mem_cons.mp accepted
    obtain ⟨forms, derives, each⟩ := ih others
    refine ⟨form.bare :: forms, ?_, .cons ⟨form, parsed, rfl⟩ each⟩
    rw [List.flatMap_cons, List.map_append]
    exact (derives_lexemes parsed).single.append derives

/-- The lexemes of several texts with one form each are read as these forms, in whatever text they
stand one behind the other. -/
theorem parseAll_of_lexemes (sources : List (List Char)) {text : List Char}
    (accepted : ∀ source ∈ sources, ∃ form, parse source = .ok form)
    (joined : Token.lexemes text = sources.flatMap Token.lexemes) :
    ∃ forms, parseAll text = .ok forms ∧ List.Forall₂ ReadFrom sources forms := by
  obtain ⟨bares, derives, each⟩ := derivesAll_lexemes accepted
  have read := readAll_lexemes text
  rw [joined, ← List.append_nil (List.map _ _), derives.readAll_eq (by simp)] at read
  cases found : parseAll text with
  | error stop =>
    rw [found] at read
    cases read
  | ok forms =>
    rw [found] at read
    rw [Except.ok.inj read, List.forall₂_map_right_iff] at each
    refine ⟨forms, rfl, each.imp ?_⟩
    intro source form readFrom
    obtain ⟨read, parsed, equal⟩ := readFrom
    exact ⟨read, parsed, same_of_bare_eq equal.symm⟩

end Form

end MiniLisp
