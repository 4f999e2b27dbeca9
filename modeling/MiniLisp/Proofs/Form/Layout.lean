import MiniLisp.Proofs.Reader.Lexemes
import MiniLisp.Proofs.Token.Place

/-!
# Layouts

A form that is read from a text is written somewhere in it: an atom as a lexeme, and a list as its
elements between parentheses, with blanks around them.  Each node of the form, the form itself and
everything inside it, begins at an offset of its own.  A text is laid out in one way only, and every
node that is read from it reports the position of the offset where it begins.
-/

namespace MiniLisp

namespace Token.Lexeme

variable {source text : List Char} {start : Nat}

theorem eq_of_openList (lexeme : Lexeme source start .openList text) : text = ['('] := by
  cases lexeme
  rfl

theorem eq_of_closeList (lexeme : Lexeme source start .closeList text) : text = [')'] := by
  cases lexeme
  rfl

end Token.Lexeme

namespace Form

mutual

/-- A form and all forms inside it, from the outside in and from left to right. -/
def nodes : Form → List Form
  | absent => [absent]
  | atom token value => [atom token value]
  | list token label items => list token label items :: nodesIn items

/-- The nodes of several forms. -/
def nodesIn : List Form → List Form
  | [] => []
  | first :: rest => nodes first ++ nodesIn rest

end

/-- Nothing but blanks stands between two offsets of a text. -/
structure Blank (source : List Char) (start stop : Nat) : Prop where
  ordered : start ≤ stop
  blank : ∀ offset, start ≤ offset → offset < stop →
    ∃ character, source[offset]? = some character ∧ Text.isBlank character = true

/-- A character that is no blank stands at an offset of a text. -/
def Visible (source : List Char) (offset : Nat) : Prop :=
  ∃ character, source[offset]? = some character ∧ Text.isBlank character = false

/-- A form as it stands in a text, from `start` up to `stop`, with the offsets at which its nodes
begin. -/
structure Passage where
  form : Form
  start : Nat
  stop : Nat
  nodeStarts : List Nat

/-- The passages stand one behind the other from `start` up to `stop`, with blanks around them. -/
def Spaced (source : List Char) : (start : Nat) → List Passage → (stop : Nat) → Prop
  | start, [], stop => Blank source start stop
  | start, passage :: passages, stop =>
    Blank source start passage.start ∧ Spaced source passage.stop passages stop

/-- A passage is written in a text.  Where the tokens of its form are said to stand plays no part in
this. -/
inductive Written (source : List Char) : Passage → Prop where
  | atom {token : Token} {value : Atom} {start : Nat} {after : List Char}
      (ahead : source.drop start = token.text.toList ++ after)
      (lexeme : Token.Lexeme source start token.kind token.text.toList)
      (read : ofToken token = .ok (.atom token value)) :
      Written source ⟨.atom token value, start, start + token.text.toList.length, [start]⟩
  | list {token : Token} {passages : List Passage} {start stop : Nat}
      (opens : source[start]? = some '(') (spaced : Spaced source (start + 1) passages stop)
      (closes : source[stop]? = some ')') (each : ∀ passage ∈ passages, Written source passage) :
      Written source
        ⟨.list token none (passages.map Passage.form), start, stop + 1,
          start :: passages.flatMap Passage.nodeStarts⟩

/-- A passage is all that is written in a text. -/
structure Fills (source : List Char) (passage : Passage) : Prop where
  written : Written source passage
  before : Blank source 0 passage.start
  behind : Blank source passage.stop source.length

variable {source : List Char} {start : Nat}

theorem exists_of_ofToken {token : Token} {form : Form} (read : ofToken token = .ok form) :
    ∃ value, form = .atom token value := by
  revert read
  fun_cases ofToken token
  all_goals
    intro read
    cases read
  all_goals exact ⟨_, rfl⟩

/-! ## Blanks -/

theorem Blank.of_gap {gap after : List Char} (ahead : source.drop start = gap ++ after)
    (blank : ∀ character ∈ gap, Text.isBlank character = true) :
    Blank source start (start + gap.length) := by
  refine ⟨Nat.le_add_right _ _, ?_⟩
  intro offset behind inside
  obtain ⟨place, rfl⟩ := Nat.exists_eq_add_of_le behind
  have short : place < gap.length := Nat.lt_of_add_lt_add_left inside
  refine ⟨gap[place], ?_, blank _ (List.getElem_mem short)⟩
  rw [Token.getElem?_ahead ahead, List.getElem?_append_left short, List.getElem?_eq_getElem short]

/-- Only one offset can be the first behind some blanks. -/
theorem Blank.stop_unique {stop stop' : Nat} (blank : Blank source start stop)
    (blank' : Blank source start stop') (visible : Visible source stop)
    (visible' : Visible source stop') : stop = stop' := by
  have notInside : ∀ {inner outer : Nat}, Blank source start inner → Blank source start outer →
      Visible source inner → ¬inner < outer := by
    rintro inner outer front whole ⟨character, found, notBlank⟩ inside
    obtain ⟨character', found', isBlank⟩ := whole.blank inner front.ordered inside
    cases found.symm.trans found'
    cases notBlank.symm.trans isBlank
  have short := notInside blank blank' visible
  have long := notInside blank' blank visible'
  omega

theorem visible_of_lexeme {kind : TokenKind} {text after : List Char}
    (lexeme : Token.Lexeme source start kind text) (ahead : source.drop start = text ++ after) :
    Visible source start := by
  obtain ⟨first, rest, rfl, visible⟩ := lexeme.exists_visible ahead
  exact ⟨first, Token.getElem?_ahead ahead 0, visible⟩

theorem Written.visible {passage : Passage} (written : Written source passage) :
    Visible source passage.start := by
  cases written with
  | atom ahead lexeme => exact visible_of_lexeme lexeme ahead
  | list opens => exact ⟨'(', opens, rfl⟩

theorem Written.stop_le {passage : Passage} (written : Written source passage) :
    passage.stop ≤ source.length := by
  cases written with
  | @atom token value start after ahead lexeme =>
    have nonempty := List.length_pos_iff.mpr lexeme.ne_nil
    have length := congrArg List.length ahead
    rw [List.length_drop, List.length_append] at length
    change start + token.text.toList.length ≤ source.length
    omega
  | list opens spaced closes => exact (List.getElem?_eq_some_iff.mp closes).1

/-! ## A form is written in one way -/

theorem Spaced.unique {passages passages' : List Passage} {stop stop' : Nat}
    (each : ∀ passage ∈ passages, Written source passage)
    (each' : ∀ passage ∈ passages', Written source passage)
    (unique : ∀ passage ∈ passages, ∀ {other : Passage}, Written source other →
      passage.form = other.form → passage.start = other.start → passage = other)
    (forms : passages.map Passage.form = passages'.map Passage.form)
    (spaced : Spaced source start passages stop) (spaced' : Spaced source start passages' stop')
    (visible : Visible source stop) (visible' : Visible source stop') :
    passages = passages' ∧ stop = stop' := by
  induction passages generalizing start passages' with
  | nil =>
    rw [List.map_nil, eq_comm, List.map_eq_nil_iff] at forms
    subst forms
    exact ⟨rfl, Blank.stop_unique spaced spaced' visible visible'⟩
  | cons passage passages ih =>
    cases passages' with
    | nil => cases forms
    | cons passage' passages' =>
      obtain ⟨sameForm, sameForms⟩ := List.cons.inj forms
      obtain ⟨written, others⟩ := List.forall_mem_cons.mp each
      obtain ⟨written', others'⟩ := List.forall_mem_cons.mp each'
      obtain ⟨uniqueHere, uniqueOthers⟩ := List.forall_mem_cons.mp unique
      have sameStart := spaced.1.stop_unique spaced'.1 written.visible written'.visible
      cases uniqueHere written' sameForm sameStart
      obtain ⟨rfl, sameStop⟩ := ih others others' uniqueOthers sameForms spaced.2 spaced'.2
      exact ⟨rfl, sameStop⟩

/-- Where a form begins decides where it ends and where its nodes begin. -/
theorem Written.unique {passage other : Passage} (written : Written source passage)
    (written' : Written source other) (sameForm : passage.form = other.form)
    (sameStart : passage.start = other.start) : passage = other := by
  induction written generalizing other with
  | atom =>
    cases written' with
    | atom =>
      cases sameForm
      cases sameStart
      rfl
    | list => cases sameForm
  | list opens spaced closes each ih =>
    cases written' with
    | atom => cases sameForm
    | list opens' spaced' closes' each' =>
      cases sameStart
      simp only [Form.list.injEq] at sameForm
      obtain ⟨sameToken, -, sameForms⟩ := sameForm
      obtain ⟨rfl, rfl⟩ := Spaced.unique each each' ih sameForms spaced spaced'
        ⟨')', closes, rfl⟩ ⟨')', closes', rfl⟩
      cases sameToken
      rfl

theorem Fills.unique {passage other : Passage} (fills : Fills source passage)
    (fills' : Fills source other) (sameForm : passage.form = other.form) : passage = other := by
  refine fills.written.unique fills'.written sameForm ?_
  exact fills.before.stop_unique fills'.before fills.written.visible fills'.written.visible

/-! ## A form that is read is written -/

/-- Scanning goes on at an offset as it does in the whole text. -/
def scanAt (source : List Char) (offset : Nat) : List Token :=
  Token.scanFrom (Position.ofOffset source offset) 0 (source.drop offset)

/-- The next token is a lexeme behind some blanks, and reports where it stands. -/
theorem exists_of_scanAt_cons {token : Token} {rest : List Token}
    (scanned : scanAt source start = token :: rest) :
    ∃ first after, Blank source start first ∧ source.drop first = token.text.toList ++ after ∧
      Token.Lexeme source first token.kind token.text.toList ∧
      token.position = Position.ofOffset source first ∧
      scanAt source (first + token.text.toList.length) = rest := by
  obtain ⟨pieces, tail, segmentation⟩ := Token.exists_segmentation source start
  rw [scanAt, segmentation.scanFrom_eq, segmentation.tokens_eq] at scanned
  cases pieces with
  | nil => cases scanned
  | cons piece pieces =>
    obtain ⟨⟨after, ahead⟩, blank, lexeme, others⟩ := Token.segmentation_cons.mp segmentation
    obtain ⟨rfl, rfl⟩ := List.cons.inj scanned
    have gap : source.drop start = piece.gap ++ (piece.text ++ after) := by
      rw [ahead, Token.Piece.span, List.append_assoc]
    rw [String.toList_ofList]
    refine ⟨start + piece.gap.length, after, .of_gap gap blank, Token.drop_gap ahead, lexeme, rfl,
      ?_⟩
    rw [Nat.add_assoc, ← List.length_append]
    exact (others.scanFrom_eq _).trans others.tokens_eq

theorem blank_of_scanAt_nil (inside : start ≤ source.length)
    (scanned : scanAt source start = []) : Blank source start source.length := by
  obtain ⟨pieces, tail, segmentation⟩ := Token.exists_segmentation source start
  rw [scanAt, segmentation.scanFrom_eq] at scanned
  cases pieces with
  | cons => cases scanned
  | nil =>
    obtain ⟨rfl, blank⟩ := Token.segmentation_nil.mp segmentation
    have whole := Blank.of_gap (List.append_nil _).symm blank
    rwa [List.length_drop, Nat.add_sub_cancel' inside] at whole

/-- A passage is written behind some blanks, its nodes report where they begin, and some tokens are
left behind it. -/
structure LaidOut (source : List Char) (start : Nat) (rest : List Token) (passage : Passage) :
    Prop where
  blank : Blank source start passage.start
  written : Written source passage
  placed : passage.form.nodes.map position =
    passage.nodeStarts.map (Position.ofOffset source)
  behind : scanAt source passage.stop = rest

theorem exists_laidOut_atom {token : Token} {form : Form} {rest : List Token}
    (read : ofToken token = .ok form) (scanned : scanAt source start = token :: rest) :
    ∃ passage, passage.form = form ∧ LaidOut source start rest passage := by
  obtain ⟨first, after, blank, ahead, lexeme, placed, behind⟩ := exists_of_scanAt_cons scanned
  obtain ⟨value, rfl⟩ := exists_of_ofToken read
  refine ⟨⟨.atom token value, first, _, [first]⟩, rfl, blank, .atom ahead lexeme read, ?_, behind⟩
  rw [nodes, List.map_singleton, List.map_singleton, ← placed]
  rfl

/-- Elements are written one behind the other in front of a closing parenthesis. -/
theorem exists_laidOut_items {items : List (Form × List Token)} {closer : Token}
    {rest : List Token}
    (each : ∀ item ∈ items, ∀ {start : Nat} {rest : List Token},
      scanAt source start = item.2 ++ rest →
        ∃ passage, passage.form = item.1 ∧ LaidOut source start rest passage)
    (closes : closer.kind = .closeList)
    (scanned : scanAt source start = items.flatMap Prod.snd ++ closer :: rest) :
    ∃ passages stop, passages.map Passage.form = items.map Prod.fst ∧
      (∀ passage ∈ passages, Written source passage) ∧ Spaced source start passages stop ∧
      source[stop]? = some ')' ∧
      (nodesIn (items.map Prod.fst)).map position =
        (passages.flatMap Passage.nodeStarts).map (Position.ofOffset source) ∧
      scanAt source (stop + 1) = rest := by
  induction items generalizing start with
  | nil =>
    obtain ⟨stop, after, blank, ahead, lexeme, -, behind⟩ := exists_of_scanAt_cons scanned
    rw [closes] at lexeme
    have text := lexeme.eq_of_closeList
    rw [text] at ahead behind
    exact ⟨[], stop, rfl, nofun, blank, Token.getElem?_ahead ahead 0, rfl, behind⟩
  | cons item items ih =>
    obtain ⟨here, others⟩ := List.forall_mem_cons.mp each
    rw [List.flatMap_cons, List.append_assoc] at scanned
    obtain ⟨passage, form, laidOut⟩ := here scanned
    obtain ⟨passages, stop, forms, written, spaced, closed, placed, behind⟩ :=
      ih others laidOut.behind
    refine ⟨passage :: passages, stop, ?_, ?_, ⟨laidOut.blank, spaced⟩, closed, ?_, behind⟩
    · rw [List.map_cons, List.map_cons, form, forms]
    · exact List.forall_mem_cons.mpr ⟨laidOut.written, written⟩
    · rw [List.map_cons, nodesIn, List.map_append, placed, ← form, laidOut.placed,
        List.flatMap_cons, List.map_append]

/-- A form is written where its tokens are scanned. -/
theorem exists_laidOut {form : Form} {tokens rest : List Token}
    (derives : Reader.Derives form tokens) (scanned : scanAt source start = tokens ++ rest) :
    ∃ passage, passage.form = form ∧ LaidOut source start rest passage := by
  induction derives generalizing start rest with
  | atom kind read => exact exists_laidOut_atom read scanned
  | @list opener closer items opens closes each ih =>
    rw [List.cons_append, List.append_assoc] at scanned
    obtain ⟨first, after, blank, ahead, lexeme, placed, inside⟩ := exists_of_scanAt_cons scanned
    rw [opens] at lexeme
    have text := lexeme.eq_of_openList
    rw [text] at ahead inside
    obtain ⟨passages, stop, forms, written, spaced, closed, placed', behind⟩ :=
      exists_laidOut_items ih closes inside
    have opened : source[first]? = some '(' := Token.getElem?_ahead ahead 0
    have whole : Written source ⟨.list opener none (passages.map Passage.form), first, stop + 1,
        first :: passages.flatMap Passage.nodeStarts⟩ := .list opened spaced closed written
    refine ⟨_, ?_, blank, whole, ?_, behind⟩
    · rw [forms]
    · rw [forms, nodes, List.map_cons, List.map_cons, placed', ← placed]
      rfl

/-- A form that is read is all that is written in the text, and each of its nodes reports the
position of its first character. -/
theorem exists_fills {form : Form} (parsed : parse source = .ok form) :
    ∃ passage, passage.form = form ∧ Fills source passage ∧
      form.nodes.map position = passage.nodeStarts.map (Position.ofOffset source) := by
  have scanned : scanAt source 0 = Token.scan source ++ [] := by
    rw [List.append_nil, scanAt, ← Position.after_take]
    rfl
  obtain ⟨passage, rfl, laidOut⟩ := exists_laidOut (derives_of_parse parsed) scanned
  have behind := blank_of_scanAt_nil laidOut.written.stop_le laidOut.behind
  exact ⟨passage, rfl, ⟨laidOut.written, laidOut.blank, behind⟩, laidOut.placed⟩

end Form

/-- Positions are exact.  The tokens of a text report the line and the column of their first
characters, and the last one those of the end, so that each stands behind the one in front of it.  A
form that is read from the text is written there, and all its nodes report the line and the column
of the characters they begin with. -/
theorem positions_exact (source : List Char) :
    (∃ pieces tail, Token.Segmentation source 0 pieces tail) ∧
      (∀ pieces tail, Token.Segmentation source 0 pieces tail →
        Token.tokenize source = Token.Piece.placed source 0 pieces ++
          [Token.endAt (Position.ofOffset source source.length)]) ∧
      (Token.tokenize source).Pairwise (·.position.Before ·.position) ∧
      ∀ form, Form.parse source = .ok form →
        (∃ passage, passage.form = form ∧ Form.Fills source passage) ∧
          ∀ passage, passage.form = form → Form.Fills source passage →
            form.nodes.map Form.position =
              passage.nodeStarts.map (Position.ofOffset source) := by
  refine ⟨Token.exists_segmentation source 0, fun _ _ segmentation => segmentation.tokenize_eq,
    Token.tokenize_pairwise_before source, ?_⟩
  intro form parsed
  obtain ⟨passage, sameForm, fills, placed⟩ := Form.exists_fills parsed
  refine ⟨⟨passage, sameForm, fills⟩, ?_⟩
  intro other sameForm' fills'
  rw [← fills.unique fills' (sameForm.trans sameForm'.symm)]
  exact placed

/-- A list over two lines, with a blank inside a string. -/
theorem positions_exact_two_lines :
    let source := "(a\n \"b c\" (7))".toList
    ∃ form passage, Form.parse source = .ok form ∧ passage.form = form ∧
      Form.Fills source passage ∧
      passage.nodeStarts.map (Position.ofOffset source) =
        [⟨1, 1⟩, ⟨1, 2⟩, ⟨2, 2⟩, ⟨2, 8⟩, ⟨2, 9⟩] := by
  intro source
  have parsed : Form.parse source = .ok
      (.list (some ⟨.openList, "(", ⟨1, 1⟩⟩) none
        [.atom (some ⟨.atom, "a", ⟨1, 2⟩⟩) (.symbol "a"),
          .atom (some ⟨.string, "\"b c\"", ⟨2, 2⟩⟩) (.string "\"b c\""),
          .list (some ⟨.openList, "(", ⟨2, 8⟩⟩) none
            [.atom (some ⟨.atom, "7", ⟨2, 9⟩⟩) (.int 7)]]) := rfl
  obtain ⟨-, -, -, placed⟩ := positions_exact source
  obtain ⟨⟨passage, sameForm, fills⟩, exact⟩ := placed _ parsed
  exact ⟨_, passage, parsed, sameForm, fills, (exact passage sameForm fills).symm⟩

end MiniLisp
