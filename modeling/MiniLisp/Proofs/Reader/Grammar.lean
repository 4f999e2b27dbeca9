import MiniLisp.Reader

/-!
# The grammar of forms

A form is an atom, or an opening parenthesis, any number of forms and a closing parenthesis.
Reading with a stack of open lists accepts exactly the token sequences that this grammar derives,
and gives the forms of the derivation.  The sequences themselves are told apart by counting
parentheses.
-/

namespace MiniLisp.Reader

/-- `form ::= atom | open form* close`: a form and the tokens it is derived from.  Each element of a
list is paired with the tokens of its own. -/
inductive Derives : Form → List Token → Prop where
  | atom {token : Token} {form : Form} (kind : token.kind.isAtom = true)
      (read : Form.ofToken token = .ok form) : Derives form [token]
  | list {opener closer : Token} {items : List (Form × List Token)}
      (opens : opener.kind = .openList) (closes : closer.kind = .closeList)
      (each : ∀ item ∈ items, Derives item.1 item.2) :
      Derives (.list opener none (items.map Prod.fst))
        (opener :: (items.flatMap Prod.snd ++ [closer]))

/-- Forms one after the other, derived from their tokens one after the other. -/
def DerivesAll (forms : List Form) (tokens : List Token) : Prop :=
  ∃ items : List (Form × List Token), items.map Prod.fst = forms ∧
    items.flatMap Prod.snd = tokens ∧ ∀ item ∈ items, Derives item.1 item.2

/-- The number of opening parentheses. -/
def openings (tokens : List Token) : Nat :=
  tokens.countP fun token => token.kind = .openList

/-- The number of closing parentheses. -/
def closings (tokens : List Token) : Nat :=
  tokens.countP fun token => token.kind = .closeList

/-- A token that may stand in a program.  Text made only of digits must be an integer of the
language. -/
def Readable (token : Token) : Prop :=
  token.kind = .openList ∨ token.kind = .closeList ∨
    token.kind.isAtom = true ∧ (token.text.toList.all Char.isDigit = true →
      Nat.ofDigitChars 10 token.text.toList 0 ≤ 0x7fffffffffffffff)

/-- The tokens can be read where `depth` lists are open: all of them may stand in a program, no more
lists are closed than are open, and in the end all are closed. -/
structure Acceptable (depth : Nat) (tokens : List Token) : Prop where
  readable : ∀ token ∈ tokens, Readable token
  nested : ∀ front, front <+: tokens → closings front ≤ depth + openings front
  closed : depth + openings tokens = closings tokens

/-- The tokens in front of the first one that marks the end. -/
def beforeEnd (tokens : List Token) : List Token :=
  tokens.takeWhile fun token => token.kind ≠ .endOfInput

theorem beforeEnd_end {token : Token} (ahead : List Token) (ends : token.kind = .endOfInput) :
    beforeEnd (token :: ahead) = [] := by
  simp [beforeEnd, ends]

theorem beforeEnd_cons {token : Token} (ahead : List Token) (goesOn : token.kind ≠ .endOfInput) :
    beforeEnd (token :: ahead) = token :: beforeEnd ahead := by
  simp [beforeEnd, goesOn]

/-! ## Derivations side by side -/

theorem DerivesAll.nil : DerivesAll [] [] :=
  ⟨[], rfl, rfl, nofun⟩

theorem DerivesAll.append {forms forms' : List Form} {tokens tokens' : List Token}
    (first : DerivesAll forms tokens) (second : DerivesAll forms' tokens') :
    DerivesAll (forms ++ forms') (tokens ++ tokens') := by
  obtain ⟨items, rfl, rfl, each⟩ := first
  obtain ⟨items', rfl, rfl, each'⟩ := second
  refine ⟨items ++ items', List.map_append, List.flatMap_append, ?_⟩
  intro item member
  rcases List.mem_append.mp member with left | right
  · exact each item left
  · exact each' item right

theorem Derives.single {form : Form} {tokens : List Token} (derives : Derives form tokens) :
    DerivesAll [form] tokens := by
  refine ⟨[(form, tokens)], rfl, List.append_nil tokens, ?_⟩
  intro item member
  rw [List.mem_singleton.mp member]
  exact derives

theorem DerivesAll.enclose {forms : List Form} {tokens : List Token} {opener closer : Token}
    (derives : DerivesAll forms tokens) (opens : opener.kind = .openList)
    (closes : closer.kind = .closeList) :
    Derives (.list opener none forms) (opener :: (tokens ++ [closer])) := by
  obtain ⟨items, rfl, rfl, each⟩ := derives
  exact .list opens closes each

/-! ## One token -/

variable {pending : List OpenList} {finished : List Form} {fault : Option Fault}

theorem consume_open {token : Token} (opens : token.kind = .openList) (ahead : List Token) :
    consume pending finished fault (token :: ahead) =
      consume (⟨token, []⟩ :: pending) finished fault ahead := by
  rw [consume.eq_def]
  simp only [opens]

theorem consume_close {token : Token} (closes : token.kind = .closeList) (innermost : OpenList)
    (ahead : List Token) :
    consume (innermost :: pending) finished fault (token :: ahead) =
      consume (push innermost.close pending finished).1 (push innermost.close pending finished).2
        fault ahead := by
  rw [consume.eq_def]
  simp only [closes]

theorem consume_close_top {token : Token} (closes : token.kind = .closeList) (ahead : List Token) :
    consume [] finished fault (token :: ahead) =
      .ok (stopAt .unexpectedToken token ahead [] finished) := by
  rw [consume.eq_def]
  simp only [closes]

theorem consume_end {token : Token} (ends : token.kind = .endOfInput) (ahead : List Token) :
    consume pending finished fault (token :: ahead) =
      .ok (stopAtEnd token ahead pending finished fault) := by
  rw [consume.eq_def]
  simp only [ends]

theorem consume_invalid {token : Token} (invalid : token.kind = .invalid) (ahead : List Token) :
    consume pending finished fault (token :: ahead) =
      .ok (stopAt .unexpectedToken token ahead pending finished) := by
  rw [consume.eq_def]
  simp only [invalid]

theorem consume_atom {token : Token} (atomic : token.kind.isAtom = true) (ahead : List Token) :
    consume pending finished fault (token :: ahead) =
      match Form.ofToken token with
      | .ok form =>
        consume (push form pending finished).1 (push form pending finished).2 fault ahead
      | .error (.fault cause) => .ok (stopAt cause token ahead pending finished)
      | .error stop => .error stop := by
  obtain ⟨kind, text, position⟩ := token
  cases kind with
  | atom | string => rfl
  | invalid | openList | closeList | endOfInput => cases atomic

/-! ## Every derivation is read -/

/-- Adds forms one after the other. -/
def pushAll (forms : List Form) (state : List OpenList × List Form) :
    List OpenList × List Form :=
  forms.foldl (fun state form => push form state.1 state.2) state

theorem pushAll_open (forms : List Form) (opener : Token) (items : List Form)
    (pending : List OpenList) (finished : List Form) :
    pushAll forms (⟨opener, items⟩ :: pending, finished) =
      (⟨opener, forms.reverse ++ items⟩ :: pending, finished) := by
  induction forms generalizing items with
  | nil => rfl
  | cons form forms ih =>
    have rest := ih (form :: items)
    simpa [pushAll, push] using rest

theorem pushAll_top (forms finished : List Form) :
    pushAll forms ([], finished) = ([], forms.reverse ++ finished) := by
  induction forms generalizing finished with
  | nil => rfl
  | cons form forms ih =>
    have rest := ih (form :: finished)
    simpa [pushAll, push] using rest

/-- Reading some tokens adds a form, whatever is open and whatever follows. -/
def Reads (form : Form) (tokens : List Token) : Prop :=
  ∀ (pending : List OpenList) (finished : List Form) (fault : Option Fault) (rest : List Token),
    consume pending finished fault (tokens ++ rest) =
      consume (push form pending finished).1 (push form pending finished).2 fault rest

theorem consume_items {items : List (Form × List Token)}
    (each : ∀ item ∈ items, Reads item.1 item.2) (state : List OpenList × List Form)
    (fault : Option Fault) (rest : List Token) :
    consume state.1 state.2 fault (items.flatMap Prod.snd ++ rest) =
      consume (pushAll (items.map Prod.fst) state).1 (pushAll (items.map Prod.fst) state).2 fault
        rest := by
  induction items generalizing state with
  | nil => rfl
  | cons item items ih =>
    have reads := each item List.mem_cons_self
    have others : ∀ item ∈ items, Reads item.1 item.2 :=
      fun other member => each other (List.mem_cons_of_mem _ member)
    rw [List.flatMap_cons, List.append_assoc, reads]
    exact ih others (push item.1 state.1 state.2)

/-- Reading the tokens of a derivation adds its form. -/
theorem Derives.reads {form : Form} {tokens : List Token} (derives : Derives form tokens) :
    Reads form tokens := by
  induction derives with
  | atom kind read =>
    intro pending finished fault rest
    rw [List.singleton_append, consume_atom kind, read]
  | @list opener closer items opens closes each ih =>
    intro pending finished fault rest
    have inside := consume_items ih (⟨opener, []⟩ :: pending, finished) fault (closer :: rest)
    rw [pushAll_open] at inside
    have whole : opener :: (items.flatMap Prod.snd ++ [closer]) ++ rest =
        opener :: (items.flatMap Prod.snd ++ closer :: rest) := by simp
    rw [whole, consume_open opens, inside, consume_close closes]
    simp [OpenList.close]

theorem readAll_of_consume {tokens : List Token} {reader : Reader}
    (read : consume [] [] none tokens = .ok reader) :
    Form.readAll tokens =
      match reader.fault with
      | some fault => .error (.fault fault)
      | none => .ok reader.forms := by
  simp only [Form.readAll, run, ofTokens, read]
  rfl

/-- Tokens that derive forms are read as these forms, up to the token that marks the end. -/
theorem DerivesAll.readAll_eq {forms : List Form} {tokens rest : List Token}
    (derives : DerivesAll forms tokens) (atEnd : ∀ token ∈ rest.head?, token.kind = .endOfInput) :
    Form.readAll (tokens ++ rest) = .ok forms := by
  obtain ⟨items, rfl, rfl, each⟩ := derives
  have read := consume_items (fun item member => (each item member).reads) ([], []) none rest
  have stopped : ∀ finished, ∃ ahead,
      consume [] finished none rest = .ok ⟨ahead, [], finished, none⟩ := by
    intro finished
    cases rest with
    | nil => exact ⟨[], rfl⟩
    | cons token ahead =>
      refine ⟨ahead, ?_⟩
      rw [consume.eq_def]
      simp only [atEnd token rfl]
      rfl
  rw [pushAll_top, List.append_nil] at read
  obtain ⟨ahead, stop⟩ := stopped (items.map Prod.fst).reverse
  rw [stop] at read
  rw [readAll_of_consume read]
  simp [Reader.forms]

/-! ## Everything read is derived -/

/-- The open lists and the finished forms, from the outside in, are what the tokens read so far
derive: each open list is the opening parenthesis and the elements behind it. -/
inductive Progress : List OpenList → List Form → List Token → Prop where
  | top {finished : List Form} {read : List Token} (derives : DerivesAll finished.reverse read) :
      Progress [] finished read
  | inside {opener : Token} {items : List Form} {pending : List OpenList} {finished : List Form}
      {read inner : List Token} (outside : Progress pending finished read)
      (opens : opener.kind = .openList) (derives : DerivesAll items.reverse inner) :
      Progress (⟨opener, items⟩ :: pending) finished (read ++ opener :: inner)

namespace Progress

variable {read : List Token}

theorem push {form : Form} {tokens : List Token} (progress : Progress pending finished read)
    (derives : Derives form tokens) :
    Progress (Reader.push form pending finished).1 (Reader.push form pending finished).2
      (read ++ tokens) := by
  cases progress with
  | top before =>
    have joined := before.append derives.single
    rw [← List.reverse_cons] at joined
    exact .top joined
  | @inside opener items pending _ read inner outside opens before =>
    have joined := before.append derives.single
    rw [← List.reverse_cons] at joined
    rw [List.append_assoc]
    exact .inside outside opens joined

theorem openList {token : Token} (progress : Progress pending finished read)
    (opens : token.kind = .openList) :
    Progress (⟨token, []⟩ :: pending) finished (read ++ [token]) :=
  .inside progress opens .nil

theorem closeList {token : Token} {innermost : OpenList}
    (progress : Progress (innermost :: pending) finished read) (closes : token.kind = .closeList) :
    Progress (Reader.push innermost.close pending finished).1
      (Reader.push innermost.close pending finished).2 (read ++ [token]) := by
  cases progress with
  | @inside opener items _ _ read inner outside opens derives =>
    have closed := outside.push (derives.enclose opens closes)
    simpa [OpenList.close] using closed

/-- Where reading stops at the end without a fault, no list is open. -/
theorem derivesAll_of_stopAtEnd {token : Token} {ahead : List Token}
    (progress : Progress pending finished read)
    (sound : (stopAtEnd token ahead pending finished none).fault = none) :
    DerivesAll (stopAtEnd token ahead pending finished none).forms read := by
  cases progress with
  | top derives => exact derives
  | inside => cases sound

/-- Where reading ends without a fault, the forms derive from all tokens in front of the end. -/
theorem derivesAll {tokens : List Token} {reader : Reader}
    (progress : Progress pending finished read)
    (ran : consume pending finished none tokens = .ok reader) (sound : reader.fault = none) :
    DerivesAll reader.forms (read ++ beforeEnd tokens) := by
  induction tokens generalizing pending finished read with
  | nil =>
    cases ran
    rw [beforeEnd, List.takeWhile_nil, List.append_nil]
    exact progress.derivesAll_of_stopAtEnd sound
  | cons token ahead ih =>
    cases kind : token.kind with
    | endOfInput =>
      rw [consume_end kind] at ran
      cases ran
      rw [beforeEnd_end ahead kind, List.append_nil]
      exact progress.derivesAll_of_stopAtEnd sound
    | openList =>
      rw [consume_open kind] at ran
      have derives := ih (progress.openList kind) ran
      rw [beforeEnd_cons ahead (by simp [kind])]
      simpa using derives
    | closeList =>
      cases pending with
      | nil =>
        rw [consume_close_top kind] at ran
        cases ran
        cases sound
      | cons innermost outer =>
        rw [consume_close kind] at ran
        have derives := ih (progress.closeList kind) ran
        rw [beforeEnd_cons ahead (by simp [kind])]
        simpa using derives
    | invalid =>
      rw [consume_invalid kind] at ran
      cases ran
      cases sound
    | atom | string =>
      have atomic : token.kind.isAtom = true := by rw [kind]; rfl
      rw [consume_atom atomic] at ran
      cases form? : Form.ofToken token with
      | ok form =>
        rw [form?] at ran
        have derives := ih (progress.push (.atom atomic form?)) ran
        rw [beforeEnd_cons ahead (by simp [kind])]
        simpa using derives
      | error stop =>
        rw [form?] at ran
        cases stop <;> cases ran
        cases sound

end Progress

/-! ## Counting parentheses -/

section Counting

variable {depth : Nat} {token : Token} {tokens : List Token}

theorem forall_prefix_cons {holds : List Token → Prop} :
    (∀ front, front <+: token :: tokens → holds front) ↔
      holds [] ∧ ∀ front, front <+: tokens → holds (token :: front) := by
  constructor
  · intro every
    refine ⟨every [] List.nil_prefix, ?_⟩
    intro front inside
    exact every (token :: front) (List.cons_prefix_cons.mpr ⟨rfl, inside⟩)
  · rintro ⟨empty, every⟩ front inside
    rcases List.prefix_cons_iff.mp inside with rfl | ⟨rest, rfl, inside'⟩
    · exact empty
    · exact every rest inside'

theorem acceptable_nil : Acceptable depth [] ↔ depth = 0 := by
  constructor
  · intro acceptable
    exact acceptable.closed
  · rintro rfl
    exact ⟨nofun, fun front inside => by simp [List.prefix_nil.mp inside, closings], rfl⟩

/-- A token shifts the depth by the lists it opens and closes. -/
theorem acceptable_cons {depth' : Nat} (readable : Readable token)
    (shift : depth + openings [token] = depth' + closings [token]) :
    Acceptable depth (token :: tokens) ↔ Acceptable depth' tokens := by
  have opened : ∀ front, openings (token :: front) = openings [token] + openings front := by
    intro front
    rw [openings, ← List.singleton_append, List.countP_append]
    rfl
  have closed : ∀ front, closings (token :: front) = closings [token] + closings front := by
    intro front
    rw [closings, ← List.singleton_append, List.countP_append]
    rfl
  have balance : ∀ front, closings (token :: front) ≤ depth + openings (token :: front) ↔
      closings front ≤ depth' + openings front := by
    intro front
    rw [opened, closed]
    omega
  have total : depth + openings (token :: tokens) = closings (token :: tokens) ↔
      depth' + openings tokens = closings tokens := by
    rw [opened, closed]
    omega
  constructor
  · intro acceptable
    refine ⟨fun other member => acceptable.readable other (List.mem_cons_of_mem _ member), ?_,
      total.mp acceptable.closed⟩
    intro front inside
    exact (balance front).mp ((forall_prefix_cons.mp acceptable.nested).2 front inside)
  · intro acceptable
    refine ⟨List.forall_mem_cons.mpr ⟨readable, acceptable.readable⟩, ?_,
      total.mpr acceptable.closed⟩
    refine forall_prefix_cons.mpr ⟨Nat.zero_le _, fun front inside => ?_⟩
    exact (balance front).mpr (acceptable.nested front inside)

theorem readable_atom_iff (atomic : token.kind.isAtom = true) :
    Readable token ↔ (token.text.toList.all Char.isDigit = true →
      Nat.ofDigitChars 10 token.text.toList 0 ≤ 0x7fffffffffffffff) := by
  constructor
  · rintro (opens | closes | ⟨_, inRange⟩)
    · rw [opens] at atomic
      cases atomic
    · rw [closes] at atomic
      cases atomic
    · exact inRange
  · intro inRange
    exact .inr (.inr ⟨atomic, inRange⟩)

/-- An atom with text stands for a form unless its digits leave the range of integers. -/
theorem ofToken_cases (atomic : token.kind.isAtom = true) (named : token.text ≠ "") :
    (Readable token ∧ ∃ form, Form.ofToken token = .ok form) ∨
      (¬Readable token ∧ ∃ cause, Form.ofToken token = .error (.fault cause)) := by
  rw [readable_atom_iff atomic]
  simp only [Form.ofToken, atomic, if_true]
  cases text : token.text.toList with
  | nil => exact absurd (String.toList_eq_nil_iff.mp text) named
  | cons first rest =>
    by_cases quoted : first = '"'
    · subst quoted
      exact .inl ⟨fun digits => by simp at digits, _, if_pos rfl⟩
    · simp only [if_neg quoted]
      by_cases digits : (first :: rest).all Char.isDigit = true
      · simp only [if_pos digits]
        by_cases inRange : Nat.ofDigitChars 10 (first :: rest) 0 ≤ Form.maxInt
        · exact .inl ⟨fun _ => inRange, _, if_pos inRange⟩
        · exact .inr ⟨fun within => inRange (within digits), _, if_neg inRange⟩
      · exact .inl ⟨fun digits' => absurd digits' digits, _, if_neg digits⟩

theorem push_length (form : Form) (pending : List OpenList) (finished : List Form) :
    (push form pending finished).1.length = pending.length := by
  cases pending <;> rfl

theorem stopAtEnd_fault_eq_none_iff (ahead : List Token) (pending : List OpenList)
    (finished : List Form) :
    (stopAtEnd token ahead pending finished none).fault = none ↔ Acceptable pending.length [] := by
  rw [acceptable_nil]
  cases pending with
  | nil => exact ⟨fun _ => rfl, fun _ => rfl⟩
  | cons => exact ⟨nofun, nofun⟩

/-- Reading atoms with text never breaks off, and meets no fault exactly where the tokens in front
of the end are acceptable. -/
theorem consume_acceptable (named : ∀ token ∈ tokens, token.kind.isAtom = true → token.text ≠ "")
    (pending : List OpenList) (finished : List Form) :
    ∃ reader, consume pending finished none tokens = .ok reader ∧
      (reader.fault = none ↔ Acceptable pending.length (beforeEnd tokens)) := by
  induction tokens generalizing pending finished with
  | nil => exact ⟨_, rfl, stopAtEnd_fault_eq_none_iff [] pending finished⟩
  | cons token ahead ih =>
    have named' := fun other member => named other (List.mem_cons_of_mem token member)
    cases kind : token.kind with
    | endOfInput =>
      refine ⟨_, consume_end kind ahead, ?_⟩
      rw [beforeEnd_end ahead kind]
      exact stopAtEnd_fault_eq_none_iff ahead pending finished
    | openList =>
      have front := beforeEnd_cons ahead (show token.kind ≠ .endOfInput by simp [kind])
      have shift : pending.length + openings [token] = pending.length + 1 + closings [token] := by
        simp [openings, closings, kind]
      rw [consume_open kind, front, acceptable_cons (.inl kind) shift]
      exact ih named' (⟨token, []⟩ :: pending) finished
    | closeList =>
      have front := beforeEnd_cons ahead (show token.kind ≠ .endOfInput by simp [kind])
      cases pending with
      | nil =>
        refine ⟨_, consume_close_top kind ahead, nofun, ?_⟩
        intro acceptable
        rw [front] at acceptable
        have unopened := acceptable.nested [token] (by simp)
        simp [closings, openings, kind] at unopened
      | cons innermost outer =>
        have shift : (innermost :: outer).length + openings [token] =
            outer.length + closings [token] := by
          simp [openings, closings, kind]
        rw [consume_close kind, front, acceptable_cons (.inr (.inl kind)) shift,
          ← push_length innermost.close outer finished]
        exact ih named' _ _
    | invalid =>
      have front := beforeEnd_cons ahead (show token.kind ≠ .endOfInput by simp [kind])
      refine ⟨_, consume_invalid kind ahead, nofun, ?_⟩
      intro acceptable
      rw [front] at acceptable
      have readable := acceptable.readable token List.mem_cons_self
      simp [Readable, kind, TokenKind.isAtom] at readable
    | atom | string =>
      have front := beforeEnd_cons ahead (show token.kind ≠ .endOfInput by simp [kind])
      have atomic : token.kind.isAtom = true := by rw [kind]; rfl
      rw [consume_atom atomic, front]
      rcases ofToken_cases atomic (named token List.mem_cons_self atomic) with
        ⟨readable, form, read⟩ | ⟨unreadable, cause, failed⟩
      · have shift : pending.length + openings [token] = pending.length + closings [token] := by
          simp [openings, closings, kind]
        rw [read, acceptable_cons readable shift, ← push_length form pending finished]
        exact ih named' _ _
      · rw [failed]
        refine ⟨_, rfl, nofun, ?_⟩
        intro acceptable
        exact absurd (acceptable.readable token List.mem_cons_self) unreadable

end Counting

/-! ## The forms of a token sequence -/

theorem beforeEnd_append_rest (tokens : List Token) :
    ∃ rest, beforeEnd tokens ++ rest = tokens ∧
      ∀ token ∈ rest.head?, token.kind = .endOfInput := by
  refine ⟨tokens.dropWhile fun token => token.kind ≠ .endOfInput, List.takeWhile_append_dropWhile,
    ?_⟩
  intro token head
  have stopped := List.head?_dropWhile_not (fun token : Token => decide (token.kind ≠ .endOfInput))
    tokens
  rw [Option.mem_def.mp head] at stopped
  simpa using stopped

/-- Atoms with text are read exactly where the tokens in front of the end are acceptable, as the
forms, and only the forms, that the grammar derives from these tokens. -/
theorem readAll_reads_grammar (tokens : List Token)
    (named : ∀ token ∈ tokens, token.kind.isAtom = true → token.text ≠ "") :
    ((∃ forms, Form.readAll tokens = .ok forms) ↔ Acceptable 0 (beforeEnd tokens)) ∧
      (∀ forms, Form.readAll tokens = .ok forms ↔ DerivesAll forms (beforeEnd tokens)) ∧
      (¬Acceptable 0 (beforeEnd tokens) →
        ∃ fault, Form.readAll tokens = .error (.fault fault)) := by
  obtain ⟨reader, ran, sound⟩ := consume_acceptable named [] []
  have read := readAll_of_consume ran
  refine ⟨?_, ?_, ?_⟩
  · rw [List.length_nil] at sound
    rw [← sound, read]
    cases reader.fault with
    | none => exact ⟨fun _ => rfl, fun _ => ⟨_, rfl⟩⟩
    | some fault => exact ⟨nofun, nofun⟩
  · intro forms
    constructor
    · intro succeeded
      rw [read] at succeeded
      cases faultless : reader.fault with
      | none =>
        rw [faultless] at succeeded
        cases succeeded
        have start : Progress [] [] [] := .top .nil
        exact start.derivesAll ran faultless
      | some fault =>
        rw [faultless] at succeeded
        cases succeeded
    · intro derives
      obtain ⟨rest, split, atEnd⟩ := beforeEnd_append_rest tokens
      rw [← split]
      exact derives.readAll_eq atEnd
  · intro unacceptable
    cases faultless : reader.fault with
    | none => exact absurd (sound.mp faultless) unacceptable
    | some fault => exact ⟨fault, by rw [read, faultless]⟩

/-- The tokens of `(f (7))`, with an unmatched parenthesis behind the end. -/
def nestedCall : List Token :=
  [⟨.openList, "(", ⟨1, 1⟩⟩, ⟨.atom, "f", ⟨1, 2⟩⟩, ⟨.openList, "(", ⟨1, 4⟩⟩, ⟨.atom, "7", ⟨1, 5⟩⟩,
    ⟨.closeList, ")", ⟨1, 6⟩⟩, ⟨.closeList, ")", ⟨1, 7⟩⟩, Token.endAt ⟨1, 8⟩,
    ⟨.closeList, ")", ⟨0, 0⟩⟩]

theorem readAll_reads_grammar_nested_call :
    (∀ token ∈ nestedCall, token.kind.isAtom = true → token.text ≠ "") ∧
      Acceptable 0 (beforeEnd nestedCall) ∧
      DerivesAll
        [.list (some ⟨.openList, "(", ⟨1, 1⟩⟩) none
          [.atom (some ⟨.atom, "f", ⟨1, 2⟩⟩) (.symbol "f"),
            .list (some ⟨.openList, "(", ⟨1, 4⟩⟩) none
              [.atom (some ⟨.atom, "7", ⟨1, 5⟩⟩) (.int 7)]]]
        (beforeEnd nestedCall) := by
  have named : ∀ token ∈ nestedCall, token.kind.isAtom = true → token.text ≠ "" := by decide
  obtain ⟨accepted, derived, _⟩ := readAll_reads_grammar nestedCall named
  exact ⟨named, accepted.mp ⟨_, rfl⟩, (derived _).mp rfl⟩

end MiniLisp.Reader
