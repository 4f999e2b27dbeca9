import MiniLisp.CommandLine
import MiniLisp.Proofs.Interpreter.Independence
import MiniLisp.Proofs.Repl.Grouping

/-!
# A session answers like a script

Programs that are entered at the prompt, line by line, are answered one after the other with what
they give on their own.  A script with the same programs shows the same answers up to the first one
that is a fault.
-/

namespace MiniLisp

/-- A form that a session takes for a command: a symbol whose name opens with a colon, or one of the
words `exit` and `help`. -/
def Form.Command (form : Form) : Prop :=
  ∃ name, form.symbolName? = some name ∧
    (name.toList.head? = some ':' ∨ name = "exit" ∨ name = "help")

/-- The words in which an outcome is shown: a value as it is written, a fault as its kind and its
message, and a line end behind both. -/
inductive Repl.Shows : Except Stop Datum → String → Prop where
  | value (value : Datum) : Shows (.ok value) (value.render ++ "\n")
  | fault (fault : Fault) :
      Shows (.error (.fault fault)) (fault.kind.name ++ ": " ++ fault.message ++ "\n")

theorem Fault.report_eq (fault : Fault) :
    fault.report = fault.kind.name ++ ": " ++ fault.message := by
  simp [report, toString]

/-- An outcome that answers something is shown in words. -/
theorem SameAnswer.shows_display {left right : Except Stop Datum} (same : SameAnswer left right) :
    Repl.Shows left (Repl.display left) := by
  cases same with
  | value text => exact .value _
  | fault fault =>
    rw [Repl.display, fault.report_eq]
    exact .fault fault

/-- There is only one way to show outcomes. -/
theorem Repl.eq_display_of_shows {outcomes : List (Except Stop Datum)} {answers : List String}
    (shown : List.Forall₂ Shows outcomes answers) : answers = outcomes.map display := by
  induction shown with
  | nil => rfl
  | cons shows _ ih =>
    rw [ih]
    cases shows with
    | value value => rfl
    | fault fault => rw [List.map_cons, display, fault.report_eq]

/-- Answers that are the same are shown alike. -/
theorem SameAnswer.display_eq {left right : Except Stop Datum} (same : SameAnswer left right) :
    Repl.display left = Repl.display right := by
  cases same with
  | value text => simp only [Repl.display, text]
  | fault fault => rfl

namespace Form

/-- What opens with a colon is a symbol, if it is a single form. -/
theorem command_of_colon {form : Form} {rest : List Char}
    (parsed : parse (':' :: rest) = .ok form) : form.Command := by
  have derives := derives_of_parse parsed
  have cut : Token.cut ':' rest = (some .atom, Token.atomExtent rest) := by
    cases rest <;> simp [Token.cut, Token.stringExtent?, Text.isBlank]
  generalize scanned : Token.scan (':' :: rest) = tokens at derives
  rw [Token.scan, Token.scanFrom, cut] at scanned
  cases derives with
  | @atom token form atomic read =>
    obtain ⟨rfl, -⟩ := List.cons.inj scanned
    have symbol : ∀ text position, ofToken ⟨.atom, String.ofList (':' :: text), position⟩ =
        .ok (.atom (some ⟨.atom, String.ofList (':' :: text), position⟩)
          (.symbol (String.ofList (':' :: text)))) := by
      intro text position
      simp [ofToken, TokenKind.isAtom, Char.isDigit]
    rw [symbol] at read
    cases read
    exact ⟨_, rfl, .inl (by simp)⟩
  | list opens =>
    obtain ⟨rfl, -⟩ := List.cons.inj scanned
    cases opens

theorem Command.of_same {form form' : Form} (alike : form.same form' = true)
    (command : form.Command) : form'.Command := by
  rwa [Command, ← symbolName?_eq_of_same alike]

/-- The text of a form that is no command is not empty, does not open with a colon and is none of
the words that are commands. -/
theorem not_command_of_parse {form : Form} {source : List Char} (parsed : parse source = .ok form)
    (plain : ¬form.Command) :
    source ≠ [] ∧ source.head? ≠ some ':' ∧ String.ofList source ≠ "exit" ∧
      String.ofList source ≠ "help" := by
  have word : ∀ name, (∃ token, parse name.toList = .ok (.atom token (.symbol name))) →
      (name = "exit" ∨ name = "help") → String.ofList source ≠ name := by
    rintro name ⟨token, symbol⟩ named rfl
    rw [String.toList_ofList, parsed] at symbol
    cases symbol
    exact plain ⟨_, rfl, .inr named⟩
  refine ⟨?_, ?_, word "exit" ⟨_, rfl⟩ (.inl rfl), word "help" ⟨_, rfl⟩ (.inr rfl)⟩
  · rintro rfl
    cases parsed
  · intro colon
    obtain ⟨rest, rfl⟩ := List.head?_eq_some_iff.mp colon
    exact plain (command_of_colon parsed)

end Form

namespace Repl

open Token

/-! ## One text -/

section Text

variable {source : List UInt8} {form : Form} {text : List Text.Glyph}

theorem Request.ofText_eq_evaluate {source : List Char}
    (trimmed : Text.characters (Text.trim text) = source) (nonempty : source ≠ [])
    (colon : source.head? ≠ some ':') (exit : String.ofList source ≠ "exit")
    (help : String.ofList source ≠ "help") : Request.ofText text = .evaluate source := by
  -- Every other word or beginning of a command opens with a colon.
  have named : ∀ name : String, name.toList.head? = some ':' → String.ofList source ≠ name := by
    rintro name opens rfl
    rw [String.toList_ofList] at opens
    exact colon opens
  have begins : ∀ command : List Char, command.head? = some ':' →
      command.isPrefixOf source = false := by
    intro command opens
    rw [Bool.eq_false_iff, ne_eq, List.isPrefixOf_iff_prefix]
    rintro ⟨rest, rfl⟩
    rw [List.head?_append, opens] at colon
    exact colon rfl
  simp [Request.ofText, trimmed, nonempty, colon, exit, help, leaving, helping,
    named ":exit" rfl, named ":quit" rfl, named ":help" rfl, begins tokensCommand rfl,
    begins treeCommand rfl]

/-- A text with the lexemes of a form that is no command is to be evaluated. -/
theorem Request.ofText_of_whole (accepted : Form.parse (Text.decode source) = .ok form)
    (plain : ¬form.Command)
    (whole : lexemes (Text.characters text) = lexemes (Text.decode source)) :
    Request.ofText text = .evaluate (Text.characters (Text.trim text)) := by
  have alike := Form.parse_alike ((lexemes_trim text).trans whole)
  rw [accepted] at alike
  cases read : Form.parse (Text.characters (Text.trim text)) with
  | error stop =>
    rw [read] at alike
    cases alike
  | ok form' =>
    rw [read] at alike
    cases alike with
    | form same =>
      have plain' : ¬form'.Command := fun command => plain (command.of_same same)
      obtain ⟨nonempty, colon, exit, help⟩ := Form.not_command_of_parse read plain'
      exact Request.ofText_eq_evaluate rfl nonempty colon exit help

/-- A source is answered with some words, in whatever text it stands and on whatever machine. -/
def Answers (interpreter : Interpreter) (source : List UInt8) (answer : String) : Prop :=
  ∀ (text : List Text.Glyph) (machine : Machine),
    lexemes (Text.characters text) = lexemes (Text.decode source) →
      (handle interpreter text machine).1 = ⟨answer, false⟩

/-- A form that is no command is answered with what it gives on its own. -/
theorem answers_display (interpreter : Interpreter)
    (accepted : Form.parse (Text.decode source) = .ok form) (plain : ¬form.Command)
    (alone : Machine) :
    Answers interpreter source
      (display (interpreter.interpret (Text.decode source) alone).1) := by
  intro text machine whole
  have same := interpreter.interpret_alike ((lexemes_trim text).trans whole) accepted machine alone
  rw [handle, Request.ofText_of_whole accepted plain whole, ← same.display_eq]
  rfl

end Text

/-! ## What a session writes -/

/-- What a session writes piece by piece: the prompt in front of a line, when some text waits for
more lines, and the answer to a text. -/
inductive Event where
  | prompt (pending : List Text.Glyph)
  | answer (words : String)

namespace Event

/-- What is written. -/
def written : Event → String
  | prompt pending => Repl.prompt pending
  | answer words => words

/-- The words of an answer. -/
def answer? : Event → Option String
  | prompt _ => none
  | answer words => some words

/-- Whether an event is a prompt. -/
def isPrompt : Event → Bool
  | prompt _ => true
  | answer _ => false

end Event

/-- The text of several events. -/
def transcript (events : List Event) : String :=
  String.join (events.map Event.written)

/-- The prompts that are shown while a text is entered. -/
def prompting (text : List Text.Glyph) : List Event :=
  .prompt [] :: List.replicate (text.count (.char '\n')) (.prompt text)

theorem transcript_append (left right : List Event) :
    transcript (left ++ right) = transcript left ++ transcript right := by
  simp [transcript]

theorem transcript_cons (event : Event) (events : List Event) :
    transcript (event :: events) = event.written ++ transcript events := by
  simp [transcript]

theorem transcript_prompting (text : List Text.Glyph) :
    transcript (prompting text) = prompts text := by
  simp [transcript, prompting, prompts, Event.written]

theorem filterMap_prompting (text : List Text.Glyph) :
    (prompting text).filterMap Event.answer? = [] := by
  simp [prompting, Event.answer?]

theorem countP_prompting (text : List Text.Glyph) :
    (prompting text).countP Event.isPrompt = lineCount text := by
  rw [prompting, List.countP_cons_of_pos rfl, List.countP_replicate]
  rfl

theorem accept_blank {text : List Text.Glyph} (bare : lexemes (Text.characters text) = [])
    (interpreter : Interpreter) (history : History) (machine : Machine) :
    accept interpreter history text machine = ((⟨"", false⟩, history), machine) := by
  rw [accept, trim_eq_nil bare]
  rfl

theorem accept_source {interpreter : Interpreter} {source : List UInt8} {answer : String}
    (visible : lexemes (Text.decode source) ≠ []) (answers : Answers interpreter source answer)
    {text : List Text.Glyph}
    (whole : lexemes (Text.characters text) = lexemes (Text.decode source)) (history : History)
    (machine : Machine) :
    ∃ history' machine',
      accept interpreter history text machine = ((⟨answer, false⟩, history'), machine') := by
  have nonempty : ¬(Text.trim text).isEmpty := by
    intro empty
    rw [← whole, ← lexemes_trim, List.isEmpty_iff.mp empty] at visible
    exact visible rfl
  have handled := answers text machine whole
  rw [accept, if_neg nonempty]
  refine ⟨history.add (entry text), (handle interpreter text machine).2, ?_⟩
  rw [← handled]
  rfl

/-- A text that does not end the session is answered, and then the texts behind it. -/
theorem answerTexts_cons {interpreter : Interpreter} {unfinished text : List Text.Glyph}
    {history history' : History} {machine machine' : Machine} {answer : String}
    (accepted : accept interpreter history text machine = ((⟨answer, false⟩, history'), machine'))
    (rest : List (List Text.Glyph)) :
    (answerTexts interpreter unfinished history (text :: rest) machine).1.1 =
      prompts text ++ answer ++
        (answerTexts interpreter unfinished history' rest machine').1.1 := by
  rw [answerTexts, Machine.bind_apply, accepted]
  rfl

/-- A session writes the answers to the sources that its texts hold, among its prompts. -/
theorem answerTexts_transcript {interpreter : Interpreter} {sources : List (List UInt8)}
    {answers : List String} {complete : List (List Text.Glyph)} (holds : Holds sources complete)
    (visible : ∀ source ∈ sources, lexemes (Text.decode source) ≠ [])
    (answered : List.Forall₂ (Answers interpreter) sources answers) (history : History)
    (machine : Machine) :
    ∃ events : List Event,
      (answerTexts interpreter [] history complete machine).1.1 = transcript events ++ "\n" ∧
        events.filterMap Event.answer? = answers ∧
        events.countP Event.isPrompt = (complete.map lineCount).sum + 1 := by
  induction holds generalizing answers history machine with
  | nothing =>
    cases answered
    exact ⟨[.prompt []], rfl, rfl, rfl⟩
  | @blank sources text rest bare others ih =>
    obtain ⟨events, shown, words, count⟩ := ih visible answered history machine
    refine ⟨prompting text ++ events, ?_, ?_, ?_⟩
    · rw [answerTexts_cons (accept_blank bare interpreter history machine), shown,
        transcript_append, transcript_prompting, String.append_empty, String.append_assoc]
    · rw [List.filterMap_append, filterMap_prompting, words, List.nil_append]
    · rw [List.countP_append, countP_prompting, count, List.map_cons, List.sum_cons,
        Nat.add_assoc]
  | @source source sources text rest whole others ih =>
    obtain ⟨here, behind⟩ := List.forall_mem_cons.mp visible
    cases answered with
    | @cons _ answer _ answers first answered =>
      obtain ⟨history', machine', accepted⟩ := accept_source here first whole history machine
      obtain ⟨events, shown, words, count⟩ := ih behind answered history' machine'
      refine ⟨prompting text ++ .answer answer :: events, ?_, ?_, ?_⟩
      · rw [answerTexts_cons accepted, shown, transcript_append, transcript_prompting,
          transcript_cons, Event.written]
        simp only [String.append_assoc]
      · rw [List.filterMap_append, filterMap_prompting, List.nil_append, ← words]
        rfl
      · have silent : ¬(Event.answer answer).isPrompt = true := by simp [Event.isPrompt]
        rw [List.countP_append, countP_prompting, List.countP_cons_of_neg silent, count,
          List.map_cons, List.sum_cons, Nat.add_assoc]

/-- A session on the lines of several forms, none of them a command, prompts for each line and once
more, and answers the forms in order. -/
theorem session_transcript {interpreter : Interpreter} {sources : List (List UInt8)}
    {answers : List String}
    (accepted : ∀ source ∈ sources, ∃ form, Form.parse (Text.decode source) = .ok form)
    (answered : List.Forall₂ (Answers interpreter) sources answers) (history : History)
    (machine : Machine) :
    ∃ events : List Event,
      (session interpreter history (sources.flatMap lines) machine).1.1 =
          banner ++ "\n" ++ transcript events ++ "\n" ∧
        events.filterMap Event.answer? = answers ∧
        events.countP Event.isPrompt = (sources.flatMap lines).length + 1 := by
  obtain ⟨complete, grouped, holds⟩ := groups_lines accepted
  have visible : ∀ source ∈ sources, lexemes (Text.decode source) ≠ [] := by
    intro source member
    obtain ⟨form, parsed⟩ := accepted source member
    exact Form.lexemes_ne_nil parsed
  have unbroken : ∀ line ∈ sources.flatMap lines, .char '\n' ∉ line := by
    intro line member
    obtain ⟨source, -, among⟩ := List.mem_flatMap.mp member
    exact newline_not_mem_lines source line among
  have counted := lineCount_texts [] unbroken
  rw [grouped] at counted
  obtain ⟨events, shown, words, count⟩ :=
    answerTexts_transcript holds visible answered history machine
  have wrote : (session interpreter history (sources.flatMap lines) machine).1.1 =
      banner ++ "\n" ++ (answerTexts interpreter [] history complete machine).1.1 := by
    simp only [session, grouped]
    rfl
  refine ⟨events, ?_, words, ?_⟩
  · rw [wrote, shown, ← String.append_assoc]
  · rw [count]
    simpa [waiting] using counted

end Repl

/-! ## What a script shows -/

namespace CommandLine

/-- Outcomes up to the first one that is a fault. -/
def upToFailure : List (Except Stop Datum) → List (Except Stop Datum)
  | [] => []
  | .ok value :: rest => .ok value :: upToFailure rest
  | .error stop :: _ => [.error stop]

theorem upToFailure_subset (outcomes : List (Except Stop Datum)) :
    upToFailure outcomes ⊆ outcomes := by
  induction outcomes with
  | nil => exact List.nil_subset []
  | cons first rest ih =>
    cases first with
    | ok value => exact List.cons_subset_cons _ ih
    | error stop => simp [upToFailure]

theorem shown_of_gathers {outcomes : List (Except Stop Datum)} {result : List Datum × Option Stop}
    (gathers : Gathers outcomes result) :
    String.join (result.1.map fun value => Repl.display (.ok value)) ++
        result.2.elim "" (fun stop => Repl.display (.error stop)) =
      String.join ((upToFailure outcomes).map Repl.display) ∧
    result.2.isNone = outcomes.all Except.isOk := by
  induction gathers with
  | done => exact ⟨rfl, rfl⟩
  | @value alone value outcomes values stop text rest ih =>
    have first : Repl.display (.ok value) = Repl.display (.ok alone) :=
      (SameAnswer.value text).display_eq
    constructor
    · simp only [upToFailure, List.map_cons, String.join_cons, String.append_assoc, first, ih.1]
    · simpa [Except.isOk, Except.toBool] using ih.2
  | fault fault outcomes =>
    constructor
    · simp [upToFailure]
    · rfl

/-- A script shows the outcomes up to the first failure. -/
theorem runScript_of_gathers {interpreter : Interpreter} {text : List Char}
    {outcomes : List (Except Stop Datum)} {machine : Machine}
    (gathers : Gathers outcomes (interpreter.interpretAll text machine).1) :
    (runScript interpreter (.ok text) machine).1 =
      (String.join ((upToFailure outcomes).map Repl.display), outcomes.all Except.isOk) := by
  obtain ⟨shown, well⟩ := shown_of_gathers gathers
  rw [← shown, ← well]
  rw [runScript, Machine.bind_apply, Interpreter.run]
  cases interpreter.interpretAll text machine with
  | mk result next =>
    obtain ⟨values, stop⟩ := result
    cases stop with
    | none =>
      rw [Option.elim_none, String.append_empty]
      rfl
    | some stop => rfl

theorem runFiles_singleton {interpreter : Interpreter} {tree : FileTree} {name : String}
    {content : List UInt8} (stored : tree.read name = .ok content) {machine : Machine}
    {shown : String} {well : Bool}
    (ran : (runScript interpreter (.ok (Text.decode content)) machine).1 = (shown, well)) :
    (runFiles interpreter tree [name] machine).1 = (shown, if well then 0 else 1) := by
  have read : readScript tree name = .ok (Text.decode content) := by
    rw [readScript, stored]
  rw [runFiles, runScripts, Machine.bind_apply, read]
  cases outcome : runScript interpreter (.ok (Text.decode content)) machine with
  | mk result next =>
    rw [outcome] at ran
    cases ran
    cases well with
    | true => exact congrArg (·, 0) String.append_empty
    | false => rfl

/-- A session and a script agree.  Forms that are no commands are given, each as a text of its own,
with the machine on which it is interpreted alone.  A session on the lines of all texts writes a
prompt for each line, one more at the end, and the outcomes of the forms in order: the text of a
value, or the kind of a fault with its message.  A script that holds the texts joined by newlines
shows the same up to the first failure, and its exit code tells whether there is one. -/
theorem session_agrees_with_script (interpreter : Interpreter)
    (runs : List (List UInt8 × Machine))
    (accepted : ∀ run ∈ runs, ∃ form, Form.parse (Text.decode run.1) = .ok form ∧ ¬form.Command)
    (history : History) (tree : FileTree) (name : String)
    (stored : tree.read name = .ok (List.intercalate [Text.newlineByte] (runs.map Prod.fst)))
    (machine machine' : Machine) :
    let outcomes := runs.map fun run => (interpreter.interpret (Text.decode run.1) run.2).1
    let entered := runs.flatMap fun run => Repl.lines run.1
    (∃ events : List Repl.Event,
      (Repl.session interpreter history entered machine).1.1 =
          Repl.banner ++ "\n" ++ Repl.transcript events ++ "\n" ∧
        List.Forall₂ Repl.Shows outcomes (events.filterMap Repl.Event.answer?) ∧
        events.countP Repl.Event.isPrompt = entered.length + 1) ∧
      ∃ answers : List String,
        List.Forall₂ Repl.Shows (upToFailure outcomes) answers ∧
          (runFiles interpreter tree [name] machine').1 =
            (String.join answers, if outcomes.all Except.isOk then 0 else 1) := by
  intro outcomes entered
  have parsed : ∀ run ∈ runs, ∃ form, Form.parse (Text.decode run.1) = .ok form := by
    intro run member
    obtain ⟨form, read, -⟩ := accepted run member
    exact ⟨form, read⟩
  have shown : ∀ outcome ∈ outcomes, Repl.Shows outcome (Repl.display outcome) := by
    rw [List.forall_mem_map]
    intro run member
    obtain ⟨form, read⟩ := parsed run member
    exact (interpreter.interpret_alike rfl read run.2 run.2).shows_display
  constructor
  · have sources : ∀ source ∈ runs.map Prod.fst,
        ∃ form, Form.parse (Text.decode source) = .ok form := by
      rw [List.forall_mem_map]
      exact parsed
    have answered : List.Forall₂ (Repl.Answers interpreter) (runs.map Prod.fst)
        (outcomes.map Repl.display) := by
      simp only [outcomes, List.map_map, List.forall₂_map_left_iff, List.forall₂_map_right_iff,
        List.forall₂_same]
      intro run member
      obtain ⟨form, read, plain⟩ := accepted run member
      exact Repl.answers_display interpreter read plain run.2
    obtain ⟨events, written, words, count⟩ :=
      Repl.session_transcript sources answered history machine
    rw [List.flatMap_map] at written count
    refine ⟨events, written, ?_, count⟩
    rw [words, List.forall₂_map_right_iff, List.forall₂_same]
    exact shown
  · have joined := Token.lexemes_joined (runs.map Prod.fst)
    rw [List.flatMap_map] at joined
    have gathers := Interpreter.interpretAll_of_lexemes interpreter parsed joined machine'
    refine ⟨_, ?_, runFiles_singleton stored (runScript_of_gathers gathers)⟩
    rw [List.forall₂_map_right_iff, List.forall₂_same]
    exact fun outcome member => shown outcome (upToFailure_subset outcomes member)

/-- The first form is spread over lines with blank ones among and around them, the second one fails,
and the last one is no command in spite of its name. -/
theorem session_agrees_with_script_spread :
    let interpreter : Interpreter := {}
    let sources := ["\n(+ 1\n\n2)\n ", "(car ())", "(exit)"].map fun text =>
      text.toUTF8.data.toList
    let tree : FileTree :=
      [(["forms.lisp"], .file (List.intercalate [Text.newlineByte] sources))]
    let entered := sources.flatMap Repl.lines
    let failure := "RangeError: car: index out of range: car of empty list\n"
    (∃ events : List Repl.Event,
      (Repl.session interpreter [] entered Machine.empty).1.1 =
          Repl.banner ++ "\n" ++ Repl.transcript events ++ "\n" ∧
        events.filterMap Repl.Event.answer? =
          ["3\n", failure, "LookupError: unbound identifier: exit\n"] ∧
        events.countP Repl.Event.isPrompt = 8) ∧
      (runFiles interpreter tree ["forms.lisp"] Machine.empty).1 = ("3\n" ++ failure, 1) := by
  intro interpreter sources tree entered failure
  let runs := sources.map fun source => (source, Machine.empty)
  have accepted : ∀ run ∈ runs,
      ∃ form, Form.parse (Text.decode run.1) = .ok form ∧ ¬form.Command := by
    simp only [runs, sources, List.map_cons, List.map_nil, List.forall_mem_cons]
    exact ⟨⟨_, rfl, nofun⟩, ⟨_, rfl, nofun⟩, ⟨_, rfl, nofun⟩, nofun⟩
  have content : ∀ bytes, FileTree.read [(["forms.lisp"], .file bytes)] "forms.lisp" = .ok bytes :=
    fun _ => rfl
  have agrees := session_agrees_with_script interpreter runs accepted [] tree "forms.lisp"
    (content _) Machine.empty Machine.empty
  have came : runs.map (fun run => (interpreter.interpret (Text.decode run.1) run.2).1) =
      [.ok (.int 3), .error (.fault (.application "car" .headOfEmpty)),
        .error (.fault (.unbound "exit"))] := by
    simp only [runs, sources, List.map_cons, List.map_nil, List.cons.injEq, and_true]
    refine ⟨?_, ?_, ?_⟩
    · rw [Semantics.interpret_eq_evaluate rfl]
      exact Semantics.evaluate_of_int rfl Machine.empty
    · rw [Semantics.interpret_eq_evaluate rfl]
      exact Semantics.evaluate_of_fault rfl Machine.empty
    · rw [Semantics.interpret_eq_evaluate rfl]
      exact Semantics.evaluate_of_fault rfl Machine.empty
  have lines : runs.flatMap (fun run => Repl.lines run.1) = entered := by
    simp only [runs, entered, List.flatMap_map]
  obtain ⟨⟨events, written, words, count⟩, answers, shown, ran⟩ := agrees
  rw [lines] at written count
  rw [came] at words shown ran
  refine ⟨⟨events, written, ?_, ?_⟩, ?_⟩
  · exact Repl.eq_display_of_shows words
  · rw [count]
    decide +kernel
  · rw [ran, Repl.eq_display_of_shows shown]
    rfl

end CommandLine

end MiniLisp
