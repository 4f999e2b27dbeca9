import MiniLisp.Proofs.Interpreter.Lexemes
import MiniLisp.Proofs.Token.Newline

/-!
# The forms of a program do not know each other

Every top-level form is evaluated in a root scope of its own.  Nothing that earlier forms or earlier
programs left behind on the machine is seen by it, so a program of several forms gives what each of
its forms gives on its own, up to the first one that fails.
-/

namespace MiniLisp

/-- How the outcomes of forms that are evaluated on their own make up the outcome of a program: its
values print like theirs, up to the first one that fails, and its fault is the fault of that one. -/
inductive Gathers : List (Except Stop Datum) → List Datum × Option Stop → Prop where
  | done : Gathers [] ([], none)
  | value {alone value : Datum} {outcomes : List (Except Stop Datum)} {values : List Datum}
      {stop : Option Stop} (text : value.render = alone.render)
      (rest : Gathers outcomes (values, stop)) :
      Gathers (.ok alone :: outcomes) (value :: values, stop)
  | fault (fault : Fault) (outcomes : List (Except Stop Datum)) :
      Gathers (.error (.fault fault) :: outcomes) ([], some (.fault fault))

/-- What comes next goes on with the result and the machine of what comes first. -/
theorem Machine.bind_apply {α β : Type} (action : StateM Machine α)
    (continued : α → StateM Machine β) (machine : Machine) :
    (action >>= continued) machine = continued (action machine).1 (action machine).2 := rfl

namespace Interpreter

variable {interpreter : Interpreter} {form : Form} {machine next : Machine}

theorem evaluateAll_of_ok {value : Datum}
    (evaluated : interpreter.evaluate form none machine = (.ok value, next)) (rest : List Form) :
    (interpreter.evaluateAll (form :: rest) machine).1 =
      (value :: (interpreter.evaluateAll rest next).1.1,
        (interpreter.evaluateAll rest next).1.2) := by
  rw [evaluateAll, Machine.bind_apply, evaluated]
  rfl

theorem evaluateAll_of_error {stop : Stop}
    (failed : interpreter.evaluate form none machine = (.error stop, next)) (rest : List Form) :
    (interpreter.evaluateAll (form :: rest) machine).1 = ([], some stop) := by
  rw [evaluateAll, Machine.bind_apply, failed]
  rfl

/-- Forms are evaluated one after the other like the texts they were read from. -/
theorem evaluateAll_gathers {runs : List (List UInt8 × Machine)} {forms : List Form}
    (read : List.Forall₂ (fun run form => Form.ReadFrom (Text.decode run.1) form) runs forms)
    (machine : Machine) :
    Gathers (runs.map fun run => (interpreter.interpret (Text.decode run.1) run.2).1)
      (interpreter.evaluateAll forms machine).1 := by
  induction read generalizing machine with
  | nil => exact .done
  | @cons run form runs forms readFrom _ ih =>
    obtain ⟨form', parsed, same⟩ := readFrom
    have answers := interpreter.evaluate_same same machine run.2
    rw [← Semantics.interpret_eq_evaluate parsed] at answers
    rw [List.map_cons]
    cases evaluated : interpreter.evaluate form none machine with
    | mk outcome next =>
      rw [evaluated] at answers
      generalize (interpreter.interpret (Text.decode run.1) run.2).1 = alone at answers ⊢
      cases answers with
      | value text =>
        rw [evaluateAll_of_ok evaluated]
        exact .value text (ih next)
      | fault fault =>
        rw [evaluateAll_of_error evaluated]
        exact .fault fault _

/-- A text whose lexemes are those of several programs gives what these give on their own. -/
theorem interpretAll_of_lexemes (interpreter : Interpreter) {runs : List (List UInt8 × Machine)}
    {text : List Char} (accepted : ∀ run ∈ runs, ∃ form, Form.parse (Text.decode run.1) = .ok form)
    (joined : Token.lexemes text = runs.flatMap fun run => Token.lexemes (Text.decode run.1))
    (machine : Machine) :
    Gathers (runs.map fun run => (interpreter.interpret (Text.decode run.1) run.2).1)
      (interpreter.interpretAll text machine).1 := by
  have sources : ∀ source ∈ runs.map fun run => Text.decode run.1,
      ∃ form, Form.parse source = .ok form := by
    rw [List.forall_mem_map]
    exact accepted
  rw [← List.flatMap_map] at joined
  obtain ⟨forms, parsed, each⟩ := Form.parseAll_of_lexemes _ sources joined
  rw [List.forall₂_map_left_iff] at each
  rw [interpretAll, parsed]
  exact evaluateAll_gathers each machine

/-- The forms of a program cannot influence each other: texts of one form each, joined by newlines,
give the values that the texts give on their own up to the first one that fails, and the fault of
that one.  Neither what ran before the program nor what ran before a single text plays a part. -/
theorem interpretAll_independent (interpreter : Interpreter) (runs : List (List UInt8 × Machine))
    (accepted : ∀ run ∈ runs, ∃ form, Form.parse (Text.decode run.1) = .ok form)
    (machine : Machine) :
    Gathers (runs.map fun run => (interpreter.interpret (Text.decode run.1) run.2).1)
      (interpreter.interpretAll
        (Text.decode (List.intercalate [Text.newlineByte] (runs.map Prod.fst))) machine).1 := by
  apply interpretAll_of_lexemes interpreter accepted
  rw [Token.lexemes_joined, List.flatMap_map]

/-- The first text binds `car` anew, the third one fails, and the last one is not reached.  Other
closures were made on the machine before. -/
theorem interpretAll_independent_shadowing :
    let interpreter : Interpreter := {}
    let used : Machine := { Machine.empty with closures := 7 }
    let runs := ["(define ((car +)) (car 1 2))", "\n(car (3))\n", "(car ())", "7"].map
      fun text => (text.toUTF8.data.toList, Machine.empty)
    Gathers (runs.map fun run => (interpreter.interpret (Text.decode run.1) run.2).1)
      (interpreter.interpretAll
        (Text.decode (List.intercalate [Text.newlineByte] (runs.map Prod.fst))) used).1 := by
  intro interpreter used runs
  have accepted : ∀ run ∈ runs, ∃ form, Form.parse (Text.decode run.1) = .ok form := by
    simp only [runs, List.map_cons, List.map_nil, List.forall_mem_cons]
    exact ⟨⟨_, rfl⟩, ⟨_, rfl⟩, ⟨_, rfl⟩, ⟨_, rfl⟩, nofun⟩
  exact interpretAll_independent interpreter runs accepted used

end Interpreter

end MiniLisp
