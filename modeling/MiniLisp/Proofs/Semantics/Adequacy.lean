import MiniLisp.Interpreter
import MiniLisp.Proofs.Semantics.Derivation
import MiniLisp.Proofs.Semantics.Evaluation

/-!
# Adequacy of the interpreter

An interpreter answers exactly what the rules of the language derive, provided that its depth limit
is large enough: every answer but that of exceeded depth is derived, every derived answer is given
from some limit on, and where nothing is derived the depth is exceeded at every limit.
-/

namespace MiniLisp.Semantics

/-- An evaluation was given up because it nests too deeply. -/
def ExceedsDepth (result : Except Stop Datum) : Prop :=
  ∃ fault, result = .error (.fault fault) ∧ fault.cause? = some .recursionDepth

/-- The result of a run reads like an outcome of the rules: a value with the same text, or a fault
with the same message. -/
inductive ReadsLike : Except Stop Datum → Outcome Meaning → Prop where
  | value {value : Datum} {meaning : Meaning} {supply : Nat}
      (text : value.render = meaning.render) :
      ReadsLike (.ok value) (.ok (meaning, supply))
  | fault {fault fault' : Fault} (text : fault.message = fault'.message) :
      ReadsLike (.error (.fault fault)) (.error fault')

variable {setting : Setting} {room : Nat} {world : World} {scopes : Scopes}
variable {result : Except Stop Datum × Machine} {denoted : Option (Outcome Meaning)}

theorem Mirrors.readsLike {outcome : Outcome Meaning}
    (mirrors : Mirrors setting room (Means setting) world scopes result (some outcome)) :
    ReadsLike result.1 outcome := by
  cases mirrors with
  | value _ _ means => exact .value (Value.Lift.render_eq Stands.render_eq means)
  | fault fault final => exact .fault rfl

theorem Mirrors.exceedsDepth
    (mirrors : Mirrors setting room (Means setting) world scopes result none) :
    ExceedsDepth result.1 := by
  cases mirrors with
  | tooDeep final => exact ⟨_, rfl, rfl⟩

/-! ## A fresh root scope -/

/-- The machine in which the evaluation of a form in a fresh root scope starts. -/
def prepared (interpreter : Interpreter) (machine : Machine) : Machine :=
  { machine with
    scopes := machine.scopes.push ⟨"root", none, Bindings.library⟩
    engines := machine.engines.push ⟨interpreter.limit, 0, interpreter.log⟩ }

theorem evaluate_eq (interpreter : Interpreter) (form : Form) (machine : Machine) :
    interpreter.evaluate form none machine =
      MiniLisp.eval (prepared interpreter machine).fuel machine.engines.size machine.scopes.size
        form (prepared interpreter machine) := by
  have rooted : Interpreter.startingScope none machine =
      (.ok machine.scopes.size,
        { machine with scopes := machine.scopes.push ⟨"root", none, Bindings.library⟩ }) := rfl
  have engaged : Run.newEngine interpreter.limit interpreter.log
      { machine with scopes := machine.scopes.push ⟨"root", none, Bindings.library⟩ } =
      (.ok machine.engines.size, prepared interpreter machine) := rfl
  rw [Interpreter.evaluate, Run.bind_apply_of_ok rooted, Run.bind_apply_of_ok engaged,
    Run.bind_apply_of_ok (Run.get_apply _)]

/-- The fuel of a prepared machine exceeds the limit of its last engine. -/
theorem limit_lt_fuel (interpreter : Interpreter) (machine : Machine) :
    interpreter.limit < (prepared interpreter machine).fuel := by
  simp only [Machine.fuel, Machine.headroom, prepared, hostAllowance, Array.foldl_push]
  omega

/-- The setting of an evaluation that starts on a machine. -/
def startSetting (interpreter : Interpreter) (machine : Machine) : Setting :=
  ⟨machine.engines.size, interpreter.limit, machine.closures⟩

/-- In the beginning only the root scope is known. -/
def startWorld (machine : Machine) : World :=
  Function.update (fun _ => none) machine.scopes.size (some Chain.root)

theorem prepared_realizes (interpreter : Interpreter) (machine : Machine) :
    Realizes (startSetting interpreter machine) (startWorld machine) interpreter.limit 0
      (prepared interpreter machine) := by
  have unknowing : Realizes (startSetting interpreter machine) (fun _ => none) interpreter.limit 0
      { machine with
        engines := machine.engines.push ⟨interpreter.limit, 0, interpreter.log⟩ } := by
    refine ⟨nofun, rfl, 0, interpreter.log, ?_, Nat.zero_add _⟩
    exact Array.getElem?_push_size
  have present : (machine.scopes.push ⟨"root", none, Bindings.library⟩)[machine.scopes.size]? =
      some ⟨"root", none, Bindings.library⟩ := Array.getElem?_push_size
  exact unknowing.extend rfl nofun present FrameStands.library rfl

/-- Evaluating a form in a fresh root scope comes to what the form denotes with as much room as the
limit admits. -/
theorem evaluate_mirrors (interpreter : Interpreter) (form : Form) (machine : Machine) :
    Mirrors (startSetting interpreter machine) interpreter.limit
      (Means (startSetting interpreter machine)) (startWorld machine)
      (prepared interpreter machine).scopes (interpreter.evaluate form none machine)
      (eval interpreter.limit Chain.root form 0) := by
  rw [evaluate_eq]
  exact eval_follows (limit_lt_fuel interpreter machine) _ _ _ form (Function.update_self ..) _ _
    (prepared_realizes interpreter machine)

/-- A fault that a form denotes is the fault that its evaluation comes to. -/
theorem evaluate_of_fault {interpreter : Interpreter} {form : Form} {fault : Fault}
    (denoted : eval interpreter.limit Chain.root form 0 = some (.error fault)) (machine : Machine) :
    (interpreter.evaluate form none machine).1 = .error (.fault fault) := by
  have mirrors := evaluate_mirrors interpreter form machine
  rw [denoted] at mirrors
  generalize interpreter.evaluate form none machine = result at mirrors ⊢
  cases mirrors with
  | fault => rfl

/-- An integer that a form denotes is the value that its evaluation comes to. -/
theorem evaluate_of_int {interpreter : Interpreter} {form : Form} {value : Int64} {supply : Nat}
    (denoted : eval interpreter.limit Chain.root form 0 = some (.ok (.int value, supply)))
    (machine : Machine) : (interpreter.evaluate form none machine).1 = .ok (.int value) := by
  have mirrors := evaluate_mirrors interpreter form machine
  rw [denoted] at mirrors
  generalize interpreter.evaluate form none machine = result at mirrors ⊢
  cases mirrors with
  | @value found _ _ _ _ realizes later means =>
    cases found with
    | int found =>
      cases means
      rfl
    | nil | text | bool | list | function => exact means.elim

/-- Whatever makes an evaluation fail follows from the rules, unless it is too great a depth. -/
theorem evaluate_fails {interpreter : Interpreter} {form : Form} {machine : Machine} {stop : Stop}
    (failed : (interpreter.evaluate form none machine).1 = .error stop) :
    ∃ fault, stop = .fault fault ∧
      (fault = .tooDeep interpreter.limit ∨ Answers form (.error fault)) := by
  have mirrors := evaluate_mirrors interpreter form machine
  generalize interpreter.evaluate form none machine = result at mirrors failed
  cases found : eval interpreter.limit Chain.root form 0 with
  | none =>
    rw [found] at mirrors
    cases mirrors with
    | tooDeep final =>
      cases failed
      exact ⟨_, rfl, .inl rfl⟩
  | some outcome =>
    rw [found] at mirrors
    cases mirrors with
    | value => cases failed
    | fault fault final =>
      cases failed
      exact ⟨fault, rfl, .inr (evaluates_form_iff.mpr ⟨_, found⟩)⟩

theorem interpret_eq_evaluate {source : List Char} {form : Form}
    (accepted : Form.parse source = .ok form) (interpreter : Interpreter) (machine : Machine) :
    interpreter.interpret source machine = interpreter.evaluate form none machine := by
  have read : (liftM (Form.parse source) : Run Form) machine = (.ok form, machine) := by
    rw [accepted]
    rfl
  rw [Interpreter.interpret, Run.bind_apply_of_ok read]

/-- An interpreter is sound and complete for the rules of the language, up to its depth limit. -/
theorem interpret_adequate {source : List Char} {form : Form}
    (accepted : Form.parse source = .ok form) :
    (∀ (interpreter : Interpreter) (machine : Machine),
      ¬ExceedsDepth (interpreter.interpret source machine).1 →
        ∃ outcome, Answers form outcome ∧
          ReadsLike (interpreter.interpret source machine).1 outcome) ∧
    (∀ outcome, Answers form outcome →
      ∃ depth, ∀ (interpreter : Interpreter) (machine : Machine), depth ≤ interpreter.limit →
        ReadsLike (interpreter.interpret source machine).1 outcome) ∧
    ((∀ outcome, ¬Answers form outcome) →
      ∀ (interpreter : Interpreter) (machine : Machine),
        ExceedsDepth (interpreter.interpret source machine).1) := by
  refine ⟨?_, ?_, ?_⟩
  · intro interpreter machine shallow
    have mirrors := evaluate_mirrors interpreter form machine
    rw [interpret_eq_evaluate accepted] at shallow ⊢
    cases found : eval interpreter.limit Chain.root form 0 with
    | none =>
      rw [found] at mirrors
      exact absurd mirrors.exceedsDepth shallow
    | some outcome =>
      rw [found] at mirrors
      exact ⟨outcome, evaluates_form_iff.mpr ⟨_, found⟩, mirrors.readsLike⟩
  · intro outcome answers
    obtain ⟨depth, found⟩ := evaluates_form_iff.mp answers
    refine ⟨depth, ?_⟩
    intro interpreter machine enough
    have mirrors := evaluate_mirrors interpreter form machine
    rw [eval_below enough _ _ _ _ found] at mirrors
    rw [interpret_eq_evaluate accepted]
    exact mirrors.readsLike
  · intro unanswered interpreter machine
    have mirrors := evaluate_mirrors interpreter form machine
    rw [interpret_eq_evaluate accepted]
    cases found : eval interpreter.limit Chain.root form 0 with
    | none =>
      rw [found] at mirrors
      exact mirrors.exceedsDepth
    | some outcome => exact absurd (evaluates_form_iff.mpr ⟨_, found⟩) (unanswered outcome)

/-- A closure that outlives the call it was made in still gives back what that call was about. -/
theorem interpret_adequate_curried :
    ∃ form, Form.parse "(((lambda (x) (lambda (y) x)) 7) 8)".toList = .ok form ∧
      Answers form (.ok (.int 7, 2)) ∧
      ∃ depth, ∀ (interpreter : Interpreter) (machine : Machine), depth ≤ interpreter.limit →
        ReadsLike
          (interpreter.interpret "(((lambda (x) (lambda (y) x)) 7) 8)".toList machine).1
          (.ok (.int 7, 2)) := by
  refine ⟨_, rfl, evaluates_form_iff.mpr ⟨5, rfl⟩, ?_⟩
  exact (interpret_adequate rfl).2.1 _ (evaluates_form_iff.mpr ⟨5, rfl⟩)

end MiniLisp.Semantics
