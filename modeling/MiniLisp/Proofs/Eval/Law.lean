import MiniLisp.Interpreter
import MiniLisp.Proofs.Eval.Confinement
import MiniLisp.Proofs.Machine.Relaxation

/-!
# Laws of all runs

Some things hold of every run, whatever functions it meets and in whatever scopes and engines it
takes place.  To show such a law it is enough to show it of the steps of the machine and of the few
ways in which runs are put together; every evaluation and every call then has it.

The law of this module is that a machine only advances: runs leave all scopes and engines that they
find as they were, however they end.
-/

namespace MiniLisp

/-- A value that two computations in sequence come to is a value of the second behind a value of
the first. -/
theorem Run.exists_of_bind_ok {α β : Type} {action : Run α} {next : α → Run β} {machine : Machine}
    {value : β} (came : ((action >>= next) machine).1 = .ok value) :
    ∃ middle final, action machine = (.ok middle, final) ∧ (next middle final).1 = .ok value := by
  rw [Run.bind_apply] at came
  match done : action machine with
  | (.ok middle, final) =>
    rw [done] at came
    exact ⟨middle, final, rfl, came⟩
  | (.error stop, final) =>
    rw [done] at came
    cases came

namespace Eval

/-- A law of runs, with a rule for every step of the machine.  The rule for two runs in sequence
asks for the second one only where the first one comes to a value. -/
structure Law where
  Holds : {α : Type} → Run α → Prop
  pure {α : Type} (value : α) : Holds (Pure.pure value)
  throw {α : Type} (stop : Stop) : Holds (MonadExcept.throw stop : Run α)
  bind {α β : Type} {action : Run α} {next : α → Run β} :
    Holds action → (∀ machine value, (action machine).1 = .ok value → Holds (next value)) →
    Holds (action >>= next)
  resolve (scope : ScopeId) (name : String) : Holds (Run.resolve scope name)
  record (engine : EngineId) {event : Machine → TraceEvent} :
    (∀ left right, left.scopes = right.scopes → event left = event right) →
    Holds (Run.record engine event)
  newScope (name : String) (parent : Option ScopeId) (bindings : Bindings) :
    Holds (Run.newScope name parent bindings)
  /-- Engines that start on the way write to no log. -/
  newEngine (limit : Nat) : Holds (Run.newEngine limit none)
  newClosure (params : List String) (body : Form) (scope : Option ScopeId)
    (engine : Option EngineId) : Holds (Run.newClosure params body scope engine)
  fillScope {α : Type} {pairs : Run (List (String × Datum))} {next : ScopeId → Run α}
    (name : String) (parent : ScopeId) :
    Holds pairs → (∀ scope, Holds (next scope)) →
    Holds do
      let fresh ← Run.newScope name (some parent) []
      let bound ← pairs
      Run.setAll fresh bound
      next fresh
  nested {α : Type} {action : Run α} (engine : EngineId) :
    Holds action → Holds (Run.nested engine action)
  blame {α : Type} {action : Run α} (callee : String) :
    Holds action → Holds (Run.blame callee action)
  /-- A run may depend on the functions of the host. -/
  inspect {α : Type} {next : Machine → Run α} :
    (∀ seen, Holds (next seen)) →
    (∀ seen seen', seen.hosts = seen'.hosts → next seen = next seen') →
    Holds (get >>= next)

namespace Law

variable (law : Law) {inner : Evaluation} {arguments : List Datum}

/-! ## Functions of the host -/

theorem interpretText_holds (inside : ∀ engine scope form, law.Holds (inner engine scope form)) :
    law.Holds (interpretText inner arguments) := by
  match arguments with
  | .text text :: rest =>
    simp only [interpretText]
    generalize Form.parse _ = parsed
    have read : law.Holds (liftM parsed : Run Form) := by
      cases parsed with
      | ok form => exact law.pure form
      | error stop => exact law.throw stop
    apply law.bind read
    intro _ form _
    apply law.bind (law.newScope _ _ _)
    intro _ scope _
    apply law.bind (law.newEngine _)
    intro _ engine _
    exact inside engine scope form
  | [] | .nil :: _ | .int _ :: _ | .bool _ :: _ | .list _ :: _ | .function _ :: _ =>
    exact law.throw _

theorem callHost_holds (inside : ∀ engine scope form, law.Holds (inner engine scope form))
    (builtins : ∀ operation, law.Holds (callBuiltin operation arguments))
    (closures : ∀ closure, law.Holds (callClosure inner closure arguments))
    (steps index : Nat) (name : String) :
    law.Holds (callHost inner arguments steps index name) := by
  induction steps generalizing index name with
  | zero => exact law.throw _
  | succ steps ih =>
    apply law.inspect _ fun seen seen' same => by rw [same]
    intro seen
    match seen.hosts[index]? with
    | some (.wrap (.function (.builtin operation))) => exact law.blame name (builtins operation)
    | some (.wrap (.function (.closure closure))) => exact law.blame name (closures closure)
    | some (.wrap (.function (.host index wrapped))) => exact law.blame name (ih index wrapped)
    | some (.fail message) => exact law.blame name (law.throw _)
    | some (.const value) => exact law.pure value
    | some .interpret => exact law.blame name (law.interpretText_holds inside)
    | some (.wrap .nil) | some (.wrap (.int _)) | some (.wrap (.text _)) | some (.wrap (.bool _))
    | some (.wrap (.list _)) | none => exact law.throw _

/-! ## Evaluations and calls -/

/-- A value may hold any functions. -/
theorem any (value : Datum) : value.Every fun _ => True :=
  Value.every_of_forall (fun _ => trivial) value

/-- A law is a logic of evaluation in which nothing needs to be known. -/
def logic : Logic Unit where
  World := Unit
  Later _ _ := True
  Scope _ _ := True
  Engine _ := True
  Function _ _ := True
  Holds _ good action := law.Holds (action ()) ∧
    ∀ machine value, (action () machine).1 = .ok value → good () value
  scope_later _ _ := trivial
  function_later _ _ := trivial
  function_builtin _ := trivial
  scope_of_closure _ _ := trivial
  pure good := ⟨law.pure _, fun _ _ came => by cases came; exact good⟩
  fail _ := ⟨law.throw _, nofun⟩
  bind first continued := by
    refine ⟨law.bind first.1 fun machine value came => ?_, fun machine value came => ?_⟩
    · exact (continued () value trivial (first.2 machine value came)).1
    · obtain ⟨middle, final, done, came⟩ := Run.exists_of_bind_ok came
      have good := first.2 machine middle (congrArg Prod.fst done)
      exact (continued () middle trivial good).2 final value came
  resolve name _ := ⟨law.resolve _ name, fun _ value _ => any value⟩
  record _ alike := ⟨law.record _ alike, fun _ _ _ => trivial⟩
  newScope name _ _ := ⟨law.newScope name _ _, fun _ _ _ => trivial⟩
  newClosure params body _ _ :=
    ⟨law.newClosure params body _ _, fun _ value _ => any value⟩
  engineOf _ := by
    refine ⟨?_, fun _ _ _ => trivial⟩
    unfold engineOf
    split
    · exact law.pure _
    · exact law.newEngine _
  fillScope name _ paired continued := by
    refine ⟨law.fillScope name _ (paired () trivial).1 fun scope =>
      (continued () scope trivial trivial).1, fun machine value came => ?_⟩
    obtain ⟨fresh, opened, -, came⟩ := Run.exists_of_bind_ok came
    obtain ⟨bound, filling, -, came⟩ := Run.exists_of_bind_ok came
    obtain ⟨_, filled, -, came⟩ := Run.exists_of_bind_ok came
    exact (continued () fresh trivial trivial).2 filled value came
  callHost name inside builtins closures _ := by
    refine ⟨law.callHost_holds ?_ ?_ ?_ _ _ name, fun _ value _ => any value⟩
    · exact fun engine scope form => (inside () engine scope form trivial trivial).1
    · exact fun operation => (builtins operation).1
    · exact fun closure => (closures closure trivial).1

theorem inner_iff : law.logic.Inner (fun _ => inner) ↔
    ∀ engine scope form, law.Holds (inner engine scope form) := by
  constructor
  · intro inside engine scope form
    exact (inside () engine scope form trivial trivial).1
  · intro inside _ engine scope form _ _
    exact ⟨inside engine scope form, fun _ value _ => any value⟩

/-- A law holds of every evaluation. -/
theorem eval_holds (fuel : Nat) (engine : EngineId) (scope : ScopeId) (form : Form) :
    law.Holds (eval fuel engine scope form) := by
  induction fuel generalizing engine scope form with
  | zero => exact law.throw _
  | succ fuel ih =>
    cases form with
    | absent => exact law.pure _
    | atom token value =>
      have holds : law.logic.Holds () law.logic.Datum fun _ => evalAtom scope value :=
        SilentLogic.evalAtom_holds trivial value
      exact law.nested engine holds.1
    | list token label items =>
      have holds : law.logic.Holds () law.logic.Datum fun _ =>
          evalList (eval fuel) engine scope items :=
        Logic.evalList_holds (law.inner_iff.mpr ih) trivial trivial items
      exact law.nested engine holds.1

/-- A law holds of every call. -/
theorem call_holds (fuel : Nat) (procedure : Procedure) (arguments : List Datum) :
    law.Holds (MiniLisp.call fuel procedure arguments) := by
  have holds : law.logic.Holds () law.logic.Datum fun _ =>
      call (eval fuel) procedure arguments :=
    SilentLogic.call_holds (law.inner_iff.mpr (law.eval_holds fuel)) trivial
      fun value _ => any value
  exact holds.1

end Law

/-! ## Machines advance -/

/-- Every run leaves the scopes and engines that it finds as they were. -/
def advancing : Law where
  Holds action := ∀ machine, machine.Advances (action machine).2
  pure _ := .refl
  throw _ := .refl
  bind {_ _ action next} first continued := by
    intro machine
    have before := first machine
    rw [Run.bind_apply]
    match came : action machine with
    | (.ok value, middle) =>
      rw [came] at before
      exact before.trans (continued machine value (congrArg Prod.fst came) middle)
    | (.error stop, middle) =>
      rw [came] at before
      exact before
  resolve scope name machine := by
    rw [Run.resolve, Run.bind_apply_of_ok (Run.get_apply machine)]
    cases machine.scopes.resolve name scope <;> exact .refl machine
  record engine event _ machine := by
    simp only [Run.record, Run.modify_apply]
    cases (machine.engine engine).log with
    | none => exact .refl machine
    | some log => exact .of_eq rfl rfl (Nat.le_refl _)
  newScope _ _ _ machine := .pushScope machine _
  newEngine _ machine := .pushEngine machine _
  newClosure _ _ _ _ _ := .of_eq rfl rfl (Nat.le_succ _)
  fillScope {_ pairs next} name parent paired continued := by
    -- The scope that is filled is new, so filling it changes none that was there.
    intro machine
    let opened : Machine :=
      { machine with scopes := machine.scopes.push ⟨name, some parent, []⟩ }
    have created : Run.newScope name (some parent) [] machine = (.ok machine.scopes.size, opened) :=
      rfl
    have before : machine.Advances (pairs opened).2 :=
      (Machine.Advances.pushScope machine _).trans (paired opened)
    rw [Run.bind_apply_of_ok created, Run.bind_apply]
    match came : pairs opened with
    | (.ok bound, middle) =>
      rw [came] at before
      exact (before.fillScope (Nat.le_refl _) bound).trans (continued machine.scopes.size _)
    | (.error stop, middle) =>
      rw [came] at before
      exact before
  nested engine inside machine := by
    by_cases admitted : (machine.engine engine).depth < (machine.engine engine).limit
    · rw [Realm.nested_of_open admitted]
      exact (inside (machine.enter engine)).leave
    · rw [Realm.nested_of_full admitted]
      exact .refl machine
  blame callee inside machine := by
    rw [Run.blame_eq]
    exact inside machine
  inspect each _ machine := each machine machine

end Eval

/-- A machine advances when an interpreter evaluates a form. -/
theorem Interpreter.evaluate_advances (interpreter : Interpreter) (form : Form)
    (scope : Option ScopeId) (machine : Machine) :
    machine.Advances (interpreter.evaluate form scope machine).2 := by
  have started : Eval.advancing.Holds (startingScope scope) := by
    cases scope with
    | none => exact Eval.advancing.newScope "root" none Bindings.library
    | some given => exact Eval.advancing.pure given
  -- However much fuel a machine is given.
  have fuelled : ∀ fuel : Machine → Nat, Eval.advancing.Holds (do
      let start ← startingScope scope
      let engine ← Run.newEngine interpreter.limit interpreter.log
      eval (fuel (← get)) engine start form) := by
    intro fuel
    apply Eval.advancing.bind started
    intro _ start _
    apply Eval.advancing.bind fun rooted => Machine.Advances.pushEngine rooted _
    intro _ engine _ ready
    exact Eval.advancing.eval_holds (fuel ready) engine start form ready
  exact fuelled Machine.fuel machine

end MiniLisp
