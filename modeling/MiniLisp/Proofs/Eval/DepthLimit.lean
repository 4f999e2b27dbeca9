import Mathlib.Data.List.Infix
import MiniLisp.Proofs.Eval.Termination
import MiniLisp.Proofs.Machine.Relaxation

/-!
# Raising the depth limit

A limit shows only where it is exceeded.  An interpreter with a larger limit comes to the same
answer and writes the same trace, unless the smaller limit was exceeded; then all that was written
under the smaller limit is written under the larger one, too.
-/

namespace MiniLisp

namespace Relaxation

variable {inner : Bool → Evaluation}

/-- Where a limit admits one more evaluation, every larger one does. -/
theorem nested {α : Type} {good : α → Prop} (engine : EngineId) {action : Bool → Run α}
    (inside : Relaxation good action) :
    Relaxation good fun relaxed => Run.nested engine (action relaxed) := by
  have grows : ∀ relaxed (machine : Machine), machine.trace.toList <+:
      (Run.nested engine (action relaxed) machine).2.trace.toList := by
    intro relaxed machine
    by_cases admitted : (machine.engine engine).depth < (machine.engine engine).limit
    · rw [Realm.nested_of_open admitted]
      exact inside.grows relaxed (machine.enter engine)
    · rw [Realm.nested_of_full admitted]
  refine ⟨grows, ?_, ?_⟩
  · intro relaxed machine value came
    by_cases admitted : (machine.engine engine).depth < (machine.engine engine).limit
    · rw [Realm.nested_of_open admitted] at came
      exact inside.value relaxed (machine.enter engine) value came
    · rw [Realm.nested_of_full admitted] at came
      cases came
  · intro machine machine' relaxes
    have found := relaxes.engine engine
    by_cases admitted : (machine.engine engine).depth < (machine.engine engine).limit
    · have admitted' : (machine'.engine engine).depth < (machine'.engine engine).limit := by
        rw [found.depth]
        exact Nat.lt_of_lt_of_le admitted found.limit
      rw [Realm.nested_of_open admitted, Realm.nested_of_open admitted']
      cases inside.outlasts _ _ (relaxes.enter engine) with
      | same result relaxes' => exact .same result (relaxes'.leave engine)
      | gaveUp failed gives trace => exact .gaveUp failed gives trace
    · have written := grows true machine'
      rw [Realm.nested_of_full admitted]
      rw [relaxes.trace] at written
      exact .gaveUp rfl (.inr ⟨_, rfl, rfl⟩) written

theorem step (inside : logic.Inner inner) :
    logic.Inner fun relaxed => Eval.step (inner relaxed) := by
  intro world engine scope form running known
  cases form with
  | absent => exact pure Value.every_nil
  | atom token value => exact nested engine (logic.evalAtom_holds known value)
  | list token label items => exact nested engine (logic.evalList_holds inside running known items)

theorem eval_self (fuel : Nat) : logic.Inner fun _ => eval fuel := by
  induction fuel with
  | zero => exact fun _ _ _ _ _ _ => throw _
  | succ fuel ih => exact step ih

/-- Evaluation only adds to the trace. -/
theorem eval_grows (fuel : Nat) (engine : EngineId) (scope : ScopeId) (form : Form)
    (machine : Machine) :
    machine.trace.toList <+: (eval fuel engine scope form machine).2.trace.toList :=
  (eval_self fuel () engine scope form trivial trivial).grows true machine

/-- An evaluation with more fuel outlasts one with less. -/
theorem eval_le {fuel fuel' : Nat} (le : fuel ≤ fuel') :
    logic.Inner fun relaxed => eval (bif relaxed then fuel' else fuel) := by
  induction fuel generalizing fuel' with
  | zero =>
    intro world engine scope form running known
    have longer := eval_self fuel' world engine scope form running known
    refine ⟨?_, ?_, ?_⟩
    · rintro (_ | _)
      · exact fun _ => List.prefix_rfl
      · exact longer.grows true
    · rintro (_ | _)
      · exact nofun
      · exact longer.value true
    · intro machine machine' relaxes
      have written := longer.grows true machine'
      rw [relaxes.trace] at written
      exact .gaveUp rfl (.inl rfl) written
  | succ fuel ih =>
    cases fuel' with
    | zero => cases le
    | succ fuel' =>
      have unfolded : (fun relaxed => eval (bif relaxed then fuel' + 1 else fuel + 1)) =
          fun relaxed => Eval.step (eval (bif relaxed then fuel' else fuel)) := by
        funext relaxed
        cases relaxed <;> rfl
      rw [unfolded]
      exact step (ih (Nat.le_of_succ_le_succ le))

end Relaxation

namespace Interpreter

open Semantics

variable {interpreter relaxed : Interpreter} {source : List Char} {form : Form} {machine : Machine}

/-- The entries that an interpreter adds to the trace while it evaluates a program text. -/
def written (interpreter : Interpreter) (source : List Char) (machine : Machine) :
    List TraceEntry :=
  (interpreter.interpret source machine).2.trace.toList.drop machine.trace.size

theorem interpret_trace (interpreter : Interpreter) (source : List Char) (machine : Machine) :
    (interpreter.interpret source machine).2.trace.toList =
      machine.trace.toList ++ interpreter.written source machine := by
  have grows : machine.trace.toList <+: (interpreter.interpret source machine).2.trace.toList := by
    rcases Form.parse_cases source with ⟨fault, failed⟩ | ⟨form, accepted⟩
    · rw [interpret_of_unreadable interpreter machine failed]
    · rw [interpret_eq_evaluate accepted, evaluate_eq]
      exact Relaxation.eval_grows _ _ _ form (prepared interpreter machine)
  obtain ⟨rest, same⟩ := grows
  rw [written, ← same, ← Array.length_toList, List.drop_left]

theorem prepared_relaxes (log : relaxed.log = interpreter.log)
    (le : interpreter.limit ≤ relaxed.limit) :
    (prepared interpreter machine).Relaxes (prepared relaxed machine) := by
  have self : machine.Relaxes machine := by
    refine ⟨rfl, rfl, rfl, rfl, rfl, fun engine => ?_⟩
    cases machine.engines[engine]? with
    | none => exact .none
    | some found => exact .some ⟨Nat.le_refl _, rfl, rfl⟩
  have opened := self.pushEngine (⟨le, rfl, log⟩ : Engine.Relaxes
    ⟨interpreter.limit, 0, interpreter.log⟩ ⟨relaxed.limit, 0, relaxed.log⟩)
  exact ⟨rfl, rfl, rfl, rfl, opened.count, opened.engines⟩

/-- An interpreter outlasts one with a smaller limit. -/
theorem evaluate_outlasts (log : relaxed.log = interpreter.log)
    (le : interpreter.limit ≤ relaxed.limit) :
    Outlasts (interpreter.evaluate form none machine) (relaxed.evaluate form none machine) := by
  have enough : (prepared interpreter machine).fuel ≤ (prepared relaxed machine).fuel := by
    simp only [Machine.fuel, Machine.headroom, prepared, Array.foldl_push]
    omega
  rw [evaluate_eq, evaluate_eq]
  exact (Relaxation.eval_le enough () _ _ form trivial trivial).outlasts _ _
    (prepared_relaxes log le)

/-- Nothing but too great a depth makes an interpreter give up. -/
theorem exceedsDepth_of_givesUp {stop : Stop}
    (failed : (interpreter.evaluate form none machine).1 = .error stop) (gives : stop.GivesUp) :
    ExceedsDepth (interpreter.evaluate form none machine).1 := by
  rcases gives with rfl | ⟨fault, rfl, deep⟩
  · rcases evaluate_settled interpreter machine form with ⟨value, came⟩ | ⟨fault, came⟩
    · cases failed.symm.trans came
    · cases failed.symm.trans came
  · exact ⟨fault, failed, deep⟩

theorem limit_of_pos {depth : Int} (positive : 0 < depth) (log : Option Nat) :
    limit ⟨depth, log⟩ = depth.toNat :=
  if_neg (Int.not_le.mpr positive)

/-- Raising the depth limit changes neither an answer nor the trace that is written, unless the
smaller limit was exceeded; and then the trace is only continued. -/
theorem interpret_outlasts (source : List Char) (machine : Machine) (log : Option Nat)
    {depth depth' : Int} (positive : 0 < depth) (le : depth ≤ depth') :
    let limited : Interpreter := ⟨depth, log⟩
    let relaxed : Interpreter := ⟨depth', log⟩
    (limited.interpret source machine).2.trace.toList =
        machine.trace.toList ++ limited.written source machine ∧
      (relaxed.interpret source machine).2.trace.toList =
        machine.trace.toList ++ relaxed.written source machine ∧
      (¬ExceedsDepth (limited.interpret source machine).1 →
        (relaxed.interpret source machine).1 = (limited.interpret source machine).1 ∧
          relaxed.written source machine = limited.written source machine) ∧
      (ExceedsDepth (limited.interpret source machine).1 →
        limited.written source machine <+: relaxed.written source machine) := by
  intro limited relaxed
  have larger : limited.limit ≤ relaxed.limit := by
    rw [limit_of_pos positive, limit_of_pos (Int.lt_of_lt_of_le positive le)]
    exact Int.toNat_le_toNat le
  refine ⟨interpret_trace limited source machine, interpret_trace relaxed source machine, ?_⟩
  rw [written, written]
  rcases Form.parse_cases source with ⟨fault, failed⟩ | ⟨form, accepted⟩
  · rw [interpret_of_unreadable limited machine failed,
      interpret_of_unreadable relaxed machine failed]
    exact ⟨fun _ => ⟨rfl, rfl⟩, fun _ => List.prefix_rfl⟩
  · have outlasts : Outlasts (limited.evaluate form none machine)
        (relaxed.evaluate form none machine) := evaluate_outlasts rfl larger
    rw [interpret_eq_evaluate accepted, interpret_eq_evaluate accepted]
    cases outlasts with
    | same result relaxes =>
      rw [relaxes.trace]
      exact ⟨fun _ => ⟨result, rfl⟩, fun _ => List.prefix_rfl⟩
    | gaveUp failed gives trace =>
      constructor
      · intro shallow
        exact absurd (exceedsDepth_of_givesUp failed gives) shallow
      · intro _
        exact trace.drop _

/-- A function that calls itself without end is given up later under a limit of nine than under one
of seven, and has written the same until then. -/
theorem interpret_outlasts_self_application :
    let source := "((lambda (f) (f f)) (lambda (f) (f f)))".toList
    let limited : Interpreter := ⟨7, some 0⟩
    let relaxed : Interpreter := ⟨9, some 0⟩
    ExceedsDepth (limited.interpret source Machine.empty).1 ∧
      limited.written source Machine.empty <+: relaxed.written source Machine.empty := by
  intro source limited relaxed
  have accepted : Form.parse source = .ok _ := rfl
  have exceeds := interpret_exceedsDepth limited Machine.empty accepted rfl
  refine ⟨exceeds, ?_⟩
  exact (interpret_outlasts source Machine.empty (some 0) (by decide) (by decide)).2.2.2 exceeds

end Interpreter

end MiniLisp
