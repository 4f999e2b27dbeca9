import Mathlib.Logic.Relation
import MiniLisp.Proofs.Eval.Confinement
import MiniLisp.Proofs.Reader.Faults
import MiniLisp.Proofs.Semantics.Adequacy

/-!
# Termination

A program may call itself without end, but each call of the evaluator from inside another one is one
level deeper in the same engine, and no evaluation goes deeper than the limit admits.  So the calls
that an interpreter starts are well founded, each of them comes to a value or to a fault, and each
leaves the depth of its engine as it found it.
-/

namespace MiniLisp

open Activation

/-- Evaluation with fuel for everything that the engines admit. -/
def Eval.unbounded : Evaluation := fun engine scope form machine =>
  eval machine.fuel engine scope form machine

namespace Activation

/-- What an activation comes to. -/
def outcome (activation : Activation) : Except Stop Datum × Machine :=
  activation.answer Eval.unbounded

theorem answer_unbounded (activation : Activation) :
    activation.answer Eval.unbounded = activation.answer (eval activation.machine.fuel) := by
  rw [answer, answer, Eval.unbounded]

/-- The evaluator, where it carries out an activation, calls itself for another one. -/
def Calls (activation called : Activation) : Prop :=
  Needed Eval.unbounded
    (fun inner => Eval.step inner activation.engine activation.scope activation.form)
    activation.machine called

/-- The depth of the engine, the activation itself included. -/
def level (activation : Activation) : Nat :=
  (activation.machine.engine activation.engine).depth + 1

/-- What a limit on the depth does to an activation. -/
structure Obeys (limit : Nat) (activation : Activation) : Prop where
  /-- The activation comes back. -/
  settled : (∃ value, activation.outcome.1 = .ok value) ∨
    ∃ fault, activation.outcome.1 = .error (.fault fault)
  /-- What it comes to follows by one step from what the activations that it calls come to. -/
  determined : ∀ inner : Evaluation,
    (∀ called, activation.Calls called → called.answer inner = called.outcome) →
    activation.answer (Eval.step inner) = activation.outcome
  level_le : activation.level ≤ limit + 1
  /-- Above the limit nothing is evaluated. -/
  refused : limit < activation.level → activation.form ≠ .absent →
    activation.outcome = (.error (.fault (.tooDeep limit)), activation.machine)
  calls : ∀ called, activation.Calls called →
    activation.level ≤ limit ∧ called.engine = activation.engine ∧
      called.level = activation.level + 1
  /-- Afterwards the engine is as it was before. -/
  balanced : activation.outcome.2.engine activation.engine =
    activation.machine.engine activation.engine

end Activation

/-! ## Fuel -/

/-- A sum of rooms is at least each of them. -/
theorem le_foldl_room (engines : List Engine) (total : Nat) :
    total ≤ engines.foldl (fun total engine => total + (engine.limit - engine.depth)) total ∧
      ∀ counter ∈ engines, counter.limit - counter.depth ≤
        engines.foldl (fun total engine => total + (engine.limit - engine.depth)) total := by
  induction engines generalizing total with
  | nil => exact ⟨Nat.le_refl _, nofun⟩
  | cons engine engines ih =>
    obtain ⟨whole, each⟩ := ih (total + (engine.limit - engine.depth))
    rw [List.foldl_cons]
    refine ⟨Nat.le_trans (Nat.le_add_right _ _) whole, ?_⟩
    intro counter member
    rcases List.mem_cons.mp member with rfl | member
    · exact Nat.le_trans (Nat.le_add_left _ _) whole
    · exact each counter member

/-- No engine admits more evaluations than there is fuel. -/
theorem Machine.room_lt_fuel {machine : Machine} {engine : EngineId} {counter : Engine}
    (present : machine.engines[engine]? = some counter) :
    counter.limit - counter.depth < machine.fuel := by
  have member : counter ∈ machine.engines.toList := by
    rw [← Array.getElem?_toList] at present
    exact List.mem_of_getElem? present
  have within : counter.limit - counter.depth ≤ machine.headroom := by
    rw [Machine.headroom, ← Array.foldl_toList]
    exact (le_foldl_room machine.engines.toList 0).2 counter member
  exact Nat.lt_of_le_of_lt within (Nat.lt_add_of_pos_right (by decide))

/-! ## Activations in a realm with an engine -/

namespace Realm

variable {realm : Realm} {home : EngineId} {counter : Engine} {activation called : Activation}

theorem Contains.engine_eq (located : realm.home = some (home, counter))
    (contains : realm.Contains activation) :
    activation.machine.engine activation.engine = counter := by
  have present := contains.closed.home home counter located
  rw [contains.runs home counter located]
  simp [Machine.engine, Array.getD_eq_getD_getElem?, present]

/-- Where there is an engine, fuel never runs out. -/
theorem unbounded_keeps (located : realm.home = some (home, counter)) :
    realm.Keeps Eval.unbounded := by
  intro activation contains
  have keeps : realm.Keeps (eval activation.machine.fuel) := by
    apply eval_keeps
    intro _ _ located'
    cases located.symm.trans located'
    exact Machine.room_lt_fuel (contains.closed.home home counter located)
  rw [answer_unbounded]
  exact keeps activation contains

theorem Contains.relies (located : realm.home = some (home, counter))
    (contains : realm.Contains activation) :
    realm.deeper.Relies Eval.unbounded
      (fun inner => Eval.step inner activation.engine activation.scope activation.form)
      activation.machine :=
  (contains.step fun _ => unbounded_keeps (deeper_home_iff.mpr ⟨counter, located, rfl⟩)).2

/-- What is called lies one level deeper in the same engine, which admits it. -/
theorem Contains.calls (located : realm.home = some (home, counter))
    (contains : realm.Contains activation) (calls : activation.Calls called) :
    counter.depth < counter.limit ∧ realm.deeper.Contains called :=
  ⟨contains.open_of_admitted (open_of_needed calls) home counter located,
    (contains.relies located).contains called calls⟩

/-- An activation comes to what one step makes of the activations that it calls. -/
theorem Contains.outcome_eq (located : realm.home = some (home, counter))
    (contains : realm.Contains activation) :
    activation.outcome = activation.answer (Eval.step Eval.unbounded) := by
  have room := Machine.room_lt_fuel (contains.closed.home home counter located)
  obtain ⟨fuel, enough⟩ := Nat.exists_eq_succ_of_ne_zero (Nat.ne_zero_of_lt room)
  have unfolded : activation.outcome = activation.answer (Eval.step (eval fuel)) := by
    rw [outcome, answer_unbounded, enough]
    rfl
  rw [unfolded]
  apply (contains.relies located).settled
  intro called calls
  obtain ⟨admitted, inside⟩ := contains.calls located calls
  have deeperHome := deeper_home_iff.mpr ⟨counter, located, rfl⟩
  rw [answer_unbounded]
  apply eval_agree deeperHome inside
  · change counter.limit - (counter.depth + 1) < fuel
    rw [enough] at room
    omega
  · exact Machine.room_lt_fuel (inside.closed.home home _ deeperHome)

/-- Calls are well founded, because each of them leaves less room in the engine. -/
theorem Contains.acc (located : realm.home = some (home, counter))
    (contains : realm.Contains activation) :
    Acc (fun inner outer => outer.Calls inner) activation := by
  generalize left : counter.limit - counter.depth = room
  induction room using Nat.strongRecOn generalizing realm counter activation with
  | ind room ih =>
    constructor
    intro called calls
    obtain ⟨admitted, inside⟩ := contains.calls located calls
    apply ih (counter.limit - (counter.depth + 1)) _
      (deeper_home_iff.mpr ⟨counter, located, rfl⟩) inside rfl
    omega

/-- Where the engine is full, nothing but an absent form is evaluated. -/
theorem Contains.refused (located : realm.home = some (home, counter))
    (contains : realm.Contains activation) (full : counter.limit ≤ counter.depth)
    (visible : activation.form ≠ .absent) :
    activation.outcome = (.error (.fault (.tooDeep counter.limit)), activation.machine) := by
  have counted := contains.engine_eq located
  have closed : ¬(activation.machine.engine activation.engine).depth <
      (activation.machine.engine activation.engine).limit := by
    rw [counted]
    exact Nat.not_lt_of_le full
  rw [contains.outcome_eq located, ← counted]
  cases shape : activation.form with
  | absent => exact absurd shape visible
  | atom token value => simp only [answer, shape, Eval.step, nested_of_full closed]
  | list token label items => simp only [answer, shape, Eval.step, nested_of_full closed]

theorem Contains.obeys (located : realm.home = some (home, counter))
    (within : counter.depth ≤ counter.limit) (contains : realm.Contains activation) :
    activation.Obeys counter.limit := by
  have counted := contains.engine_eq located
  have conducts : realm.Conducts activation.machine realm.Datum activation.outcome := by
    rw [outcome]
    exact unbounded_keeps located activation contains
  refine ⟨?_, ?_, ?_, ?_, ?_, ?_⟩
  · cases came : activation.outcome.1 with
    | ok value => exact .inl ⟨value, rfl⟩
    | error stop =>
      rcases conducts.stop stop came with ⟨fault, rfl⟩ | ⟨homeless, -⟩
      · exact .inr ⟨fault, rfl⟩
      · cases homeless.symm.trans located
  · intro inner agree
    rw [contains.outcome_eq located]
    exact (contains.relies located).settled inner agree
  · rw [level, counted]
    exact Nat.succ_le_succ within
  · intro above visible
    rw [level, counted] at above
    exact contains.refused located (Nat.le_of_lt_succ above) visible
  · intro called calls
    obtain ⟨admitted, inside⟩ := contains.calls located calls
    have deeperHome := deeper_home_iff.mpr ⟨counter, located, rfl⟩
    refine ⟨?_, ?_, ?_⟩
    · rw [level, counted]
      exact admitted
    · rw [inside.runs home _ deeperHome, contains.runs home counter located]
    · rw [level, level, counted, inside.engine_eq deeperHome]
  · have present := contains.closed.home home counter located
    rw [contains.runs home counter located]
    exact conducts.advances.engine (Array.getElem?_eq_some_iff.mp present).1

/-- Everything that is called on the way lies somewhere below in the same engine. -/
theorem Contains.reaches (located : realm.home = some (home, counter))
    (within : counter.depth ≤ counter.limit) (contains : realm.Contains activation)
    (reaches : Relation.ReflTransGen Activation.Calls activation called) :
    called.Obeys counter.limit := by
  have below : ∃ (realm : Realm) (deep : Engine), realm.home = some (home, deep) ∧
      deep.limit = counter.limit ∧ deep.depth ≤ deep.limit ∧ realm.Contains called := by
    induction reaches with
    | refl => exact ⟨realm, counter, located, rfl, within, contains⟩
    | tail _ calls ih =>
      obtain ⟨realm, deep, located, same, -, inside⟩ := ih
      obtain ⟨admitted, inside'⟩ := inside.calls located calls
      exact ⟨realm.deeper, _, deeper_home_iff.mpr ⟨deep, located, rfl⟩, same, admitted, inside'⟩
  obtain ⟨realm, deep, located, same, within, inside⟩ := below
  rw [← same]
  exact inside.obeys located within

end Realm

/-! ## Interpreters -/

namespace Interpreter

open Semantics

variable (interpreter : Interpreter) (machine : Machine)

/-- The activation with which an interpreter starts. -/
def start (form : Form) : Activation :=
  ⟨machine.engines.size, machine.scopes.size, form, prepared interpreter machine⟩

/-- The realm of a program: its scopes are its own, and so is its engine. -/
def realm : Realm :=
  ⟨machine.scopes.size, some (machine.engines.size, ⟨interpreter.limit, 0, interpreter.log⟩)⟩

theorem start_contained (form : Form) :
    (interpreter.realm machine).Contains (interpreter.start machine form) := by
  have opened : (interpreter.realm machine).Sealed
      { machine with
        engines := machine.engines.push ⟨interpreter.limit, 0, interpreter.log⟩ } := by
    refine ⟨Nat.le_refl _, ?_, ?_, ?_⟩
    · intro scope found outer inside present
      exact absurd (Array.getElem?_eq_some_iff.mp present).1 (Nat.not_lt_of_le inside)
    · intro scope found inside present
      exact absurd (Array.getElem?_eq_some_iff.mp present).1 (Nat.not_lt_of_le inside)
    · rintro _ _ ⟨⟩
      exact Array.getElem?_push_size
  have rooted : (interpreter.realm machine).Sealed (prepared interpreter machine) :=
    opened.pushScope nofun (Bindings.every_library fun _ => trivial)
  refine ⟨?_, ⟨Nat.le_refl _, ?_⟩, rooted⟩
  · rintro _ _ ⟨⟩
    rfl
  · simp [start, prepared]

theorem interpret_of_unreadable {source : List Char} {stop : Stop}
    (failed : Form.parse source = .error stop) :
    interpreter.interpret source machine = (.error stop, machine) := by
  have read : (liftM (Form.parse source) : Run Form) machine = (.error stop, machine) := by
    rw [failed]
    rfl
  rw [interpret, Run.bind_apply_of_error read]

theorem start_outcome (form : Form) :
    (interpreter.start machine form).outcome = interpreter.evaluate form none machine := by
  rw [evaluate_eq, outcome, answer_unbounded, answer, start]

theorem evaluate_settled (form : Form) :
    (∃ value, (interpreter.evaluate form none machine).1 = .ok value) ∨
      ∃ fault, (interpreter.evaluate form none machine).1 = .error (.fault fault) := by
  rw [← start_outcome]
  exact ((interpreter.start_contained machine form).obeys rfl (Nat.zero_le _)).settled

theorem interpret_settled (source : List Char) :
    (∃ value, (interpreter.interpret source machine).1 = .ok value) ∨
      ∃ fault, (interpreter.interpret source machine).1 = .error (.fault fault) := by
  rcases Form.parse_cases source with ⟨fault, failed⟩ | ⟨form, accepted⟩
  · refine .inr ⟨fault, ?_⟩
    rw [interpret_of_unreadable interpreter machine failed]
  · rw [interpret_eq_evaluate accepted]
    exact evaluate_settled interpreter machine form

/-- What denotes nothing with as much room as the limit admits exceeds the depth. -/
theorem interpret_exceedsDepth {source : List Char} {form : Form}
    (accepted : Form.parse source = .ok form)
    (unanswered : Semantics.eval interpreter.limit Chain.root form 0 = none) :
    ExceedsDepth (interpreter.interpret source machine).1 := by
  have mirrors := evaluate_mirrors interpreter form machine
  rw [unanswered] at mirrors
  rw [interpret_eq_evaluate accepted]
  exact mirrors.exceedsDepth

/-- Every program comes to a value or to a fault.  The evaluations that it takes are well founded,
and all of them obey the limit. -/
theorem interpret_terminates (source : List Char) :
    ((∃ value, (interpreter.interpret source machine).1 = .ok value) ∨
      ∃ fault, (interpreter.interpret source machine).1 = .error (.fault fault)) ∧
    ∀ form, Form.parse source = .ok form →
      (interpreter.start machine form).outcome = interpreter.interpret source machine ∧
        (interpreter.start machine form).level = 1 ∧
        Acc (fun inner outer => outer.Calls inner) (interpreter.start machine form) ∧
        ∀ activation, Relation.ReflTransGen Activation.Calls (interpreter.start machine form)
          activation → activation.Obeys
            (if interpreter.maxDepth ≤ 0 then 10000 else interpreter.maxDepth.toNat) := by
  refine ⟨interpret_settled interpreter machine source, ?_⟩
  intro form accepted
  have inside := interpreter.start_contained machine form
  refine ⟨?_, ?_, inside.acc rfl, ?_⟩
  · rw [start_outcome, interpret_eq_evaluate accepted]
  · rw [level, inside.engine_eq rfl]
  · intro activation reaches
    exact inside.reaches rfl (Nat.zero_le _) reaches

/-- A function that calls itself without end exceeds a limit of seven, and still all calls end. -/
theorem interpret_terminates_self_application :
    let source := "((lambda (f) (f f)) (lambda (f) (f f)))".toList
    let interpreter : Interpreter := ⟨7, none⟩
    ∃ form, Form.parse source = .ok form ∧
      ExceedsDepth (interpreter.interpret source Machine.empty).1 ∧
      Acc (fun inner outer => outer.Calls inner) (interpreter.start Machine.empty form) := by
  intro source interpreter
  have accepted : Form.parse source = .ok _ := rfl
  refine ⟨_, accepted, interpret_exceedsDepth interpreter Machine.empty accepted rfl, ?_⟩
  exact ((interpret_terminates interpreter Machine.empty source).2 _ accepted).2.2.1

end Interpreter

end MiniLisp
