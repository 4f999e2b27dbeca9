import MiniLisp.Proofs.Machine.Realm

/-!
# Evaluation keeps to its realm

An evaluation in a realm evaluates the forms inside one level deeper, in the same realm.  By
induction on the fuel, whatever is evaluated in a realm does there what it may.  Where an engine
bounds the nesting, fuel beyond the room that the engine leaves makes no difference.
-/

namespace MiniLisp

open Activation

namespace Realm

variable {realm : Realm} {machine : Machine} {engine : EngineId} {evaluation : Evaluation}
variable {activation : Activation}

/-- The values of a realm in which `size` scopes exist. -/
abbrev Datum (realm : Realm) (size : Nat) : MiniLisp.Datum → Prop :=
  Value.Every (realm.Owns size)

/-- An evaluation does what it may, wherever it takes place in a realm. -/
def Keeps (realm : Realm) (evaluation : Evaluation) : Prop :=
  ∀ activation, realm.Contains activation →
    realm.Conducts activation.machine realm.Datum (activation.answer evaluation)

/-- The realm one level deeper. -/
def deeper (realm : Realm) : Realm :=
  ⟨realm.first, realm.home.map fun (home, counter) =>
    (home, { counter with depth := counter.depth + 1 })⟩

/-- A realm whose engine admits one more evaluation. -/
def Open (realm : Realm) : Prop :=
  ∀ home counter, realm.home = some (home, counter) → counter.depth < counter.limit

theorem deeper_home_iff {home : EngineId} {counter : Engine} :
    realm.deeper.home = some (home, counter) ↔
      ∃ former, realm.home = some (home, former) ∧
        counter = { former with depth := former.depth + 1 } := by
  simp only [deeper, Option.map_eq_some_iff, Prod.exists, Prod.mk.injEq]
  constructor
  · rintro ⟨home, former, located, rfl, rfl⟩
    exact ⟨former, located, rfl⟩
  · rintro ⟨former, located, rfl⟩
    exact ⟨home, former, located, rfl, rfl⟩

theorem deeper_runs_iff : realm.deeper.Runs engine ↔ realm.Runs engine := by
  simp only [Runs, deeper_home_iff]
  constructor
  · intro runs home counter located
    exact runs home _ ⟨counter, located, rfl⟩
  · rintro runs home _ ⟨former, located, rfl⟩
    exact runs home former located

theorem deeper_owns_iff {size : Nat} {procedure : Procedure} :
    realm.deeper.Owns size procedure ↔ realm.Owns size procedure := by
  cases procedure with
  | builtin => rfl
  | host => rfl
  | closure closure =>
    simp only [Owns, deeper_home_iff]
    constructor
    · rintro ⟨captured, runs⟩
      exact ⟨captured, fun home counter located => runs home _ ⟨counter, located, rfl⟩⟩
    · rintro ⟨captured, runs⟩
      refine ⟨captured, ?_⟩
      rintro home _ ⟨former, located, rfl⟩
      exact runs home former located

/-- What happens one level deeper happens when the engine was entered. -/
theorem Sealed.enter (closed : realm.Sealed machine) (runs : realm.Runs engine) :
    realm.deeper.Sealed (machine.enter engine) := by
  refine ⟨closed.first_le, closed.parent, ?_, ?_⟩
  · intro scope found inside present
    exact (closed.bindings scope found inside present).mono fun _ => deeper_owns_iff.mpr
  · intro home counter deeperHome
    obtain ⟨former, located, rfl⟩ := deeper_home_iff.mp deeperHome
    rw [runs home former located]
    simp [Machine.enter, Array.getElem?_modify, closed.home home former located]

theorem Sealed.of_deeper {final : Machine} (closed : realm.Sealed machine)
    (inner : realm.deeper.Sealed final) (advances : machine.Advances (final.leave engine)) :
    realm.Sealed (final.leave engine) := by
  refine ⟨inner.first_le, inner.parent, ?_, ?_⟩
  · intro scope found inside present
    exact (inner.bindings scope found inside present).mono fun _ => deeper_owns_iff.mp
  · intro home counter located
    have present := closed.home home counter located
    rw [advances.engines home (Array.getElem?_eq_some_iff.mp present).1]
    exact present

/-! ## Nesting -/

theorem nested_of_open {α : Type} {action : Run α}
    (admitted : (machine.engine engine).depth < (machine.engine engine).limit) :
    Run.nested engine action machine =
      ((action (machine.enter engine)).1, (action (machine.enter engine)).2.leave engine) :=
  if_pos admitted

theorem nested_of_full {α : Type} {action : Run α}
    (refused : ¬(machine.engine engine).depth < (machine.engine engine).limit) :
    Run.nested engine action machine =
      (.error (.fault (.tooDeep (machine.engine engine).limit)), machine) :=
  if_neg refused

theorem Conducts.nested {α : Type} {good : Nat → α → Prop} {action : Run α}
    (closed : realm.Sealed machine)
    (inside : (machine.engine engine).depth < (machine.engine engine).limit →
      realm.deeper.Conducts (machine.enter engine) good (action (machine.enter engine))) :
    realm.Conducts machine good (Run.nested engine action machine) := by
  by_cases admitted : (machine.engine engine).depth < (machine.engine engine).limit
  · rw [nested_of_open admitted]
    have conducts := inside admitted
    have advances := conducts.advances.leave
    refine ⟨advances, closed.of_deeper conducts.closed advances, conducts.value, ?_⟩
    intro stop failed
    rcases conducts.stop stop failed with fault | ⟨homeless, exhausted⟩
    · exact .inl fault
    · exact .inr ⟨Option.map_eq_none_iff.mp homeless, exhausted⟩
  · rw [nested_of_full admitted]
    exact .fail closed _

theorem needed_nested_iff {α : Type} {program : Evaluation → Run α} :
    Needed evaluation (fun inner => Run.nested engine (program inner)) machine activation ↔
      (machine.engine engine).depth < (machine.engine engine).limit ∧
        Needed evaluation program (machine.enter engine) activation := by
  by_cases admitted : (machine.engine engine).depth < (machine.engine engine).limit
  · rw [Needed, nested_of_open admitted]
    exact ⟨fun needed => ⟨admitted, needed⟩, fun needed => needed.2⟩
  · rw [Needed, nested_of_full admitted]
    constructor
    · intro impossible
      cases impossible
    · intro needed
      exact absurd needed.1 admitted

theorem Relies.nested {α : Type} {program : Evaluation → Run α}
    (inside : (machine.engine engine).depth < (machine.engine engine).limit →
      realm.Relies evaluation program (machine.enter engine)) :
    realm.Relies evaluation (fun inner => Run.nested engine (program inner)) machine := by
  constructor
  · intro activation needed
    obtain ⟨admitted, needed⟩ := needed_nested_iff.mp needed
    exact (inside admitted).contains activation needed
  · intro other agree
    by_cases admitted : (machine.engine engine).depth < (machine.engine engine).limit
    · have same := (inside admitted).settled other fun activation needed =>
        agree activation (needed_nested_iff.mpr ⟨admitted, needed⟩)
      rw [nested_of_open admitted, nested_of_open admitted, same]
    · rw [nested_of_full admitted, nested_of_full admitted]

/-! ## One step -/

/-- Evaluating a form needs exactly the activation that this is. -/
theorem Keeps.inner (keeps : realm.Keeps evaluation) :
    (realm.logic evaluation).Inner fun inner => inner := by
  intro size engine scope form runs inside machine sized closed
  let asked : Activation := ⟨engine, scope, form, machine⟩
  have conducts := keeps asked ⟨runs, sized ▸ inside, closed⟩
  refine ⟨conducts, ?_, ?_⟩
  · intro activation needed
    by_cases same : asked = activation
    · subst same
      exact ⟨runs, sized ▸ inside, closed⟩
    · have answered : (asked.answer evaluation).1 = .error refusal :=
        answer_refusing_of_ne same evaluation ▸ needed
      exact absurd rfl (conducts.stop refusal answered).ne_refusal
  · intro other agree
    exact agree asked (congrArg Prod.fst (answer_refusing_self asked evaluation))

/-- Only where an engine admits one more evaluation, a step needs any. -/
theorem open_of_needed {scope : ScopeId} {form : Form}
    (needed : Needed evaluation (fun inner => Eval.step inner engine scope form) machine
      activation) :
    (machine.engine engine).depth < (machine.engine engine).limit := by
  cases form with
  | absent => cases needed
  | atom token value => exact (needed_nested_iff.mp needed).1
  | list token label items => exact (needed_nested_iff.mp needed).1

theorem Contains.open_of_admitted (contains : realm.Contains activation)
    (admitted : (activation.machine.engine activation.engine).depth <
      (activation.machine.engine activation.engine).limit) : realm.Open := by
  intro home counter located
  have present := contains.closed.home home counter located
  rw [contains.runs home counter located] at admitted
  simpa [Machine.engine, Array.getD_eq_getD_getElem?, present] using admitted

/-- What proceeds one level deeper does, when nested, what it may. -/
theorem Proceeds.nested {program : Evaluation → Run MiniLisp.Datum} (closed : realm.Sealed machine)
    (inside : (machine.engine engine).depth < (machine.engine engine).limit →
      realm.deeper.Proceeds evaluation (machine.enter engine) realm.deeper.Datum program
        (machine.enter engine)) :
    realm.Conducts machine realm.Datum (Run.nested engine (program evaluation) machine) ∧
      realm.deeper.Relies evaluation (fun inner => Run.nested engine (program inner)) machine := by
  refine ⟨.nested closed fun admitted => ?_, .nested fun admitted => (inside admitted).relies⟩
  have conducts := (inside admitted).conducts
  refine ⟨conducts.advances, conducts.closed, ?_, conducts.stop⟩
  intro value came
  exact (conducts.value value came).mono fun _ => deeper_owns_iff.mp

/-- In a realm, a step does what it may, and it relies on activations one level deeper. -/
theorem Contains.step (contains : realm.Contains activation)
    (keeps : realm.Open → realm.deeper.Keeps evaluation) :
    realm.Conducts activation.machine realm.Datum (activation.answer (Eval.step evaluation)) ∧
      realm.deeper.Relies evaluation
        (fun inner => Eval.step inner activation.engine activation.scope activation.form)
        activation.machine := by
  have opened := contains.open_of_admitted
  obtain ⟨engine, scope, form, machine⟩ := activation
  obtain ⟨runs, inside, closed⟩ := contains
  have entered := closed.enter runs
  cases form with
  | absent =>
    have conducts :
        realm.Conducts machine realm.Datum ((Pure.pure .nil : Run MiniLisp.Datum) machine) :=
      .pure closed Value.every_nil
    exact ⟨conducts, nofun, fun _ _ => rfl⟩
  | atom token value =>
    have holds : realm.deeper.Holds evaluation machine.scopes.size realm.deeper.Datum
        fun _ => Eval.evalAtom scope value :=
      (realm.deeper.logic evaluation).evalAtom_holds inside value
    exact Proceeds.nested closed fun _ => holds _ rfl entered
  | list token label items =>
    have holds : realm.Open → realm.deeper.Holds evaluation machine.scopes.size realm.deeper.Datum
        fun inner => Eval.evalList inner engine scope items := fun admitted =>
      (realm.deeper.logic evaluation).evalList_holds (keeps admitted).inner
        (deeper_runs_iff.mpr runs) inside items
    exact Proceeds.nested closed fun admitted => holds (opened admitted) _ rfl entered

/-! ## All steps -/

/-- Evaluation does what it may, provided that the fuel exceeds the room that an engine leaves. -/
theorem eval_keeps {fuel : Nat}
    (enough : ∀ home counter, realm.home = some (home, counter) →
      counter.limit - counter.depth < fuel) : realm.Keeps (eval fuel) := by
  induction fuel generalizing realm with
  | zero =>
    intro activation contains
    have homeless : realm.home = none := by
      rw [Option.eq_none_iff_forall_ne_some]
      intro home located
      exact Nat.not_lt_zero _ (enough home.1 home.2 located)
    refine ⟨.refl _, contains.closed, nofun, ?_⟩
    rintro _ ⟨⟩
    exact .inr ⟨homeless, rfl⟩
  | succ fuel ih =>
    intro activation contains
    refine (contains.step fun opened => ih ?_).1
    intro home counter deeperHome
    obtain ⟨former, located, rfl⟩ := deeper_home_iff.mp deeperHome
    have admitted := opened home former located
    have room := enough home former located
    change former.limit - (former.depth + 1) < fuel
    omega

/-- All fuel beyond the room that an engine leaves is alike. -/
theorem eval_agree {home : EngineId} {counter : Engine}
    (located : realm.home = some (home, counter))
    (contains : realm.Contains activation) {fuel fuel' : Nat}
    (enough : counter.limit - counter.depth < fuel)
    (enough' : counter.limit - counter.depth < fuel') :
    activation.answer (eval fuel) = activation.answer (eval fuel') := by
  induction fuel generalizing realm counter activation fuel' with
  | zero => cases enough
  | succ fuel ih =>
    cases fuel' with
    | zero => cases enough'
    | succ fuel' =>
      have room : realm.Open → counter.limit - (counter.depth + 1) < fuel ∧
          counter.limit - (counter.depth + 1) < fuel' := by
        intro opened
        have admitted := opened home counter located
        omega
      have deeperHome := deeper_home_iff.mpr ⟨counter, located, rfl⟩
      have keeps : realm.Open → realm.deeper.Keeps (eval fuel') := by
        intro opened
        apply eval_keeps
        intro _ _ located'
        cases deeperHome.symm.trans located'
        exact (room opened).2
      have relies := (contains.step keeps).2
      apply relies.settled
      intro called needed
      have opened := contains.open_of_admitted (open_of_needed needed)
      exact ih deeperHome (relies.contains called needed) (room opened).1 (room opened).2

end Realm

end MiniLisp
