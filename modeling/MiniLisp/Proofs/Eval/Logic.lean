import MiniLisp.Eval
import MiniLisp.Proofs.Value.Every

/-!
# Reasoning about evaluation

Whatever is proved of all evaluations goes through the same parts of the evaluator: lists, special
forms, calls.  A logic says what is to be shown of a run and gives one rule for each step of the
machine; that every list and every call then has what is to be shown is proved here, once for all
logics.

A logic speaks about families of runs, which differ in how the forms inside are evaluated.  With one
member it states what a single run does, with several it compares them.

What is to be shown may depend on where events are recorded.  A silent logic has no rule for that,
and covers the parts of the evaluator that record nothing by themselves.
-/

namespace MiniLisp.Eval

/-! ## Malformed special forms -/

section Malformed

variable {inner : Evaluation} {engine : EngineId} {scope : ScopeId} {items : List Form}

theorem evalDefine_malformed
    (shape : ∀ head token label bindings body, items ≠ [head, .list token label bindings, body]) :
    evalDefine inner engine scope items = Run.fail (.malformed .define) := by
  rw [evalDefine]
  exact shape

theorem evalLambda_malformed
    (shape : ∀ head token label params body, items ≠ [head, .list token label params, body]) :
    evalLambda engine scope items = Run.fail (.malformed .lambda) := by
  rw [evalLambda]
  exact shape

theorem evalIf_malformed
    (shape : ∀ head condition consequent alternative,
      items ≠ [head, condition, consequent, alternative]) :
    evalIf inner engine scope items = Run.fail (.malformed .conditional) := by
  rw [evalIf]
  exact shape

theorem evalQuote_malformed (shape : ∀ head expression, items ≠ [head, expression]) :
    evalQuote inner engine scope items = Run.fail (.malformed .quote) := by
  rw [evalQuote]
  exact shape

end Malformed

/-! ## Logics -/

/-- What is to be shown of runs, with a rule for every step of the machine but one: events may be
recorded in some places only.  A world is what is known when a run begins: the scopes, the engines
and the functions that it can meet. -/
structure SilentLogic (ι : Type) where
  World : Type
  Later : World → World → Prop
  Scope : World → ScopeId → Prop
  Engine : EngineId → Prop
  Function : World → Procedure → Prop
  /-- The runs have what is to be shown from the world on, and a value they come to is good. -/
  Holds : {α : Type} → World → (World → α → Prop) → (ι → Run α) → Prop
  scope_later {world later scope} : Later world later → Scope world scope → Scope later scope
  function_later {world later procedure} :
    Later world later → Function world procedure → Function later procedure
  function_builtin {world} (operation : Builtin) : Function world (.builtin operation)
  scope_of_closure {world closure scope} :
    Function world (.closure closure) → closure.scope = some scope → Scope world scope
  pure {α : Type} {world} {good : World → α → Prop} {value : α} :
    good world value → Holds world good fun _ => Pure.pure value
  fail {α : Type} {world} {good : World → α → Prop} (fault : Fault) :
    Holds world good fun _ => Run.fail fault
  bind {α β : Type} {world} {good : World → α → Prop} {good' : World → β → Prop}
    {action : ι → Run α} {next : ι → α → Run β} :
    Holds world good action →
    (∀ later value, Later world later → good later value →
      Holds later good' fun i => next i value) →
    Holds world good' fun i => action i >>= next i
  resolve {world scope} (name : String) :
    Scope world scope →
    Holds world (fun later => Value.Every (Function later)) fun _ => Run.resolve scope name
  newScope {world parent bindings} (name : String) :
    (∀ outer, parent = some outer → Scope world outer) → Bindings.Every (Function world) bindings →
    Holds world Scope fun _ => Run.newScope name parent bindings
  newClosure {world scope engine} (params : List String) (body : Form) :
    Scope world scope → Engine engine →
    Holds world (fun later => Value.Every (Function later)) fun _ =>
      Run.newClosure params body (some scope) (some engine)
  engineOf {world closure} :
    Function world (.closure closure) → Holds world (fun _ => Engine) fun _ => engineOf closure
  /-- Nobody else holds a scope while it is filled, so it may be filled after other evaluations. -/
  fillScope {α : Type} {world parent} {good : World → α → Prop}
    {pairs : ι → Run (List (String × Datum))} {next : ι → ScopeId → Run α} (name : String) :
    Scope world parent →
    (∀ later, Later world later →
      Holds later (fun later => Bindings.Every (Function later)) pairs) →
    (∀ later scope, Later world later → Scope later scope →
      Holds later good fun i => next i scope) →
    Holds world good fun i => do
      let fresh ← Run.newScope name (some parent) []
      let bound ← pairs i
      Run.setAll fresh bound
      next i fresh
  /-- What a function of the host wraps is called with the same arguments. -/
  callHost {world index} {inner : ι → Evaluation} {arguments : List Datum} (name : String) :
    (∀ world engine scope form, Engine engine → Scope world scope →
      Holds world (fun later => Value.Every (Function later)) fun i =>
        inner i engine scope form) →
    (∀ operation, Holds world (fun later => Value.Every (Function later)) fun _ =>
      callBuiltin operation arguments) →
    (∀ closure, Function world (.closure closure) →
      Holds world (fun later => Value.Every (Function later)) fun i =>
        callClosure (inner i) closure arguments) →
    Function world (.host index name) →
    Holds world (fun later => Value.Every (Function later)) fun i =>
      callHost (inner i) arguments (index + 1) index name

/-- What is to be shown of runs, with a rule for every step of the machine. -/
structure Logic (ι : Type) extends SilentLogic ι where
  record {world engine} {event : Machine → TraceEvent} :
    Engine engine → (∀ left right, left.scopes = right.scopes → event left = event right) →
    Holds world (fun _ _ => True) fun _ => Run.record engine event

namespace SilentLogic

variable {ι : Type} (logic : SilentLogic ι) {world : logic.World} {inner : ι → Evaluation}
variable {engine : EngineId} {scope : ScopeId}

/-- The functions in a value can be met. -/
abbrev Datum (world : logic.World) : MiniLisp.Datum → Prop :=
  Value.Every (logic.Function world)

/-- The functions in several values can be met. -/
abbrev Data (world : logic.World) (values : List MiniLisp.Datum) : Prop :=
  ∀ value ∈ values, logic.Datum world value

/-- The evaluation of the forms inside has what is to be shown. -/
def Inner (inner : ι → Evaluation) : Prop :=
  ∀ world engine scope form, logic.Engine engine → logic.Scope world scope →
    logic.Holds world logic.Datum fun i => inner i engine scope form

variable {logic}

theorem data_later {later : logic.World} (after : logic.Later world later)
    {values : List MiniLisp.Datum} (every : logic.Data world values) : logic.Data later values :=
  fun value member => (every value member).mono fun _ => logic.function_later after

theorem forms_hold (inside : logic.Inner inner) (running : logic.Engine engine)
    (known : logic.Scope world scope) (items : List Form) :
    logic.Holds world logic.Data fun i => items.mapM (inner i engine scope) := by
  induction items generalizing world with
  | nil => exact logic.pure nofun
  | cons first rest ih =>
    simp only [List.mapM_cons]
    apply logic.bind (inside world engine scope first running known)
    intro later value after holds
    apply logic.bind (ih (logic.scope_later after known))
    intro last values after' hold
    apply logic.pure
    intro item member
    rcases List.mem_cons.mp member with rfl | member
    · exact holds.mono fun _ => logic.function_later after'
    · exact hold item member

theorem binding_holds (inside : logic.Inner inner) (running : logic.Engine engine)
    (known : logic.Scope world scope) (binding : Form) :
    logic.Holds world (fun later (pair : String × MiniLisp.Datum) => logic.Datum later pair.2)
      fun i =>
        (do
          match binding? binding with
          | some (name, expression) => return (name, ← inner i engine scope expression)
          | none => Run.fail (.malformed .define)) := by
  cases binding? binding with
  | none => exact logic.fail _
  | some pair =>
    apply logic.bind (inside world engine scope pair.2 running known)
    intro later value _ holds
    exact logic.pure holds

theorem bindings_hold (inside : logic.Inner inner) (running : logic.Engine engine)
    (known : logic.Scope world scope) (bindings : List Form) :
    logic.Holds world (fun later => Bindings.Every (logic.Function later))
      fun i => evalBindings (inner i) engine scope bindings := by
  simp only [evalBindings]
  induction bindings generalizing world with
  | nil => exact logic.pure Bindings.every_nil
  | cons first rest ih =>
    simp only [List.mapM_cons]
    apply logic.bind (binding_holds inside running known first)
    intro later pair after holds
    apply logic.bind (ih (logic.scope_later after known))
    intro last pairs after' hold
    apply logic.pure
    intro other member
    rcases List.mem_cons.mp member with rfl | member
    · exact holds.mono fun _ => logic.function_later after'
    · exact hold other member

/-! ## Calls -/

theorem callBuiltin_holds (operation : Builtin) {arguments : List MiniLisp.Datum}
    (every : logic.Data world arguments) :
    logic.Holds world logic.Datum fun _ => callBuiltin operation arguments := by
  simp only [callBuiltin]
  cases applied : operation.apply arguments with
  | ok value => exact logic.pure (Builtin.apply_every every applied)
  | error cause => exact logic.fail _

theorem callClosure_holds (inside : logic.Inner inner) {closure : Closure}
    {arguments : List MiniLisp.Datum} (known : logic.Function world (.closure closure))
    (every : logic.Data world arguments) :
    logic.Holds world logic.Datum fun i => callClosure (inner i) closure arguments := by
  simp only [callClosure]
  split
  · have bound := Bindings.every_nil.bindAll (Bindings.every_zip closure.params every)
    apply logic.bind (logic.newScope _ (fun _ => logic.scope_of_closure known) bound)
    intro later fresh after opened
    apply logic.bind (logic.engineOf (logic.function_later after known))
    intro last engine after' running
    exact inside last engine fresh closure.body running (logic.scope_later after' opened)
  · exact logic.fail _

theorem call_holds (inside : logic.Inner inner) {procedure : Procedure}
    {arguments : List MiniLisp.Datum} (known : logic.Function world procedure)
    (every : logic.Data world arguments) :
    logic.Holds world logic.Datum fun i => call (inner i) procedure arguments := by
  cases procedure with
  | builtin operation => exact callBuiltin_holds operation every
  | closure closure => exact callClosure_holds inside known every
  | host index name =>
    apply logic.callHost name inside _ _ known
    · exact fun operation => callBuiltin_holds operation every
    · exact fun closure known => callClosure_holds inside known every

/-! ## Special forms -/

theorem evalDefine_holds (inside : logic.Inner inner) (running : logic.Engine engine)
    (known : logic.Scope world scope) (items : List Form) :
    logic.Holds world logic.Datum fun i => evalDefine (inner i) engine scope items := by
  by_cases shape : ∃ head token label bindings body,
      items = [head, .list token label bindings, body]
  · obtain ⟨head, token, label, bindings, body, rfl⟩ := shape
    apply logic.fillScope SpecialForm.define.name known
    · intro later after
      exact bindings_hold inside running (logic.scope_later after known) bindings
    · intro later fresh _ opened
      exact inside later engine fresh body running opened
  · simp only [evalDefine_malformed fun head token label bindings body same =>
      shape ⟨head, token, label, bindings, body, same⟩]
    exact logic.fail _

theorem evalLambda_holds (running : logic.Engine engine) (known : logic.Scope world scope)
    (items : List Form) : logic.Holds world logic.Datum fun _ => evalLambda engine scope items := by
  by_cases shape : ∃ head token label params body, items = [head, .list token label params, body]
  · obtain ⟨head, token, label, params, body, rfl⟩ := shape
    simp only [evalLambda]
    cases params.mapM Form.symbolName? with
    | none => exact logic.fail _
    | some names => exact logic.newClosure names body known running
  · simp only [evalLambda_malformed fun head token label params body same =>
      shape ⟨head, token, label, params, body, same⟩]
    exact logic.fail _

theorem evalIf_holds (inside : logic.Inner inner) (running : logic.Engine engine)
    (known : logic.Scope world scope) (items : List Form) :
    logic.Holds world logic.Datum fun i => evalIf (inner i) engine scope items := by
  by_cases shape : ∃ head condition consequent alternative,
      items = [head, condition, consequent, alternative]
  · obtain ⟨head, condition, consequent, alternative, rfl⟩ := shape
    apply logic.bind (inside world engine scope condition running known)
    intro later value after _
    cases value.truthy with
    | true => exact inside later engine scope consequent running (logic.scope_later after known)
    | false => exact inside later engine scope alternative running (logic.scope_later after known)
  · simp only [evalIf_malformed fun head condition consequent alternative same =>
      shape ⟨head, condition, consequent, alternative, same⟩]
    exact logic.fail _

theorem evalQuote_holds (inside : logic.Inner inner) (running : logic.Engine engine)
    (known : logic.Scope world scope) (items : List Form) :
    logic.Holds world logic.Datum fun i => evalQuote (inner i) engine scope items := by
  by_cases shape : ∃ head expression, items = [head, expression]
  · obtain ⟨head, expression, rfl⟩ := shape
    exact inside world engine scope expression running known
  · simp only [evalQuote_malformed fun head expression same => shape ⟨head, expression, same⟩]
    exact logic.fail _

/-- What a special form does behind the record of it. -/
theorem special_holds (inside : logic.Inner inner) (running : logic.Engine engine)
    (known : logic.Scope world scope) (special : SpecialForm) (items : List Form) :
    logic.Holds world logic.Datum fun i =>
      match special with
      | .define => evalDefine (inner i) engine scope items
      | .lambda => evalLambda engine scope items
      | .conditional => evalIf (inner i) engine scope items
      | .quote => evalQuote (inner i) engine scope items := by
  cases special with
  | define => exact evalDefine_holds inside running known items
  | lambda => exact evalLambda_holds running known items
  | conditional => exact evalIf_holds inside running known items
  | quote => exact evalQuote_holds inside running known items

/-! ## Forms -/

/-- A list that is no special form is data, unless a function is applied in it. -/
theorem ordinary_holds (inside : logic.Inner inner) (running : logic.Engine engine)
    (known : logic.Scope world scope) (items : List Form)
    (applied : ∀ later procedure arguments, logic.Later world later →
      logic.Function later procedure → logic.Data later arguments →
      logic.Holds later logic.Datum fun i => apply (inner i) engine procedure arguments) :
    logic.Holds world logic.Datum fun i => evalOrdinary (inner i) engine scope items := by
  apply logic.bind (forms_hold inside running known items)
  intro later values after every
  have literal := Value.every_list_iff.mpr every
  cases values with
  | nil => exact logic.pure literal
  | cons first arguments =>
    cases first with
    | function procedure =>
      apply applied later procedure arguments after
      · exact Value.every_function_iff.mp (every _ List.mem_cons_self)
      · exact fun argument member => every argument (List.mem_cons_of_mem _ member)
    | nil | int | text | bool | list => exact logic.pure literal

theorem evalAtom_holds (known : logic.Scope world scope) (value : Atom) :
    logic.Holds world logic.Datum fun _ => evalAtom scope value := by
  cases value with
  | int value => exact logic.pure (Value.every_int value)
  | string text => exact logic.pure (Value.every_text text)
  | symbol name => exact logic.resolve name known

end SilentLogic

/-! ## Recorded parts -/

namespace Logic

variable {ι : Type} {logic : Logic ι} {world : logic.World} {inner : ι → Evaluation}
variable {engine : EngineId} {scope : ScopeId}

theorem apply_holds (inside : logic.Inner inner) (running : logic.Engine engine)
    {procedure : Procedure} {arguments : List MiniLisp.Datum}
    (known : logic.Function world procedure) (every : logic.Data world arguments) :
    logic.Holds world logic.Datum fun i => apply (inner i) engine procedure arguments := by
  simp only [apply]
  apply logic.bind (logic.record running fun _ _ _ => rfl)
  intro later _ after _
  apply logic.bind (SilentLogic.call_holds inside (logic.function_later after known)
    (SilentLogic.data_later after every))
  intro last value _ holds
  apply logic.bind (logic.record running fun _ _ _ => rfl)
  intro end_ _ after' _
  exact logic.pure (holds.mono fun _ => logic.function_later after')

theorem evalSpecial_holds (inside : logic.Inner inner) (running : logic.Engine engine)
    (known : logic.Scope world scope) (special : SpecialForm) (items : List Form) :
    logic.Holds world logic.Datum fun i => evalSpecial (inner i) engine scope special items := by
  apply logic.bind (logic.record running _)
  · intro later _ after _
    exact SilentLogic.special_holds inside running (logic.scope_later after known) special items
  · intro left right same
    rw [same]

theorem evalOrdinary_holds (inside : logic.Inner inner) (running : logic.Engine engine)
    (known : logic.Scope world scope) (items : List Form) :
    logic.Holds world logic.Datum fun i => evalOrdinary (inner i) engine scope items := by
  apply SilentLogic.ordinary_holds inside running known
  intro later procedure arguments _ known every
  exact apply_holds inside running known every

theorem evalList_holds (inside : logic.Inner inner) (running : logic.Engine engine)
    (known : logic.Scope world scope) (items : List Form) :
    logic.Holds world logic.Datum fun i => evalList (inner i) engine scope items := by
  simp only [evalList]
  cases special? items with
  | none => exact evalOrdinary_holds inside running known items
  | some special => exact evalSpecial_holds inside running known special items

end Logic

end MiniLisp.Eval
