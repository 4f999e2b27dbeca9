import MiniLisp.Proofs.Eval.AppliedLambda
import MiniLisp.Proofs.Eval.Termination
import MiniLisp.Proofs.Form.Height

/-!
# Literal data

A form without symbols is data that is written down.  It evaluates to the value that it shows, in
every scope and on every machine, and it takes as many levels of depth as it is high: where one
level less is left, the evaluation is given up.  Either way the machine is afterwards what it was.
-/

namespace MiniLisp

namespace Form

/-- A form without symbols. -/
def Literal (form : Form) : Prop :=
  form.symbols = []

instance (form : Form) : Decidable form.Literal :=
  inferInstanceAs (Decidable (form.symbols = []))

mutual

/-- The value that a literal form shows: integers, strings with their quotes, lists element by
element, and nil for an absent form.  A symbol shows no value, and nil takes its place. -/
def image {φ : Type} : Form → Value φ
  | absent => .nil
  | atom _ (.int value) => .int value
  | atom _ (.string text) => .text text
  | atom _ (.symbol _) => .nil
  | list _ _ items => .list (imageIn items)

/-- The values that several literal forms show. -/
def imageIn {φ : Type} : List Form → List (Value φ)
  | [] => []
  | first :: rest => image first :: imageIn rest

end

variable {items : List Form}

theorem literal_list_iff {token : Option Token} {label : Option Nat} :
    (list token label items).Literal ↔ ∀ item ∈ items, item.Literal := by
  simp only [Literal, symbols]
  induction items with
  | nil => simp [symbolsIn]
  | cons first rest ih => simp [symbolsIn, ih]

/-- A literal form is no symbol, and so no reserved one. -/
theorem Literal.symbolName?_eq_none {form : Form} (literal : form.Literal) :
    form.symbolName? = none := by
  cases form with
  | absent | list => rfl
  | atom token value =>
    cases value with
    | int | string => rfl
    | symbol name => cases literal

theorem special?_of_literal (literal : ∀ item ∈ items, item.Literal) :
    Eval.special? items = none := by
  cases items with
  | nil => rfl
  | cons first rest =>
    have unnamed := (literal first List.mem_cons_self).symbolName?_eq_none
    simp only [Eval.special?, unnamed, Option.bind_none]

/-- A literal form shows no function. -/
theorem image_ne_function {φ : Type} (form : Form) (callee : φ) :
    form.image ≠ .function callee := by
  cases form with
  | absent | list => simp [image]
  | atom token value => cases value <;> simp [image]

end Form

/-! ## Levels -/

namespace Machine

variable {machine : Machine} {engine : EngineId}

/-- The number of evaluations inside one another that an engine still admits. -/
def roomIn (machine : Machine) (engine : EngineId) : Nat :=
  (machine.engine engine).limit - (machine.engine engine).depth

theorem engine_of_present {counter : Engine} (present : machine.engines[engine]? = some counter) :
    machine.engine engine = counter := by
  rw [Machine.engine, Array.getD_eq_getD_getElem?, present]
  rfl

theorem leave_enter (machine : Machine) (engine : EngineId) :
    (machine.enter engine).leave engine = machine := by
  have balanced : (machine.enter engine).engines.modify engine
      (fun found => { found with depth := found.depth - 1 }) = machine.engines :=
    Engine.left_entered
  rw [leave, balanced]
  rfl

theorem limit_enter (machine : Machine) (engine : EngineId) :
    ((machine.enter engine).engine engine).limit = (machine.engine engine).limit := by
  simp only [Machine.engine, enter, Array.getD_eq_getD_getElem?, Array.getElem?_modify, if_true]
  cases machine.engines[engine]? <;> rfl

/-- One level deeper there is room for one level less. -/
theorem roomIn_enter (machine : Machine) (engine : EngineId) :
    (machine.enter engine).roomIn engine = machine.roomIn engine - 1 := by
  simp only [roomIn, Machine.engine, enter, Array.getD_eq_getD_getElem?, Array.getElem?_modify,
    if_true]
  cases machine.engines[engine]? with
  | none => rfl
  | some found => exact Nat.sub_add_eq ..

theorem admits_iff : (machine.engine engine).depth < (machine.engine engine).limit ↔
    0 < machine.roomIn engine :=
  Nat.sub_pos_iff_lt.symm

end Machine

/-! ## Evaluation -/

namespace Eval

variable {machine : Machine} {engine : EngineId} {scope : ScopeId} {items : List Form}

/-- What a literal form of a certain height comes to: its value, if there is room for the height. -/
def shown {α : Type} (machine : Machine) (engine : EngineId) (height : Nat) (value : α) :
    Except Stop α × Machine :=
  if height ≤ machine.roomIn engine then (.ok value, machine)
  else (.error (.fault (.tooDeep (machine.engine engine).limit)), machine)

/-- Siblings are evaluated on the same machine, so it is the tallest one that decides. -/
theorem mapM_shown {inner : Form → Run Datum}
    (each : ∀ item ∈ items, inner item machine = shown machine engine item.height item.image) :
    items.mapM inner machine = shown machine engine (Form.heightIn items) (Form.imageIn items) := by
  induction items with
  | nil => simp [shown, Form.heightIn, Form.imageIn]
  | cons first rest ih =>
    rw [List.forall_mem_cons] at each
    have others := ih each.2
    have here := each.1
    simp only [List.mapM_cons, Form.heightIn, Form.imageIn, shown, Nat.max_le] at here others ⊢
    by_cases fits : first.height ≤ machine.roomIn engine
    · rw [if_pos fits] at here
      rw [Run.bind_apply_of_ok here]
      by_cases fit : Form.heightIn rest ≤ machine.roomIn engine
      · rw [if_pos fit] at others
        rw [Run.bind_apply_of_ok others, if_pos ⟨fits, fit⟩]
        rfl
      · rw [if_neg fit] at others
        rw [Run.bind_apply_of_error others, if_neg fun both => fit both.2]
    · rw [if_neg fits] at here
      rw [Run.bind_apply_of_error here, if_neg fun both => fits both.1]

/-- One level is taken for the form itself, if there is room for it. -/
theorem nested_shown {α : Type} {action : Run α} {height : Nat} {value : α}
    (inside : 0 < machine.roomIn engine →
      action (machine.enter engine) = shown (machine.enter engine) engine height value) :
    Run.nested engine action machine = shown machine engine (1 + height) value := by
  by_cases admits : (machine.engine engine).depth < (machine.engine engine).limit
  · have room := Machine.admits_iff.mp admits
    rw [Realm.nested_of_open admits, inside room]
    simp only [shown, Machine.roomIn_enter, Machine.limit_enter]
    have deeper : height ≤ machine.roomIn engine - 1 ↔ 1 + height ≤ machine.roomIn engine := by
      omega
    simp only [deeper]
    split <;> simp only [Machine.leave_enter]
  · have full : ¬1 + height ≤ machine.roomIn engine := by
      have empty := mt Machine.admits_iff.mpr admits
      omega
    rw [Realm.nested_of_full admits, shown, if_neg full]

theorem evalList_shown {inner : Evaluation} (literal : ∀ item ∈ items, item.Literal)
    (each : ∀ item ∈ items, inner engine scope item machine =
      shown machine engine item.height item.image) :
    evalList inner engine scope items machine =
      shown machine engine (Form.heightIn items) (.list (Form.imageIn items)) := by
  have evaluated := mapM_shown each
  simp only [evalList, Form.special?_of_literal literal, evalOrdinary]
  simp only [shown] at evaluated ⊢
  split at evaluated
  next fits =>
    rw [Run.bind_apply_of_ok evaluated, if_pos fits]
    cases items with
    | nil => rfl
    | cons first rest =>
      have data := @Form.image_ne_function Procedure first
      simp only [Form.imageIn]
      generalize (first.image : Datum) = value at data ⊢
      cases value with
      | function callee => exact absurd rfl (data callee)
      | nil | int | text | bool | list => rfl
  next fits => rw [Run.bind_apply_of_error evaluated, if_neg fits]

/-- Evaluation of a literal form, in any scope, with more fuel than there is room. -/
theorem eval_literal {fuel : Nat} {form : Form} (literal : form.Literal)
    (enough : machine.roomIn engine < fuel) :
    eval fuel engine scope form machine = shown machine engine form.height form.image := by
  induction fuel generalizing form machine with
  | zero => cases enough
  | succ fuel ih =>
    cases form with
    | absent => simp [eval, step, shown, Form.height, Form.image]
    | atom token value =>
      change Run.nested engine (evalAtom scope value) machine = shown machine engine (1 + 0) _
      apply nested_shown
      intro _
      cases value with
      | int value => simp [evalAtom, shown, Form.image]
      | string text => simp [evalAtom, shown, Form.image]
      | symbol name => cases literal
    | list token label items =>
      rw [Form.literal_list_iff] at literal
      change Run.nested engine (evalList (eval fuel) engine scope items) machine =
        shown machine engine (1 + Form.heightIn items) _
      apply nested_shown
      intro room
      apply evalList_shown literal
      intro item among
      apply ih (literal item among)
      rw [Machine.roomIn_enter]
      omega

end Eval

/-! ## Interpreters -/

namespace Interpreter

variable (interpreter : Interpreter)

/-- An interpreter evaluates a form in an engine of its own, whatever the scope is. -/
theorem evaluate_engaged (form : Form) (scope : Option ScopeId) (machine : Machine) :
    ∃ start ready,
      ready.engines = machine.engines.push ⟨interpreter.limit, 0, interpreter.log⟩ ∧
      interpreter.evaluate form scope machine =
        eval ready.fuel machine.engines.size start form ready := by
  cases scope with
  | none => exact ⟨_, _, rfl, Semantics.evaluate_eq interpreter form machine⟩
  | some given => exact ⟨_, _, rfl, evaluate_in_scope interpreter form given machine⟩

/-- A literal form evaluates to the value that it shows, in every scope, exactly if the limit is at
least its height.  Otherwise the depth is exceeded, and the fault names the limit. -/
theorem literal_evaluates_to_image {form : Form} (literal : form.Literal) (scope : Option ScopeId)
    (machine : Machine) :
    ((∃ value, (interpreter.evaluate form scope machine).1 = .ok value) ↔
      form.height ≤ interpreter.limit) ∧
    (form.height ≤ interpreter.limit →
      (interpreter.evaluate form scope machine).1 = .ok form.image) ∧
    (interpreter.limit < form.height →
      (interpreter.evaluate form scope machine).1 =
        .error (.fault (.tooDeep interpreter.limit))) := by
  have answered : (interpreter.evaluate form scope machine).1 =
      if form.height ≤ interpreter.limit then .ok form.image
      else .error (.fault (.tooDeep interpreter.limit)) := by
    obtain ⟨start, ready, engines, started⟩ := interpreter.evaluate_engaged form scope machine
    have present : ready.engines[machine.engines.size]? =
        some ⟨interpreter.limit, 0, interpreter.log⟩ := by
      rw [engines]
      exact Array.getElem?_push_size
    have counted := Machine.engine_of_present present
    have room : ready.roomIn machine.engines.size = interpreter.limit := by
      rw [Machine.roomIn, counted]
      rfl
    have enough : ready.roomIn machine.engines.size < ready.fuel := by
      rw [room]
      exact Machine.room_lt_fuel present
    rw [started, Eval.eval_literal literal enough, Eval.shown, room, counted]
    split <;> rfl
  rw [answered]
  by_cases fits : form.height ≤ interpreter.limit
  · rw [if_pos fits]
    exact ⟨iff_of_true ⟨_, rfl⟩ fits, fun _ => rfl, fun above => absurd fits (Nat.not_le.mpr above)⟩
  · rw [if_neg fits]
    exact ⟨iff_of_false nofun fits, fun fit => absurd fit fits, fun _ => rfl⟩

/-- Tall and flat elements alternate around an absent one.  A limit of four admits the form, and a
limit of three does not. -/
theorem literal_evaluates_to_image_uneven :
    let form := Form.ofList [.int 1, .ofList [.ofList [.string "\"a\""], .ofList []], .absent,
      .ofList [], .ofList [.ofList [.int 2]]]
    form.Literal ∧ form.height = 4 ∧
      ∀ (scope : Option ScopeId) (machine : Machine),
        ((Interpreter.mk 4 none).evaluate form scope machine).1 =
            .ok (.list [.int 1, .list [.list [.text "\"a\""], .list []], .nil, .list [],
              .list [.list [.int 2]]]) ∧
          ((Interpreter.mk 3 none).evaluate form scope machine).1 =
            .error (.fault (.tooDeep 3)) := by
  intro form
  have literal : form.Literal := by decide
  refine ⟨literal, rfl, fun scope machine => ⟨?_, ?_⟩⟩
  · exact (literal_evaluates_to_image (Interpreter.mk 4 none) literal scope machine).2.1 (by decide)
  · exact (literal_evaluates_to_image (Interpreter.mk 3 none) literal scope machine).2.2 (by decide)

end Interpreter

end MiniLisp
