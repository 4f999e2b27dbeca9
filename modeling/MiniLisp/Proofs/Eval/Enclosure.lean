import MiniLisp.Proofs.Eval.DepthLimit
import MiniLisp.Proofs.Semantics.Sameness

/-!
# Enclosed forms

A form can stand alone in a list, this list alone in another one, and so on.  As long as its value
is no function, every list around it takes one level of depth and does nothing else.  So whatever
the form records, it records at a depth that can be chosen.
-/

namespace MiniLisp

/-! ## Lists around a form -/

namespace Form

/-- A form in several lists around one another. -/
def enclose (core : Form) : (levels : Nat) → Form
  | 0 => core
  | levels + 1 => ofList [core.enclose levels]

/-- A form consists of several lists around one another, and in the innermost there is the core. -/
inductive Encloses (core : Form) : (levels : Nat) → Form → Prop where
  | core : Encloses core 0 core
  | list {token : Option Token} {label : Option Nat} {levels : Nat} {inner : Form}
      (encloses : Encloses core levels inner) :
      Encloses core (levels + 1) (.list token label [inner])

variable {core : Form} {levels : Nat}

theorem Writable.enclose (writable : core.Writable) (levels : Nat) :
    (core.enclose levels).Writable := by
  induction levels with
  | zero => exact writable
  | succ levels ih => exact .list (List.forall_mem_singleton.mpr ih)

theorem toList_encode_enclose (core : Form) (levels : Nat) :
    (core.enclose levels).encode.toList =
      List.replicate levels '(' ++ core.encode.toList ++ List.replicate levels ')' := by
  induction levels with
  | zero => simp [enclose]
  | succ levels ih =>
    have enclosed : (core.enclose (levels + 1)).encode.toList =
        '(' :: ((core.enclose levels).encode.toList ++ [')']) := by
      simp [enclose, ofList, encode]
    rw [enclosed, ih, List.replicate_succ, List.replicate_succ', List.append_assoc,
      List.append_assoc, List.append_assoc, List.cons_append]

/-- What was read as an enclosed form is one, wherever its parts were read. -/
theorem exists_encloses {form : Form} (alike : form.same (core.enclose levels) = true) :
    ∃ read : Form, read.same core = true ∧ read.Encloses levels form := by
  induction levels generalizing form with
  | zero => exact ⟨form, alike, .core⟩
  | succ levels ih =>
    obtain ⟨token, label, items, rfl, alike⟩ := exists_of_same_list alike
    obtain ⟨inner, rest, rfl, alike, ends⟩ := exists_of_sameItems_cons alike
    obtain ⟨read, same, encloses⟩ := ih alike
    cases sameItems_iff_forall₂.mp ends
    exact ⟨read, same, .list encloses⟩

theorem Encloses.symbolName?_eq_none {form : Form} (unnamed : core.symbolName? = none)
    (encloses : core.Encloses levels form) : form.symbolName? = none := by
  cases encloses with
  | core => exact unnamed
  | list encloses => rfl

end Form

/-- A value in several lists around one another. -/
def Value.enclose {φ : Type} (value : Value φ) : (levels : Nat) → Value φ
  | 0 => value
  | levels + 1 => .list [value.enclose levels]

theorem Value.enclose_ne_function {φ : Type} {value : Value φ}
    (plain : ∀ callee, value ≠ .function callee) (levels : Nat) (callee : φ) :
    value.enclose levels ≠ .function callee := by
  cases levels with
  | zero => exact plain callee
  | succ levels => exact nofun

/-! ## A machine with one engine -/

namespace Machine

/-- A machine with one engine, which is traced and in which evaluations are going on. -/
def tracedAt (machine : Machine) (limit depth : Nat) : Machine :=
  { machine with engines := #[⟨limit, depth, some 0⟩] }

theorem scopes_tracedAt (machine : Machine) (limit depth : Nat) :
    (machine.tracedAt limit depth).scopes = machine.scopes := rfl

/-- A machine whose trace has one more entry. -/
def note (machine : Machine) (depth : Nat) (event : TraceEvent) : Machine :=
  { machine with trace := machine.trace.push ⟨0, depth, event⟩ }

end Machine

section Traced

variable {α : Type} {machine final : Machine} {limit depth fuel : Nat} {scope : ScopeId}

theorem Run.record_tracedAt (machine : Machine) (limit depth : Nat)
    (event : Machine → TraceEvent) :
    Run.record 0 event (machine.tracedAt limit depth) =
      (.ok (), (machine.note depth (event (machine.tracedAt limit depth))).tracedAt limit depth) :=
  rfl

/-- An evaluation one level deeper leaves the depth as it was. -/
theorem Run.nested_tracedAt {action : Run α} {value : α} (admitted : depth < limit)
    (done : action (machine.tracedAt limit (depth + 1)) =
      (.ok value, final.tracedAt limit (depth + 1))) :
    Run.nested 0 action (machine.tracedAt limit depth) =
      (.ok value, final.tracedAt limit depth) := by
  have opened : ((machine.tracedAt limit depth).engine 0).depth <
      ((machine.tracedAt limit depth).engine 0).limit := admitted
  have entered : (machine.tracedAt limit depth).enter 0 = machine.tracedAt limit (depth + 1) := rfl
  rw [Realm.nested_of_open opened, entered, done]
  rfl

namespace Eval

theorem eval_int_tracedAt (admitted : depth < limit) (token : Option Token) (value : Int64) :
    eval (fuel + 1) 0 scope (.atom token (.int value)) (machine.tracedAt limit depth) =
      (.ok (.int value), machine.tracedAt limit depth) :=
  Run.nested_tracedAt admitted rfl

theorem eval_symbol_tracedAt {name : String} {value : Datum} (admitted : depth < limit)
    (token : Option Token) (resolved : machine.scopes.resolve name scope = some value) :
    eval (fuel + 1) 0 scope (.atom token (.symbol name)) (machine.tracedAt limit depth) =
      (.ok value, machine.tracedAt limit depth) := by
  have found : (machine.tracedAt limit (depth + 1)).scopes.resolve name scope = some value :=
    resolved
  have comes : Run.resolve scope name (machine.tracedAt limit (depth + 1)) =
      (.ok value, machine.tracedAt limit (depth + 1)) := by
    simp [Run.resolve, Run.bind_apply, found]
  exact Run.nested_tracedAt admitted comes

theorem eval_list_tracedAt {value : Datum} {items : List Form} (admitted : depth < limit)
    (token : Option Token) (label : Option Nat)
    (done : evalList (eval fuel) 0 scope items (machine.tracedAt limit (depth + 1)) =
      (.ok value, final.tracedAt limit (depth + 1))) :
    eval (fuel + 1) 0 scope (.list token label items) (machine.tracedAt limit depth) =
      (.ok value, final.tracedAt limit depth) :=
  Run.nested_tracedAt admitted done

theorem mapM_singleton {inner : Form → Run Datum} {item : Form} {value : Datum}
    {before after : Machine} (done : inner item before = (.ok value, after)) :
    [item].mapM inner before = (.ok [value], after) := by
  rw [List.mapM_cons, Run.bind_apply_of_ok done]
  rfl

/-- A call is recorded in front of what it does, and its result behind that. -/
theorem evalList_call_tracedAt {items : List Form} {procedure : Procedure}
    {arguments : List Datum} {value : Datum} {middle : Machine} (ordinary : special? items = none)
    (evaluated : items.mapM (eval fuel 0 scope) (machine.tracedAt limit depth) =
      (.ok (.function procedure :: arguments), middle.tracedAt limit depth))
    (called : call (eval fuel) procedure arguments
        ((middle.note depth (.call procedure.name arguments)).tracedAt limit depth) =
      (.ok value, final.tracedAt limit depth)) :
    evalList (eval fuel) 0 scope items (machine.tracedAt limit depth) =
      (.ok value, (final.note depth (.result value)).tracedAt limit depth) := by
  rw [evalList, ordinary]
  simp only [evalOrdinary]
  rw [Run.bind_apply_of_ok evaluated]
  simp only [apply]
  rw [Run.bind_apply_of_ok (Run.record_tracedAt ..), Run.bind_apply_of_ok called,
    Run.bind_apply_of_ok (Run.record_tracedAt ..)]
  rfl

/-- The call of a builtin function with an integer. -/
theorem eval_builtin_tracedAt {builtin : Builtin} {argument : Int64} {value : Datum}
    (room : depth + 1 < limit) (token head last : Option Token) (label : Option Nat)
    (resolved : machine.scopes.resolve builtin.name scope = some (.function (.builtin builtin)))
    (applied : builtin.apply [.int argument] = .ok value) :
    eval (fuel + 2) 0 scope
        (.list token label [.atom head (.symbol builtin.name), .atom last (.int argument)])
        (machine.tracedAt limit depth) =
      (.ok value, ((machine.note (depth + 1) (.call builtin.name [.int argument])).note (depth + 1)
        (.result value)).tracedAt limit depth) := by
  apply eval_list_tracedAt (Nat.lt_of_succ_lt room)
  have evaluated : [Form.atom head (.symbol builtin.name), .atom last (.int argument)].mapM
      (eval (fuel + 1) 0 scope) (machine.tracedAt limit (depth + 1)) =
      (.ok [.function (.builtin builtin), .int argument],
        machine.tracedAt limit (depth + 1)) := by
    rw [List.mapM_cons, Run.bind_apply_of_ok (eval_symbol_tracedAt room head resolved),
      List.mapM_cons]
    simp only [bind_assoc, pure_bind]
    rw [Run.bind_apply_of_ok (eval_int_tracedAt room last argument)]
    rfl
  have ordinary : special? [Form.atom head (.symbol builtin.name),
      .atom last (.int argument)] = none := by
    cases builtin <;> rfl
  apply evalList_call_tracedAt ordinary evaluated
  simp only [call, callBuiltin, applied]
  rfl

/-- The call of a function without parameters that is made on the spot. -/
theorem eval_called_lambda_tracedAt {value : Datum} {body : Form} (room : depth + 1 < limit)
    (token inner head params : Option Token) (label label' label'' : Option Nat)
    (done :
      let named := (machine.scopes[scope]?.map Scope.name).getD ""
      let made := { machine.note (depth + 2) (.form .lambda scope named) with
        closures := machine.closures + 1 }
      let called := { made.note (depth + 1) (.call "lambda" []) with
        scopes := machine.scopes.push ⟨"lambda", some scope, []⟩ }
      eval (fuel + 1) 0 machine.scopes.size body (called.tracedAt limit (depth + 1)) =
        (.ok value, final.tracedAt limit (depth + 1))) :
    eval (fuel + 2) 0 scope
        (.list token label [.list inner label'
          [.atom head (.symbol "lambda"), .list params label'' [], body]])
        (machine.tracedAt limit depth) =
      (.ok value, (final.note (depth + 1) (.result value)).tracedAt limit depth) := by
  apply eval_list_tracedAt (Nat.lt_of_succ_lt room)
  let named := (machine.scopes[scope]?.map Scope.name).getD ""
  let made := { machine.note (depth + 2) (.form .lambda scope named) with
    closures := machine.closures + 1 }
  let closure : Closure := ⟨machine.closures, [], body, some scope, some 0⟩
  have comes : eval (fuel + 1) 0 scope (.list inner label'
      [.atom head (.symbol "lambda"), .list params label'' [], body])
      (machine.tracedAt limit (depth + 1)) =
        (.ok (.function (.closure closure)), made.tracedAt limit (depth + 1)) :=
    eval_list_tracedAt room inner label' rfl
  exact evalList_call_tracedAt rfl (mapM_singleton comes) done

/-- A condition that holds, in a form that asks for it. -/
theorem eval_if_tracedAt {value verdict : Datum} {middle : Machine}
    {condition consequent alternative : Form} (admitted : depth < limit)
    (token head : Option Token) (label : Option Nat)
    (decided :
      let named := (machine.scopes[scope]?.map Scope.name).getD ""
      eval fuel 0 scope condition
          ((machine.note (depth + 1) (.form .conditional scope named)).tracedAt limit (depth + 1)) =
        (.ok verdict, middle.tracedAt limit (depth + 1)))
    (holds : verdict.truthy = true)
    (done : eval fuel 0 scope consequent (middle.tracedAt limit (depth + 1)) =
      (.ok value, final.tracedAt limit (depth + 1))) :
    eval (fuel + 1) 0 scope
        (.list token label [.atom head (.symbol "if"), condition, consequent, alternative])
        (machine.tracedAt limit depth) =
      (.ok value, final.tracedAt limit depth) := by
  apply eval_list_tracedAt admitted
  have reserved : special? [Form.atom head (.symbol "if"), condition, consequent, alternative] =
      some .conditional := rfl
  rw [evalList, reserved]
  simp only [evalSpecial, evalIf]
  rw [Run.bind_apply_of_ok (Run.record_tracedAt ..), Machine.scopes_tracedAt,
    Run.bind_apply_of_ok decided, if_pos holds, done]

/-- Lists around a form take one level each, and put a list around its value. -/
theorem eval_encloses {core form : Form} {levels : Nat} {value : Datum}
    (unnamed : core.symbolName? = none) (plain : ∀ callee, value ≠ .function callee)
    (encloses : core.Encloses levels form) (room : depth + levels ≤ limit)
    (done : eval fuel 0 scope core (machine.tracedAt limit (depth + levels)) =
      (.ok value, final.tracedAt limit (depth + levels))) :
    eval (fuel + levels) 0 scope form (machine.tracedAt limit depth) =
      (.ok (value.enclose levels), final.tracedAt limit depth) := by
  induction encloses generalizing depth with
  | core => exact done
  | @list token label levels inner encloses ih =>
    rw [← Nat.add_assoc]
    apply eval_list_tracedAt (by omega)
    have inside := @ih (depth + 1) (by omega) (by rwa [Nat.add_assoc, Nat.add_comm 1])
    have ordinary : special? [inner] = none := by
      simp only [special?, encloses.symbolName?_eq_none unnamed, Option.bind_none]
    rw [evalList, ordinary]
    simp only [evalOrdinary]
    rw [Run.bind_apply_of_ok (mapM_singleton inside)]
    have data := Value.enclose_ne_function plain levels
    rw [Value.enclose]
    generalize value.enclose levels = enclosed at data ⊢
    cases enclosed with
    | function callee => exact absurd rfl (data callee)
    | nil | int | text | bool | list => rfl

end Eval

end Traced

/-! ## A call deep inside another one -/

namespace Form

/-- `((lambda () (if (((+ 1))) 1 2)))`, with any number of lists around the sum: a function is
called and calls another one some levels deeper. -/
def buriedCall (levels : Nat) : Form :=
  ofList [ofList [symbol "lambda", ofList [],
    ofList [symbol "if", (ofList [symbol "+", int 1]).enclose levels, int 1, int 2]]]

theorem toList_encode_buriedCall (levels : Nat) :
    (buriedCall levels).encode.toList = "((lambda () (if ".toList ++ List.replicate levels '(' ++
      "(+ 1)".toList ++ List.replicate levels ')' ++ " 1 2)))".toList := by
  have sum : (ofList [symbol "+", int 1]).encode.toList = "(+ 1)".toList := by decide
  have enclosed := toList_encode_enclose (ofList [symbol "+", int 1]) levels
  rw [sum] at enclosed
  have written : (buriedCall levels).encode.toList = "((lambda () (if ".toList ++
      ((ofList [symbol "+", int 1]).enclose levels).encode.toList ++ " 1 2)))".toList := by
    simp [buriedCall, ofList, symbol, int, encode, Atom.encode]
    rfl
  rw [written, enclosed]
  simp only [List.append_assoc]

theorem writable_buriedCall (levels : Nat) : (buriedCall levels).Writable := by
  have plus : (symbol "+").Writable := .atom ⟨by simp, by simp [Text.isBlank], by decide⟩
  have choice : (symbol "if").Writable := .atom ⟨by simp, by simp [Text.isBlank], by decide⟩
  have function : (symbol "lambda").Writable := .atom ⟨by simp, by simp [Text.isBlank], by decide⟩
  have one : (int 1).Writable := .atom (by decide : (0 : Int64) ≤ 1)
  have two : (int 2).Writable := .atom (by decide : (0 : Int64) ≤ 2)
  have sum : (ofList [symbol "+", int 1]).Writable :=
    .list (List.forall_mem_cons.mpr ⟨plus, List.forall_mem_singleton.mpr one⟩)
  refine .list (List.forall_mem_singleton.mpr (.list ?_))
  simp only [List.forall_mem_cons]
  refine ⟨function, .list (List.forall_mem_nil _), .list ?_, List.forall_mem_nil _⟩
  simp only [List.forall_mem_cons]
  exact ⟨choice, sum.enclose levels, one, two, List.forall_mem_nil _⟩

/-- A buried call as it is read, whatever the tokens and labels in it are. -/
inductive IsBuriedCall (levels : Nat) : Form → Prop where
  | intro {token inner head params outer keyword lower plus one two three : Option Token}
      {label label' label'' label₁ label₂ : Option Nat} {condition : Form}
      (encloses : Encloses (.list lower label [.atom plus (.symbol "+"), .atom one (.int 1)]) levels
        condition) :
      IsBuriedCall levels (.list token label' [.list inner label'' [.atom head (.symbol "lambda"),
        .list params label₁ [], .list outer label₂ [.atom keyword (.symbol "if"), condition,
          .atom two (.int 1), .atom three (.int 2)]]])

theorem isBuriedCall_of_same {form : Form} {levels : Nat}
    (alike : form.same (buriedCall levels) = true) : IsBuriedCall levels form := by
  obtain ⟨token, label, items, rfl, alikeItems⟩ := exists_of_same_list alike
  obtain ⟨function, rest, rfl, alikeFunction, ends⟩ := exists_of_sameItems_cons alikeItems
  cases sameItems_iff_forall₂.mp ends
  obtain ⟨inner, label', parts, rfl, alikeParts⟩ := exists_of_same_list alikeFunction
  obtain ⟨keyword, rest, rfl, alikeKeyword, alikeRest⟩ := exists_of_sameItems_cons alikeParts
  obtain ⟨head, rfl⟩ := exists_of_same_atom alikeKeyword
  obtain ⟨list, body, rfl, alikeList, alikeBody⟩ := exists_of_sameItems_two alikeRest
  obtain ⟨params, label'', names, rfl, empty⟩ := exists_of_same_list alikeList
  cases sameItems_iff_forall₂.mp empty
  obtain ⟨token', label₁, choice, rfl, alikeChoice⟩ := exists_of_same_list alikeBody
  obtain ⟨keyword, rest, rfl, alikeIf, alikeRest'⟩ := exists_of_sameItems_cons alikeChoice
  obtain ⟨head', rfl⟩ := exists_of_same_atom alikeIf
  obtain ⟨condition, branches, rfl, alikeCondition, alikeBranches⟩ :=
    exists_of_sameItems_cons alikeRest'
  obtain ⟨first, second, rfl, alikeFirst, alikeSecond⟩ := exists_of_sameItems_two alikeBranches
  obtain ⟨two, rfl⟩ := exists_of_same_atom alikeFirst
  obtain ⟨three, rfl⟩ := exists_of_same_atom alikeSecond
  obtain ⟨sum, alikeSum, encloses⟩ := exists_encloses alikeCondition
  obtain ⟨lower, label₂, summands, rfl, alikeSummands⟩ := exists_of_same_list alikeSum
  obtain ⟨plus, one, rfl, alikePlus, alikeOne⟩ := exists_of_sameItems_two alikeSummands
  obtain ⟨plus, rfl⟩ := exists_of_same_atom alikePlus
  obtain ⟨one, rfl⟩ := exists_of_same_atom alikeOne
  exact .intro encloses

end Form

/-- The machine after a buried call, on which nothing else has run. -/
def Machine.afterBuriedCall (levels : Nat) : Machine where
  scopes := #[⟨"root", none, Bindings.library⟩, ⟨"lambda", some 0, []⟩]
  engines := #[]
  hosts := #[]
  closures := 1
  trace := #[⟨0, 2, .form .lambda 0 "root"⟩, ⟨0, 1, .call "lambda" []⟩,
    ⟨0, 2, .form .conditional 1 "lambda"⟩, ⟨0, levels + 3, .call "+" [.int 1]⟩,
    ⟨0, levels + 3, .result (.int 1)⟩, ⟨0, 1, .result (.int 1)⟩]

theorem Eval.eval_buriedCall {form : Form} {levels limit fuel : Nat}
    (buried : form.IsBuriedCall levels) (room : levels + 3 < limit) :
    let root : Machine :=
      { Machine.empty with scopes := #[⟨"root", none, Bindings.library⟩] }
    eval (fuel + 2 + levels + 2) 0 0 form (root.tracedAt limit 0) =
      (.ok (.int 1), (Machine.afterBuriedCall levels).tracedAt limit 0) := by
  intro root
  obtain @⟨token, inner, head, params, outer, keyword, lower, plus, one, two, three, label, label',
    label'', label₁, label₂, condition, encloses⟩ := buried
  let called : Machine := { Machine.afterBuriedCall levels with
    trace := #[⟨0, 2, .form .lambda 0 "root"⟩, ⟨0, 1, .call "lambda" []⟩] }
  let chosen := called.note 2 (.form .conditional 1 "lambda")
  let summed := (chosen.note (2 + levels + 1) (.call "+" [.int 1])).note (2 + levels + 1)
    (.result (.int 1))
  have sum : eval (fuel + 2) 0 1 (.list lower label [.atom plus (.symbol "+"), .atom one (.int 1)])
      (chosen.tracedAt limit (2 + levels)) =
        (.ok (.int 1), summed.tracedAt limit (2 + levels)) :=
    @eval_builtin_tracedAt chosen limit _ fuel 1 .add 1 (.int 1) (by omega) lower plus one label
      rfl rfl
  have plain : ∀ callee, (Value.int 1 : Datum) ≠ .function callee := nofun
  have within : 2 + levels ≤ limit := by omega
  have decided := eval_encloses rfl plain encloses within sum
  have holds : ((Value.int 1 : Datum).enclose levels).truthy = true := by
    cases levels <;> rfl
  have answered : eval (fuel + 2 + levels) 0 1 (.atom two (.int 1)) (summed.tracedAt limit 2) =
      (.ok (.int 1), summed.tracedAt limit 2) := by
    have more : fuel + 2 + levels = fuel + 1 + levels + 1 := by omega
    rw [more]
    exact eval_int_tracedAt (by omega) two 1
  have body : eval (fuel + 2 + levels + 1) 0 1 (.list outer label₂ [.atom keyword (.symbol "if"),
      condition, .atom two (.int 1), .atom three (.int 2)]) (called.tracedAt limit 1) =
        (.ok (.int 1), summed.tracedAt limit 1) :=
    eval_if_tracedAt (by omega) outer keyword label₂ decided holds answered
  have level : 2 + levels + 1 = levels + 3 := by omega
  have same : Machine.afterBuriedCall levels = summed.note 1 (.result (.int 1)) := by
    simp only [summed, level]
    rfl
  rw [same]
  exact eval_called_lambda_tracedAt (by omega) token inner head params label' label'' label₁ body

namespace Interpreter

open Semantics

/-- A buried call comes to a value, and its trace shows how deep it is buried. -/
theorem interpret_buriedCall {interpreter : Interpreter} {levels : Nat}
    (logged : interpreter.log = some 0) (room : levels + 3 < interpreter.limit) :
    let source := (Form.buriedCall levels).encode.toList
    (interpreter.interpret source Machine.empty).1 = .ok (.int 1) ∧
      interpreter.written source Machine.empty =
        (Machine.afterBuriedCall levels).trace.toList := by
  intro source
  obtain ⟨form, accepted, alike⟩ := (Form.writable_buriedCall levels).parse_encode
  let root : Machine := { Machine.empty with scopes := #[⟨"root", none, Bindings.library⟩] }
  have started : prepared interpreter Machine.empty = root.tracedAt interpreter.limit 0 := by
    simp only [prepared, logged]
    rfl
  have enough := limit_lt_fuel interpreter Machine.empty
  obtain ⟨fuel, same⟩ : ∃ fuel, (prepared interpreter Machine.empty).fuel = fuel + 2 + levels + 2 :=
    ⟨(prepared interpreter Machine.empty).fuel - levels - 4, by omega⟩
  have comes : interpreter.interpret source Machine.empty =
      (.ok (.int 1), (Machine.afterBuriedCall levels).tracedAt interpreter.limit 0) := by
    rw [interpret_eq_evaluate accepted, evaluate_eq, same, started]
    exact Eval.eval_buriedCall (Form.isBuriedCall_of_same alike) room
  rw [written, comes]
  exact ⟨rfl, rfl⟩

end Interpreter

end MiniLisp
