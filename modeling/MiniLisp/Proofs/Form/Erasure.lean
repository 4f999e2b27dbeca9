import Mathlib.Logic.Relation
import MiniLisp.Proofs.Form.Free

/-!
# Forms without their quotes

`quote` evaluates its operand like any other expression, so that nothing seems lost without it.  It
can be taken away only where an expression stands: the word may also be a parameter, a name that is
bound or a part of a special form without its shape, and all these stay as they are.
-/

namespace MiniLisp.Form

/-! ## Where expressions stand -/

/-- The expressions that stand immediately inside a special form that has its shape. -/
def specialOperands : SpecialForm → List Form → List Form
  | .define, [_, .list _ _ bindings, body] =>
    match bindings.mapM Eval.binding? with
    | some pairs => body :: pairs.map Prod.snd
    | none => []
  | .lambda, [_, .list _ _ params, body] =>
    match params.mapM symbolName? with
    | some _ => [body]
    | none => []
  | .conditional, [_, condition, consequent, alternative] => [condition, consequent, alternative]
  | .quote, [_, expression] => [expression]
  | _, _ => []

/-- The expressions that stand immediately inside a form: all elements of an ordinary list, and
those parts of a special form that are evaluated sooner or later. -/
def operands : Form → List Form
  | list _ _ items =>
    match Eval.special? items with
    | some special => specialOperands special items
    | none => items
  | _ => []

/-- A form stands at an expression position of another one if operands lead down to it. -/
def Expression : Form → Form → Prop :=
  Relation.ReflTransGen fun part form => part ∈ form.operands

/-! ## Erasure -/

mutual

/-- A form without the quotes at its expression positions. -/
def erase : Form → Form
  | absent => absent
  | atom token value => atom token value
  | list token label items =>
    match Eval.special? items with
    | some special => eraseSpecial token label special items
    | none => list token label (eraseItems items)

/-- Erasure in each of several forms. -/
def eraseItems : List Form → List Form
  | [] => []
  | first :: rest => erase first :: eraseItems rest

/-- Erasure in a special form, which stays as it is if it does not have its shape. -/
def eraseSpecial (token : Option Token) (label : Option Nat) : SpecialForm → List Form → Form
  | .define, [head, .list token' label' bindings, body] =>
    match bindings.mapM Eval.binding? with
    | some _ => list token label [head, .list token' label' (eraseBindings bindings), erase body]
    | none => list token label [head, .list token' label' bindings, body]
  | .lambda, [head, .list token' label' params, body] =>
    match params.mapM symbolName? with
    | some _ => list token label [head, .list token' label' params, erase body]
    | none => list token label [head, .list token' label' params, body]
  | .conditional, [head, condition, consequent, alternative] =>
    list token label [head, erase condition, erase consequent, erase alternative]
  | .quote, [_, expression] => erase expression
  | _, items => list token label items

/-- Erasure in the expressions of several bindings. -/
def eraseBindings : List Form → List Form
  | [] => []
  | first :: rest => eraseBinding first :: eraseBindings rest

/-- Erasure in the expression of a binding. -/
def eraseBinding : Form → Form
  | .list token label [name, expression] => .list token label [name, erase expression]
  | other => other

end

theorem eraseItems_eq_map (items : List Form) : eraseItems items = items.map erase := by
  induction items with
  | nil => rw [eraseItems, List.map_nil]
  | cons first rest ih => rw [eraseItems, ih, List.map_cons]

theorem eraseBindings_eq_map (bindings : List Form) :
    eraseBindings bindings = bindings.map eraseBinding := by
  induction bindings with
  | nil => rw [eraseBindings, List.map_nil]
  | cons first rest ih => rw [eraseBindings, ih, List.map_cons]

/-- An erased binding gives the erased expression to the same name. -/
theorem binding?_eraseBinding (binding : Form) :
    Eval.binding? (eraseBinding binding) =
      (Eval.binding? binding).map fun pair => (pair.1, pair.2.erase) := by
  fun_cases Eval.binding? binding with
  | case1 token label name expression =>
    simp only [eraseBinding, Eval.binding?, Option.map_map]
    rfl
  | case2 binding noPair =>
    have kept : eraseBinding binding = binding := by
      rw [eraseBinding]
      exact noPair
    rw [kept, Eval.binding?]
    · rfl
    · exact noPair

section Shapes

variable {token token' : Option Token} {label label' : Option Nat} {head body : Form}
variable {items : List Form}

theorem operands_ordinary (ordinary : Semantics.Ordinary items) :
    operands (.list token label items) = items := by
  rw [operands, Semantics.special?_eq_none_iff.mpr ordinary]

theorem operands_reserved {special : SpecialForm} (reserved : Semantics.Reserves special head) :
    operands (.list token label (head :: items)) = specialOperands special (head :: items) := by
  rw [operands, Semantics.special?_cons_eq_some_iff.mpr reserved]

theorem erase_ordinary (ordinary : Semantics.Ordinary items) :
    erase (.list token label items) = .list token label (items.map erase) := by
  rw [erase, Semantics.special?_eq_none_iff.mpr ordinary, eraseItems_eq_map]

theorem erase_reserved {special : SpecialForm} (reserved : Semantics.Reserves special head) :
    erase (.list token label (head :: items)) =
      eraseSpecial token label special (head :: items) := by
  rw [erase, Semantics.special?_cons_eq_some_iff.mpr reserved]

end Shapes

/-! ## Heads that quotes keep from being reserved -/

/-- A form is unmasked if erasure makes none of its ordinary lists a special form. -/
def Unmasked (form : Form) : Prop :=
  ∀ token label head rest, Expression (.list token label (head :: rest)) form →
    Semantics.Ordinary (head :: rest) → ∀ special, ¬Semantics.Reserves special head.erase

theorem Unmasked.operand {form part : Form} (unmasked : form.Unmasked)
    (operand : part ∈ form.operands) : part.Unmasked := by
  intro token label head rest inside ordinary
  exact unmasked token label head rest (Relation.ReflTransGen.tail inside operand) ordinary

theorem Unmasked.ordinary_map {token : Option Token} {label : Option Nat} {items : List Form}
    (unmasked : Unmasked (.list token label items)) (ordinary : Semantics.Ordinary items) :
    Semantics.Ordinary (items.map erase) := by
  rintro head rest special erased reserved
  obtain ⟨first, others, rfl, rfl, -⟩ := List.map_eq_cons_iff.mp erased
  exact unmasked token label first others Relation.ReflTransGen.refl ordinary special reserved

/-- Whether an ordinary list stays ordinary by erasure. -/
def keepsHead : Form → Bool
  | list _ _ items => (Eval.special? items).isSome || (Eval.special? (items.map erase)).isNone
  | _ => true

/-- Whether a form is found to be unmasked by a look at `height` levels of expressions. -/
def unmaskedBelow : (height : Nat) → Form → Bool
  | 0, _ => false
  | height + 1, form => form.keepsHead && form.operands.all (unmaskedBelow height)

theorem ordinary_erase_of_keepsHead {token : Option Token} {label : Option Nat} {head : Form}
    {rest : List Form} (keeps : keepsHead (.list token label (head :: rest)) = true)
    (ordinary : Semantics.Ordinary (head :: rest)) (special : SpecialForm) :
    ¬Semantics.Reserves special head.erase := by
  intro reserved
  have unreserved := Semantics.special?_eq_none_iff.mpr ordinary
  have found : Eval.special? (head.erase :: rest.map erase) = some special :=
    Semantics.special?_cons_eq_some_iff.mpr reserved
  simp [keepsHead, unreserved, found] at keeps

theorem unmasked_of_unmaskedBelow {height : Nat} {form : Form}
    (checked : form.unmaskedBelow height = true) : form.Unmasked := by
  induction height generalizing form with
  | zero => cases checked
  | succ height ih =>
    rw [unmaskedBelow, Bool.and_eq_true, List.all_eq_true] at checked
    obtain ⟨keeps, operands⟩ := checked
    intro token label head rest inside ordinary
    rcases Relation.ReflTransGen.cases_tail inside with rfl | ⟨part, inside, operand⟩
    · exact ordinary_erase_of_keepsHead keeps ordinary
    · exact ih (operands part operand) token label head rest inside ordinary

end MiniLisp.Form
