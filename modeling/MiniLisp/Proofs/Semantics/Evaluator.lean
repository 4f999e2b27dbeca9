import MiniLisp.Proofs.Semantics.Rules

/-!
# Running the rules

The rules of the language as a function with a bound on the depth of evaluation.  A task comes to an
outcome by the rules if and only if the function finds that outcome at some depth, and then it finds
it at every greater depth.
-/

namespace MiniLisp.Semantics

/-- A computation over the number of closures made so far.  It has no outcome where the depth does
not suffice. -/
def Computation (α : Type) := Nat → Option (Outcome α)

namespace Computation

variable {α β : Type}

/-- A computation without outcome. -/
def exhausted : Computation α := fun _ => none

/-- A computation that fails. -/
def fail (fault : Fault) : Computation α := fun _ => some (.error fault)

/-- The next closure identity. -/
def newIdentity : Computation Nat := fun supply => some (.ok (supply, supply + 1))

/-- A computation goes on only where the one before it came to a value. -/
instance : Monad Computation where
  pure value := fun supply => some (.ok (value, supply))
  bind action next := fun supply =>
    match action supply with
    | none => none
    | some (.error fault) => some (.error fault)
    | some (.ok (value, middle)) => next value middle

theorem bind_apply (action : Computation α) (next : α → Computation β) (supply : Nat) :
    (action >>= next) supply =
      match action supply with
      | none => none
      | some (.error fault) => some (.error fault)
      | some (.ok (value, middle)) => next value middle := rfl

instance : LawfulMonad Computation :=
  LawfulMonad.mk' Computation
    (by
      intro α action
      funext supply
      change (action >>= fun value => pure (id value)) supply = _
      rw [bind_apply]
      rcases action supply with _ | _ | ⟨_, _⟩ <;> rfl)
    (fun _ _ => rfl)
    (by
      intro α β γ action next last
      funext supply
      simp only [bind_apply]
      rcases action supply with _ | _ | ⟨_, _⟩ <;> rfl)

@[simp] theorem pure_apply (value : α) (supply : Nat) :
    (pure value : Computation α) supply = some (.ok (value, supply)) := rfl

@[simp] theorem fail_apply (fault : Fault) (supply : Nat) :
    (fail fault : Computation α) supply = some (.error fault) := rfl

/-- An outcome of two computations in sequence is a fault of the first, or an outcome of the second
behind a value of the first. -/
theorem bind_eq_some_iff {action : Computation α} {next : α → Computation β} {supply : Nat}
    {outcome : Outcome β} :
    (action >>= next) supply = some outcome ↔
      (∃ fault, action supply = some (.error fault) ∧ outcome = .error fault) ∨
      ∃ value middle, action supply = some (.ok (value, middle)) ∧
        next value middle = some outcome := by
  rw [bind_apply]
  rcases action supply with _ | fault | ⟨value, middle⟩
  · simp
  · simp [eq_comm]
  · simp [and_assoc]

theorem bind_of_ok {action : Computation α} {next : α → Computation β} {supply middle : Nat}
    {value : α} {outcome : Outcome β} (done : action supply = some (.ok (value, middle)))
    (rest : next value middle = some outcome) : (action >>= next) supply = some outcome :=
  bind_eq_some_iff.mpr (.inr ⟨value, middle, done, rest⟩)

theorem bind_of_error {action : Computation α} {next : α → Computation β} {supply : Nat}
    {fault : Fault} (failed : action supply = some (.error fault)) :
    (action >>= next) supply = some (.error fault) :=
  bind_eq_some_iff.mpr (.inl ⟨fault, failed, rfl⟩)

/-- The second computation has every outcome that the first one has. -/
def Below (first second : Computation α) : Prop :=
  ∀ supply outcome, first supply = some outcome → second supply = some outcome

theorem Below.refl (action : Computation α) : Below action action :=
  fun _ _ found => found

theorem Below.bind {first second : Computation α} {next next' : α → Computation β}
    (before : Below first second) (after : ∀ value, Below (next value) (next' value)) :
    Below (first >>= next) (second >>= next') := by
  intro supply outcome found
  rw [bind_eq_some_iff] at found ⊢
  rcases found with ⟨fault, failed, rfl⟩ | ⟨value, middle, done, rest⟩
  · exact .inl ⟨fault, before _ _ failed, rfl⟩
  · exact .inr ⟨value, middle, before _ _ done, after value _ _ rest⟩

theorem Below.mapM {γ : Type} {action action' : γ → Computation α}
    (each : ∀ item, Below (action item) (action' item)) (items : List γ) :
    Below (items.mapM action) (items.mapM action') := by
  induction items with
  | nil => exact .refl _
  | cons first rest ih =>
    simp only [List.mapM_cons]
    exact (each first).bind fun _ => ih.bind fun _ => .refl _

end Computation

/-- The computation of forms in chains. -/
abbrev Interpretation := Chain → Form → Computation Meaning

/-- Calls a function. -/
def call (inner : Interpretation) (callee : Function) (arguments : List Meaning) :
    Computation Meaning :=
  match callee with
  | .builtin operation =>
    match operation.apply arguments with
    | .ok value => pure value
    | .error cause => Computation.fail (.application operation.name cause)
  | .closure _ params body chain =>
    if arguments.length = params.length then
      inner ((params.zip arguments).reverse :: chain) body
    else
      Computation.fail (.application Procedure.closureName
        (.wrongArity (.exactly params.length) arguments.length))

/-- Evaluates one binding of a `define`. -/
def evalBinding (inner : Interpretation) (chain : Chain) (binding : Form) :
    Computation (String × Meaning) :=
  match Eval.binding? binding with
  | some (name, expression) => return (name, ← inner chain expression)
  | none => Computation.fail (.malformed .define)

/-- Evaluates a special form. -/
def evalSpecial (inner : Interpretation) (chain : Chain) : SpecialForm → List Form →
    Computation Meaning
  | .define, [_, .list _ _ bindings, body] => do
    let pairs ← bindings.mapM (evalBinding inner chain)
    inner (pairs.reverse :: chain) body
  | .lambda, [_, .list _ _ params, body] =>
    match params.mapM Form.symbolName? with
    | some names => return .function (.closure (← Computation.newIdentity) names body chain)
    | none => Computation.fail (.malformed .lambda)
  | .conditional, [_, condition, consequent, alternative] => do
    if (← inner chain condition).truthy then
      inner chain consequent
    else
      inner chain alternative
  | .quote, [_, expression] => inner chain expression
  | special, _ => Computation.fail (.malformed special)

/-- Evaluates a list that is no special form. -/
def evalOrdinary (inner : Interpretation) (chain : Chain) (items : List Form) :
    Computation Meaning := do
  match ← items.mapM (inner chain) with
  | .function callee :: arguments => call inner callee arguments
  | values => return .list values

/-- Evaluates a list. -/
def evalList (inner : Interpretation) (chain : Chain) (items : List Form) : Computation Meaning :=
  match Eval.special? items with
  | some special => evalSpecial inner chain special items
  | none => evalOrdinary inner chain items

/-- Evaluates an atom. -/
def evalAtom (chain : Chain) : Atom → Computation Meaning
  | .int value => return .int value
  | .string text => return .text text
  | .symbol name =>
    match chain.value? name with
    | some value => return value
    | none => Computation.fail (.unbound name)

/-- Evaluates a form where `room` evaluations inside one another are admitted. -/
def eval : (room : Nat) → Interpretation
  | _, _, .absent => return .nil
  | 0, _, _ => Computation.exhausted
  | _ + 1, chain, .atom _ value => evalAtom chain value
  | room + 1, chain, .list _ _ items => evalList (eval room) chain items

/-- Carries out a task where `room` evaluations inside one another are admitted. -/
def run (room : Nat) : {α : Type} → Task α → Computation α
  | _, .form chain form => eval room chain form
  | _, .forms chain items => items.mapM (eval room chain)
  | _, .bindings chain bindings => bindings.mapM (evalBinding (eval room) chain)
  | _, .call callee arguments => call (eval room) callee arguments

/-! ## More room keeps every outcome -/

theorem call_below {inner inner' : Interpretation}
    (each : ∀ chain form, (inner chain form).Below (inner' chain form)) (callee : Function)
    (arguments : List Meaning) :
    (call inner callee arguments).Below (call inner' callee arguments) := by
  cases callee with
  | builtin operation => exact .refl _
  | closure identity params body chain =>
    simp only [call]
    split
    · exact each _ _
    · exact .refl _

theorem evalBinding_below {inner inner' : Interpretation}
    (each : ∀ chain form, (inner chain form).Below (inner' chain form)) (chain : Chain)
    (binding : Form) :
    (evalBinding inner chain binding).Below (evalBinding inner' chain binding) := by
  simp only [evalBinding]
  split
  · exact (each _ _).bind fun _ => .refl _
  · exact .refl _

theorem evalSpecial_below {inner inner' : Interpretation}
    (each : ∀ chain form, (inner chain form).Below (inner' chain form)) (chain : Chain)
    (special : SpecialForm) (items : List Form) :
    (evalSpecial inner chain special items).Below (evalSpecial inner' chain special items) := by
  fun_cases evalSpecial inner chain special items with
  | case1 head token label bindings body =>
    exact (Computation.Below.mapM (evalBinding_below each chain) bindings).bind fun _ => each _ _
  | case2 head token label params body names named =>
    simp only [evalSpecial, named]
    exact .refl _
  | case3 head token label params body unnamed =>
    simp only [evalSpecial, unnamed]
    exact .refl _
  | case4 head condition consequent alternative =>
    apply (each _ _).bind
    intro value
    split
    · exact each _ _
    · exact each _ _
  | case5 head expression => exact each _ _
  | case6 special items =>
    simp_all only [evalSpecial]
    exact .refl _

theorem evalOrdinary_below {inner inner' : Interpretation}
    (each : ∀ chain form, (inner chain form).Below (inner' chain form)) (chain : Chain)
    (items : List Form) :
    (evalOrdinary inner chain items).Below (evalOrdinary inner' chain items) := by
  apply (Computation.Below.mapM (each chain) items).bind
  intro values
  split
  · exact call_below each _ _
  · exact .refl _

theorem evalList_below {inner inner' : Interpretation}
    (each : ∀ chain form, (inner chain form).Below (inner' chain form)) (chain : Chain)
    (items : List Form) : (evalList inner chain items).Below (evalList inner' chain items) := by
  simp only [evalList]
  split
  · exact evalSpecial_below each chain _ items
  · exact evalOrdinary_below each chain items

theorem eval_below_succ (room : Nat) (chain : Chain) (form : Form) :
    (eval room chain form).Below (eval (room + 1) chain form) := by
  induction room generalizing chain form with
  | zero =>
    cases form with
    | absent => exact .refl _
    | atom | list =>
      intro supply outcome found
      cases found
  | succ room ih =>
    cases form with
    | absent => exact .refl _
    | atom => exact .refl _
    | list token label items => exact evalList_below ih chain items

theorem eval_below {room room' : Nat} (le : room ≤ room') (chain : Chain) (form : Form) :
    (eval room chain form).Below (eval room' chain form) := by
  induction le with
  | refl => exact .refl _
  | step _ ih => exact fun supply outcome found => eval_below_succ _ _ _ _ _ (ih _ _ found)

/-- What a task comes to with some room, it comes to with more. -/
theorem run_below {α : Type} {room room' : Nat} (le : room ≤ room') (task : Task α) :
    (run room task).Below (run room' task) := by
  cases task with
  | form chain form => exact eval_below le chain form
  | forms chain items => exact Computation.Below.mapM (eval_below le chain) items
  | bindings chain bindings =>
    exact Computation.Below.mapM (evalBinding_below (eval_below le) chain) bindings
  | call callee arguments => exact call_below (eval_below le) callee arguments

/-! ## The shapes of lists -/

theorem ofName?_eq_some_iff {name : String} {special : SpecialForm} :
    SpecialForm.ofName? name = some special ↔ name = special.name := by
  constructor
  · intro found
    have named := List.find?_some found
    exact (beq_iff_eq.mp named).symm
  · rintro rfl
    exact SpecialForm.ofName?_name special

theorem special?_cons_eq_some_iff {head : Form} {rest : List Form} {special : SpecialForm} :
    Eval.special? (head :: rest) = some special ↔ Reserves special head := by
  simp only [Eval.special?, Reserves, Option.bind_eq_some_iff, ofName?_eq_some_iff]
  constructor
  · rintro ⟨name, named, rfl⟩
    exact named
  · intro named
    exact ⟨_, named, rfl⟩

theorem special?_eq_none_iff {items : List Form} : Eval.special? items = none ↔ Ordinary items := by
  constructor
  · rintro unreserved head rest special rfl reserved
    rw [special?_cons_eq_some_iff.mpr reserved] at unreserved
    cases unreserved
  · intro ordinary
    cases items with
    | nil => rfl
    | cons head rest =>
      rw [Option.eq_none_iff_forall_ne_some]
      intro special found
      exact ordinary head rest special rfl (special?_cons_eq_some_iff.mp found)

theorem binding?_eq_some_iff {binding expression : Form} {name : String} :
    Eval.binding? binding = some (name, expression) ↔ Binds binding name expression := by
  constructor
  · intro found
    fun_cases Eval.binding? binding with
    | case1 token label symbol expression' =>
      simp only [Eval.binding?, Option.map_eq_some_iff, Prod.mk.injEq] at found
      obtain ⟨_, named, rfl, rfl⟩ := found
      exact ⟨token, label, symbol, rfl, named⟩
    | case2 => simp_all [Eval.binding?]
  · rintro ⟨token, label, symbol, rfl, named⟩
    simp [Eval.binding?, named]

/-- Bindings that all have their shape have it one by one. -/
theorem exists_of_mapM_binding?_cons {first : Form} {rest : List Form}
    {pairs : List (String × Form)} (shaped : (first :: rest).mapM Eval.binding? = some pairs) :
    ∃ name expression others, Eval.binding? first = some (name, expression) ∧
      rest.mapM Eval.binding? = some others ∧ pairs = (name, expression) :: others := by
  simp only [List.mapM_cons, Option.bind_eq_bind, Option.bind_eq_some_iff, Option.pure_def,
    Option.some.injEq] at shaped
  obtain ⟨⟨name, expression⟩, found, others, shaped, rfl⟩ := shaped
  exact ⟨name, expression, others, found, shaped, rfl⟩

theorem binding?_eq_none_iff {binding : Form} :
    Eval.binding? binding = none ↔ ∀ name expression, ¬Binds binding name expression := by
  simp only [← binding?_eq_some_iff, Option.eq_none_iff_forall_ne_some, Prod.forall, ne_eq]

section Malformed

variable {inner : Interpretation} {chain : Chain} {items : List Form}

theorem evalSpecial_define_malformed
    (shape : ∀ head token label bindings body, items ≠ [head, .list token label bindings, body]) :
    evalSpecial inner chain .define items = Computation.fail (.malformed .define) := by
  rw [evalSpecial]
  all_goals grind

theorem evalSpecial_lambda_malformed
    (shape : ∀ head token label params body, items = [head, .list token label params, body] →
      params.mapM Form.symbolName? = none) :
    evalSpecial inner chain .lambda items = Computation.fail (.malformed .lambda) := by
  by_cases unnamed : ∃ head token label params body, items = [head, .list token label params, body]
  · obtain ⟨head, token, label, params, body, rfl⟩ := unnamed
    simp only [evalSpecial, shape head token label params body rfl]
  · rw [evalSpecial]
    all_goals grind

theorem evalSpecial_conditional_malformed
    (shape : ∀ head condition consequent alternative,
      items ≠ [head, condition, consequent, alternative]) :
    evalSpecial inner chain .conditional items = Computation.fail (.malformed .conditional) := by
  rw [evalSpecial]
  all_goals grind

theorem evalSpecial_quote_malformed (shape : ∀ head expression, items ≠ [head, expression]) :
    evalSpecial inner chain .quote items = Computation.fail (.malformed .quote) := by
  rw [evalSpecial]
  all_goals grind

end Malformed

end MiniLisp.Semantics
