import MiniLisp.Proofs.Semantics.Evaluator

/-!
# Derivations and outcomes

A task comes to an outcome by the rules if and only if carrying it out with enough room finds that
outcome.  In one direction every step of the function is an instance of a rule, in the other the
room that a derivation needs is found by induction on it.
-/

namespace MiniLisp.Semantics

/-- An interpretation is sound if the rules derive every outcome it finds. -/
def Sound (inner : Interpretation) : Prop :=
  ∀ chain form supply outcome, inner chain form supply = some outcome →
    Evaluates (.form chain form) supply outcome

section Soundness

variable {inner : Interpretation} {chain : Chain}

theorem forms_evaluates (sound : Sound inner) {items : List Form} {supply : Nat}
    {outcome : Outcome (List Meaning)}
    (found : (items.mapM (inner chain)) supply = some outcome) :
    Evaluates (.forms chain items) supply outcome := by
  induction items generalizing supply outcome with
  | nil =>
    cases found
    exact .formsNil
  | cons first rest ih =>
    simp only [List.mapM_cons] at found
    rcases Computation.bind_eq_some_iff.mp found with
      ⟨fault, failed, rfl⟩ | ⟨value, middle, done, found⟩
    · exact .formsHeadFails (sound _ _ _ _ failed)
    · rcases Computation.bind_eq_some_iff.mp found with
        ⟨fault, failed, rfl⟩ | ⟨values, final, all, found⟩
      · exact .formsTailFails (sound _ _ _ _ done) (ih failed)
      · cases found
        exact .formsCons (sound _ _ _ _ done) (ih all)

theorem bindings_evaluates (sound : Sound inner) {bindings : List Form} {supply : Nat}
    {outcome : Outcome (List (String × Meaning))}
    (found : (bindings.mapM (evalBinding inner chain)) supply = some outcome) :
    Evaluates (.bindings chain bindings) supply outcome := by
  induction bindings generalizing supply outcome with
  | nil =>
    cases found
    exact .bindingsNil
  | cons first rest ih =>
    simp only [List.mapM_cons] at found
    cases shape : Eval.binding? first with
    | none =>
      simp only [evalBinding, shape] at found
      cases found
      exact .bindingMalformed (binding?_eq_none_iff.mp shape)
    | some pair =>
      rcases pair with ⟨name, expression⟩
      have binds := binding?_eq_some_iff.mp shape
      simp only [evalBinding, shape, bind_assoc, pure_bind] at found
      rcases Computation.bind_eq_some_iff.mp found with
        ⟨fault, failed, rfl⟩ | ⟨value, middle, done, found⟩
      · exact .bindingsHeadFails binds (sound _ _ _ _ failed)
      · rcases Computation.bind_eq_some_iff.mp found with
          ⟨fault, failed, rfl⟩ | ⟨pairs, final, all, found⟩
        · exact .bindingsTailFails binds (sound _ _ _ _ done) (ih failed)
        · cases found
          exact .bindingsCons binds (sound _ _ _ _ done) (ih all)

theorem call_evaluates (sound : Sound inner) {callee : Function} {arguments : List Meaning}
    {supply : Nat} {outcome : Outcome Meaning}
    (found : call inner callee arguments supply = some outcome) :
    Evaluates (.call callee arguments) supply outcome := by
  cases callee with
  | builtin operation =>
    cases applied : operation.apply arguments with
    | ok value =>
      simp only [call, applied] at found
      cases found
      exact .builtin applied
    | error cause =>
      simp only [call, applied] at found
      cases found
      exact .builtinFails applied
  | closure identity params body chain =>
    simp only [call] at found
    split at found
    next arity => exact .closure arity (sound _ _ _ _ found)
    next arity =>
      cases found
      exact .closureArity arity

theorem ordinary_evaluates (sound : Sound inner) {token : Option Token} {label : Option Nat}
    {items : List Form} {supply : Nat} {outcome : Outcome Meaning} (ordinary : Ordinary items)
    (found : evalOrdinary inner chain items supply = some outcome) :
    Evaluates (.form chain (.list token label items)) supply outcome := by
  rcases Computation.bind_eq_some_iff.mp found with
    ⟨fault, failed, rfl⟩ | ⟨values, middle, all, found⟩
  · exact .elementFails ordinary (forms_evaluates sound failed)
  · have elements := forms_evaluates sound all
    split at found
    next callee arguments =>
      exact .application ordinary elements (call_evaluates sound found)
    next inert =>
      cases found
      exact .literalList ordinary elements inert

theorem special_evaluates (sound : Sound inner) {token : Option Token} {label : Option Nat}
    {head : Form} {rest : List Form} {special : SpecialForm} {supply : Nat}
    {outcome : Outcome Meaning} (reserved : Reserves special head)
    (found : evalSpecial inner chain special (head :: rest) supply = some outcome) :
    Evaluates (.form chain (.list token label (head :: rest))) supply outcome := by
  cases special with
  | define =>
    by_cases shape : ∃ token' label' bindings body, rest = [.list token' label' bindings, body]
    · rcases shape with ⟨token', label', bindings, body, rfl⟩
      simp only [evalSpecial] at found
      rcases Computation.bind_eq_some_iff.mp found with
        ⟨fault, failed, rfl⟩ | ⟨pairs, middle, bound, found⟩
      · exact .defineBindingFails reserved (bindings_evaluates sound failed)
      · exact .define reserved (bindings_evaluates sound bound) (sound _ _ _ _ found)
    · have malformed : ∀ head' token' label' bindings body,
          head :: rest ≠ [head', .list token' label' bindings, body] :=
        fun _ token' label' bindings body same =>
          shape ⟨token', label', bindings, body, (List.cons.inj same).2⟩
      rw [evalSpecial_define_malformed malformed] at found
      cases found
      exact .defineMalformed reserved malformed
  | lambda =>
    by_cases shape : ∃ token' label' params body names,
        rest = [.list token' label' params, body] ∧ params.mapM Form.symbolName? = some names
    · rcases shape with ⟨token', label', params, body, names, rfl, named⟩
      simp only [evalSpecial, named] at found
      cases found
      exact .lambda reserved named
    · have malformed : ∀ head' token' label' params body,
          head :: rest = [head', .list token' label' params, body] →
            params.mapM Form.symbolName? = none := by
        intro head' token' label' params body same
        rw [Option.eq_none_iff_forall_ne_some]
        intro names named
        exact shape ⟨token', label', params, body, names, (List.cons.inj same).2, named⟩
      rw [evalSpecial_lambda_malformed malformed] at found
      cases found
      exact .lambdaMalformed reserved malformed
  | conditional =>
    by_cases shape : ∃ condition consequent alternative, rest = [condition, consequent, alternative]
    · rcases shape with ⟨condition, consequent, alternative, rfl⟩
      simp only [evalSpecial] at found
      rcases Computation.bind_eq_some_iff.mp found with
        ⟨fault, failed, rfl⟩ | ⟨value, middle, decided, found⟩
      · exact .conditionFails reserved (sound _ _ _ _ failed)
      · cases holds : value.truthy with
        | true =>
          rw [holds] at found
          exact .consequent reserved (sound _ _ _ _ decided) holds (sound _ _ _ _ found)
        | false =>
          rw [holds] at found
          exact .alternative reserved (sound _ _ _ _ decided) holds (sound _ _ _ _ found)
    · have malformed : ∀ head' condition consequent alternative,
          head :: rest ≠ [head', condition, consequent, alternative] :=
        fun _ condition consequent alternative same =>
          shape ⟨condition, consequent, alternative, (List.cons.inj same).2⟩
      rw [evalSpecial_conditional_malformed malformed] at found
      cases found
      exact .conditionalMalformed reserved malformed
  | quote =>
    by_cases shape : ∃ expression, rest = [expression]
    · rcases shape with ⟨expression, rfl⟩
      exact .quote reserved (sound _ _ _ _ found)
    · have malformed : ∀ head' expression, head :: rest ≠ [head', expression] :=
        fun _ expression same => shape ⟨expression, (List.cons.inj same).2⟩
      rw [evalSpecial_quote_malformed malformed] at found
      cases found
      exact .quoteMalformed reserved malformed

theorem list_evaluates (sound : Sound inner) {token : Option Token} {label : Option Nat}
    {items : List Form} {supply : Nat} {outcome : Outcome Meaning}
    (found : evalList inner chain items supply = some outcome) :
    Evaluates (.form chain (.list token label items)) supply outcome := by
  cases reserved : Eval.special? items with
  | none =>
    simp only [evalList, reserved] at found
    exact ordinary_evaluates sound (special?_eq_none_iff.mp reserved) found
  | some special =>
    simp only [evalList, reserved] at found
    cases items with
    | nil => cases reserved
    | cons head rest =>
      exact special_evaluates sound (special?_cons_eq_some_iff.mp reserved) found

theorem atom_evaluates {token : Option Token} {value : Atom} {supply : Nat}
    {outcome : Outcome Meaning} (found : evalAtom chain value supply = some outcome) :
    Evaluates (.form chain (.atom token value)) supply outcome := by
  cases value with
  | int value =>
    cases found
    exact .int
  | string text =>
    cases found
    exact .string
  | symbol name =>
    cases bound : chain.value? name with
    | none =>
      simp only [evalAtom, bound] at found
      cases found
      exact .symbolUnbound bound
    | some value =>
      simp only [evalAtom, bound] at found
      cases found
      exact .symbol bound

end Soundness

/-- Whatever evaluation with some room comes to, the rules derive. -/
theorem eval_sound (room : Nat) : Sound (eval room) := by
  induction room with
  | zero =>
    intro chain form supply outcome found
    cases form with
    | absent =>
      cases found
      exact .absent
    | atom | list => cases found
  | succ room ih =>
    intro chain form supply outcome found
    cases form with
    | absent =>
      cases found
      exact .absent
    | atom token value => exact atom_evaluates found
    | list token label items => exact list_evaluates ih found

/-! ## The room that a derivation needs -/

/-- With enough room, a task comes to an outcome. -/
def Reached {α : Type} (task : Task α) (supply : Nat) (outcome : Outcome α) : Prop :=
  ∃ room, run room task supply = some outcome

/-- One room is enough for two tasks. -/
theorem Reached.common {α β : Type} {task : Task α} {task' : Task β} {supply supply' : Nat}
    {outcome : Outcome α} {outcome' : Outcome β} (first : Reached task supply outcome)
    (second : Reached task' supply' outcome') :
    ∃ room, run room task supply = some outcome ∧ run room task' supply' = some outcome' := by
  rcases first with ⟨room, found⟩
  rcases second with ⟨room', found'⟩
  refine ⟨max room room', ?_, ?_⟩
  · exact run_below (Nat.le_max_left room room') task _ _ found
  · exact run_below (Nat.le_max_right room room') task' _ _ found'

section Lists

variable {chain : Chain} {token : Option Token} {label : Option Nat}

theorem run_ordinary {items : List Form} (ordinary : Ordinary items) (room : Nat) :
    run (room + 1) (.form chain (.list token label items)) =
      evalOrdinary (eval room) chain items := by
  simp only [run, eval, evalList, special?_eq_none_iff.mpr ordinary]

theorem run_special {head : Form} {rest : List Form} {special : SpecialForm}
    (reserved : Reserves special head) (room : Nat) :
    run (room + 1) (.form chain (.list token label (head :: rest))) =
      evalSpecial (eval room) chain special (head :: rest) := by
  simp only [run, eval, evalList, special?_cons_eq_some_iff.mpr reserved]

theorem run_forms_cons (first : Form) (rest : List Form) (room : Nat) :
    run room (.forms chain (first :: rest)) =
      (do
        let value ← run room (.form chain first)
        let values ← run room (.forms chain rest)
        return value :: values) := by
  simp only [run, List.mapM_cons]

theorem run_bindings_cons {first expression : Form} {name : String}
    (shape : Binds first name expression) (rest : List Form) (room : Nat) :
    run room (.bindings chain (first :: rest)) =
      (do
        let value ← run room (.form chain expression)
        let pairs ← run room (.bindings chain rest)
        return (name, value) :: pairs) := by
  simp only [run, List.mapM_cons, evalBinding, binding?_eq_some_iff.mpr shape, bind_assoc,
    pure_bind]

end Lists

/-- Whatever the rules derive, evaluation with enough room comes to. -/
theorem Evaluates.reached {α : Type} {task : Task α} {supply : Nat} {outcome : Outcome α}
    (derivation : Evaluates task supply outcome) : Reached task supply outcome := by
  induction derivation with
  | absent | formsNil | bindingsNil => exact ⟨0, rfl⟩
  | int | string => exact ⟨1, rfl⟩
  | symbol found => exact ⟨1, by simp [run, eval, evalAtom, found]⟩
  | symbolUnbound missing => exact ⟨1, by simp [run, eval, evalAtom, missing]⟩
  | elementFails ordinary _ ih =>
    rcases ih with ⟨room, failed⟩
    refine ⟨room + 1, ?_⟩
    rw [run_ordinary ordinary]
    exact Computation.bind_of_error failed
  | application ordinary _ _ elementsIH calledIH =>
    rcases elementsIH.common calledIH with ⟨room, elements, called⟩
    refine ⟨room + 1, ?_⟩
    rw [run_ordinary ordinary]
    exact Computation.bind_of_ok elements called
  | literalList ordinary _ inert ih =>
    rcases ih with ⟨room, elements⟩
    refine ⟨room + 1, ?_⟩
    rw [run_ordinary ordinary]
    apply Computation.bind_of_ok elements
    split
    · exact absurd rfl (inert _ _)
    · rfl
  | define reserved _ _ boundIH evaluatedIH =>
    rcases boundIH.common evaluatedIH with ⟨room, bound, evaluated⟩
    refine ⟨room + 1, ?_⟩
    rw [run_special reserved]
    exact Computation.bind_of_ok bound evaluated
  | defineBindingFails reserved _ ih =>
    rcases ih with ⟨room, failed⟩
    refine ⟨room + 1, ?_⟩
    rw [run_special reserved]
    exact Computation.bind_of_error failed
  | defineMalformed reserved shape =>
    exact ⟨1, by rw [run_special reserved, evalSpecial_define_malformed shape]; rfl⟩
  | lambda reserved named =>
    refine ⟨1, ?_⟩
    rw [run_special reserved]
    simp only [evalSpecial, named]
    rfl
  | lambdaMalformed reserved shape =>
    exact ⟨1, by rw [run_special reserved, evalSpecial_lambda_malformed shape]; rfl⟩
  | consequent reserved _ holds _ decidedIH evaluatedIH =>
    rcases decidedIH.common evaluatedIH with ⟨room, decided, evaluated⟩
    refine ⟨room + 1, ?_⟩
    rw [run_special reserved]
    apply Computation.bind_of_ok decided
    rw [holds]
    exact evaluated
  | alternative reserved _ fails _ decidedIH evaluatedIH =>
    rcases decidedIH.common evaluatedIH with ⟨room, decided, evaluated⟩
    refine ⟨room + 1, ?_⟩
    rw [run_special reserved]
    apply Computation.bind_of_ok decided
    rw [fails]
    exact evaluated
  | conditionFails reserved _ ih =>
    rcases ih with ⟨room, failed⟩
    refine ⟨room + 1, ?_⟩
    rw [run_special reserved]
    exact Computation.bind_of_error failed
  | conditionalMalformed reserved shape =>
    exact ⟨1, by rw [run_special reserved, evalSpecial_conditional_malformed shape]; rfl⟩
  | quote reserved _ ih =>
    rcases ih with ⟨room, evaluated⟩
    exact ⟨room + 1, by rw [run_special reserved]; exact evaluated⟩
  | quoteMalformed reserved shape =>
    exact ⟨1, by rw [run_special reserved, evalSpecial_quote_malformed shape]; rfl⟩
  | formsCons _ _ headIH tailIH =>
    rcases headIH.common tailIH with ⟨room, head, tail⟩
    refine ⟨room, ?_⟩
    rw [run_forms_cons]
    apply Computation.bind_of_ok head
    exact Computation.bind_of_ok tail rfl
  | formsHeadFails _ ih =>
    rcases ih with ⟨room, failed⟩
    refine ⟨room, ?_⟩
    rw [run_forms_cons]
    exact Computation.bind_of_error failed
  | formsTailFails _ _ headIH tailIH =>
    rcases headIH.common tailIH with ⟨room, head, failed⟩
    refine ⟨room, ?_⟩
    rw [run_forms_cons]
    apply Computation.bind_of_ok head
    exact Computation.bind_of_error failed
  | bindingsCons shape _ _ headIH tailIH =>
    rcases headIH.common tailIH with ⟨room, head, tail⟩
    refine ⟨room, ?_⟩
    rw [run_bindings_cons shape]
    apply Computation.bind_of_ok head
    exact Computation.bind_of_ok tail rfl
  | bindingMalformed shape =>
    refine ⟨0, ?_⟩
    simp only [run, List.mapM_cons, evalBinding, binding?_eq_none_iff.mpr shape]
    rfl
  | bindingsHeadFails shape _ ih =>
    rcases ih with ⟨room, failed⟩
    refine ⟨room, ?_⟩
    rw [run_bindings_cons shape]
    exact Computation.bind_of_error failed
  | bindingsTailFails shape _ _ headIH tailIH =>
    rcases headIH.common tailIH with ⟨room, head, failed⟩
    refine ⟨room, ?_⟩
    rw [run_bindings_cons shape]
    apply Computation.bind_of_ok head
    exact Computation.bind_of_error failed
  | builtin applied => exact ⟨0, by simp [run, call, applied]⟩
  | builtinFails applied => exact ⟨0, by simp [run, call, applied]⟩
  | closure arity _ ih =>
    rcases ih with ⟨room, evaluated⟩
    exact ⟨room, by simpa only [run, call, if_pos arity] using evaluated⟩
  | closureArity arity => exact ⟨0, by simp [run, call, arity]⟩

/-- The rules derive exactly what evaluation with enough room comes to. -/
theorem evaluates_form_iff {chain : Chain} {form : Form} {supply : Nat}
    {outcome : Outcome Meaning} :
    Evaluates (.form chain form) supply outcome ↔
      ∃ room, eval room chain form supply = some outcome := by
  constructor
  · exact Evaluates.reached
  · rintro ⟨room, found⟩
    exact eval_sound room chain form supply outcome found

end MiniLisp.Semantics
