import MiniLisp.Proofs.Form.Erasure
import MiniLisp.Proofs.Semantics.Lifting
import MiniLisp.Proofs.Semantics.Sameness

/-!
# Evaluation without quotes

A quote costs a level of depth and does nothing else.  A form and the form without its quotes come
to values that differ at most in the quotes within the bodies of closures, or to the same fault,
wherever the depth suffices for the form with its quotes.
-/

namespace MiniLisp

namespace Form

/-- The second form is the first one, either as it is or without its quotes.  Expressions inside a
special form without its shape stay as they are, and yet some of them may be evaluated. -/
def MayErase (form form' : Form) : Prop :=
  form' = form ∨ form.Unmasked ∧ form' = form.erase

theorem MayErase.refl (form : Form) : MayErase form form :=
  .inl rfl

theorem Unmasked.mayErase {form : Form} (unmasked : form.Unmasked) : MayErase form form.erase :=
  .inr ⟨unmasked, rfl⟩

theorem MayErase.eq_absent {form : Form} (erased : MayErase .absent form) : form = .absent := by
  rcases erased with rfl | ⟨-, rfl⟩
  · rfl
  · rw [erase]

theorem MayErase.eq_atom {token : Option Token} {value : Atom} {form : Form}
    (erased : MayErase (.atom token value) form) : form = .atom token value := by
  rcases erased with rfl | ⟨-, rfl⟩
  · rfl
  · rw [erase]

/-- Bindings with the same name, of expressions that are the same or without their quotes. -/
def PairMayErase (pair pair' : String × Form) : Prop :=
  pair.1 = pair'.1 ∧ MayErase pair.2 pair'.2

/-- Erasing the quotes in the expressions of a `define` leaves the names of its bindings. -/
theorem binding?_mayErase {bindings : List Form} {pairs : List (String × Form)}
    (shaped : bindings.mapM Eval.binding? = some pairs)
    (erased : ∀ pair ∈ pairs, pair.2.MayErase pair.2.erase) :
    List.Forall₂ (fun left right =>
        Option.Rel PairMayErase (Eval.binding? left) (Eval.binding? right))
      bindings (bindings.map eraseBinding) := by
  induction bindings generalizing pairs with
  | nil => exact .nil
  | cons first rest ih =>
    obtain ⟨name, expression, others, found, remaining, rfl⟩ :=
      Semantics.exists_of_mapM_binding?_cons shaped
    rw [List.forall_mem_cons] at erased
    refine .cons ?_ (ih remaining erased.2)
    rw [binding?_eraseBinding, found]
    exact .some ⟨rfl, erased.1⟩

end Form

namespace Semantics

/-! ## Values that differ in quotes alone -/

/-- Two functions differ at most in quotes within their bodies, and so do all functions within
their reach. -/
inductive Function.MayErase : Function → Function → Prop where
  | builtin (operation : Builtin) : MayErase (.builtin operation) (.builtin operation)
  | closure {identity : Nat} {params : List String} {body body' : Form} {chain chain' : Chain}
      (reach : Function → Function → Prop)
      (reached : ∀ left right, reach left right → MayErase left right)
      (bodies : body.MayErase body') (chains : Chain.Lift reach chain chain') :
      MayErase (.closure identity params body chain) (.closure identity params body' chain')

/-- Two meanings differ at most in quotes within the bodies of closures. -/
abbrev Meaning.MayErase : Meaning → Meaning → Prop :=
  Value.Lift Function.MayErase

theorem Function.MayErase.keepsIdentity : Value.KeepsIdentity Function.MayErase := by
  intro left left' right right' erased erased'
  cases erased <;> cases erased' <;> rfl

theorem Function.MayErase.render_eq (left right : Function) (erased : left.MayErase right) :
    Callee.render left = Callee.render right := by
  cases erased <;> rfl

/-! ## Computations that another one covers -/

namespace Computation

variable {α β γ δ : Type} {related : α → β → Prop} {related' : γ → δ → Prop}

/-- The second computation covers the first one if it comes to a related value with the same number
of closures, or to the same fault, wherever the first one has an outcome. -/
def Covers (related : α → β → Prop) (left : Computation α) (right : Computation β) : Prop :=
  ∀ supply outcome, left supply = some outcome → ∃ outcome', right supply = some outcome' ∧
    Builtin.Agree (fun found found' => related found.1 found'.1 ∧ found.2 = found'.2)
      outcome outcome'

namespace Covers

theorem exhausted (right : Computation β) : Covers related exhausted right := by
  intro supply outcome found
  cases found

theorem fail (fault : Fault) : Covers related (fail fault) (fail fault) := by
  rintro supply _ ⟨⟩
  exact ⟨_, rfl, .error fault⟩

theorem pure {value : α} {value' : β} (holds : related value value') :
    Covers related (pure value) (pure value') := by
  rintro supply _ ⟨⟩
  exact ⟨_, rfl, .ok ⟨holds, rfl⟩⟩

theorem newIdentity : Covers Eq newIdentity newIdentity := by
  rintro supply _ ⟨⟩
  exact ⟨_, rfl, .ok ⟨rfl, rfl⟩⟩

/-- A computation with more outcomes covers as much and more. -/
theorem below {left : Computation α} {right right' : Computation β}
    (covers : Covers related left right) (more : right.Below right') :
    Covers related left right' := by
  intro supply outcome found
  obtain ⟨outcome', found', agree⟩ := covers supply outcome found
  exact ⟨outcome', more _ _ found', agree⟩

theorem bind {left : Computation α} {right : Computation β} {next : α → Computation γ}
    {next' : β → Computation δ} (first : Covers related left right)
    (continued : ∀ value value', related value value' →
      Covers related' (next value) (next' value')) :
    Covers related' (left >>= next) (right >>= next') := by
  intro supply outcome found
  rcases bind_eq_some_iff.mp found with ⟨fault, failed, rfl⟩ | ⟨value, middle, done, rest⟩
  · obtain ⟨_, failed', agree⟩ := first _ _ failed
    cases agree
    exact ⟨_, bind_of_error failed', .error fault⟩
  · obtain ⟨_, done', agree⟩ := first _ _ done
    cases agree with
    | @ok _ after holds =>
      obtain ⟨value', middle'⟩ := after
      obtain ⟨holds, rfl⟩ : related value value' ∧ middle = middle' := holds
      obtain ⟨outcome', rest', agree⟩ := continued value value' holds _ _ rest
      exact ⟨outcome', bind_of_ok done' rest', agree⟩

theorem mapM {ι κ : Type} {alike : ι → κ → Prop} {action : ι → Computation α}
    {action' : κ → Computation β} {items : List ι} {items' : List κ}
    (paired : List.Forall₂ alike items items')
    (each : ∀ item item', alike item item' → Covers related (action item) (action' item')) :
    Covers (List.Forall₂ related) (items.mapM action) (items'.mapM action') := by
  induction paired with
  | nil => exact .pure .nil
  | cons holds _ ih =>
    simp only [List.mapM_cons]
    apply (each _ _ holds).bind
    intro value value' first
    apply ih.bind
    intro values values' rest
    exact .pure (.cons first rest)

end Covers

end Computation

/-! ## Parts of an evaluation -/

/-- One evaluation of forms inside covers another one wherever chains and forms differ in quotes
alone. -/
def CoverInside (inner inner' : Interpretation) : Prop :=
  ∀ chain chain' form form', Chain.Lift Function.MayErase chain chain' → form.MayErase form' →
    Computation.Covers Meaning.MayErase (inner chain form) (inner' chain' form')

section Inside

variable {inner inner' : Interpretation} (inside : CoverInside inner inner')
variable {chain chain' : Chain} (chains : Chain.Lift Function.MayErase chain chain')

include inside

theorem call_covers {callee callee' : Function} (erased : callee.MayErase callee')
    {arguments arguments' : List Meaning}
    (paired : List.Forall₂ Meaning.MayErase arguments arguments') :
    Computation.Covers Meaning.MayErase (call inner callee arguments)
      (call inner' callee' arguments') := by
  have lengths := paired.length_eq
  cases erased with
  | builtin operation =>
    have agree := Builtin.apply_agree Function.MayErase.keepsIdentity operation
      (Value.liftItems_iff_forall₂.mpr paired)
    simp only [call]
    generalize operation.apply arguments = result, operation.apply arguments' = result' at agree ⊢
    cases agree with
    | ok holds => exact .pure holds
    | error cause => exact .fail _
  | @closure identity params body body' chain chain' reach reached bodies chains =>
    have closed : Chain.Lift Function.MayErase chain chain' := chains.mono reached
    simp only [call, lengths]
    split
    · apply inside _ _ _ _ (closed.cons _) bodies
      exact List.rel_reverse (PairLift.zip paired params)
    · exact .fail _

include chains

theorem evalBinding_covers {binding binding' : Form}
    (pairs : Option.Rel Form.PairMayErase (Eval.binding? binding) (Eval.binding? binding')) :
    Computation.Covers (PairLift Function.MayErase) (evalBinding inner chain binding)
      (evalBinding inner' chain' binding') := by
  simp only [evalBinding]
  generalize Eval.binding? binding = found, Eval.binding? binding' = found' at pairs ⊢
  cases pairs with
  | none => exact .fail _
  | some erased =>
    apply (inside _ _ _ _ chains erased.2).bind
    intro value value' holds
    exact .pure ⟨erased.1, holds⟩

variable {head body body' : Form} {token : Option Token} {label : Option Nat}

theorem define_covers {bindings bindings' : List Form}
    (paired : List.Forall₂ (fun left right =>
        Option.Rel Form.PairMayErase (Eval.binding? left) (Eval.binding? right))
      bindings bindings') (bodies : body.MayErase body') :
    Computation.Covers Meaning.MayErase
      (evalSpecial inner chain .define [head, .list token label bindings, body])
      (evalSpecial inner' chain' .define [head, .list token label bindings', body']) := by
  apply (Computation.Covers.mapM paired
    fun _ _ pairs => evalBinding_covers inside chains pairs).bind
  intro pairs pairs' lifted
  exact inside _ _ _ _ (chains.cons (List.rel_reverse lifted)) bodies

theorem conditional_covers {condition condition' consequent consequent' alternative : Form}
    {alternative' : Form} (conditions : condition.MayErase condition')
    (consequents : consequent.MayErase consequent')
    (alternatives : alternative.MayErase alternative') :
    Computation.Covers Meaning.MayErase
      (evalSpecial inner chain .conditional [head, condition, consequent, alternative])
      (evalSpecial inner' chain' .conditional
        [head, condition', consequent', alternative']) := by
  apply (inside _ _ _ _ chains conditions).bind
  intro value value' holds
  rw [holds.truthy_eq]
  split
  · exact inside _ _ _ _ chains consequents
  · exact inside _ _ _ _ chains alternatives

omit inside in
theorem lambda_covers {params : List Form} {names : List String}
    (named : params.mapM Form.symbolName? = some names) (bodies : body.MayErase body') :
    Computation.Covers Meaning.MayErase
      (evalSpecial inner chain .lambda [head, .list token label params, body])
      (evalSpecial inner' chain' .lambda [head, .list token label params, body']) := by
  simp only [evalSpecial, named]
  apply Computation.Covers.newIdentity.bind
  rintro identity _ rfl
  -- The new closure reaches the functions of its chain, and these are already known to be related.
  exact .pure (.closure Function.MayErase (fun _ _ => id) bodies chains)

/-- A special form as it is, in chains that differ in quotes alone. -/
theorem evalSpecial_covers (special : SpecialForm) (items : List Form) :
    Computation.Covers Meaning.MayErase (evalSpecial inner chain special items)
      (evalSpecial inner' chain' special items) := by
  fun_cases evalSpecial inner chain special items with
  | case1 head token label bindings body =>
    refine define_covers inside chains ?_ (.refl body)
    rw [List.forall₂_same]
    intro binding _
    cases Eval.binding? binding with
    | none => exact .none
    | some pair => exact .some ⟨rfl, .refl _⟩
  | case2 head token label params body names named =>
    have covers : Computation.Covers Meaning.MayErase
        (evalSpecial inner chain .lambda [head, .list token label params, body])
        (evalSpecial inner' chain' .lambda [head, .list token label params, body]) :=
      lambda_covers chains named (.refl body)
    simpa only [evalSpecial, named] using covers
  | case3 head token label params body unnamed =>
    simp only [evalSpecial, unnamed]
    exact .fail _
  | case4 head condition consequent alternative =>
    exact conditional_covers inside chains (.refl _) (.refl _) (.refl _)
  | case5 head expression => exact inside _ _ _ _ chains (.refl expression)
  | case6 special items noDefine noLambda noConditional noQuote =>
    rw [evalSpecial]
    · exact .fail _
    all_goals assumption

theorem evalOrdinary_covers {items items' : List Form}
    (paired : List.Forall₂ Form.MayErase items items') :
    Computation.Covers Meaning.MayErase (evalOrdinary inner chain items)
      (evalOrdinary inner' chain' items') := by
  apply (Computation.Covers.mapM paired fun item item' => inside _ _ item item' chains).bind
  intro values values' lifted
  cases lifted with
  | nil => exact .pure trivial
  | @cons first first' rest rest' holds others =>
    cases first <;> cases first' <;> try exact holds.elim
    case function.function => exact call_covers inside holds others
    all_goals exact .pure (Value.liftItems_iff_forall₂.mpr (.cons holds others))

end Inside

theorem evalAtom_covers {chain chain' : Chain}
    (chains : Chain.Lift Function.MayErase chain chain') (value : Atom) :
    Computation.Covers Meaning.MayErase (evalAtom chain value) (evalAtom chain' value) := by
  cases value with
  | int value => exact .pure rfl
  | string text => exact .pure rfl
  | symbol name =>
    have resolved := chains name
    simp only [evalAtom]
    generalize chain.value? name = found, chain'.value? name = found' at resolved ⊢
    cases resolved with
    | some holds => exact .pure holds
    | none => exact .fail _

/-! ## A list with and without its quotes -/

section Lists

variable {room : Nat} {chain chain' : Chain} {token : Option Token} {label : Option Nat}
variable {items : List Form}

theorem eval_ordinary (ordinary : Ordinary items) :
    eval (room + 1) chain (.list token label items) = evalOrdinary (eval room) chain items := by
  rw [eval, evalList, special?_eq_none_iff.mpr ordinary]

theorem eval_reserved {special : SpecialForm} {head : Form} (reserved : Reserves special head) :
    eval (room + 1) chain (.list token label (head :: items)) =
      evalSpecial (eval room) chain special (head :: items) := by
  rw [eval, evalList, special?_cons_eq_some_iff.mpr reserved]

variable (inside : CoverInside (eval room) (eval room))
variable (chains : Chain.Lift Function.MayErase chain chain')

include inside chains

theorem eval_list_covers (token token' : Option Token) (label label' : Option Nat)
    (items : List Form) :
    Computation.Covers Meaning.MayErase (eval (room + 1) chain (.list token label items))
      (eval (room + 1) chain' (.list token' label' items)) := by
  simp only [eval, evalList]
  cases Eval.special? items with
  | some special => exact evalSpecial_covers inside chains special items
  | none =>
    apply evalOrdinary_covers inside chains
    exact List.forall₂_same.mpr fun item _ => .refl item

theorem eval_erase_ordinary_covers (unmasked : Form.Unmasked (.list token label items))
    (ordinary : Ordinary items) :
    Computation.Covers Meaning.MayErase (eval (room + 1) chain (.list token label items))
      (eval (room + 1) chain' (Form.erase (.list token label items))) := by
  rw [Form.erase_ordinary ordinary, eval_ordinary ordinary,
    eval_ordinary (unmasked.ordinary_map ordinary)]
  apply evalOrdinary_covers inside chains
  rw [List.forall₂_map_right_iff, List.forall₂_same]
  intro item among
  exact (unmasked.operand (by rwa [Form.operands_ordinary ordinary])).mayErase

theorem eval_erase_reserved_covers {special : SpecialForm} {head : Form}
    (unmasked : Form.Unmasked (.list token label (head :: items)))
    (reserved : Reserves special head) :
    Computation.Covers Meaning.MayErase
      (eval (room + 1) chain (.list token label (head :: items)))
      (eval (room + 1) chain' (Form.erase (.list token label (head :: items)))) := by
  have operands : ∀ part ∈ Form.specialOperands special (head :: items), part.MayErase part.erase :=
    fun part among =>
      (unmasked.operand (Form.operands_reserved reserved ▸ among)).mayErase
  rw [Form.erase_reserved reserved]
  generalize whole : head :: items = list at operands
  fun_cases Form.eraseSpecial token label special list with
  | case1 head token' label' bindings body pairs shaped =>
    cases whole
    simp only [Form.specialOperands, shaped, List.forall_mem_cons, List.forall_mem_map] at operands
    rw [eval_reserved reserved, eval_reserved reserved, Form.eraseBindings_eq_map]
    exact define_covers inside chains (Form.binding?_mayErase shaped operands.2) operands.1
  | case3 head token' label' params body names named =>
    cases whole
    simp only [Form.specialOperands, named, List.forall_mem_singleton] at operands
    rw [eval_reserved reserved, eval_reserved reserved]
    exact lambda_covers chains named operands
  | case5 head condition consequent alternative =>
    cases whole
    simp only [Form.specialOperands, List.forall_mem_cons] at operands
    obtain ⟨conditions, consequents, alternatives, -⟩ := operands
    rw [eval_reserved reserved, eval_reserved reserved]
    exact conditional_covers inside chains conditions consequents alternatives
  | case6 head expression =>
    cases whole
    simp only [Form.specialOperands, List.forall_mem_singleton] at operands
    rw [eval_reserved reserved]
    -- The quote takes one level, which its operand now has to spare.
    have covers := inside _ _ _ _ chains operands
    exact covers.below (eval_below_succ room chain' expression.erase)
  | case2 | case4 | case7 =>
    cases whole
    exact eval_list_covers inside chains _ _ _ _ _

end Lists

/-- A form covers the same form, with or without its quotes, in chains that differ in quotes
alone. -/
theorem eval_covers (room : Nat) : CoverInside (eval room) (eval room) := by
  induction room with
  | zero =>
    intro chain chain' form form' _ erased
    cases form with
    | absent =>
      cases erased.eq_absent
      exact .pure trivial
    | atom | list => exact .exhausted _
  | succ room ih =>
    intro chain chain' form form' chains erased
    cases form with
    | absent =>
      cases erased.eq_absent
      exact .pure trivial
    | atom token value =>
      cases erased.eq_atom
      exact evalAtom_covers chains value
    | list token label items =>
      rcases erased with rfl | ⟨unmasked, rfl⟩
      · exact eval_list_covers ih chains _ _ _ _ items
      · cases found : Eval.special? items with
        | none =>
          exact eval_erase_ordinary_covers ih chains unmasked (special?_eq_none_iff.mp found)
        | some special =>
          cases items with
          | nil => cases found
          | cons head rest =>
            exact eval_erase_reserved_covers ih chains unmasked
              (special?_cons_eq_some_iff.mp found)

end Semantics

/-! ## Answers of a machine -/

namespace Interpreter

/-- Without its quotes a form gives the same answer in fresh root scopes of any two machines, unless
it needs more depth than the interpreter admits. -/
theorem evaluate_erase (interpreter : Interpreter) {form : Form} (unmasked : form.Unmasked)
    (machine machine' : Machine)
    (shallow : ¬Semantics.ExceedsDepth (interpreter.evaluate form none machine).1) :
    SameAnswer (interpreter.evaluate form none machine).1
      (interpreter.evaluate form.erase none machine').1 := by
  have mirrors := Semantics.evaluate_mirrors interpreter form machine
  have mirrors' := Semantics.evaluate_mirrors interpreter form.erase machine'
  have covers := Semantics.eval_covers interpreter.limit _ _ _ _ (.root .builtin)
    unmasked.mayErase 0
  generalize interpreter.evaluate form none machine = result at mirrors shallow ⊢
  generalize interpreter.evaluate form.erase none machine' = result' at mirrors' ⊢
  cases denoted : Semantics.eval interpreter.limit .root form 0 with
  | none =>
    rw [denoted] at mirrors
    exact absurd mirrors.exceedsDepth shallow
  | some outcome =>
    obtain ⟨outcome', denoted', agree⟩ := covers outcome denoted
    rw [denoted] at mirrors
    rw [denoted'] at mirrors'
    cases agree with
    | error fault =>
      cases mirrors
      cases mirrors'
      exact .fault fault
    | ok holds =>
      obtain ⟨meanings, -⟩ := holds
      cases mirrors with
      | value _ _ means =>
        cases mirrors' with
        | value _ _ means' =>
          apply SameAnswer.value
          rw [means.render_eq Semantics.Stands.render_eq,
            means'.render_eq Semantics.Stands.render_eq,
            meanings.render_eq Semantics.Function.MayErase.render_eq]

/-- Quotes can be erased: an interpreter that has enough depth for a form answers the form without
its quotes alike.  So it does where it reads both as texts, whatever their layout is. -/
theorem answers_without_quotes (interpreter : Interpreter) {form : Form}
    (unmasked : form.Unmasked) :
    (∀ machine machine' : Machine,
      ¬Semantics.ExceedsDepth (interpreter.evaluate form none machine).1 →
        SameAnswer (interpreter.evaluate form none machine).1
          (interpreter.evaluate form.erase none machine').1) ∧
    ∀ {source source' : List Char} {form' : Form}, Form.parse source = .ok form →
      Form.parse source' = .ok form' → form'.same form.erase = true →
      ∀ machine machine' : Machine,
        ¬Semantics.ExceedsDepth (interpreter.interpret source machine).1 →
          SameAnswer (interpreter.interpret source machine).1
            (interpreter.interpret source' machine').1 := by
  refine ⟨interpreter.evaluate_erase unmasked, ?_⟩
  intro source source' form' accepted accepted' alike machine machine' shallow
  rw [Semantics.interpret_eq_evaluate accepted] at shallow ⊢
  rw [Semantics.interpret_eq_evaluate accepted']
  have erased := interpreter.evaluate_erase unmasked machine machine' shallow
  exact erased.trans (interpreter.evaluate_same (Form.same_symm alike) machine' machine')

/-- The word may be a parameter at the same time, and a quote may stand around a function. -/
theorem answers_without_quotes_parameter :
    ∃ form form',
      Form.parse "((quote (lambda (quote) ((quote +) quote (quote quote)))) 20)".toList =
        .ok form ∧
      Form.parse "((lambda (quote) (+ quote quote)) 20)".toList = .ok form' ∧
      form.Unmasked ∧ form'.same form.erase = true ∧
      ∀ machine machine' : Machine,
        ¬Semantics.ExceedsDepth ((Interpreter.mk 4 none).interpret
            "((quote (lambda (quote) ((quote +) quote (quote quote)))) 20)".toList machine).1 ∧
          SameAnswer
            ((Interpreter.mk 4 none).interpret
              "((quote (lambda (quote) ((quote +) quote (quote quote)))) 20)".toList machine).1
            ((Interpreter.mk 4 none).interpret
              "((lambda (quote) (+ quote quote)) 20)".toList machine').1 := by
  obtain ⟨form, form', accepted, accepted', checked, alike, denoted⟩ : ∃ form form',
      Form.parse "((quote (lambda (quote) ((quote +) quote (quote quote)))) 20)".toList =
        .ok form ∧
      Form.parse "((lambda (quote) (+ quote quote)) 20)".toList = .ok form' ∧
      form.unmaskedBelow 6 = true ∧ form'.same form.erase = true ∧
      Semantics.eval (Interpreter.mk 4 none).limit .root form 0 = some (.ok (.int 40, 1)) :=
    ⟨_, _, rfl, rfl, by decide +kernel, by decide +kernel, rfl⟩
  have unmasked := Form.unmasked_of_unmaskedBelow checked
  refine ⟨form, form', accepted, accepted', unmasked, alike, ?_⟩
  intro machine machine'
  have shallow : ¬Semantics.ExceedsDepth ((Interpreter.mk 4 none).interpret
      "((quote (lambda (quote) ((quote +) quote (quote quote)))) 20)".toList machine).1 := by
    rw [Semantics.interpret_eq_evaluate accepted, Semantics.evaluate_of_int denoted machine]
    rintro ⟨fault, failed, -⟩
    cases failed
  exact ⟨shallow, (answers_without_quotes _ unmasked).2 accepted accepted' alike
    machine machine' shallow⟩

end Interpreter

end MiniLisp
