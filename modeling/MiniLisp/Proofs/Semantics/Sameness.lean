import MiniLisp.Proofs.Form.RoundTrip
import MiniLisp.Proofs.Semantics.Adequacy
import MiniLisp.Proofs.Semantics.Lifting

/-!
# Evaluation of forms that are the same

Where a form was read plays no part in its evaluation.  Forms that are the same come to values that
differ at most in the positions within the bodies of closures, or to the same fault, and they need
the same depth.  So they give the same answer on any two machines, whatever ran there before.
-/

namespace MiniLisp

/-! ## The shapes of forms that are the same -/

namespace Form

theorem eq_absent_of_same {form : Form} (alike : form.same .absent = true) : form = .absent := by
  cases form with
  | absent => rfl
  | atom | list => cases alike

theorem symbolName?_eq_of_same {left right : Form} (alike : left.same right = true) :
    left.symbolName? = right.symbolName? := by
  cases right with
  | absent => rw [eq_absent_of_same alike]
  | atom token value =>
    obtain ⟨token', rfl⟩ := exists_of_same_atom alike
    cases value <;> rfl
  | list token label items =>
    obtain ⟨token', label', items', rfl, -⟩ := exists_of_same_list alike
    rfl

variable {lefts rights : List Form}

theorem special?_eq_of_sameItems (alike : sameItems lefts rights = true) :
    Eval.special? lefts = Eval.special? rights := by
  cases sameItems_iff_forall₂.mp alike with
  | nil => rfl
  | cons sameHead _ => simp only [Eval.special?, symbolName?_eq_of_same sameHead]

theorem mapM_symbolName?_eq_of_sameItems (alike : sameItems lefts rights = true) :
    lefts.mapM symbolName? = rights.mapM symbolName? := by
  induction sameItems_iff_forall₂.mp alike with
  | nil => rfl
  | cons sameHead sameRest ih =>
    rw [List.mapM_cons, List.mapM_cons, symbolName?_eq_of_same sameHead,
      ih (sameItems_iff_forall₂.mpr sameRest)]

theorem exists_of_sameItems_two {items : List Form} {first second : Form}
    (alike : sameItems items [first, second] = true) :
    ∃ first' second', items = [first', second'] ∧ first'.same first = true ∧
      second'.same second = true := by
  obtain ⟨first', rest, rfl, sameFirst, alike⟩ := exists_of_sameItems_cons alike
  obtain ⟨second', rest, rfl, sameSecond, alike⟩ := exists_of_sameItems_cons alike
  cases sameItems_iff_forall₂.mp alike
  exact ⟨first', second', rfl, sameFirst, sameSecond⟩

theorem exists_of_sameItems_four {items : List Form} {first second third fourth : Form}
    (alike : sameItems items [first, second, third, fourth] = true) :
    ∃ first' second' third' fourth', items = [first', second', third', fourth'] ∧
      second'.same second = true ∧ third'.same third = true ∧ fourth'.same fourth = true := by
  obtain ⟨first', rest, rfl, -, alike⟩ := exists_of_sameItems_cons alike
  obtain ⟨second', rest, rfl, sameSecond, alike⟩ := exists_of_sameItems_cons alike
  obtain ⟨third', fourth', rfl, sameThird, sameFourth⟩ := exists_of_sameItems_two alike
  exact ⟨first', second', third', fourth', rfl, sameSecond, sameThird, sameFourth⟩

/-- The shape of a `define` or a `lambda`: a head, a list and a body. -/
theorem exists_of_sameItems_block {items inner : List Form} {head body : Form}
    {token : Option Token} {label : Option Nat}
    (alike : sameItems items [head, .list token label inner, body] = true) :
    ∃ head' token' label' inner' body', items = [head', .list token' label' inner', body'] ∧
      sameItems inner' inner = true ∧ body'.same body = true := by
  obtain ⟨head', rest, rfl, -, alike⟩ := exists_of_sameItems_cons alike
  obtain ⟨list, body', rfl, sameList, sameBody⟩ := exists_of_sameItems_two alike
  obtain ⟨token', label', inner', rfl, sameInner⟩ := exists_of_same_list sameList
  exact ⟨head', token', label', inner', body', rfl, sameInner, sameBody⟩

/-- Bindings that are the same give the same name to expressions that are the same. -/
theorem binding?_of_same {left right : Form} (alike : left.same right = true) :
    Option.Rel (fun pair pair' => pair.1 = pair'.1 ∧ pair.2.same pair'.2 = true)
      (Eval.binding? left) (Eval.binding? right) := by
  fun_cases Eval.binding? right with
  | case1 token label name expression =>
    obtain ⟨token', label', items, rfl, sameItems⟩ := exists_of_same_list alike
    obtain ⟨name', expression', rfl, sameName, sameExpression⟩ := exists_of_sameItems_two sameItems
    simp only [Eval.binding?, symbolName?_eq_of_same sameName]
    cases name.symbolName? with
    | none => exact .none
    | some name => exact .some ⟨rfl, sameExpression⟩
  | case2 right noPair =>
    rw [Eval.binding?]
    · exact .none
    · rintro token label name expression rfl
      obtain ⟨token', label', items, rfl, sameItems⟩ := exists_of_same_list (same_symm alike)
      obtain ⟨name', expression', rfl, -⟩ := exists_of_sameItems_two sameItems
      exact noPair _ _ _ _ rfl

end Form

namespace Semantics

/-! ## Values that differ in positions alone -/

/-- Two functions are alike if they differ at most in the positions within their bodies, and so do
all functions within their reach.  The relation between these is a parameter of the rule for
closures, since values are built up from functions in a definition of their own. -/
inductive Function.Alike : Function → Function → Prop where
  | builtin (operation : Builtin) : Alike (.builtin operation) (.builtin operation)
  | closure {identity : Nat} {params : List String} {body body' : Form} {chain chain' : Chain}
      (reach : Function → Function → Prop)
      (reached : ∀ left right, reach left right → Alike left right)
      (bodies : body.same body' = true)
      (chains : ∀ name, Option.Rel (Value.Lift reach) (chain.value? name) (chain'.value? name)) :
      Alike (.closure identity params body chain) (.closure identity params body' chain')

/-- Two meanings are alike if their functions are. -/
abbrev Meaning.Alike : Meaning → Meaning → Prop :=
  Value.Lift Function.Alike

/-- Two chains are alike if they bind the same names to meanings that are alike. -/
def Chain.Alike (chain chain' : Chain) : Prop :=
  ∀ name, Option.Rel Meaning.Alike (chain.value? name) (chain'.value? name)

/-- Pairs of names and meanings are alike if the names are the same. -/
def PairAlike (left right : String × Meaning) : Prop :=
  left.1 = right.1 ∧ Meaning.Alike left.2 right.2

theorem Function.Alike.keepsIdentity : Value.KeepsIdentity Function.Alike := by
  intro left left' right right' alike alike'
  cases alike <;> cases alike' <;> rfl

theorem Function.Alike.render_eq (left right : Function) (alike : left.Alike right) :
    Callee.render left = Callee.render right := by
  cases alike <;> rfl

theorem Function.Alike.chain {reach : Function → Function → Prop}
    (reached : ∀ left right, reach left right → left.Alike right) {chain chain' : Chain}
    (chains : Chain.Lift reach chain chain') : chain.Alike chain' :=
  chains.mono reached

theorem PairAlike.zip {arguments arguments' : List Meaning}
    (paired : List.Forall₂ Meaning.Alike arguments arguments') (params : List String) :
    List.Forall₂ PairAlike (params.zip arguments) (params.zip arguments') :=
  PairLift.zip paired params

namespace Chain.Alike

theorem cons {chain chain' : Chain} (alike : chain.Alike chain') {frame frame' : Frame}
    (paired : List.Forall₂ PairAlike frame frame') :
    Chain.Alike (frame :: chain) (frame' :: chain') :=
  Chain.Lift.cons alike paired

theorem root : Chain.root.Alike Chain.root :=
  Chain.Lift.root .builtin

end Chain.Alike

/-! ## Computations that come to the same -/

namespace Computation

variable {α β γ δ : Type} {related : α → β → Prop} {related' : γ → δ → Prop}

/-- Two computations agree if they come to related values with the same number of closures, to the
same fault, or both to nothing. -/
def Agrees (related : α → β → Prop) (left : Computation α) (right : Computation β) : Prop :=
  ∀ supply, Option.Rel
    (Builtin.Agree fun found found' => related found.1 found'.1 ∧ found.2 = found'.2)
    (left supply) (right supply)

namespace Agrees

theorem pure {value : α} {value' : β} (holds : related value value') :
    Agrees related (pure value) (pure value') :=
  fun _ => .some (.ok ⟨holds, rfl⟩)

theorem fail (fault : Fault) : Agrees related (fail fault) (fail fault) :=
  fun _ => .some (.error fault)

theorem exhausted : Agrees related exhausted exhausted :=
  fun _ => .none

theorem newIdentity : Agrees Eq newIdentity newIdentity :=
  fun _ => .some (.ok ⟨rfl, rfl⟩)

theorem bind {left : Computation α} {right : Computation β} {next : α → Computation γ}
    {next' : β → Computation δ} (first : Agrees related left right)
    (continued : ∀ value value', related value value' →
      Agrees related' (next value) (next' value')) :
    Agrees related' (left >>= next) (right >>= next') := by
  intro supply
  rw [bind_apply, bind_apply]
  match left supply, right supply, first supply with
  | _, _, .none => exact .none
  | _, _, .some (.error fault) => exact .some (.error fault)
  | some (.ok (value, middle)), some (.ok (value', _)), .some (.ok ⟨holds, rfl⟩) =>
    exact continued value value' holds middle

theorem mapM {ι κ : Type} {alike : ι → κ → Prop} {action : ι → Computation α}
    {action' : κ → Computation β} {items : List ι} {items' : List κ}
    (paired : List.Forall₂ alike items items')
    (each : ∀ item item', alike item item' → Agrees related (action item) (action' item')) :
    Agrees (List.Forall₂ related) (items.mapM action) (items'.mapM action') := by
  induction paired with
  | nil => exact .pure .nil
  | cons holds _ ih =>
    simp only [List.mapM_cons]
    apply (each _ _ holds).bind
    intro value value' first
    apply ih.bind
    intro values values' rest
    exact .pure (.cons first rest)

end Agrees

end Computation

/-! ## Parts of an evaluation -/

/-- Two evaluations of forms inside agree wherever the chains are alike and the forms the same. -/
def AgreeInside (inner inner' : Interpretation) : Prop :=
  ∀ chain chain' form form', chain.Alike chain' → form.same form' = true →
    Computation.Agrees Meaning.Alike (inner chain form) (inner' chain' form')

section Inside

variable {inner inner' : Interpretation} (inside : AgreeInside inner inner')
variable {chain chain' : Chain} (chains : chain.Alike chain')

include inside

theorem call_agrees {callee callee' : Function} (alike : callee.Alike callee')
    {arguments arguments' : List Meaning}
    (paired : List.Forall₂ Meaning.Alike arguments arguments') :
    Computation.Agrees Meaning.Alike (call inner callee arguments)
      (call inner' callee' arguments') := by
  have lengths := paired.length_eq
  cases alike with
  | builtin operation =>
    have agree := Builtin.apply_agree Function.Alike.keepsIdentity operation
      (Value.liftItems_iff_forall₂.mpr paired)
    simp only [call]
    generalize operation.apply arguments = result, operation.apply arguments' = result' at agree ⊢
    cases agree with
    | ok alike => exact .pure alike
    | error cause => exact .fail _
  | @closure identity params body body' chain chain' reach reached bodies chains =>
    have closed : chain.Alike chain' := Function.Alike.chain reached chains
    simp only [call, lengths]
    split
    · apply inside _ _ _ _ (closed.cons _) bodies
      exact List.rel_reverse (PairAlike.zip paired params)
    · exact .fail _

include chains

theorem evalBinding_agrees {binding binding' : Form} (alike : binding.same binding' = true) :
    Computation.Agrees PairAlike (evalBinding inner chain binding)
      (evalBinding inner' chain' binding') := by
  have pairs := Form.binding?_of_same alike
  simp only [evalBinding]
  generalize Eval.binding? binding = found, Eval.binding? binding' = found' at pairs ⊢
  cases pairs with
  | none => exact .fail _
  | some same =>
    apply (inside _ _ _ _ chains same.2).bind
    intro value value' alike
    exact .pure ⟨same.1, alike⟩

theorem evalSpecial_agrees (special : SpecialForm) {items items' : List Form}
    (alike : Form.sameItems items items' = true) :
    Computation.Agrees Meaning.Alike (evalSpecial inner chain special items)
      (evalSpecial inner' chain' special items') := by
  fun_cases evalSpecial inner' chain' special items' with
  | case1 head token label bindings body =>
    obtain ⟨_, _, _, bindings', body', rfl, sameBindings, sameBody⟩ :=
      Form.exists_of_sameItems_block alike
    apply (Computation.Agrees.mapM (Form.sameItems_iff_forall₂.mp sameBindings)
      fun _ _ same => evalBinding_agrees inside chains same).bind
    intro pairs pairs' paired
    exact inside _ _ _ _ (chains.cons (List.rel_reverse paired)) sameBody
  | case2 head token label params body names named =>
    obtain ⟨_, _, _, params', body', rfl, sameParams, sameBody⟩ :=
      Form.exists_of_sameItems_block alike
    simp only [evalSpecial, Form.mapM_symbolName?_eq_of_sameItems sameParams, named]
    apply Computation.Agrees.newIdentity.bind
    rintro identity _ rfl
    -- The new closure reaches the functions of its chain, and these are already known to be alike.
    exact .pure (.closure Function.Alike (fun _ _ => id) sameBody chains)
  | case3 head token label params body unnamed =>
    obtain ⟨_, _, _, params', body', rfl, sameParams, sameBody⟩ :=
      Form.exists_of_sameItems_block alike
    simp only [evalSpecial, Form.mapM_symbolName?_eq_of_sameItems sameParams, unnamed]
    exact .fail _
  | case4 head condition consequent alternative =>
    obtain ⟨_, condition', consequent', alternative', rfl, sameCondition, sameConsequent,
      sameAlternative⟩ := Form.exists_of_sameItems_four alike
    apply (inside _ _ _ _ chains sameCondition).bind
    intro value value' alikeValue
    rw [alikeValue.truthy_eq]
    split
    · exact inside _ _ _ _ chains sameConsequent
    · exact inside _ _ _ _ chains sameAlternative
  | case5 head expression =>
    obtain ⟨_, expression', rfl, -, sameExpression⟩ := Form.exists_of_sameItems_two alike
    exact inside _ _ _ _ chains sameExpression
  | case6 special items' noDefine noLambda noConditional noQuote =>
    -- A list that is the same as a malformed one is malformed itself.
    have back := Form.sameItems_symm alike
    fun_cases evalSpecial inner chain special items with
    | case1 =>
      obtain ⟨_, _, _, _, _, rfl, -⟩ := Form.exists_of_sameItems_block back
      exact (noDefine _ _ _ _ _ rfl rfl).elim
    | case2 | case3 =>
      obtain ⟨_, _, _, _, _, rfl, -⟩ := Form.exists_of_sameItems_block back
      exact (noLambda _ _ _ _ _ rfl rfl).elim
    | case4 =>
      obtain ⟨_, _, _, _, rfl, -⟩ := Form.exists_of_sameItems_four back
      exact (noConditional _ _ _ _ rfl rfl).elim
    | case5 =>
      obtain ⟨_, _, rfl, -⟩ := Form.exists_of_sameItems_two back
      exact (noQuote _ _ rfl rfl).elim
    | case6 => exact .fail _

theorem evalOrdinary_agrees {items items' : List Form}
    (alike : Form.sameItems items items' = true) :
    Computation.Agrees Meaning.Alike (evalOrdinary inner chain items)
      (evalOrdinary inner' chain' items') := by
  apply (Computation.Agrees.mapM (Form.sameItems_iff_forall₂.mp alike)
    fun item item' same => inside _ _ _ _ chains same).bind
  intro values values' paired
  cases paired with
  | nil => exact .pure trivial
  | @cons first first' rest rest' alikeFirst alikeRest =>
    cases first <;> cases first' <;> try exact alikeFirst.elim
    case function.function => exact call_agrees inside alikeFirst alikeRest
    all_goals exact .pure (Value.liftItems_iff_forall₂.mpr (.cons alikeFirst alikeRest))

theorem evalList_agrees {items items' : List Form} (alike : Form.sameItems items items' = true) :
    Computation.Agrees Meaning.Alike (evalList inner chain items)
      (evalList inner' chain' items') := by
  simp only [evalList, Form.special?_eq_of_sameItems alike]
  cases Eval.special? items' with
  | some special => exact evalSpecial_agrees inside chains special alike
  | none => exact evalOrdinary_agrees inside chains alike

end Inside

theorem evalAtom_agrees {chain chain' : Chain} (chains : chain.Alike chain') (value : Atom) :
    Computation.Agrees Meaning.Alike (evalAtom chain value) (evalAtom chain' value) := by
  cases value with
  | int value => exact .pure rfl
  | string text => exact .pure rfl
  | symbol name =>
    have resolved := chains name
    simp only [evalAtom]
    generalize chain.value? name = found, chain'.value? name = found' at resolved ⊢
    cases resolved with
    | some alike => exact .pure alike
    | none => exact .fail _

/-- Forms that are the same come to the same in chains that are alike, with the same room. -/
theorem eval_agrees (room : Nat) : AgreeInside (eval room) (eval room) := by
  induction room with
  | zero =>
    intro chain chain' form form' _ alike
    cases form' with
    | absent =>
      cases Form.eq_absent_of_same alike
      exact .pure trivial
    | atom token value =>
      obtain ⟨token', rfl⟩ := Form.exists_of_same_atom alike
      exact .exhausted
    | list token label items =>
      obtain ⟨token', label', items', rfl, -⟩ := Form.exists_of_same_list alike
      exact .exhausted
  | succ room ih =>
    intro chain chain' form form' chains alike
    cases form' with
    | absent =>
      cases Form.eq_absent_of_same alike
      exact .pure trivial
    | atom token value =>
      obtain ⟨token', rfl⟩ := Form.exists_of_same_atom alike
      exact evalAtom_agrees chains value
    | list token label items =>
      obtain ⟨token', label', items', rfl, sameItems⟩ := Form.exists_of_same_list alike
      exact evalList_agrees ih chains sameItems

end Semantics

/-! ## Answers of a machine -/

/-- Two answers are the same if they are values with the same text or one and the same fault. -/
inductive SameAnswer : Except Stop Datum → Except Stop Datum → Prop where
  | value {left right : Datum} (text : left.render = right.render) :
      SameAnswer (.ok left) (.ok right)
  | fault (fault : Fault) : SameAnswer (.error (.fault fault)) (.error (.fault fault))

namespace SameAnswer

variable {left middle right : Except Stop Datum}

theorem symm (same : SameAnswer left right) : SameAnswer right left := by
  cases same with
  | value text => exact .value text.symm
  | fault fault => exact .fault fault

theorem trans (first : SameAnswer left middle) (second : SameAnswer middle right) :
    SameAnswer left right := by
  cases first with
  | value text =>
    cases second with
    | value text' => exact .value (text.trans text')
  | fault fault => exact second

theorem exceedsDepth (same : SameAnswer left right) (exceeds : Semantics.ExceedsDepth left) :
    Semantics.ExceedsDepth right := by
  obtain ⟨fault, failed, deep⟩ := exceeds
  cases same with
  | value => cases failed
  | fault => exact ⟨fault, failed, deep⟩

end SameAnswer

/-- Forms that are the same give the same answer in fresh root scopes of any two machines. -/
theorem Interpreter.evaluate_same (interpreter : Interpreter) {form form' : Form}
    (alike : form.same form' = true) (machine machine' : Machine) :
    SameAnswer (interpreter.evaluate form none machine).1
      (interpreter.evaluate form' none machine').1 := by
  have mirrors := Semantics.evaluate_mirrors interpreter form machine
  have mirrors' := Semantics.evaluate_mirrors interpreter form' machine'
  have agree := Semantics.eval_agrees interpreter.limit _ _ _ _ .root alike 0
  generalize interpreter.evaluate form none machine = result at mirrors ⊢
  generalize interpreter.evaluate form' none machine' = result' at mirrors' ⊢
  generalize Semantics.eval interpreter.limit .root form 0 = outcome at mirrors agree
  generalize Semantics.eval interpreter.limit .root form' 0 = outcome' at mirrors' agree
  cases agree with
  | none =>
    cases mirrors
    cases mirrors'
    exact .fault (.tooDeep interpreter.limit)
  | some agree =>
    cases agree with
    | error fault =>
      cases mirrors
      cases mirrors'
      exact .fault fault
    | ok holds =>
      obtain ⟨meanings, -⟩ := holds
      cases mirrors with
      | value _ _ means =>
        cases mirrors' with
        | value _ _ means' =>
          apply SameAnswer.value
          rw [means.render_eq Semantics.Stands.render_eq,
            means'.render_eq Semantics.Stands.render_eq,
            meanings.render_eq Semantics.Function.Alike.render_eq]

end MiniLisp
