import MiniLisp.Proofs.Fault.Raised
import MiniLisp.Proofs.Form.Free
import MiniLisp.Proofs.Value.Every

/-!
# Lexical scoping

Where a name is bound is settled by the text of a program.  A closure finds the free identifiers of
its body among its parameters or in the chain it was made in, except for those that the program
leaves open, and wherever a closure goes it takes that chain along.  So only a free identifier of
the whole program can ever turn out to be unbound.
-/

namespace MiniLisp

namespace Semantics

variable {loose : String → Prop} {property : Function → Prop} {chain : Chain}

namespace Chain

/-- Every function that a chain holds has a property. -/
def Every (property : Function → Prop) (chain : Chain) : Prop :=
  ∀ frame ∈ chain, ∀ pair ∈ frame, pair.2.Every property

/-- Names are bound in a chain, except for loose ones. -/
def Covers (loose : String → Prop) (chain : Chain) (names : List String) : Prop :=
  ∀ name ∈ names, (chain.value? name).isSome ∨ loose name

theorem Every.value? (every : chain.Every property) {name : String} {value : Meaning}
    (found : chain.value? name = some value) : value.Every property := by
  obtain ⟨frame, among, located⟩ := List.exists_of_findSome?_eq_some found
  obtain ⟨before, after, rfl, -⟩ := List.lookup_eq_some_iff.mp located
  exact every _ among (name, value) (by simp)

/-- A chain and one more frame, which binds the values of some pairs. -/
theorem Every.cons (every : chain.Every property) {pairs : Frame}
    (inner : ∀ pair ∈ pairs, pair.2.Every property) : Every property (pairs.reverse :: chain) := by
  intro frame among pair member
  rcases List.mem_cons.mp among with rfl | outer
  · exact inner pair (List.mem_reverse.mp member)
  · exact every frame outer pair member

theorem value?_cons_isSome {pairs : Frame} {name : String}
    (bound : name ∈ pairs.map Prod.fst ∨ (chain.value? name).isSome) :
    (value? name (pairs.reverse :: chain)).isSome := by
  rw [value?, List.findSome?_cons]
  cases located : List.lookup name pairs.reverse with
  | some value => rfl
  | none =>
    refine bound.resolve_left ?_
    intro member
    obtain ⟨pair, among, rfl⟩ := List.mem_map.mp member
    have differs := List.lookup_eq_none_iff.mp located pair (List.mem_reverse.mpr among)
    simp at differs

/-- The root chain binds the names of all builtin functions. -/
theorem value?_root_isSome (builtin : Builtin) : (value? builtin.name root).isSome := by
  cases builtin <;> rfl

theorem every_root (builtins : ∀ builtin, property (.builtin builtin)) : root.Every property := by
  intro frame among pair member
  rw [List.mem_singleton.mp among] at member
  obtain ⟨builtin, -, rfl⟩ := List.mem_map.mp member
  exact Value.every_function_iff.mpr (builtins builtin)

end Chain

/-- A function that carries a binding of every identifier that its body leaves open, unless the
identifier is loose; and so does every function within its reach. -/
inductive Function.Lexical (loose : String → Prop) : Function → Prop where
  | builtin (operation : Builtin) : Lexical loose (.builtin operation)
  | closure {identity : Nat} {params : List String} {body : Form} {chain : Chain}
      (covered : ∀ name ∈ body.free,
        name ∈ params ∨ (chain.value? name).isSome ∨ loose name)
      (held : ∀ frame ∈ chain, ∀ pair ∈ frame, ∀ callee, pair.2.Holds callee →
        Lexical loose callee) :
      Lexical loose (.closure identity params body chain)

namespace Task

/-- A task that finds all it refers to, except for loose names. -/
def Scoped (loose : String → Prop) : {α : Type} → Task α → Prop
  | _, .form chain item => chain.Every (·.Lexical loose) ∧ chain.Covers loose item.free
  | _, .forms chain items => chain.Every (·.Lexical loose) ∧ chain.Covers loose (Form.freeIn items)
  | _, .bindings chain items =>
    chain.Every (·.Lexical loose) ∧ ∀ binding ∈ items, ∀ name expression,
      Binds binding name expression → chain.Covers loose expression.free
  | _, .call callee arguments =>
    callee.Lexical loose ∧ ∀ argument ∈ arguments, argument.Every (·.Lexical loose)

/-- Every function in the answer to a task is lexical, and the pairs of a `define` have the names
that its text gives to them. -/
def Delivers (loose : String → Prop) : {α : Type} → Task α → α → Prop
  | _, .form _ _, value => value.Every (·.Lexical loose)
  | _, .forms _ _, values => ∀ value ∈ values, value.Every (·.Lexical loose)
  | _, .bindings _ items, pairs =>
    (∀ pair ∈ pairs, pair.2.Every (·.Lexical loose)) ∧
      ∃ shapes, items.mapM Eval.binding? = some shapes ∧
        shapes.map Prod.fst = pairs.map Prod.fst
  | _, .call _ _, value => value.Every (·.Lexical loose)

/-- A task comes to a lexical answer, or fails; and only loose names are unbound. -/
def Respects (loose : String → Prop) {α : Type} (task : Task α) : Outcome α → Prop
  | .ok (answer, _) => task.Delivers loose answer
  | .error fault => ∀ name, fault = .unbound name → loose name

/-! ## The parts of a task -/

variable {token token' : Option Token} {label label' : Option Nat} {form part head body : Form}
variable {items : List Form}

theorem Scoped.narrow (ready : (Task.form chain form).Scoped loose)
    (included : ∀ name ∈ part.free, name ∈ form.free) : (Task.form chain part).Scoped loose :=
  ⟨ready.1, fun name inside => ready.2 name (included name inside)⟩

theorem Scoped.elements (ordinary : Ordinary items)
    (ready : (Task.form chain (.list token label items)).Scoped loose) :
    (Task.forms chain items).Scoped loose := by
  refine ⟨ready.1, ?_⟩
  rw [← Form.free_ordinary ordinary]
  exact ready.2

theorem Scoped.bindings {bindings : List Form} (reserved : Reserves .define head)
    (ready : (Task.form chain (.list token label [head, .list token' label' bindings, body])).Scoped
      loose) :
    (Task.bindings chain bindings).Scoped loose := by
  refine ⟨ready.1, ?_⟩
  intro binding among name expression binds other inside
  exact ready.2 other (Form.mem_free_binding reserved among binds inside)

theorem Scoped.first (ready : (Task.forms chain (form :: items)).Scoped loose) :
    (Task.form chain form).Scoped loose :=
  ⟨ready.1, fun name inside => ready.2 name (List.mem_append_left _ inside)⟩

theorem Scoped.rest (ready : (Task.forms chain (form :: items)).Scoped loose) :
    (Task.forms chain items).Scoped loose :=
  ⟨ready.1, fun name inside => ready.2 name (List.mem_append_right _ inside)⟩

theorem Scoped.expression {name : String} (binds : Binds form name part)
    (ready : (Task.bindings chain (form :: items)).Scoped loose) :
    (Task.form chain part).Scoped loose :=
  ⟨ready.1, ready.2 form List.mem_cons_self name part binds⟩

theorem Scoped.others (ready : (Task.bindings chain (form :: items)).Scoped loose) :
    (Task.bindings chain items).Scoped loose :=
  ⟨ready.1, fun binding among => ready.2 binding (List.mem_cons_of_mem _ among)⟩

/-- A body is scoped in one more frame of a chain if the frame binds what the chain does not. -/
theorem scoped_cons {pairs : Frame} (every : chain.Every (·.Lexical loose))
    (inner : ∀ pair ∈ pairs, pair.2.Every (·.Lexical loose))
    (covered : ∀ name ∈ body.free,
      name ∈ pairs.map Prod.fst ∨ (chain.value? name).isSome ∨ loose name) :
    (Task.form (pairs.reverse :: chain) body).Scoped loose := by
  refine ⟨every.cons inner, ?_⟩
  intro name inside
  rcases covered name inside with bound | bound | free
  · exact .inl (Chain.value?_cons_isSome (.inl bound))
  · exact .inl (Chain.value?_cons_isSome (.inr bound))
  · exact .inr free

end Task

/-- Every rule hands on lexical functions only, and looks up no name in vain that is not loose. -/
theorem Evaluates.respects {α : Type} {task : Task α} {supply : Nat} {outcome : Outcome α}
    (evaluates : Evaluates task supply outcome) (ready : task.Scoped loose) :
    task.Respects loose outcome := by
  induction evaluates with
  | absent => exact trivial
  | int | string => exact rfl
  | symbol found => exact ready.1.value? found
  | @symbolUnbound chain supply token name missing =>
    rintro _ ⟨⟩
    refine (ready.2 name List.mem_cons_self).resolve_left ?_
    rw [missing]
    exact Bool.false_ne_true
  | elementFails ordinary elements ih => exact ih (ready.elements ordinary)
  | application ordinary elements called ihElements ihCalled =>
    have delivered := List.forall_mem_cons.mp (ihElements (ready.elements ordinary))
    exact ihCalled ⟨Value.every_function_iff.mp delivered.1, delivered.2⟩
  | literalList ordinary elements inert ih =>
    exact Value.every_list_iff.mpr (ih (ready.elements ordinary))
  | define reserved bound evaluated ihBound ihBody =>
    obtain ⟨every, shapes, shaped, named⟩ := ihBound (ready.bindings reserved)
    -- The new frame binds exactly the names that the text of the `define` takes from its body.
    apply ihBody
    apply Task.scoped_cons ready.1 every
    intro name inside
    rw [← named]
    exact (Form.mem_free_define reserved shaped inside).imp_right (ready.2 name)
  | defineBindingFails reserved bound ih => exact ih (ready.bindings reserved)
  | defineMalformed | lambdaMalformed | conditionalMalformed | quoteMalformed | bindingMalformed
  | closureArity => nofun
  | lambda reserved named =>
    refine Value.every_function_iff.mpr (.closure ?_ ?_)
    · intro name inside
      exact (Form.mem_free_lambda reserved named inside).imp_right (ready.2 name)
    · intro frame among pair member callee holds
      exact (ready.1 frame among pair member).of_holds holds
  | consequent reserved decided holds evaluated ihDecided ihBranch =>
    exact ihBranch (ready.narrow fun _ => Form.mem_free_conditional reserved (by simp))
  | alternative reserved decided fails evaluated ihDecided ihBranch =>
    exact ihBranch (ready.narrow fun _ => Form.mem_free_conditional reserved (by simp))
  | conditionFails reserved decided ih =>
    exact ih (ready.narrow fun _ => Form.mem_free_conditional reserved (by simp))
  | quote reserved evaluated ih =>
    exact ih (ready.narrow fun name inside => by rwa [Form.free_quote reserved])
  | formsNil => nofun
  | formsCons head tail ihHead ihTail =>
    exact List.forall_mem_cons.mpr ⟨ihHead ready.first, ihTail ready.rest⟩
  | formsHeadFails head ih => exact ih ready.first
  | formsTailFails head tail ihHead ihTail => exact ihTail ready.rest
  | bindingsNil => exact ⟨nofun, [], rfl, rfl⟩
  | @bindingsCons _ _ _ _ name expression _ _ _ _ shape head tail ihHead ihTail =>
    obtain ⟨every, shapes, shaped, named⟩ := ihTail ready.others
    refine ⟨List.forall_mem_cons.mpr ⟨ihHead (ready.expression shape), every⟩,
      (name, expression) :: shapes, ?_, ?_⟩
    · rw [List.mapM_cons, binding?_eq_some_iff.mpr shape, shaped]
      rfl
    · rw [List.map_cons, List.map_cons, named]
  | bindingsHeadFails shape head ih => exact ih (ready.expression shape)
  | bindingsTailFails shape head tail ihHead ihTail => exact ihTail ready.others
  | builtin applied => exact Builtin.apply_every ready.2 applied
  | builtinFails applied => nofun
  | @closure _ _ params _ _ arguments _ arity evaluated ih =>
    obtain ⟨lexical, every⟩ := ready
    cases lexical with
    | closure covered held =>
      -- The chain of the caller plays no part: the closure brings the chain of its body along.
      apply ih
      apply Task.scoped_cons
      · intro frame among pair member
        exact Value.every_of_holds _ (held frame among pair member)
      · exact fun pair member => every pair.2 (List.of_mem_zip member).2
      · rwa [List.map_fst_zip (by omega)]

/-- In a root scope only a free identifier that no builtin function has for a name is unbound. -/
theorem Answers.unbound {form : Form} {name : String}
    (answers : Answers form (.error (.unbound name))) :
    name ∈ form.free ∧ ∀ builtin : Builtin, builtin.name ≠ name := by
  let loose := fun name => name ∈ form.free ∧ ∀ builtin : Builtin, builtin.name ≠ name
  have ready : (Task.form Chain.root form).Scoped loose := by
    refine ⟨Chain.every_root .builtin, ?_⟩
    intro other inside
    by_cases library : ∃ builtin : Builtin, builtin.name = other
    · obtain ⟨builtin, rfl⟩ := library
      exact .inl (Chain.value?_root_isSome builtin)
    · exact .inr ⟨inside, not_exists.mp library⟩
  exact answers.respects ready name rfl

end Semantics

namespace Interpreter

/-- Scoping is lexical: whatever closures an evaluation in a fresh root scope makes, passes on and
calls, a name that it finds unbound is free in the form and names no builtin function.  A form whose
free identifiers all name builtin functions finds no name unbound. -/
theorem evaluate_unbound_free (interpreter : Interpreter) (form : Form) (machine : Machine) :
    (∀ name, (interpreter.evaluate form none machine).1 = .error (.fault (.unbound name)) →
      name ∈ form.free ∧ ∀ builtin : Builtin, builtin.name ≠ name) ∧
    ((∀ name ∈ form.free, ∃ builtin : Builtin, builtin.name = name) →
      ∀ fault, (interpreter.evaluate form none machine).1 = .error (.fault fault) →
        fault.cause? ≠ some .unboundIdentifier) := by
  have open_of_unbound : ∀ name,
      (interpreter.evaluate form none machine).1 = .error (.fault (.unbound name)) →
        name ∈ form.free ∧ ∀ builtin : Builtin, builtin.name ≠ name := by
    intro name failed
    obtain ⟨_, ⟨⟩, deep | answers⟩ := Semantics.evaluate_fails failed
    · cases deep
    · exact answers.unbound
  refine ⟨open_of_unbound, ?_⟩
  intro library fault failed caused
  obtain ⟨_, ⟨⟩, rfl | answers⟩ := Semantics.evaluate_fails failed
  · cases caused
  · cases answers.raised rfl with
    | unbound name =>
      obtain ⟨inside, foreign⟩ := open_of_unbound name failed
      obtain ⟨builtin, named⟩ := library name inside
      exact foreign builtin named
    | malformed | tooDeep | closure => cases caused
    | builtin operation elementary => cases elementary <;> cases caused

/-- The body of a closure does not see the bindings around the call: `y` is free in the text and
unbound although the closure is called where `y` is bound. -/
theorem evaluate_unbound_free_dynamic :
    let form := Form.ofList [.symbol "define",
      .ofList [.ofList [.symbol "f",
        .ofList [.symbol "lambda", .ofList [.symbol "x"], .symbol "y"]]],
      .ofList [.symbol "define", .ofList [.ofList [.symbol "y", .int 1]],
        .ofList [.symbol "f", .int 2]]]
    ((Interpreter.mk 9 none).evaluate form none Machine.empty).1 =
        .error (.fault (.unbound "y")) ∧
      "y" ∈ form.free ∧ ∀ builtin : Builtin, builtin.name ≠ "y" := by
  intro form
  have failed : ((Interpreter.mk 9 none).evaluate form none Machine.empty).1 =
      .error (.fault (.unbound "y")) := Semantics.evaluate_of_fault rfl Machine.empty
  exact ⟨failed, (evaluate_unbound_free _ form _).1 "y" failed⟩

end Interpreter

end MiniLisp
