import MiniLisp.Proofs.Eval.AppliedLambda

/-!
# Evaluation and its surroundings

A form asks its scope for its free identifiers and for nothing else.  Two scopes that give these the
same values give the form the same answer, whatever chains they belong to and whatever else they
bind.  The closures made on both sides capture different scopes, and are applied, compared and
returned all the same, so the two evaluations are compared in lockstep.
-/

namespace MiniLisp

open Pairing

namespace Scopes

variable {scopes : Scopes} {known known' : ScopeId → Prop}

theorem Closed.union (closed : scopes.Closed known) (closed' : scopes.Closed known') :
    scopes.Closed fun scope => known scope ∨ known' scope := by
  intro scope inside
  rcases inside with inside | inside
  · obtain ⟨found, present, parents⟩ := closed scope inside
    exact ⟨found, present, fun outer linked => (parents outer linked).imp_right .inl⟩
  · obtain ⟨found, present, parents⟩ := closed' scope inside
    exact ⟨found, present, fun outer linked => (parents outer linked).imp_right .inr⟩

end Scopes

namespace Machine

variable {machine : Machine} {reach reach' : ScopeId → Prop} {scope scope' : ScopeId}

theorem Native.mono (included : ∀ scope, reach scope → reach' scope) {procedure : Procedure}
    (native : machine.Native reach procedure) : machine.Native reach' procedure := by
  cases procedure with
  | builtin => trivial
  | host => exact native
  | closure closure =>
    obtain ⟨made, ⟨scope, captured, inside⟩, running⟩ := native
    exact ⟨made, ⟨scope, captured, included scope inside⟩, running⟩

/-- Two lexical scopes have a reach in common. -/
theorem Lexical.common (lexical : machine.Lexical scope) (lexical' : machine.Lexical scope') :
    ∃ reach : ScopeId → Prop, reach scope ∧ reach scope' ∧ machine.scopes.Closed reach ∧
      ∀ inner found, reach inner → machine.scopes[inner]? = some found →
        found.bindings.Every (machine.Native reach) := by
  obtain ⟨reach, inside, closed, every⟩ := lexical
  obtain ⟨reach', inside', closed', every'⟩ := lexical'
  refine ⟨_, .inl inside, .inr inside', closed.union closed', ?_⟩
  intro inner found reached present
  rcases reached with reached | reached
  · exact (every inner found reached present).mono fun _ => Native.mono fun _ => .inl
  · exact (every' inner found reached present).mono fun _ => Native.mono fun _ => .inr

end Machine

/-! ## Scopes that agree on certain names -/

namespace Pairing

variable {pairing : Pairing} {engines : Array Engine} {machine machine' : Machine}
variable {scope scope' : ScopeId} {names : String → Prop}

/-- A pairing in which two more scopes agree on certain names. -/
def withNames (pairing : Pairing) (scope scope' : ScopeId) (names : String → Prop)
    (inside : pairing.left scope) (inside' : pairing.right scope') : Pairing where
  left := pairing.left
  right := pairing.right
  agree name one other := pairing.agree name one other ∨ names name ∧ one = scope ∧ other = scope'
  closures := pairing.closures
  known := by
    rintro name one other (agree | ⟨-, rfl, rfl⟩)
    · exact pairing.known agree
    · exact ⟨inside, inside'⟩
  identity := pairing.identity

theorem grows_withNames (inside : pairing.left scope) (inside' : pairing.right scope') :
    pairing.Grows (pairing.withNames scope scope' names inside inside') :=
  ⟨id, id, .inl, id⟩

/-- Scopes agree on names that resolve to corresponding values in them. -/
theorem Paired.withNames (paired : Paired engines pairing machine machine')
    (inside : pairing.left scope) (inside' : pairing.right scope')
    (resolved : ∀ name, names name → Option.Rel pairing.Means (machine.scopes.resolve name scope)
      (machine'.scopes.resolve name scope')) :
    Paired engines (pairing.withNames scope scope' names inside inside') machine machine' := by
  have grows : pairing.Grows (pairing.withNames scope scope' names inside inside') :=
    grows_withNames inside inside'
  refine ⟨paired.counted, paired.counted', paired.left, paired.right, ?_, paired.closures⟩
  rintro name one other (agree | ⟨named, rfl, rfl⟩)
  · exact optionMeans_mono grows (paired.resolve name one other agree)
  · exact optionMeans_mono grows (resolved name named)

end Pairing

/-! ## Answers -/

namespace Form

/-- A name plays a part in a form if it is free there.  A reserved word does only if it stands
elsewhere than at the head of a list. -/
def Uses (form : Form) (name : String) : Prop :=
  name ∈ form.free ∧ ∀ special : SpecialForm, name = special.name → name ∈ form.mentions

theorem Reads.uses {form : Form} {name : String} (reads : form.Reads name) : form.Uses name :=
  ⟨reads.mem_free, fun _ reserves => reads.mem_mentions reserves⟩

end Form

namespace Interpreter

variable (interpreter : Interpreter) {machine : Machine} {scope scope' : ScopeId} {form : Form}

/-- Two lexical scopes in which a form looks up the same values give it the same answer. -/
theorem evaluate_of_reads (lexical : machine.Lexical scope) (lexical' : machine.Lexical scope')
    (alike : ∀ name, form.Reads name →
      machine.scopes.resolve name scope = machine.scopes.resolve name scope') :
    SameAnswer (interpreter.evaluate form (some scope) machine).1
      (interpreter.evaluate form (some scope') machine).1 := by
  obtain ⟨reach, inside, inside', closed, every⟩ := lexical.common lexical'
  let ready : Machine :=
    { machine with engines := machine.engines.push ⟨interpreter.limit, 0, interpreter.log⟩ }
  have same : Paired ready.engines (diagonal ready reach) ready ready :=
    diagonal_paired closed every
  have resolved : ∀ name, form.Reads name → Option.Rel (diagonal ready reach).Means
      (ready.scopes.resolve name scope) (ready.scopes.resolve name scope') := by
    intro name reads
    have agree := same.resolve name scope scope ⟨inside, rfl⟩
    change Option.Rel _ (machine.scopes.resolve name scope) (machine.scopes.resolve name scope')
    rw [← alike name reads]
    exact agree
  have paired := same.withNames inside inside' resolved
  have shares : ((diagonal ready reach).withNames scope scope' form.Reads inside inside').Shares
      form.Reads scope scope' :=
    ⟨inside, inside', fun name reads => .inr ⟨reads, rfl, rfl⟩⟩
  have enough : Engine.room ready.engines < ready.fuel := Nat.lt_add_of_pos_right (by decide)
  rw [evaluate_in_scope, evaluate_in_scope]
  exact (eval_lockstep enough _ _ _ _ form shares _ _ paired).sameAnswer

/-- The answer of a form depends on its scope only through the free identifiers of the form, and
not through reserved words that stand only at the heads of lists.  So nothing changes if a scope
binds more names or fewer, or if another scope is put below it, as long as no name that plays a part
in the form is concerned. -/
theorem evaluate_depends_on_free (lexical : machine.Lexical scope)
    (lexical' : machine.Lexical scope') (form : Form) :
    ((∀ name ∈ form.free,
        machine.scopes.resolve name scope = machine.scopes.resolve name scope') →
      SameAnswer (interpreter.evaluate form (some scope) machine).1
        (interpreter.evaluate form (some scope') machine).1) ∧
    ((∀ name, form.Uses name →
        machine.scopes.resolve name scope = machine.scopes.resolve name scope') →
      SameAnswer (interpreter.evaluate form (some scope) machine).1
        (interpreter.evaluate form (some scope') machine).1) ∧
    ∀ found found', machine.scopes[scope]? = some found → machine.scopes[scope']? = some found' →
      (found'.parent = found.parent ∧ ∀ name, form.Uses name →
        found'.bindings.value? name = found.bindings.value? name) ∨
      (found'.parent = some scope ∧ ∀ name, form.Uses name →
        found'.bindings.value? name = none) →
      SameAnswer (interpreter.evaluate form (some scope) machine).1
        (interpreter.evaluate form (some scope') machine).1 := by
  refine ⟨fun alike => ?_, fun alike => ?_, ?_⟩
  · exact interpreter.evaluate_of_reads lexical lexical' fun name reads => alike name reads.mem_free
  · exact interpreter.evaluate_of_reads lexical lexical' fun name reads => alike name reads.uses
  · intro found found' present present' related
    obtain ⟨reach, inside, inside', closed, -⟩ := lexical.common lexical'
    apply interpreter.evaluate_of_reads lexical lexical'
    intro name reads
    rw [closed.resolve_eq inside' present']
    rcases related with ⟨beside, alike⟩ | ⟨below, unbound⟩
    · rw [closed.resolve_eq inside present, beside, alike name reads.uses]
    · rw [below, unbound name reads.uses]
      rfl

/-- A scope that stands by itself and repeats the bindings that matter, and a scope below that binds
a reserved word, both give the answer of a scope with a chain behind it. -/
theorem evaluate_depends_on_free_reserved :
    let double : Datum := .function (.closure
      ⟨0, ["y"], .ofList [.symbol "+", .symbol "y", .symbol "y"], some 0, some 0⟩)
    let machine : Machine :=
      ⟨#[⟨"root", none, Bindings.library⟩, ⟨"user", some 0, [("x", .int 3), ("f", double)]⟩,
          ⟨"below", some 1, [("if", .int 7), ("y", double)]⟩,
          ⟨"alone", none, [("z", .nil), ("f", double), ("x", .int 3)]⟩],
        #[⟨4, 0, none⟩], #[], 1, #[]⟩
    let form := Form.ofList [.symbol "if", .symbol "x", .ofList [.symbol "f", .symbol "x"],
      .symbol "unknown"]
    machine.Lexical 1 ∧ machine.Lexical 2 ∧ machine.Lexical 3 ∧
      machine.scopes.resolve "y" 2 ≠ machine.scopes.resolve "y" 1 ∧
      SameAnswer (Interpreter.evaluate ⟨5, none⟩ form (some 1) machine).1
        (Interpreter.evaluate ⟨5, none⟩ form (some 3) machine).1 ∧
      SameAnswer (Interpreter.evaluate ⟨5, none⟩ form (some 1) machine).1
        (Interpreter.evaluate ⟨5, none⟩ form (some 2) machine).1 := by
  intro double machine form
  have native : double.Every (machine.Native (· < 4)) :=
    Value.every_function_iff.mpr ⟨Nat.one_pos, ⟨0, rfl, by decide⟩, 0, rfl⟩
  have lexical : ∀ scope, scope < 4 → machine.Lexical scope := by
    intro scope inside
    refine ⟨(· < 4), inside, ?_, ?_⟩
    · rintro (_ | _ | _ | _ | scope) inside
      · exact ⟨_, rfl, nofun⟩
      · exact ⟨_, rfl, by rintro _ ⟨⟩; decide⟩
      · exact ⟨_, rfl, by rintro _ ⟨⟩; decide⟩
      · exact ⟨_, rfl, nofun⟩
      · exact absurd inside (by simp)
    · rintro (_ | _ | _ | _ | scope) found inside present
      · cases present
        exact Bindings.every_library fun _ => trivial
      · cases present
        exact List.forall_mem_cons.mpr ⟨Value.every_int 3, List.forall_mem_singleton.mpr native⟩
      · cases present
        exact List.forall_mem_cons.mpr ⟨Value.every_int 7, List.forall_mem_singleton.mpr native⟩
      · cases present
        exact List.forall_mem_cons.mpr ⟨Value.every_nil,
          List.forall_mem_cons.mpr ⟨native, List.forall_mem_singleton.mpr (Value.every_int 3)⟩⟩
      · cases present
  have used : ∀ name ∈ form.free, name = "x" ∨ name = "f" ∨ name = "unknown" := by decide
  refine ⟨lexical 1 (by decide), lexical 2 (by decide), lexical 3 (by decide), nofun, ?_, ?_⟩
  · apply (evaluate_depends_on_free _ (lexical 1 (by decide)) (lexical 3 (by decide)) form).1
    intro name free
    rcases used name free with rfl | rfl | rfl <;> rfl
  · apply (evaluate_depends_on_free _ (lexical 1 (by decide)) (lexical 2 (by decide)) form).2.2 _ _
      rfl rfl
    refine .inr ⟨rfl, ?_⟩
    rintro name ⟨free, -⟩
    rcases used name free with rfl | rfl | rfl <;> rfl

end Interpreter

end MiniLisp
