import MiniLisp.Interpreter
import MiniLisp.Proofs.Eval.Confinement

/-!
# Scopes persist

A host creates scopes, binds names in them, evaluates forms and calls closures.  Only the host ever
changes a scope: evaluation and calls, however they end, add scopes and leave all others as they
are.  A scope is created after its parent, so every chain of parents ends, and looking a name up is
a walk along this chain.
-/

namespace MiniLisp

namespace Machine

variable {machine : Machine}

/-- The functions that a host can hold: builtin functions, and closures over scopes that exist. -/
def Knows (machine : Machine) : Procedure → Prop
  | .builtin _ => True
  | .closure closure => ∀ scope, closure.scope = some scope → scope < machine.scopes.size
  | .host _ _ => False

/-- What a host gets when it evaluates a form in a scope, or in a fresh root scope, or when it calls
a closure. -/
inductive Evaluates (machine : Machine) : Except Stop Datum × Machine → Prop where
  | form (interpreter : Interpreter) (form : Form) (scope : Option ScopeId)
      (present : ∀ given, scope = some given → given < machine.scopes.size) :
      Evaluates machine (interpreter.evaluate form scope machine)
  | call (fuel : Nat) (closure : Closure) (arguments : List Datum)
      (known : machine.Knows (.closure closure))
      (every : ∀ argument ∈ arguments, argument.Every machine.Knows) :
      Evaluates machine (MiniLisp.call fuel (.closure closure) arguments machine)

/-- The machines to which a host can come. -/
inductive Reachable : Machine → Prop where
  | empty : Reachable Machine.empty
  | newScope {machine : Machine} (reachable : Reachable machine) (name : String)
      (parent : Option ScopeId)
      (present : ∀ outer, parent = some outer → outer < machine.scopes.size) :
      Reachable (Run.newScope name parent [] machine).2
  | newRoot {machine : Machine} (reachable : Reachable machine) :
      Reachable (Run.newRoot machine).2
  | set {machine : Machine} (reachable : Reachable machine) (scope : ScopeId) (name : String)
      (value : Datum) (known : value.Every machine.Knows) :
      Reachable (Run.set scope name value machine).2
  /-- A host may assemble closures of its own. -/
  | newClosure {machine : Machine} (reachable : Reachable machine) (params : List String)
      (body : Form) (scope : Option ScopeId) :
      Reachable (Run.newClosure params body scope none machine).2
  | evaluates {machine : Machine} {outcome : Except Stop Datum × Machine}
      (reachable : Reachable machine) (evaluates : machine.Evaluates outcome) :
      Reachable outcome.2

end Machine

/-- The walk from a scope through its parents to a scope without a parent. -/
inductive Scopes.Path (scopes : Scopes) : ScopeId → List Scope → Prop where
  | root {scope : ScopeId} {found : Scope} (present : scopes[scope]? = some found)
      (unlinked : found.parent = none) : Path scopes scope [found]
  | step {scope outer : ScopeId} {found : Scope} {path : List Scope}
      (present : scopes[scope]? = some found) (linked : found.parent = some outer)
      (rest : Path scopes outer path) : Path scopes scope (found :: path)

/-! ## The realm of a host -/

namespace Realm

variable {machine : Machine}

/-- All scopes, and any engine. -/
def whole : Realm := ⟨0, none⟩

theorem whole_owns_iff {procedure : Procedure} :
    whole.Owns machine.scopes.size procedure ↔ machine.Knows procedure := by
  cases procedure with
  | builtin => rfl
  | host => rfl
  | closure closure =>
    constructor
    · intro owns scope captured
      exact (owns.1 scope captured).2
    · intro knows
      exact ⟨fun scope captured => ⟨Nat.zero_le _, knows scope captured⟩, nofun⟩

theorem whole_keeps (fuel : Nat) : whole.Keeps (eval fuel) :=
  eval_keeps nofun

theorem eval_conducts (fuel : Nat) (engine : EngineId) {scope : ScopeId} (form : Form)
    (closed : whole.Sealed machine) (inside : scope < machine.scopes.size) :
    whole.Conducts machine whole.Datum (eval fuel engine scope form machine) :=
  whole_keeps fuel ⟨engine, scope, form, machine⟩ ⟨nofun, ⟨Nat.zero_le _, inside⟩, closed⟩

theorem newRoot_conducts (closed : whole.Sealed machine) :
    whole.Conducts machine (fun size scope => whole.first ≤ scope ∧ scope < size)
      (Run.newRoot machine) :=
  .newScope closed "root" nofun (Bindings.every_library fun _ => trivial)

theorem evaluate_conducts (closed : whole.Sealed machine) (interpreter : Interpreter) (form : Form)
    {scope : Option ScopeId} (present : ∀ given, scope = some given → given < machine.scopes.size) :
    whole.Conducts machine whole.Datum (interpreter.evaluate form scope machine) := by
  have started : whole.Conducts machine (fun size scope => whole.first ≤ scope ∧ scope < size)
      (Interpreter.startingScope scope machine) := by
    cases scope with
    | some given => exact .pure closed ⟨Nat.zero_le _, present given rfl⟩
    | none => exact newRoot_conducts closed
  apply started.bind
  intro start rooted came
  rw [came] at started
  have engaged := Conducts.newEngine started.closed rfl interpreter.limit interpreter.log
  apply (engaged.of_advances started.advances).bind
  intro engine ready came'
  rw [came'] at engaged
  have inside := started.value start rfl
  have larger := engaged.advances.scopes_le
  rw [Run.bind_apply_of_ok (Run.get_apply ready)]
  exact (eval_conducts ready.fuel engine form engaged.closed
    (Nat.lt_of_lt_of_le inside.2 larger)).of_advances (started.advances.trans engaged.advances)

theorem Sealed.evaluates (closed : whole.Sealed machine)
    {outcome : Except Stop MiniLisp.Datum × Machine}
    (evaluates : machine.Evaluates outcome) : whole.Conducts machine whole.Datum outcome := by
  cases evaluates with
  | form interpreter form scope present => exact evaluate_conducts closed interpreter form present
  | call fuel closure arguments known every =>
    have holds : whole.Holds (eval fuel) machine.scopes.size whole.Datum
        fun inner => Eval.call inner (.closure closure) arguments :=
      (whole.logic (eval fuel)).call_holds (whole_keeps fuel).inner (whole_owns_iff.mpr known)
        fun argument member => (every argument member).mono fun _ => whole_owns_iff.mpr
    exact (holds machine rfl closed).conducts

/-- Nothing that a host can hold leads out of its machine. -/
theorem sealed_of_reachable (reachable : machine.Reachable) : whole.Sealed machine := by
  induction reachable with
  | empty =>
    refine ⟨Nat.le_refl _, ?_, ?_, nofun⟩
    · intro scope found outer _ present
      cases present
    · intro scope found _ present
      cases present
  | newScope _ name parent present ih =>
    have inside := fun outer linked => And.intro (Nat.zero_le outer) (present outer linked)
    exact (Conducts.newScope ih name inside Bindings.every_nil).closed
  | newRoot _ ih => exact (newRoot_conducts ih).closed
  | @set machine _ scope name value known ih =>
    have every : Bindings.Every (whole.Owns machine.scopes.size) [(name, value)] := by
      intro pair member
      rw [List.mem_singleton.mp member]
      exact known.mono fun _ => whole_owns_iff.mpr
    exact ih.fillScope scope every
  | newClosure _ params body scope ih => exact ih.of_eq rfl rfl
  | evaluates _ evaluates ih => exact (ih.evaluates evaluates).closed

/-- Each step of a walk goes to an older scope, so the number of a scope bounds the steps behind
it. -/
theorem Sealed.exists_path (closed : whole.Sealed machine) {scope steps : Nat}
    (inside : scope < machine.scopes.size) (enough : scope < steps) :
    ∃ path, machine.scopes.Path scope path ∧ ∀ name, machine.scopes.resolveWithin name steps scope =
      path.findSome? fun visited => visited.bindings.value? name := by
  induction steps generalizing scope with
  | zero => cases enough
  | succ steps ih =>
    have present := Array.getElem?_eq_getElem inside
    generalize machine.scopes[scope] = found at present
    cases linked : found.parent with
    | none =>
      refine ⟨[found], .root present linked, fun name => ?_⟩
      simp only [Scopes.resolveWithin, present, linked, List.findSome?_cons, List.findSome?_nil]
      cases found.bindings.value? name <;> rfl
    | some outer =>
      have older := (closed.parent scope found outer (Nat.zero_le _) present linked).2
      obtain ⟨path, walk, resolved⟩ := ih (Nat.lt_trans older inside)
        (Nat.lt_of_lt_of_le older (Nat.le_of_lt_succ enough))
      refine ⟨found :: path, .step present linked walk, fun name => ?_⟩
      simp only [Scopes.resolveWithin, present, linked, resolved, List.findSome?_cons]
      cases found.bindings.value? name <;> rfl

end Realm

open Realm

/-- Wherever a host has come to, evaluations and calls keep all scopes and add scopes behind them
with older parents; every parent is older than its child, and every look-up is a walk that ends. -/
theorem scopes_persist {machine : Machine} (reachable : machine.Reachable) :
    (∀ outcome, machine.Evaluates outcome →
      (∀ (scope : ScopeId) (found : Scope), machine.scopes[scope]? = some found →
        outcome.2.scopes[scope]? = some found) ∧
      (∀ (scope : ScopeId) (found : Scope), machine.scopes[scope]? = none →
        outcome.2.scopes[scope]? = some found →
        (∀ earlier, earlier < machine.scopes.size → earlier < scope) ∧
          ∀ parent, found.parent = some parent → parent < scope) ∧
      ∀ value, outcome.1 = .ok value → value.Every outcome.2.Knows) ∧
    (∀ (scope : ScopeId) (found : Scope) (parent : ScopeId), machine.scopes[scope]? = some found →
      found.parent = some parent → parent < scope) ∧
    ∀ scope, scope < machine.scopes.size →
      ∃ path, machine.scopes.Path scope path ∧ ∀ name, machine.scopes.resolve name scope =
        path.findSome? fun visited => visited.bindings.value? name := by
  have closed := sealed_of_reachable reachable
  refine ⟨fun outcome evaluates => ?_, ?_, ?_⟩
  · have conducts := closed.evaluates evaluates
    refine ⟨?_, ?_, ?_⟩
    · intro scope found present
      rw [conducts.advances.scopes scope (Array.getElem?_eq_some_iff.mp present).1]
      exact present
    · intro scope found missing present
      have new := Array.getElem?_eq_none_iff.mp missing
      refine ⟨fun earlier inside => Nat.lt_of_lt_of_le inside new, fun parent linked => ?_⟩
      exact (conducts.closed.parent scope found parent (Nat.zero_le _) present linked).2
    · intro value came
      exact (conducts.value value came).mono fun _ => whole_owns_iff.mp
  · intro scope found parent present linked
    exact (closed.parent scope found parent (Nat.zero_le _) present linked).2
  · intro scope inside
    exact closed.exists_path inside (Nat.lt_succ_self scope)

/-- A scope of the host binds `n` to five.  A closure over it binds a parameter and comes to a
value, and a `define` that would bind `n` anew fails halfway; the scope is what it was. -/
theorem scopes_persist_broken_define :
    let host : Scope := ⟨"host", none, [("n", .int 5)]⟩
    let machine : Machine := ⟨#[host], #[], #[], 1, #[]⟩
    let closure : Closure := ⟨0, ["x"], .ofList [.symbol "x", .symbol "n"], some 0, none⟩
    let called := call 3 (.closure closure) [.int 2] machine
    let broken := Form.ofList [.symbol "define", .ofList [.ofList [.symbol "n", .int 6],
      .ofList [.symbol "m", .symbol "missing"]], .symbol "n"]
    let failed := (Interpreter.mk 10 none).evaluate broken (some 0) machine
    machine.Reachable ∧
      (machine.Evaluates called ∧ called.1 = .ok (.list [.int 2, .int 5]) ∧
        called.2.scopes[0]? = some host) ∧
      machine.Evaluates failed ∧ failed.1 = .error (.fault (.unbound "missing")) ∧
        failed.2.scopes[0]? = some host := by
  intro host machine closure called broken failed
  have reachable : machine.Reachable :=
    .newClosure (.set (.newScope .empty "host" none nofun) 0 "n" (.int 5) (Value.every_int 5)) ["x"]
      closure.body (some 0)
  have known : machine.Knows (.closure closure) := by
    rintro _ ⟨⟩
    exact Nat.one_pos
  have called' : machine.Evaluates called :=
    .call 3 closure [.int 2] known (List.forall_mem_singleton.mpr (Value.every_int 2))
  have failed' : machine.Evaluates failed := by
    refine .form _ broken (some 0) ?_
    rintro _ ⟨⟩
    exact Nat.one_pos
  have comes : called.1 = .ok (.list [.int 2, .int 5]) := rfl
  have keeps := fun outcome evaluates => ((scopes_persist reachable).1 outcome evaluates).1 0 host
  exact ⟨reachable, ⟨called', comes, keeps called called' rfl⟩, failed', rfl,
    keeps failed failed' rfl⟩

end MiniLisp
