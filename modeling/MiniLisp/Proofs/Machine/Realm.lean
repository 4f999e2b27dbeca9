import MiniLisp.Proofs.Eval.Logic

/-!
# Realms

An evaluation takes place in a part of the machine: the scopes that it can reach, and the engine in
which its functions run.  Nothing leads out of such a realm, so no evaluation in it meets a function
of the host, and every evaluation leaves the scopes and the engines that were there as they were.

For an evaluation it is also said which other evaluations it calls: those without which it comes to
nothing.  What an evaluation comes to depends on these alone, and all of them stay in the realm, one
level deeper.
-/

namespace MiniLisp

/-- Scopes and engines that exist stay as they are, and no number of a closure is given again. -/
structure Machine.Advances (machine final : Machine) : Prop where
  scopes : ∀ scope, scope < machine.scopes.size → final.scopes[scope]? = machine.scopes[scope]?
  engines : ∀ engine, engine < machine.engines.size →
    final.engines[engine]? = machine.engines[engine]?
  closures : machine.closures ≤ final.closures

namespace Machine.Advances

variable {machine middle final : Machine}

theorem refl (machine : Machine) : machine.Advances machine :=
  ⟨fun _ _ => rfl, fun _ _ => rfl, Nat.le_refl _⟩

theorem size_le_of_kept {α : Type} {before after : Array α}
    (kept : ∀ index, index < before.size → after[index]? = before[index]?) :
    before.size ≤ after.size := by
  by_contra shorter
  have inside : after.size < before.size := Nat.lt_of_not_le shorter
  have same := kept after.size inside
  rw [Array.getElem?_eq_none (Nat.le_refl _), Array.getElem?_eq_getElem inside] at same
  cases same

theorem scopes_le (advances : machine.Advances final) : machine.scopes.size ≤ final.scopes.size :=
  size_le_of_kept advances.scopes

theorem engines_le (advances : machine.Advances final) :
    machine.engines.size ≤ final.engines.size :=
  size_le_of_kept advances.engines

theorem trans (first : machine.Advances middle) (second : middle.Advances final) :
    machine.Advances final := by
  refine ⟨?_, ?_, Nat.le_trans first.closures second.closures⟩
  · intro scope inside
    rw [second.scopes scope (Nat.lt_of_lt_of_le inside first.scopes_le), first.scopes scope inside]
  · intro engine inside
    rw [second.engines engine (Nat.lt_of_lt_of_le inside first.engines_le),
      first.engines engine inside]

theorem engine (advances : machine.Advances final) {engine : EngineId}
    (inside : engine < machine.engines.size) : final.engine engine = machine.engine engine := by
  simp only [Machine.engine, Array.getD_eq_getD_getElem?, advances.engines engine inside]

theorem getElem?_push_of_lt {α : Type} {before : Array α} {index : Nat}
    (inside : index < before.size) (added : α) : (before.push added)[index]? = before[index]? := by
  rw [Array.getElem?_push, if_neg (Nat.ne_of_lt inside)]

theorem of_eq (scopes : final.scopes = machine.scopes) (engines : final.engines = machine.engines)
    (closures : machine.closures ≤ final.closures) : machine.Advances final :=
  ⟨fun _ _ => by rw [scopes], fun _ _ => by rw [engines], closures⟩

theorem pushScope (machine : Machine) (added : Scope) :
    machine.Advances { machine with scopes := machine.scopes.push added } :=
  ⟨fun _ inside => getElem?_push_of_lt inside added, fun _ _ => rfl, Nat.le_refl _⟩

theorem pushEngine (machine : Machine) (added : Engine) :
    machine.Advances { machine with engines := machine.engines.push added } :=
  ⟨fun _ _ => rfl, fun _ inside => getElem?_push_of_lt inside added, Nat.le_refl _⟩

/-- A scope that was not there before may be filled. -/
theorem fillScope (advances : machine.Advances middle) {fresh : ScopeId}
    (new : machine.scopes.size ≤ fresh) (pairs : List (String × Datum)) :
    machine.Advances { middle with scopes := middle.scopes.bindAll fresh pairs } := by
  refine ⟨fun scope inside => ?_, advances.engines, advances.closures⟩
  have different : fresh ≠ scope := Nat.ne_of_gt (Nat.lt_of_lt_of_le inside new)
  change (middle.scopes.bindAll fresh pairs)[scope]? = _
  rw [Scopes.bindAll, Array.getElem?_modify, if_neg different]
  exact advances.scopes scope inside

/-- An engine that was entered and left again counts as before. -/
theorem leave {engine : EngineId} (advances : (machine.enter engine).Advances final) :
    machine.Advances (final.leave engine) := by
  refine ⟨advances.scopes, fun other inside => ?_, advances.closures⟩
  have same := advances.engines other (by simpa [Machine.enter] using inside)
  simp only [Machine.leave, Array.getElem?_modify, same]
  simp only [Machine.enter, Array.getElem?_modify]
  split
  · cases machine.engines[other]? <;> rfl
  · rfl

end Machine.Advances

/-! ## Activations -/

/-- A call of the evaluator: the engine, the scope and the form, and the machine that it finds. -/
structure Activation where
  engine : EngineId
  scope : ScopeId
  form : Form
  machine : Machine

namespace Activation

/-- What an activation comes to by an evaluation. -/
def answer (activation : Activation) (evaluation : Evaluation) : Except Stop Datum × Machine :=
  evaluation activation.engine activation.scope activation.form activation.machine

/-- A stop to which no evaluation comes by itself. -/
def refusal : Stop := .misuse .unknownName

open Classical in
/-- An evaluation that refuses a single activation. -/
noncomputable def refusing (refused : Activation) (evaluation : Evaluation) : Evaluation :=
  fun engine scope form machine =>
    if ⟨engine, scope, form, machine⟩ = refused then (.error refusal, machine)
    else evaluation engine scope form machine

/-- A computation that evaluates forms needs an activation if it comes to nothing where that one is
refused. -/
def Needed {α : Type} (evaluation : Evaluation) (program : Evaluation → Run α) (machine : Machine)
    (activation : Activation) : Prop :=
  (program (refusing activation evaluation) machine).1 = .error refusal

theorem answer_refusing_self (activation : Activation) (evaluation : Evaluation) :
    activation.answer (refusing activation evaluation) = (.error refusal, activation.machine) :=
  if_pos rfl

theorem answer_refusing_of_ne {activation refused : Activation} (different : activation ≠ refused)
    (evaluation : Evaluation) :
    activation.answer (refusing refused evaluation) = activation.answer evaluation :=
  if_neg different

end Activation

open Activation

/-! ## Realms -/

/-- The part of a machine in which an evaluation takes place: the scopes from the first one on, and
possibly one engine, at a certain depth, in which everything runs. -/
structure Realm where
  first : ScopeId
  home : Option (EngineId × Engine)

namespace Realm

variable {realm : Realm} {machine final : Machine}

/-- An engine in which the evaluations of a realm may run. -/
def Runs (realm : Realm) (engine : EngineId) : Prop :=
  ∀ home counter, realm.home = some (home, counter) → engine = home

/-- A function that does not lead out of a realm when `size` scopes exist. -/
def Owns (realm : Realm) (size : Nat) : Procedure → Prop
  | .builtin _ => True
  | .closure closure =>
    (∀ scope, closure.scope = some scope → realm.first ≤ scope ∧ scope < size) ∧
      ∀ home counter, realm.home = some (home, counter) → closure.engine = some home
  | .host _ _ => False

theorem Owns.mono {size size' : Nat} (le : size ≤ size') {procedure : Procedure}
    (owns : realm.Owns size procedure) : realm.Owns size' procedure := by
  cases procedure with
  | builtin => trivial
  | closure closure =>
    refine ⟨fun scope captured => ?_, owns.2⟩
    exact ⟨(owns.1 scope captured).1, Nat.lt_of_lt_of_le (owns.1 scope captured).2 le⟩
  | host => exact owns

/-- Nothing leads out of a realm: parents are older scopes of it, and all functions belong to it. -/
structure Sealed (realm : Realm) (machine : Machine) : Prop where
  first_le : realm.first ≤ machine.scopes.size
  parent : ∀ scope found outer, realm.first ≤ scope → machine.scopes[scope]? = some found →
    found.parent = some outer → realm.first ≤ outer ∧ outer < scope
  bindings : ∀ scope found, realm.first ≤ scope → machine.scopes[scope]? = some found →
    found.bindings.Every (realm.Owns machine.scopes.size)
  home : ∀ home counter, realm.home = some (home, counter) → machine.engines[home]? = some counter

/-- An activation that takes place in a realm. -/
structure Contains (realm : Realm) (activation : Activation) : Prop where
  runs : realm.Runs activation.engine
  scope : realm.first ≤ activation.scope ∧ activation.scope < activation.machine.scopes.size
  closed : realm.Sealed activation.machine

/-- The stops at which evaluations in a realm may end.  Fuel runs out only where no engine bounds
the nesting. -/
def Admits (realm : Realm) (stop : Stop) : Prop :=
  (∃ fault, stop = .fault fault) ∨ realm.home = none ∧ stop = .exhausted

theorem Admits.ne_refusal {stop : Stop} (admits : realm.Admits stop) : stop ≠ refusal := by
  rintro rfl
  rcases admits with ⟨fault, impossible⟩ | ⟨-, impossible⟩ <;> cases impossible

/-- What a run may do, since the machine was `origin`: it keeps the realm closed and everything that
was there, and comes to a good value or to a stop that the realm admits. -/
structure Conducts {α : Type} (realm : Realm) (origin : Machine) (good : Nat → α → Prop)
    (outcome : Except Stop α × Machine) : Prop where
  advances : origin.Advances outcome.2
  closed : realm.Sealed outcome.2
  value : ∀ value, outcome.1 = .ok value → good outcome.2.scopes.size value
  stop : ∀ stop, outcome.1 = .error stop → realm.Admits stop

/-- What a computation relies on: it needs only activations in the realm, and what it comes to is
settled by what these come to. -/
structure Relies {α : Type} (realm : Realm) (evaluation : Evaluation)
    (program : Evaluation → Run α) (machine : Machine) : Prop where
  contains : ∀ activation, Needed evaluation program machine activation → realm.Contains activation
  settled : ∀ other : Evaluation,
    (∀ activation, Needed evaluation program machine activation →
      activation.answer other = activation.answer evaluation) →
    program other machine = program evaluation machine

/-! ### Closed machines -/

theorem Sealed.of_eq (closed : realm.Sealed machine) (scopes : final.scopes = machine.scopes)
    (engines : final.engines = machine.engines) : realm.Sealed final := by
  refine ⟨?_, ?_, ?_, ?_⟩
  · rw [scopes]
    exact closed.first_le
  · rw [scopes]
    exact closed.parent
  · rw [scopes]
    exact closed.bindings
  · rw [engines]
    exact closed.home

theorem Sealed.pushScope (closed : realm.Sealed machine) {added : Scope}
    (parent : ∀ outer, added.parent = some outer →
      realm.first ≤ outer ∧ outer < machine.scopes.size)
    (bindings : added.bindings.Every (realm.Owns machine.scopes.size)) :
    realm.Sealed { machine with scopes := machine.scopes.push added } := by
  have larger : machine.scopes.size ≤ (machine.scopes.push added).size := by simp
  refine ⟨Nat.le_trans closed.first_le larger, ?_, ?_, closed.home⟩
  · intro scope found outer inside present linked
    rw [Array.getElem?_push] at present
    split at present
    next newest =>
      cases present
      rw [newest]
      exact parent outer linked
    next => exact closed.parent scope found outer inside present linked
  · intro scope found inside present
    rw [Array.getElem?_push] at present
    split at present
    · cases present
      exact bindings.mono fun _ => Owns.mono larger
    · exact (closed.bindings scope found inside present).mono fun _ => Owns.mono larger

/-- Filling a scope changes its bindings and nothing else. -/
theorem getElem?_bindAll_cases {scopes : Scopes} {fresh scope : ScopeId}
    {pairs : List (String × Datum)} {found : Scope}
    (present : (scopes.bindAll fresh pairs)[scope]? = some found) :
    ∃ former : Scope, scopes[scope]? = some former ∧ found.parent = former.parent ∧
      (found.bindings = former.bindings ∨ found.bindings = former.bindings.bindAll pairs) := by
  rw [Scopes.bindAll, Array.getElem?_modify] at present
  split at present
  · obtain ⟨former, present', rfl⟩ := Option.map_eq_some_iff.mp present
    exact ⟨former, present', rfl, .inr rfl⟩
  · exact ⟨found, present, rfl, .inl rfl⟩

theorem Sealed.fillScope (closed : realm.Sealed machine) (fresh : ScopeId)
    {pairs : List (String × Datum)}
    (every : Bindings.Every (realm.Owns machine.scopes.size) pairs) :
    realm.Sealed { machine with scopes := machine.scopes.bindAll fresh pairs } := by
  have size : (machine.scopes.bindAll fresh pairs).size = machine.scopes.size := Array.size_modify
  refine ⟨size ▸ closed.first_le, ?_, ?_, closed.home⟩
  · intro scope found outer inside present linked
    obtain ⟨former, present', sameParent, -⟩ := getElem?_bindAll_cases present
    exact closed.parent scope former outer inside present' (sameParent ▸ linked)
  · intro scope found inside present
    obtain ⟨former, present', -, same | same⟩ := getElem?_bindAll_cases present
    · rw [size, same]
      exact closed.bindings scope former inside present'
    · rw [size, same]
      exact (closed.bindings scope former inside present').bindAll every

/-- Names of a realm resolve to values of the realm. -/
theorem Sealed.resolve (closed : realm.Sealed machine) {name : String} {scope : ScopeId}
    (inside : realm.first ≤ scope) {value : Datum}
    (found : machine.scopes.resolve name scope = some value) :
    value.Every (realm.Owns machine.scopes.size) := by
  unfold Scopes.resolve at found
  generalize scope + 1 = steps at found
  induction steps generalizing scope with
  | zero => cases found
  | succ steps ih =>
    simp only [Scopes.resolveWithin] at found
    split at found
    next => cases found
    next here present =>
      split at found
      next bound =>
        cases found
        exact (closed.bindings scope here inside present).value? bound
      next =>
        split at found
        next outer linked =>
          exact ih (closed.parent scope here outer inside present linked).1 found
        next => cases found

/-! ### Runs in sequence -/

theorem Conducts.of_advances {α : Type} {good : Nat → α → Prop} {origin : Machine}
    {outcome : Except Stop α × Machine} (before : origin.Advances machine)
    (conducts : realm.Conducts machine good outcome) : realm.Conducts origin good outcome :=
  ⟨before.trans conducts.advances, conducts.closed, conducts.value, conducts.stop⟩

theorem Conducts.bind {α β : Type} {good : Nat → α → Prop} {good' : Nat → β → Prop}
    {origin : Machine} {action : Run α} {next : α → Run β}
    (first : realm.Conducts origin good (action machine))
    (continued : ∀ value middle, action machine = (.ok value, middle) →
      realm.Conducts origin good' (next value middle)) :
    realm.Conducts origin good' ((action >>= next) machine) := by
  rw [Run.bind_apply]
  match came : action machine with
  | (.ok value, middle) => exact continued value middle came
  | (.error stop, middle) =>
    rw [came] at first
    refine ⟨first.advances, first.closed, nofun, ?_⟩
    rintro _ ⟨⟩
    exact first.stop stop rfl

/-- What never asks for a form to be evaluated needs no activation. -/
theorem Relies.const {α : Type} {good : Nat → α → Prop} {origin : Machine} {action : Run α}
    (evaluation : Evaluation) (conducts : realm.Conducts origin good (action machine)) :
    realm.Relies evaluation (fun _ => action) machine :=
  ⟨fun _ needed => absurd rfl (conducts.stop _ needed).ne_refusal, fun _ _ => rfl⟩

/-- A sequence needs what its first part needs and what the rest needs behind the first part. -/
theorem Relies.bind {α β : Type} {good : Nat → α → Prop} {origin : Machine}
    {evaluation : Evaluation} {program : Evaluation → Run α} {next : Evaluation → α → Run β}
    (conducts : realm.Conducts origin good (program evaluation machine))
    (first : realm.Relies evaluation program machine)
    (continued : ∀ value middle, program evaluation machine = (.ok value, middle) →
      realm.Relies evaluation (fun inner => next inner value) middle) :
    realm.Relies evaluation (fun inner => program inner >>= next inner) machine := by
  have unneeded : ∀ activation, ¬Needed evaluation program machine activation →
      program (refusing activation evaluation) machine = program evaluation machine := by
    intro activation dispensable
    apply first.settled
    intro other needed
    apply answer_refusing_of_ne
    rintro rfl
    exact dispensable needed
  have early : ∀ activation, Needed evaluation program machine activation →
      Needed evaluation (fun inner => program inner >>= next inner) machine activation := by
    intro activation needed
    have failed : program (refusing activation evaluation) machine =
        (.error refusal, (program (refusing activation evaluation) machine).2) :=
      Prod.ext needed rfl
    rw [Needed, Run.bind_apply_of_error failed]
  have late : ∀ value middle, program evaluation machine = (.ok value, middle) →
      ∀ activation, ¬Needed evaluation program machine activation →
        (Needed evaluation (fun inner => program inner >>= next inner) machine activation ↔
          Needed evaluation (fun inner => next inner value) middle activation) := by
    intro value middle came activation dispensable
    rw [Needed, Run.bind_apply_of_ok ((unneeded activation dispensable).trans came), Needed]
  match came : program evaluation machine with
  | (.ok value, middle) =>
    have rest := continued value middle came
    constructor
    · intro activation needed
      by_cases sooner : Needed evaluation program machine activation
      · exact first.contains activation sooner
      · exact rest.contains activation ((late value middle came activation sooner).mp needed)
    · intro other agree
      have same := first.settled other fun activation needed => agree activation (early _ needed)
      simp only [Run.bind_apply_of_ok (same.trans came), Run.bind_apply_of_ok came]
      apply rest.settled
      intro activation needed
      apply agree
      by_cases sooner : Needed evaluation program machine activation
      · exact early activation sooner
      · exact (late value middle came activation sooner).mpr needed
  | (.error stop, middle) =>
    have admitted := conducts.stop stop (by rw [came])
    constructor
    · intro activation needed
      apply first.contains activation
      by_contra dispensable
      rw [Needed, Run.bind_apply_of_error ((unneeded activation dispensable).trans came)] at needed
      exact admitted.ne_refusal (Except.error.inj needed)
    · intro other agree
      have same := first.settled other fun activation needed => agree activation (early _ needed)
      rw [Run.bind_apply_of_error (same.trans came), Run.bind_apply_of_error came]

/-- A computation, since the machine was `origin`, does what it may and relies on what it may. -/
structure Proceeds {α : Type} (realm : Realm) (evaluation : Evaluation) (origin : Machine)
    (good : Nat → α → Prop) (program : Evaluation → Run α) (machine : Machine) : Prop where
  conducts : realm.Conducts origin good (program evaluation machine)
  relies : realm.Relies evaluation program machine

variable {evaluation : Evaluation} {origin : Machine}

theorem Proceeds.const {α : Type} {good : Nat → α → Prop} {action : Run α}
    (conducts : realm.Conducts origin good (action machine)) :
    realm.Proceeds evaluation origin good (fun _ => action) machine :=
  ⟨conducts, .const evaluation conducts⟩

theorem Proceeds.of_advances {α : Type} {good : Nat → α → Prop} {program : Evaluation → Run α}
    (before : origin.Advances machine)
    (proceeds : realm.Proceeds evaluation machine good program machine) :
    realm.Proceeds evaluation origin good program machine :=
  ⟨proceeds.conducts.of_advances before, proceeds.relies⟩

theorem Proceeds.bind {α β : Type} {good : Nat → α → Prop} {good' : Nat → β → Prop}
    {program : Evaluation → Run α} {next : Evaluation → α → Run β}
    (first : realm.Proceeds evaluation origin good program machine)
    (continued : ∀ value middle, program evaluation machine = (.ok value, middle) →
      realm.Proceeds evaluation origin good' (fun inner => next inner value) middle) :
    realm.Proceeds evaluation origin good' (fun inner => program inner >>= next inner) machine :=
  ⟨first.conducts.bind fun value middle came => (continued value middle came).conducts,
    first.relies.bind first.conducts fun value middle came => (continued value middle came).relies⟩

/-! ### Steps of the machine -/

theorem Conducts.pure {α : Type} {good : Nat → α → Prop} {value : α} (closed : realm.Sealed machine)
    (holds : good machine.scopes.size value) :
    realm.Conducts machine good ((Pure.pure value : Run α) machine) :=
  ⟨.refl machine, closed, fun _ same => by cases same; exact holds, nofun⟩

theorem Conducts.fail {α : Type} {good : Nat → α → Prop} (closed : realm.Sealed machine)
    (fault : Fault) : realm.Conducts machine good ((Run.fail fault : Run α) machine) :=
  ⟨.refl machine, closed, nofun, fun _ same => by cases same; exact .inl ⟨fault, rfl⟩⟩

theorem Conducts.resolve (closed : realm.Sealed machine) (name : String) {scope : ScopeId}
    (inside : realm.first ≤ scope) :
    realm.Conducts machine (fun size => Value.Every (realm.Owns size))
      (Run.resolve scope name machine) := by
  rw [Run.resolve, Run.bind_apply_of_ok (Run.get_apply machine)]
  cases found : machine.scopes.resolve name scope with
  | some value => exact .pure closed (closed.resolve inside found)
  | none => exact .fail closed _

theorem Conducts.record (closed : realm.Sealed machine) (engine : EngineId)
    (event : Machine → TraceEvent) :
    realm.Conducts machine (fun _ _ => True) (Run.record engine event machine) := by
  simp only [Run.record, Run.modify_apply]
  cases (machine.engine engine).log with
  | none => exact ⟨.refl machine, closed, fun _ _ => trivial, nofun⟩
  | some log =>
    exact ⟨.of_eq rfl rfl (Nat.le_refl _), closed.of_eq rfl rfl, fun _ _ => trivial, nofun⟩

theorem Conducts.newScope (closed : realm.Sealed machine) (name : String)
    {parent : Option ScopeId} {bindings : Bindings}
    (inside : ∀ outer, parent = some outer → realm.first ≤ outer ∧ outer < machine.scopes.size)
    (every : bindings.Every (realm.Owns machine.scopes.size)) :
    realm.Conducts machine (fun size scope => realm.first ≤ scope ∧ scope < size)
      (Run.newScope name parent bindings machine) := by
  refine ⟨.pushScope machine _, closed.pushScope inside every, ?_, nofun⟩
  intro scope created
  cases created
  refine ⟨closed.first_le, ?_⟩
  simp [Run.newScope]

theorem Conducts.newClosure (closed : realm.Sealed machine) (params : List String) (body : Form)
    {scope : ScopeId} {engine : EngineId}
    (inside : realm.first ≤ scope ∧ scope < machine.scopes.size) (runs : realm.Runs engine) :
    realm.Conducts machine (fun size => Value.Every (realm.Owns size))
      (Run.newClosure params body (some scope) (some engine) machine) := by
  refine ⟨.of_eq rfl rfl (Nat.le_succ _), closed.of_eq rfl rfl, ?_, nofun⟩
  intro value created
  cases created
  refine Value.every_function_iff.mpr ⟨?_, ?_⟩
  · rintro _ ⟨⟩
    exact inside
  · intro home counter located
    rw [runs home counter located]

/-- Where a realm has no engine of its own, engines may be created. -/
theorem Conducts.newEngine (closed : realm.Sealed machine) (homeless : realm.home = none)
    (limit : Nat) (log : Option Nat) :
    realm.Conducts machine (fun _ => realm.Runs) (Run.newEngine limit log machine) := by
  refine ⟨.pushEngine machine _, ⟨closed.first_le, closed.parent, closed.bindings, ?_⟩, ?_, nofun⟩
  · intro home counter located
    rw [homeless] at located
    cases located
  · intro engine _ home counter located
    rw [homeless] at located
    cases located

theorem Conducts.engineOf (closed : realm.Sealed machine) {closure : Closure}
    (owns : realm.Owns machine.scopes.size (.closure closure)) :
    realm.Conducts machine (fun _ => realm.Runs) (Eval.engineOf closure machine) := by
  unfold Eval.engineOf
  cases chosen : closure.engine with
  | some engine =>
    apply Conducts.pure closed
    intro home counter located
    have same := owns.2 home counter located
    rw [chosen] at same
    exact Option.some.inj same
  | none =>
    -- A closure without an engine occurs only where the realm has no engine of its own.
    apply Conducts.newEngine closed
    rw [Option.eq_none_iff_forall_ne_some]
    intro home located
    have same := owns.2 home.1 home.2 located
    rw [chosen] at same
    cases same

/-! ### The logic of a realm -/

/-- A computation keeps to a realm in which `size` scopes exist. -/
def Holds (realm : Realm) (evaluation : Evaluation) {α : Type} (size : Nat)
    (good : Nat → α → Prop) (program : Evaluation → Run α) : Prop :=
  ∀ machine, machine.scopes.size = size → realm.Sealed machine →
    realm.Proceeds evaluation machine good program machine

variable {size : Nat}

theorem Holds.const {α : Type} {good : Nat → α → Prop} {action : Run α}
    (conducts : ∀ machine, machine.scopes.size = size → realm.Sealed machine →
      realm.Conducts machine good (action machine)) :
    realm.Holds evaluation size good fun _ => action :=
  fun machine sized closed => .const (conducts machine sized closed)

theorem Holds.bind {α β : Type} {good : Nat → α → Prop} {good' : Nat → β → Prop}
    {program : Evaluation → Run α} {next : Evaluation → α → Run β}
    (first : realm.Holds evaluation size good program)
    (continued : ∀ later value, size ≤ later → good later value →
      realm.Holds evaluation later good' fun inner => next inner value) :
    realm.Holds evaluation size good' fun inner => program inner >>= next inner := by
  rintro machine rfl closed
  have proceeds := first machine rfl closed
  apply proceeds.bind
  intro value middle came
  have conducts := came ▸ proceeds.conducts
  have rest := continued _ value conducts.advances.scopes_le (conducts.value value rfl)
  exact (rest middle rfl conducts.closed).of_advances conducts.advances

/-- The new scope is not among those that were there, so filling it changes none of these. -/
theorem Holds.fillScope {α : Type} {good : Nat → α → Prop} (name : String) {parent : ScopeId}
    {pairs : Evaluation → Run (List (String × Datum))} {next : Evaluation → ScopeId → Run α}
    (inside : realm.first ≤ parent ∧ parent < size)
    (paired : ∀ later, size ≤ later →
      realm.Holds evaluation later (fun size => Bindings.Every (realm.Owns size)) pairs)
    (continued : ∀ later scope, size ≤ later → realm.first ≤ scope ∧ scope < later →
      realm.Holds evaluation later good fun inner => next inner scope) :
    realm.Holds evaluation size good fun inner => (do
      let fresh ← Run.newScope name (some parent) []
      let bound ← pairs inner
      Run.setAll fresh bound
      next inner fresh) := by
  rintro machine rfl closed
  have parented : ∀ outer, some parent = some outer →
      realm.first ≤ outer ∧ outer < machine.scopes.size := by
    rintro _ ⟨⟩
    exact inside
  have created := Conducts.newScope closed name parented Bindings.every_nil
  apply Proceeds.bind (.const created)
  intro fresh opened came
  have new : machine.scopes.size = fresh := Except.ok.inj (congrArg Prod.fst came)
  rw [came] at created
  have bound := paired _ created.advances.scopes_le opened rfl created.closed
  apply Proceeds.bind (bound.of_advances created.advances)
  intro values middle came'
  have conducts := (came' ▸ bound.conducts).of_advances created.advances
  have grown : opened.scopes.size ≤ middle.scopes.size :=
    (came' ▸ bound.conducts).advances.scopes_le
  have kept := conducts.advances.fillScope (Nat.le_of_eq new) values
  have filled : realm.Conducts machine (fun _ _ => True) (Run.setAll fresh values middle) :=
    ⟨kept, conducts.closed.fillScope fresh (conducts.value values rfl), fun _ _ => trivial, nofun⟩
  apply Proceeds.bind (.const filled)
  intro _ last came''
  have advances := (came'' ▸ filled).advances
  have same : middle.scopes.size = last.scopes.size := by
    cases came''
    exact Array.size_modify.symm
  have known := created.value fresh rfl
  have there : realm.first ≤ fresh ∧ fresh < last.scopes.size :=
    ⟨known.1, same ▸ Nat.lt_of_lt_of_le known.2 grown⟩
  exact (continued _ fresh advances.scopes_le there last rfl (came'' ▸ filled).closed).of_advances
    advances

/-- Keeping to a realm is a logic of evaluation. -/
def logic (realm : Realm) (evaluation : Evaluation) : Eval.Logic Evaluation where
  World := Nat
  Later := (· ≤ ·)
  Scope size scope := realm.first ≤ scope ∧ scope < size
  Engine := realm.Runs
  Function := realm.Owns
  Holds := realm.Holds evaluation
  scope_later after inside := ⟨inside.1, Nat.lt_of_lt_of_le inside.2 after⟩
  function_later after owns := owns.mono after
  function_builtin _ := trivial
  scope_of_closure owns captured := owns.1 _ captured
  pure holds := .const fun _ sized closed => .pure closed (sized ▸ holds)
  fail fault := .const fun _ _ closed => .fail closed fault
  bind := .bind
  resolve name inside := .const fun _ _ closed => .resolve closed name inside.1
  record _ _ := .const fun _ _ closed => .record closed _ _
  newScope name inside every := .const fun _ sized closed =>
    .newScope closed name (sized ▸ inside) (sized ▸ every)
  newClosure params body inside runs := .const fun _ sized closed =>
    .newClosure closed params body (sized ▸ inside) runs
  engineOf owns := .const fun _ sized closed => .engineOf closed (sized ▸ owns)
  fillScope name inside paired continued := .fillScope name inside paired continued
  callHost _ _ _ _ outside := outside.elim

end Realm

end MiniLisp
