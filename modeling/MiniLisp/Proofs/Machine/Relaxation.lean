import MiniLisp.Proofs.Eval.Logic

/-!
# Relaxed limits

Two runs are compared that differ in the limits of their engines alone, those of the second run
being the larger ones.  They go through the same machines until the first run gives up; then it has
written less of the trace, and nothing else.
-/

namespace MiniLisp

/-- An engine with a limit that is not smaller. -/
structure Engine.Relaxes (engine relaxed : Engine) : Prop where
  limit : engine.limit ≤ relaxed.limit
  depth : relaxed.depth = engine.depth
  log : relaxed.log = engine.log

/-- A machine with limits that are not smaller. -/
structure Machine.Relaxes (machine relaxed : Machine) : Prop where
  scopes : relaxed.scopes = machine.scopes
  hosts : relaxed.hosts = machine.hosts
  closures : relaxed.closures = machine.closures
  trace : relaxed.trace = machine.trace
  count : relaxed.engines.size = machine.engines.size
  engines : ∀ engine : EngineId,
    Option.Rel Engine.Relaxes machine.engines[engine]? relaxed.engines[engine]?

namespace Machine.Relaxes

variable {machine relaxed : Machine}

theorem engine (relaxes : machine.Relaxes relaxed) (engine : EngineId) :
    (machine.engine engine).Relaxes (relaxed.engine engine) := by
  simp only [Machine.engine, Array.getD_eq_getD_getElem?]
  match machine.engines[engine]?, relaxed.engines[engine]?, relaxes.engines engine with
  | _, _, .some found => exact found
  | _, _, .none => exact ⟨Nat.le_refl _, rfl, rfl⟩

theorem modifyEngine (relaxes : machine.Relaxes relaxed) (engine : EngineId)
    {change : Engine → Engine}
    (kept : ∀ found found', found.Relaxes found' → (change found).Relaxes (change found')) :
    Relaxes { machine with engines := machine.engines.modify engine change }
      { relaxed with engines := relaxed.engines.modify engine change } := by
  refine ⟨relaxes.scopes, relaxes.hosts, relaxes.closures, relaxes.trace, ?_, ?_⟩
  · simp only [Array.size_modify, relaxes.count]
  · intro other
    simp only [Array.getElem?_modify]
    split
    · match machine.engines[other]?, relaxed.engines[other]?, relaxes.engines other with
      | _, _, .some found => exact .some (kept _ _ found)
      | _, _, .none => exact .none
    · exact relaxes.engines other

theorem enter (relaxes : machine.Relaxes relaxed) (engine : EngineId) :
    (machine.enter engine).Relaxes (relaxed.enter engine) :=
  relaxes.modifyEngine engine fun _ _ found =>
    ⟨found.limit, congrArg (· + 1) found.depth, found.log⟩

theorem leave (relaxes : machine.Relaxes relaxed) (engine : EngineId) :
    (machine.leave engine).Relaxes (relaxed.leave engine) :=
  relaxes.modifyEngine engine fun _ _ found =>
    ⟨found.limit, congrArg (· - 1) found.depth, found.log⟩

theorem pushEngine (relaxes : machine.Relaxes relaxed) {added added' : Engine}
    (new : added.Relaxes added') :
    Relaxes { machine with engines := machine.engines.push added }
      { relaxed with engines := relaxed.engines.push added' } := by
  refine ⟨relaxes.scopes, relaxes.hosts, relaxes.closures, relaxes.trace, ?_, ?_⟩
  · simp only [Array.size_push, relaxes.count]
  · intro other
    simp only [Array.getElem?_push, relaxes.count]
    split
    · exact .some new
    · exact relaxes.engines other

end Machine.Relaxes

/-- Evaluations nest too deeply: the reasons why a run is given up. -/
def Stop.GivesUp (stop : Stop) : Prop :=
  stop = .exhausted ∨ ∃ fault, stop = .fault fault ∧ fault.cause? = some .recursionDepth

/-- A second run comes to what the first one came to, unless this one gave up. -/
inductive Outlasts {α : Type} (outcome relaxed : Except Stop α × Machine) : Prop where
  | same (result : relaxed.1 = outcome.1) (relaxes : outcome.2.Relaxes relaxed.2)
  | gaveUp {stop : Stop} (failed : outcome.1 = .error stop) (gives : stop.GivesUp)
      (trace : outcome.2.trace.toList <+: relaxed.2.trace.toList)

/-- What is shown of a run and of a relaxed one: each only adds to the trace, a value it comes to is
good, and the second run outlasts the first. -/
structure Relaxation {α : Type} (good : α → Prop) (action : Bool → Run α) : Prop where
  grows : ∀ relaxed machine, machine.trace.toList <+: (action relaxed machine).2.trace.toList
  value : ∀ relaxed machine value, (action relaxed machine).1 = .ok value → good value
  outlasts : ∀ machine machine', machine.Relaxes machine' →
    Outlasts (action false machine) (action true machine')

/-- A stop as a call reports it. -/
def Stop.blame (callee : String) : Stop → Stop
  | .fault cause => .fault (.application callee cause)
  | stop => stop

theorem Run.blame_eq {α : Type} (callee : String) (action : Run α) (machine : Machine) :
    Run.blame callee action machine =
      ((action machine).1.mapError (Stop.blame callee), (action machine).2) := by
  simp only [Run.blame]
  match action machine with
  | (.ok value, final) => rfl
  | (.error (.fault cause), final) => rfl
  | (.error (.misuse reason), final) => rfl
  | (.error .exhausted, final) => rfl

theorem Stop.GivesUp.blame {stop : Stop} (gives : stop.GivesUp) (callee : String) :
    (stop.blame callee).GivesUp := by
  rcases gives with rfl | ⟨fault, rfl, deep⟩
  · exact .inl rfl
  · exact .inr ⟨_, rfl, deep⟩

namespace Relaxation

variable {α β : Type} {good : α → Prop} {good' : β → Prop}

/-- An action that is not about limits does the same on both machines. -/
theorem of_same {action : Run α}
    (grows : ∀ machine, machine.trace.toList <+: (action machine).2.trace.toList)
    (value : ∀ machine value, (action machine).1 = .ok value → good value)
    (same : ∀ machine machine', machine.Relaxes machine' →
      (action machine').1 = (action machine).1 ∧ (action machine).2.Relaxes (action machine').2) :
    Relaxation good fun _ => action :=
  ⟨fun _ => grows, fun _ => value, fun machine machine' relaxes =>
    .same (same machine machine' relaxes).1 (same machine machine' relaxes).2⟩

/-! ## Sequencing -/

theorem bind {action : Bool → Run α} {next : Bool → α → Run β} (first : Relaxation good action)
    (continued : ∀ value, good value → Relaxation good' fun relaxed => next relaxed value) :
    Relaxation good' fun relaxed => action relaxed >>= next relaxed := by
  have further : ∀ relaxed machine, (action relaxed machine).2.trace.toList <+:
      ((action relaxed >>= next relaxed) machine).2.trace.toList := by
    intro relaxed machine
    have fine := first.value relaxed machine
    rw [Run.bind_apply]
    match action relaxed machine, fine with
    | (.error stop, final), _ => exact List.prefix_rfl
    | (.ok value, final), fine => exact (continued value (fine value rfl)).grows relaxed final
  refine ⟨?_, ?_, ?_⟩
  · intro relaxed machine
    exact (first.grows relaxed machine).trans (further relaxed machine)
  · intro relaxed machine value came
    have fine := first.value relaxed machine
    rw [Run.bind_apply] at came
    match action relaxed machine, fine, came with
    | (.ok middle, final), fine, came =>
      exact (continued middle (fine middle rfl)).value relaxed final value came
  · intro machine machine' relaxes
    have fine := first.value false machine
    have longer := further true machine'
    have outlasts := first.outlasts machine machine' relaxes
    match came : action false machine with
    | (.error stop, final) =>
      rw [Run.bind_apply_of_error came]
      rw [came] at outlasts
      cases outlasts with
      | gaveUp failed gives shorter =>
        cases failed
        exact .gaveUp rfl gives (shorter.trans longer)
      | same result relaxes' =>
        have failed : action true machine' = (.error stop, (action true machine').2) :=
          Prod.ext result rfl
        rw [Run.bind_apply_of_error failed]
        exact .same rfl relaxes'
    | (.ok value, final) =>
      rw [Run.bind_apply_of_ok came]
      rw [came] at outlasts fine
      cases outlasts with
      | gaveUp failed => cases failed
      | same result relaxes' =>
        have done : action true machine' = (.ok value, (action true machine').2) :=
          Prod.ext result rfl
        rw [Run.bind_apply_of_ok done]
        exact (continued value (fine value rfl)).outlasts final _ relaxes'

/-! ## Steps of the machine -/

theorem throw (stop : Stop) : Relaxation good fun _ => MonadExcept.throw stop :=
  of_same (fun _ => List.prefix_rfl) nofun fun _ _ relaxes => ⟨rfl, relaxes⟩

theorem pure {value : α} (fine : good value) : Relaxation good fun _ => Pure.pure value := by
  apply of_same (fun _ => List.prefix_rfl) _ fun _ _ relaxes => ⟨rfl, relaxes⟩
  rintro _ _ ⟨⟩
  exact fine

/-- A change that only adds to the trace, and that gives the same on both machines. -/
theorem modifyGet {change : Machine → α × Machine}
    (grows : ∀ machine, machine.trace.toList <+: (change machine).2.trace.toList)
    (fine : ∀ machine, good (change machine).1)
    (same : ∀ machine machine', machine.Relaxes machine' →
      (change machine').1 = (change machine).1 ∧ (change machine).2.Relaxes (change machine').2) :
    Relaxation good fun _ => MonadStateOf.modifyGet change := by
  apply of_same grows
  · rintro machine _ ⟨⟩
    exact fine machine
  · intro machine machine' relaxes
    exact ⟨congrArg Except.ok (same machine machine' relaxes).1, (same machine machine' relaxes).2⟩

theorem newScope (name : String) (parent : Option ScopeId) (bindings : Bindings) :
    Relaxation (fun _ => True) fun _ => Run.newScope name parent bindings := by
  apply modifyGet (fun _ => List.prefix_rfl) fun _ => trivial
  intro machine machine' relaxes
  have scopes := relaxes.scopes
  refine ⟨by rw [scopes], ?_, relaxes.hosts, relaxes.closures, relaxes.trace, relaxes.count,
    relaxes.engines⟩
  simp only [scopes]

theorem setAll (scope : ScopeId) (pairs : List (String × Datum)) :
    Relaxation (fun _ => True) fun _ => Run.setAll scope pairs := by
  apply modifyGet (fun _ => List.prefix_rfl) fun _ => trivial
  intro machine machine' relaxes
  have scopes := relaxes.scopes
  refine ⟨rfl, ?_, relaxes.hosts, relaxes.closures, relaxes.trace, relaxes.count, relaxes.engines⟩
  simp only [scopes]

theorem newEngine (limit : Nat) (log : Option Nat) :
    Relaxation (fun _ => True) fun _ => Run.newEngine limit log := by
  apply modifyGet (fun _ => List.prefix_rfl) fun _ => trivial
  intro machine machine' relaxes
  exact ⟨relaxes.count, relaxes.pushEngine ⟨Nat.le_refl _, rfl, rfl⟩⟩

theorem newClosure (params : List String) (body : Form) (scope : Option ScopeId)
    (engine : Option EngineId) {good : Datum → Prop} (fine : ∀ value, good value) :
    Relaxation good fun _ => Run.newClosure params body scope engine := by
  apply modifyGet (fun _ => List.prefix_rfl) fun _ => fine _
  intro machine machine' relaxes
  have closures := relaxes.closures
  refine ⟨by rw [closures], relaxes.scopes, relaxes.hosts, ?_, relaxes.trace, relaxes.count,
    relaxes.engines⟩
  simp only [closures]

theorem resolve (scope : ScopeId) (name : String) {good : Datum → Prop}
    (fine : ∀ value, good value) :
    Relaxation good fun _ => Run.resolve scope name := by
  apply of_same
  · intro machine
    rw [Run.resolve, Run.bind_apply_of_ok (Run.get_apply machine)]
    cases machine.scopes.resolve name scope <;> exact List.prefix_rfl
  · exact fun _ value _ => fine value
  · intro machine machine' relaxes
    rw [Run.resolve, Run.bind_apply_of_ok (Run.get_apply machine),
      Run.bind_apply_of_ok (Run.get_apply machine'), relaxes.scopes]
    cases machine.scopes.resolve name scope <;> exact ⟨rfl, relaxes⟩

/-- Both machines record the same entry, because the depth does not depend on the limit. -/
theorem record (engine : EngineId) {event : Machine → TraceEvent}
    (alike : ∀ left right, left.scopes = right.scopes → event left = event right) :
    Relaxation (fun _ => True) fun _ => Run.record engine event := by
  apply modifyGet _ fun _ => trivial
  · intro machine machine' relaxes
    have found := relaxes.engine engine
    refine ⟨rfl, ?_⟩
    simp only [found.log, found.depth, alike machine' machine relaxes.scopes]
    cases (machine.engine engine).log with
    | none => exact relaxes
    | some log =>
      refine ⟨relaxes.scopes, relaxes.hosts, relaxes.closures, ?_, relaxes.count, relaxes.engines⟩
      simp only [relaxes.trace]
  · intro machine
    simp only
    cases (machine.engine engine).log with
    | none => exact List.prefix_rfl
    | some log => simp only [Array.toList_push, List.prefix_append]

/-! ## Functions of the host -/

theorem blame (callee : String) {action : Bool → Run α} (inside : Relaxation good action) :
    Relaxation good fun relaxed => Run.blame callee (action relaxed) := by
  refine ⟨?_, ?_, ?_⟩
  · intro relaxed machine
    rw [Run.blame_eq]
    exact inside.grows relaxed machine
  · intro relaxed machine value came
    rw [Run.blame_eq] at came
    apply inside.value relaxed machine value
    cases result : (action relaxed machine).1 with
    | ok value' =>
      rw [result] at came
      exact came
    | error stop =>
      rw [result] at came
      cases came
  · intro machine machine' relaxes
    rw [Run.blame_eq, Run.blame_eq]
    cases inside.outlasts machine machine' relaxes with
    | same result relaxes' => exact .same (congrArg (Except.mapError _) result) relaxes'
    | gaveUp failed gives trace =>
      refine .gaveUp ?_ (gives.blame callee) trace
      rw [failed]
      rfl

/-- The functions of the host are the same on both machines. -/
theorem inspect {next : Bool → Machine → Run α}
    (each : ∀ seen, Relaxation good fun relaxed => next relaxed seen)
    (alike : ∀ relaxed seen seen', seen.hosts = seen'.hosts →
      next relaxed seen = next relaxed seen') :
    Relaxation good fun relaxed => get >>= next relaxed := by
  refine ⟨?_, ?_, ?_⟩
  · intro relaxed machine
    exact (each machine).grows relaxed machine
  · intro relaxed machine
    exact (each machine).value relaxed machine
  · intro machine machine' relaxes
    have outlasts := (each machine).outlasts machine machine' relaxes
    rwa [Run.bind_apply_of_ok (Run.get_apply machine),
      Run.bind_apply_of_ok (Run.get_apply machine'), alike true machine' machine relaxes.hosts]

variable {inner : Bool → Evaluation} {arguments : List Datum}

/-- A value may hold any functions. -/
abbrev Any : Datum → Prop := Value.Every fun _ => True

theorem interpretText
    (inside : ∀ engine scope form, Relaxation Any fun relaxed => inner relaxed engine scope form) :
    Relaxation Any fun relaxed => Eval.interpretText (inner relaxed) arguments := by
  match arguments with
  | .text text :: rest =>
    simp only [Eval.interpretText]
    generalize Form.parse _ = parsed
    have read : Relaxation (fun _ => True) fun _ => (liftM parsed : Run Form) := by
      cases parsed with
      | ok form => exact pure trivial
      | error stop => exact throw stop
    apply read.bind
    intro form _
    apply (newScope _ _ _).bind
    intro scope _
    apply (newEngine _ _).bind
    intro engine _
    exact inside engine scope form
  | [] | .nil :: _ | .int _ :: _ | .bool _ :: _ | .list _ :: _ | .function _ :: _ =>
    exact throw _

theorem callHost
    (inside : ∀ engine scope form, Relaxation Any fun relaxed => inner relaxed engine scope form)
    (builtins : ∀ operation, Relaxation Any fun _ => Eval.callBuiltin operation arguments)
    (closures : ∀ closure, Relaxation Any fun relaxed =>
      Eval.callClosure (inner relaxed) closure arguments) (steps index : Nat) (name : String) :
    Relaxation Any fun relaxed => Eval.callHost (inner relaxed) arguments steps index name := by
  induction steps generalizing index name with
  | zero => exact throw _
  | succ steps ih =>
    apply inspect _ fun relaxed seen seen' same => by rw [same]
    intro seen
    match seen.hosts[index]? with
    | some (.wrap (.function (.builtin operation))) => exact (builtins operation).blame name
    | some (.wrap (.function (.closure closure))) => exact (closures closure).blame name
    | some (.wrap (.function (.host index wrapped))) => exact (ih index wrapped).blame name
    | some (.fail message) => exact (throw _).blame name
    | some (.const value) => exact pure (Value.every_of_forall (fun _ => trivial) value)
    | some .interpret => exact (interpretText inside).blame name
    | some (.wrap .nil) | some (.wrap (.int _)) | some (.wrap (.text _)) | some (.wrap (.bool _))
    | some (.wrap (.list _)) | none => exact throw _

/-! ## The logic -/

/-- That relaxed runs outlast others is a logic of evaluation, in which nothing needs to be
known. -/
def logic : Eval.Logic Bool where
  World := Unit
  Later _ _ := True
  Scope _ _ := True
  Engine _ := True
  Function _ _ := True
  Holds _ good action := Relaxation (good ()) action
  scope_later _ _ := trivial
  function_later _ _ := trivial
  function_builtin _ := trivial
  scope_of_closure _ _ := trivial
  pure := pure
  fail _ := throw _
  bind first continued := first.bind fun value => continued () value trivial
  resolve name _ := resolve _ name (Value.every_of_forall fun _ => trivial)
  record _ alike := record _ alike
  newScope name _ _ := newScope name _ _
  newClosure params body _ _ :=
    newClosure params body _ _ (Value.every_of_forall fun _ => trivial)
  engineOf _ := by
    unfold Eval.engineOf
    split
    · exact pure trivial
    · exact newEngine _ _
  fillScope name _ paired continued := by
    apply (newScope name _ _).bind
    intro fresh _
    apply (paired () trivial).bind
    intro bound _
    apply (setAll fresh bound).bind
    intro _ _
    exact continued () fresh trivial trivial
  callHost name inside builtins closures _ :=
    callHost (fun engine scope form => inside () engine scope form trivial trivial) builtins
      (fun closure => closures closure trivial) _ _ name

end Relaxation

end MiniLisp
