import Mathlib.Algebra.Order.BigOperators.Group.List
import Mathlib.Algebra.Order.Ring.Nat
import Mathlib.Data.Finset.Lattice.Fold
import MiniLisp.Proofs.Eval.Lockstep
import MiniLisp.Proofs.Machine.Ledger
import MiniLisp.Proofs.Reader.Faults
import MiniLisp.Proofs.Scope.Visibility

/-!
# Running out of fuel

Fuel bounds the evaluations that take place inside one another, and so do the engines: each of these
evaluations has been admitted by one.  Where fuel runs out, the engines together admit at least as
many evaluations as there was fuel.  So a call runs out of every amount of fuel only if it starts
engines without end, and a call that comes back comes to the same with more fuel.
-/

namespace MiniLisp

/-! ## Room in the engines -/

namespace Machine

variable {machine middle final : Machine}

/-- An engine that admits an evaluation exists. -/
theorem exists_of_admitted {engine : EngineId}
    (admitted : (machine.engine engine).depth < (machine.engine engine).limit) :
    ∃ counter, machine.engines[engine]? = some counter ∧ counter.depth < counter.limit := by
  rw [Machine.engine, Array.getD_eq_getD_getElem?] at admitted
  cases present : machine.engines[engine]? with
  | none =>
    rw [present] at admitted
    exact absurd admitted (Nat.lt_irrefl 0)
  | some counter =>
    rw [present] at admitted
    exact ⟨counter, rfl, admitted⟩

/-- An engine in which a run took place admits more evaluations once it is left. -/
theorem Advances.headroom_lt_leave {engine : EngineId}
    (admitted : (machine.engine engine).depth < (machine.engine engine).limit)
    (advances : (machine.enter engine).Advances final) :
    final.headroom < (final.leave engine).headroom := by
  obtain ⟨counter, present, within⟩ := exists_of_admitted admitted
  have inside : engine < (machine.enter engine).engines.size := by
    simpa [enter] using (Array.getElem?_eq_some_iff.mp present).1
  have entered : (machine.enter engine).engines[engine]? =
      some { counter with depth := counter.depth + 1 } := by
    simp [enter, Array.getElem?_modify, present]
  have there := (advances.engines engine inside).trans entered
  have admits : Engine.Admits (final.leave engine).engines engine := by
    simpa [Machine.leave, Array.getElem?_modify, there] using within
  have again : Engine.entered (final.leave engine).engines engine = final.engines := by
    apply Array.ext_getElem?
    intro index
    simp only [Engine.entered, Machine.leave, Array.getElem?_modify]
    split
    next same =>
      rw [← same, there]
      rfl
    next => rfl
  have less := Engine.room_entered admits
  rwa [again] at less

/-- The limits of the engines. -/
def limits (machine : Machine) : List Nat :=
  machine.engines.toList.map Engine.limit

/-- What a run may do to the engines and to the functions of the host: these stay as they are, no
limit is changed, and every engine that is started has the default limit. -/
structure Engages (machine final : Machine) : Prop where
  hosts : final.hosts = machine.hosts
  limits : ∃ count, final.limits = machine.limits ++ List.replicate count defaultLimit

theorem Engages.of_eq (hosts : final.hosts = machine.hosts)
    (limits : final.limits = machine.limits) : machine.Engages final :=
  ⟨hosts, 0, limits.trans (List.append_nil _).symm⟩

theorem Engages.trans (first : machine.Engages middle) (second : middle.Engages final) :
    machine.Engages final := by
  obtain ⟨hosts, count, limits⟩ := first
  obtain ⟨hosts', count', limits'⟩ := second
  refine ⟨hosts'.trans hosts, count + count', ?_⟩
  rw [limits', limits, List.append_assoc, List.replicate_append_replicate]

theorem limits_modify (machine : Machine) (engine : EngineId) {change : Engine → Engine}
    (kept : ∀ found, (change found).limit = found.limit) :
    limits { machine with engines := machine.engines.modify engine change } = machine.limits := by
  apply List.ext_getElem?
  intro index
  simp only [limits, List.getElem?_map, Array.toList_modify, List.getElem?_modify]
  cases machine.engines.toList[index]? with
  | none => rfl
  | some found =>
    simp only [Option.map_some]
    split
    · exact congrArg some (kept found)
    · rfl

/-- Engines are started behind those that are there. -/
theorem Advances.exists_started (advances : machine.Advances final) :
    ∃ started, final.engines.toList = machine.engines.toList ++ started := by
  refine ⟨final.engines.toList.drop machine.engines.size, ?_⟩
  have kept : final.engines.toList.take machine.engines.size = machine.engines.toList := by
    apply List.ext_getElem?
    intro index
    by_cases inside : index < machine.engines.size
    · rw [List.getElem?_take_of_lt inside, Array.getElem?_toList, Array.getElem?_toList]
      exact advances.engines index inside
    · rw [List.getElem?_take_eq_none (Nat.le_of_not_lt inside), eq_comm]
      exact List.getElem?_eq_none (by simpa using inside)
  rw [← kept, List.take_append_drop]

/-- The engines that were started admit no more evaluations than their limits together. -/
theorem headroom_le (advances : machine.Advances final) (engages : machine.Engages final) :
    final.headroom ≤
      machine.headroom + defaultLimit * (final.engines.size - machine.engines.size) := by
  obtain ⟨started, whole⟩ := advances.exists_started
  obtain ⟨-, count, limits⟩ := engages
  rw [Machine.limits, whole, List.map_append, Machine.limits, List.append_right_inj] at limits
  have size : final.engines.size - machine.engines.size = started.length := by
    rw [← Array.length_toList, whole, List.length_append, Array.length_toList,
      Nat.add_sub_cancel_left]
  have within : ∀ room ∈ started.map fun engine => engine.limit - engine.depth,
      room ≤ defaultLimit := by
    intro room member
    obtain ⟨engine, among, rfl⟩ := List.mem_map.mp member
    have limited : engine.limit ∈ List.replicate count defaultLimit :=
      limits ▸ List.mem_map_of_mem among
    rw [List.eq_of_mem_replicate limited]
    exact Nat.sub_le _ _
  have bounded := List.sum_le_card_nsmul _ _ within
  rw [List.length_map, Nat.nsmul_eq_mul, Nat.mul_comm] at bounded
  calc final.headroom
    _ = (final.engines.toList.map fun engine => engine.limit - engine.depth).sum :=
      Engine.room_eq_sum final.engines
    _ = machine.headroom + (started.map fun engine => engine.limit - engine.depth).sum := by
      rw [whole, List.map_append, List.sum_append, ← Engine.room_eq_sum]
      rfl
    _ ≤ machine.headroom + defaultLimit * (final.engines.size - machine.engines.size) := by
      rw [size]
      exact Nat.add_le_add_left bounded _

end Machine

/-! ## Runs with more fuel -/

/-- A call reports that fuel ran out only if it did. -/
theorem Stop.eq_exhausted_of_blame {callee : String} {stop : Stop}
    (blamed : stop.blame callee = .exhausted) : stop = .exhausted := by
  cases stop with
  | exhausted => rfl
  | fault cause => cases blamed
  | misuse reason => cases blamed

/-- What becomes of a run and of one with more fuel.  If the run does not run out of fuel, more fuel
makes no difference; if it does, the engines admit more evaluations afterwards than a given
number. -/
structure Settled {α : Type} (room : Nat) (good : α → Prop) (machine : Machine)
    (outcome richer : Except Stop α × Machine) : Prop where
  value : ∀ value, outcome.1 = .ok value → good value
  engages : machine.Engages outcome.2
  course : outcome.1 ≠ .error .exhausted ∧ richer = outcome ∨
    outcome.1 = .error .exhausted ∧ room ≤ outcome.2.headroom

/-- A run, and one with more fuel, are settled wherever functions of the host hold only older
ones. -/
def Settles {α : Type} (room : Nat) (good : α → Prop) (action : Bool → Run α) : Prop :=
  ∀ machine, machine.Layered →
    Settled room good machine (action false machine) (action true machine)

namespace Settles

variable {α β : Type} {room : Nat} {good : α → Prop} {good' : β → Prop}

/-- What takes no fuel does not run out of it. -/
theorem of_same {action : Run α}
    (value : ∀ machine value, (action machine).1 = .ok value → good value)
    (engages : ∀ machine : Machine, machine.Engages (action machine).2)
    (ends : ∀ machine, (action machine).1 ≠ .error .exhausted) :
    Settles room good fun _ => action :=
  fun machine _ => ⟨value machine, engages machine, .inl ⟨ends machine, rfl⟩⟩

theorem bind {action : Bool → Run α} {next : Bool → α → Run β} (first : Settles room good action)
    (continued : ∀ value, good value → Settles room good' fun richer => next richer value) :
    Settles room good' fun richer => action richer >>= next richer := by
  intro machine layered
  obtain ⟨fine, engages, course⟩ := first machine layered
  change Settled _ _ _ ((action false >>= next false) machine) ((action true >>= next true) machine)
  match came : action false machine with
  | (.error stop, final) =>
    rw [came] at engages course
    rw [Run.bind_apply_of_error came]
    refine ⟨nofun, engages, ?_⟩
    rcases course with ⟨ends, same⟩ | ⟨exhausted, enough⟩
    · refine .inl ⟨fun same => ends (congrArg Except.error (Except.error.inj same)), ?_⟩
      rw [Run.bind_apply_of_error same]
    · exact .inr ⟨congrArg Except.error (Except.error.inj exhausted), enough⟩
  | (.ok value, final) =>
    rw [came] at fine engages course
    rcases course with ⟨-, same⟩ | ⟨exhausted, -⟩
    · rw [Run.bind_apply_of_ok came, Run.bind_apply_of_ok same]
      obtain ⟨fine', engages', course'⟩ :=
        continued value (fine value rfl) final (layered.of_eq engages.hosts)
      exact ⟨fine', engages.trans engages', course'⟩
    · cases exhausted

/-! ### Steps of the machine -/

theorem throw {stop : Stop} (ends : stop ≠ .exhausted) :
    Settles room good fun _ => MonadExcept.throw stop :=
  of_same nofun (fun _ => .of_eq rfl rfl) fun _ same => ends (Except.error.inj same)

theorem fail (fault : Fault) : Settles room good fun _ => Run.fail fault :=
  throw nofun

theorem misuse (reason : Misuse) :
    Settles room good fun _ => MonadExcept.throw (.misuse reason) :=
  throw nofun

theorem pure {value : α} (fine : good value) : Settles room good fun _ => Pure.pure value :=
  of_same (fun _ _ same => Except.ok.inj same ▸ fine) (fun _ => .of_eq rfl rfl) nofun

theorem modifyGet {change : Machine → α × Machine} (fine : ∀ machine, good (change machine).1)
    (engages : ∀ machine : Machine, machine.Engages (change machine).2) :
    Settles room good fun _ => MonadStateOf.modifyGet change :=
  of_same (fun machine _ same => Except.ok.inj same ▸ fine machine) engages nofun

theorem newScope (name : String) (parent : Option ScopeId) (bindings : Bindings) :
    Settles room (fun _ => True) fun _ => Run.newScope name parent bindings :=
  modifyGet (fun _ => trivial) fun _ => .of_eq rfl rfl

theorem setAll (scope : ScopeId) (pairs : List (String × Datum)) :
    Settles room (fun _ => True) fun _ => Run.setAll scope pairs :=
  modifyGet (fun _ => trivial) fun _ => .of_eq rfl rfl

theorem newEngine : Settles room (fun _ => True) fun _ => Run.newEngine defaultLimit none := by
  apply modifyGet fun _ => trivial
  exact fun machine => ⟨rfl, 1, by simp [Machine.limits]⟩

theorem newClosure (params : List String) (body : Form) (scope : Option ScopeId)
    (engine : Option EngineId) {good : Datum → Prop} (fine : ∀ value, good value) :
    Settles room good fun _ => Run.newClosure params body scope engine :=
  modifyGet (fun _ => fine _) fun _ => .of_eq rfl rfl

theorem resolve (scope : ScopeId) (name : String) {good : Datum → Prop}
    (fine : ∀ value, good value) : Settles room good fun _ => Run.resolve scope name := by
  apply of_same fun _ value _ => fine value
  · intro machine
    rw [Run.resolve_apply]
    cases machine.scopes.resolve name scope <;> exact .of_eq rfl rfl
  · intro machine
    rw [Run.resolve_apply]
    cases machine.scopes.resolve name scope <;> exact nofun

theorem record (engine : EngineId) (event : Machine → TraceEvent) :
    Settles room (fun _ => True) fun _ => Run.record engine event := by
  apply modifyGet fun _ => trivial
  intro machine
  simp only
  cases (machine.engine engine).log <;> exact .of_eq rfl rfl

/-- One more evaluation fits into the engines once the one that took place is over. -/
theorem nested {action : Bool → Run α} (inside : Settles room good action)
    (advances : ∀ machine : Machine, machine.Advances (action false machine).2)
    (engine : EngineId) :
    Settles (room + 1) good fun richer => Run.nested engine (action richer) := by
  intro machine layered
  change Settled _ _ _ (Run.nested engine (action false) machine)
    (Run.nested engine (action true) machine)
  by_cases admitted : (machine.engine engine).depth < (machine.engine engine).limit
  · have entered : machine.Engages (machine.enter engine) :=
      .of_eq rfl (machine.limits_modify engine fun _ => rfl)
    obtain ⟨fine, engages, course⟩ := inside _ (layered.of_eq entered.hosts)
    rw [Realm.nested_of_open admitted, Realm.nested_of_open admitted]
    refine ⟨fine, (entered.trans engages).trans
      (.of_eq rfl (Machine.limits_modify _ engine fun _ => rfl)), ?_⟩
    rcases course with ⟨ends, same⟩ | ⟨exhausted, enough⟩
    · exact .inl ⟨ends, by rw [same]⟩
    · refine .inr ⟨exhausted, ?_⟩
      exact Nat.lt_of_le_of_lt enough ((advances _).headroom_lt_leave admitted)
  · rw [Realm.nested_of_full admitted, Realm.nested_of_full admitted]
    exact ⟨nofun, .of_eq rfl rfl, .inl ⟨nofun, rfl⟩⟩

/-! ### Functions of the host -/

theorem blame (callee : String) {action : Bool → Run α} (inside : Settles room good action) :
    Settles room good fun richer => Run.blame callee (action richer) := by
  intro machine layered
  obtain ⟨fine, engages, course⟩ := inside machine layered
  simp only [Run.blame_eq]
  refine ⟨?_, engages, ?_⟩
  · intro value came
    apply fine value
    cases result : (action false machine).1 with
    | ok found =>
      rw [result] at came
      exact came
    | error stop =>
      rw [result] at came
      cases came
  · rcases course with ⟨ends, same⟩ | ⟨exhausted, enough⟩
    · refine .inl ⟨?_, by rw [same]⟩
      intro blamed
      apply ends
      cases result : (action false machine).1 with
      | ok found =>
        rw [result] at blamed
        cases blamed
      | error stop =>
        rw [result] at blamed
        rw [Stop.eq_exhausted_of_blame (Except.error.inj blamed)]
    · exact .inr ⟨by rw [exhausted]; rfl, enough⟩

/-- A run may depend on the functions of the host. -/
theorem inspect {next : Bool → Machine → Run α}
    (each : ∀ seen : Machine, seen.Layered → Settles room good fun richer => next richer seen) :
    Settles room good fun richer => get >>= next richer :=
  fun machine layered => each machine layered machine layered

/-- A value may hold any functions. -/
abbrev Any : Datum → Prop := Value.Every fun _ => True

variable {inner : Bool → Evaluation} {arguments : List Datum}

theorem interpretText
    (inside : ∀ engine scope form, Settles room Any fun richer => inner richer engine scope form) :
    Settles room Any fun richer => Eval.interpretText (inner richer) arguments := by
  match arguments with
  | .text text :: rest =>
    simp only [Eval.interpretText]
    have read : ∀ outcome : Except Stop Form, outcome ≠ .error .exhausted →
        Settles room (fun _ => True) fun _ => (liftM outcome : Run Form) := by
      intro outcome ends
      cases outcome with
      | ok form => exact pure trivial
      | error stop => exact throw fun same => ends (congrArg Except.error same)
    apply (read _ _).bind
    · intro form _
      apply (newScope _ _ _).bind
      intro scope _
      apply newEngine.bind
      intro engine _
      exact inside engine scope form
    · intro exhausted
      rcases Form.parse_cases _ with ⟨fault, failed⟩ | ⟨form, accepted⟩
      · cases exhausted.symm.trans failed
      · cases exhausted.symm.trans accepted
  | [] | .nil :: _ | .int _ :: _ | .bool _ :: _ | .list _ :: _ | .function _ :: _ =>
    exact misuse _

/-- Functions of the host that wrap one another come to an end, because each of them is older. -/
theorem callHost
    (inside : ∀ engine scope form, Settles room Any fun richer => inner richer engine scope form)
    (builtins : ∀ operation, Settles room Any fun _ => Eval.callBuiltin operation arguments)
    (closures : ∀ closure, Settles room Any fun richer =>
      Eval.callClosure (inner richer) closure arguments)
    {steps index : Nat} (within : index < steps) (name : String) :
    Settles room Any fun richer => Eval.callHost (inner richer) arguments steps index name := by
  induction steps generalizing index name with
  | zero => exact absurd within (Nat.not_lt_zero _)
  | succ steps ih =>
    apply inspect
    intro seen layered
    have older := layered index
    cases present : seen.hosts[index]? with
    | none => exact misuse _
    | some action =>
      have every := older action present
      cases action with
      | wrap target =>
        cases target with
        | function procedure =>
          cases procedure with
          | builtin operation => exact (builtins operation).blame name
          | closure closure => exact (closures closure).blame name
          | host wrapped label =>
            have smaller : (Procedure.host wrapped label).Older index :=
              Value.every_function_iff.mp every
            exact (ih (Nat.lt_of_lt_of_le smaller (Nat.le_of_lt_succ within)) label).blame name
        | nil | int | text | bool | list => exact misuse _
      | fail message => exact (fail _).blame name
      | const value => exact pure (Eval.Law.any value)
      | interpret => exact (interpretText inside).blame name

/-! ### Evaluations and calls -/

/-- That runs are settled is a logic of evaluation, in which nothing needs to be known. -/
def logic (room : Nat) : Eval.Logic Bool where
  World := Unit
  Later _ _ := True
  Scope _ _ := True
  Engine _ := True
  Function _ _ := True
  Holds _ good action := Settles room (good ()) action
  scope_later _ _ := trivial
  function_later _ _ := trivial
  function_builtin _ := trivial
  scope_of_closure _ _ := trivial
  pure := pure
  fail := fail
  bind first continued := first.bind fun value => continued () value trivial
  resolve name _ := resolve _ name Eval.Law.any
  record _ _ := record _ _
  newScope name _ _ := newScope name _ _
  newClosure params body _ _ := newClosure params body _ _ Eval.Law.any
  engineOf _ := by
    unfold Eval.engineOf
    split
    · exact pure trivial
    · exact newEngine
  fillScope name _ paired continued := by
    apply (newScope name _ _).bind
    intro fresh _
    apply (paired () trivial).bind
    intro bound _
    apply (setAll fresh bound).bind
    intro _ _
    exact continued () fresh trivial trivial
  callHost name inside builtins closures _ :=
    callHost (fun engine scope form => inside () engine scope form trivial trivial) builtins
      (fun closure => closures closure trivial) (Nat.lt_succ_self _) name

theorem step (inside : (logic room).Inner inner)
    (advances : ∀ engine scope form, Eval.advancing.Holds (inner false engine scope form)) :
    (logic (room + 1)).Inner fun richer => Eval.step (inner richer) := by
  intro world engine scope form _ _
  have inside' := Eval.advancing.inner_iff.mpr advances
  cases form with
  | absent => exact pure Value.every_nil
  | atom token value =>
    have settles : Settles room Any fun _ => Eval.evalAtom scope value :=
      @Eval.SilentLogic.evalAtom_holds _ (logic room).toSilentLogic () _ trivial value
    have moves : Eval.advancing.logic.Holds () Eval.advancing.logic.Datum fun _ =>
        Eval.evalAtom scope value :=
      Eval.advancing.logic.evalAtom_holds trivial value
    exact settles.nested moves.1 engine
  | list token label items =>
    have settles : Settles room Any fun richer =>
        Eval.evalList (inner richer) engine scope items :=
      @Eval.Logic.evalList_holds _ (logic room) () _ _ _ inside trivial trivial items
    have moves : Eval.advancing.logic.Holds () Eval.advancing.logic.Datum fun _ =>
        Eval.evalList (inner false) engine scope items :=
      Eval.advancing.logic.evalList_holds inside' trivial trivial items
    exact settles.nested moves.1 engine

/-- An evaluation runs out of fuel only where the engines admit as many evaluations. -/
theorem eval_le {fuel fuel' : Nat} (le : fuel ≤ fuel') :
    (logic fuel).Inner fun richer => eval (bif richer then fuel' else fuel) := by
  induction fuel generalizing fuel' with
  | zero =>
    intro world engine scope form running known machine _
    exact ⟨nofun, .of_eq rfl rfl, .inr ⟨rfl, Nat.zero_le _⟩⟩
  | succ fuel ih =>
    cases fuel' with
    | zero => cases le
    | succ fuel' =>
      have unfolded : (fun richer => eval (bif richer then fuel' + 1 else fuel + 1)) =
          fun richer => Eval.step (eval (bif richer then fuel' else fuel)) := by
        funext richer
        cases richer <;> rfl
      rw [unfolded]
      exact step (ih (Nat.le_of_succ_le_succ le)) (Eval.advancing.eval_holds fuel)

theorem call_le {fuel fuel' : Nat} (le : fuel ≤ fuel') (procedure : Procedure)
    (arguments : List Datum) :
    Settles fuel Any fun richer => call (bif richer then fuel' else fuel) procedure arguments := by
  have holds : (logic fuel).Holds () (logic fuel).Datum fun richer =>
      Eval.call (eval (bif richer then fuel' else fuel)) procedure arguments :=
    (logic fuel).call_holds (eval_le le) trivial fun value _ => Eval.Law.any value
  exact holds

end Settles

/-! ## Calls that come back -/

namespace Machine

variable {machine : Machine} {procedure : Procedure} {arguments : List Datum} {fuel fuel' : Nat}

/-- The number of engines that a call starts with some fuel. -/
def started (machine : Machine) (procedure : Procedure) (arguments : List Datum) (fuel : Nat) :
    Nat :=
  (call fuel procedure arguments machine).2.engines.size - machine.engines.size

/-- A call comes back with an outcome: it has that outcome with every amount of fuel that is large
enough, and fuel does not run out. -/
structure ComesBack (machine : Machine) (procedure : Procedure) (arguments : List Datum)
    (outcome : Except Stop Datum × Machine) : Prop where
  settled : outcome.1 ≠ .error .exhausted
  stable : ∃ enough, ∀ fuel, enough ≤ fuel → call fuel procedure arguments machine = outcome

/-- A call that does not run out of fuel comes back. -/
theorem Layered.comesBack (layered : machine.Layered)
    (ends : (call fuel procedure arguments machine).1 ≠ .error .exhausted) :
    machine.ComesBack procedure arguments (call fuel procedure arguments machine) := by
  refine ⟨ends, fuel, ?_⟩
  intro fuel' le
  rcases (Settles.call_le le procedure arguments machine layered).course with
    ⟨-, same⟩ | ⟨exhausted, -⟩
  · exact same
  · exact absurd exhausted ends

/-- Where fuel runs out, there is no more of it than what the engines admit: those that were there
and those that were started. -/
theorem Layered.fuel_le (layered : machine.Layered)
    (exhausted : (call fuel procedure arguments machine).1 = .error .exhausted) :
    fuel ≤ machine.headroom + defaultLimit * machine.started procedure arguments fuel := by
  have advances := Eval.advancing.call_holds fuel procedure arguments machine
  have settled := Settles.call_le (Nat.le_refl fuel) procedure arguments machine layered
  rcases settled.course with ⟨ends, -⟩ | ⟨-, enough⟩
  · exact absurd exhausted ends
  · exact Nat.le_trans enough (headroom_le advances settled.engages)

/-- A call that starts a bounded number of engines comes back. -/
theorem Layered.exists_comesBack (layered : machine.Layered) {bound : Nat}
    (bounded : ∀ fuel, machine.started procedure arguments fuel ≤ bound) :
    ∃ outcome, machine.ComesBack procedure arguments outcome := by
  obtain ⟨fuel, enough⟩ : ∃ fuel, fuel = machine.headroom + defaultLimit * bound + 1 := ⟨_, rfl⟩
  refine ⟨call fuel procedure arguments machine, layered.comesBack ?_⟩
  intro exhausted
  have within := layered.fuel_le exhausted
  have fewer := Nat.mul_le_mul_left defaultLimit (bounded fuel)
  omega

/-- A call comes back exactly if the number of engines that it starts is bounded. -/
theorem Layered.comesBack_iff (layered : machine.Layered) :
    (∃ outcome, machine.ComesBack procedure arguments outcome) ↔
      ∃ bound, ∀ fuel, machine.started procedure arguments fuel ≤ bound := by
  constructor
  · rintro ⟨outcome, -, enough, stable⟩
    refine ⟨(Finset.range (enough + 1)).sup (machine.started procedure arguments), ?_⟩
    intro fuel
    by_cases less : fuel ≤ enough
    · exact Finset.le_sup (Finset.mem_range.mpr (Nat.lt_succ_of_le less))
    · have same : machine.started procedure arguments fuel =
          machine.started procedure arguments enough := by
        rw [started, started, stable fuel (Nat.le_of_not_le less), stable enough (Nat.le_refl _)]
      rw [same]
      exact Finset.le_sup (Finset.self_mem_range_succ enough)
  · rintro ⟨bound, bounded⟩
    exact layered.exists_comesBack bounded

end Machine

end MiniLisp
