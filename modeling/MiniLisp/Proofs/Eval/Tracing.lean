import MiniLisp.Proofs.Eval.DepthLimit
import MiniLisp.Proofs.Eval.Enclosure
import MiniLisp.Proofs.Eval.Law
import MiniLisp.Proofs.Trace.Lines

/-!
# The trace of an evaluation

A program runs in one engine, and whatever it records is recorded at the depth of that engine.  So a
part of an evaluation adds to the trace what is no higher than that depth: whole calls, and, if the
part fails, the beginnings of the calls that were going on.  That much is clear for every part that
records nothing by itself; a call adds the entries around what it does one level deeper.

Nothing but the trace depends on whether there is one.
-/

namespace MiniLisp

open Trace

/-! ## Additions to the trace -/

/-- What a run adds to the trace, at a certain depth or deeper: whole calls if it comes to a value,
and otherwise whole calls and beginnings of calls.  All of it has some property. -/
def Spans {α : Type} (own : TraceEntry → Prop) (floor : Nat) (machine : Machine)
    (outcome : Except Stop α × Machine) : Prop :=
  ∃ added, outcome.2.trace.toList = machine.trace.toList ++ added ∧
    (∀ entry ∈ added, own entry) ∧ Pending floor (added.map TraceEntry.bracket) ∧
    ∀ value, outcome.1 = .ok value → Balanced floor (added.map TraceEntry.bracket)

namespace Spans

variable {α β : Type} {own : TraceEntry → Prop} {floor : Nat} {machine : Machine}

theorem silent {outcome : Except Stop α × Machine} (same : outcome.2.trace = machine.trace) :
    Spans own floor machine outcome :=
  ⟨[], by rw [same, List.append_nil], nofun, .balanced .nil, fun _ _ => .nil⟩

theorem mono {outcome : Except Stop α × Machine} {lower : Nat} (le : lower ≤ floor)
    (spans : Spans own floor machine outcome) : Spans own lower machine outcome := by
  obtain ⟨added, grown, owned, pending, balanced⟩ := spans
  exact ⟨added, grown, owned, pending.mono le, fun value came => (balanced value came).mono le⟩

theorem bind {action : Run α} {next : α → Run β} (first : Spans own floor machine (action machine))
    (continued : ∀ value middle, action machine = (.ok value, middle) →
      Spans own floor middle (next value middle)) :
    Spans own floor machine ((action >>= next) machine) := by
  obtain ⟨added, grown, owned, pending, balanced⟩ := first
  rw [Run.bind_apply]
  match came : action machine with
  | (.error stop, middle) =>
    rw [came] at grown
    exact ⟨added, grown, owned, pending, nofun⟩
  | (.ok value, middle) =>
    rw [came] at grown balanced
    have whole := balanced value rfl
    obtain ⟨added', grown', owned', pending', balanced'⟩ := continued value middle came
    refine ⟨added ++ added', ?_, ?_, ?_, ?_⟩
    · rw [grown', grown, List.append_assoc]
    · exact List.forall_mem_append.mpr ⟨owned, owned'⟩
    · rw [List.map_append]
      exact whole.append_pending pending'
    · intro value came
      rw [List.map_append]
      exact whole.append (balanced' value came)

theorem nested {engine : EngineId} {action : Run α}
    (inside : (machine.engine engine).depth < (machine.engine engine).limit →
      Spans own floor (machine.enter engine) (action (machine.enter engine))) :
    Spans own floor machine (Run.nested engine action machine) := by
  by_cases admitted : (machine.engine engine).depth < (machine.engine engine).limit
  · rw [Realm.nested_of_open admitted]
    exact inside admitted
  · rw [Realm.nested_of_full admitted]
    exact silent rfl

section Enclosed

variable {opening closing : TraceEntry} {final : Machine}
variable (calls : opening.event.kind = .call) (owns : own opening)

include calls owns

/-- A call that fails leaves its beginning in front of what it did. -/
theorem broken {stop : Stop}
    (inside : Spans own (opening.depth + 1) { machine with trace := machine.trace.push opening }
      ((.error stop, final) : Except Stop α × Machine)) :
    Spans own opening.depth machine ((.error stop, final) : Except Stop α × Machine) := by
  obtain ⟨added, grown, owned, pending, -⟩ := inside
  refine ⟨opening :: added, ?_, ?_, .call .nil calls (Nat.le_refl _) pending, nofun⟩
  · rw [grown, Array.toList_push, List.append_assoc]
    rfl
  · exact List.forall_mem_cons.mpr ⟨owns, owned⟩

/-- A call that comes to a value stands around what it did. -/
theorem whole {value : α} (comes : closing.event.kind = .result)
    (level : closing.depth = opening.depth) (owns' : own closing)
    (inside : Spans own (opening.depth + 1) { machine with trace := machine.trace.push opening }
      (.ok value, final)) :
    Spans own opening.depth machine
      (.ok value, { final with trace := final.trace.push closing }) := by
  obtain ⟨added, grown, owned, -, balanced⟩ := inside
  have enclosed : Balanced opening.depth ((opening :: (added ++ [closing])).map
      TraceEntry.bracket) := by
    have whole : Balanced opening.depth
        (opening.bracket :: (added.map TraceEntry.bracket ++ [closing.bracket]) ++ []) :=
      .call calls comes level (Nat.le_refl _) (balanced value rfl) .nil
    simpa using whole
  refine ⟨_, ?_, ?_, .balanced enclosed, fun _ _ => enclosed⟩
  · change (final.trace.push closing).toList = _
    rw [Array.toList_push, grown, Array.toList_push]
    simp
  · refine List.forall_mem_cons.mpr ⟨owns, List.forall_mem_append.mpr ⟨owned, ?_⟩⟩
    exact List.forall_mem_singleton.mpr owns'

end Enclosed

end Spans

/-! ## Evaluation in a realm -/

namespace Realm

variable {realm : Realm} {evaluation : Evaluation} {floor size : Nat}

/-- What the engine of a realm records: entries of its log, none of them deeper than its limit. -/
def Records (realm : Realm) (entry : TraceEntry) : Prop :=
  ∃ home counter, realm.home = some (home, counter) ∧ counter.log = some entry.log ∧
    entry.depth ≤ counter.limit

theorem records_deeper (realm : Realm) : realm.deeper.Records = realm.Records := by
  funext entry
  apply propext
  constructor
  · rintro ⟨home, counter, located, logged, within⟩
    obtain ⟨found, located', rfl⟩ := deeper_home_iff.mp located
    exact ⟨home, found, located', logged, within⟩
  · rintro ⟨home, counter, located, logged, within⟩
    exact ⟨home, _, deeper_home_iff.mpr ⟨counter, located, rfl⟩, logged, within⟩

/-- A computation keeps to a realm and adds to the trace nothing above a certain depth. -/
def Traces (realm : Realm) (evaluation : Evaluation) (floor : Nat) {α : Type} (size : Nat)
    (good : Nat → α → Prop) (program : Evaluation → Run α) : Prop :=
  realm.Holds evaluation size good program ∧
    ∀ machine, machine.scopes.size = size → realm.Sealed machine →
      Spans realm.Records floor machine (program evaluation machine)

theorem Traces.silent {α : Type} {good : Nat → α → Prop} {program : Evaluation → Run α}
    (holds : realm.Holds evaluation size good program)
    (same : ∀ machine, (program evaluation machine).2.trace = machine.trace) :
    realm.Traces evaluation floor size good program :=
  ⟨holds, fun machine _ _ => .silent (same machine)⟩

theorem Traces.mono {α : Type} {good : Nat → α → Prop} {program : Evaluation → Run α} {lower : Nat}
    (le : lower ≤ floor) (traces : realm.Traces evaluation floor size good program) :
    realm.Traces evaluation lower size good program :=
  ⟨traces.1, fun machine sized closed => (traces.2 machine sized closed).mono le⟩

theorem Traces.bind {α β : Type} {good : Nat → α → Prop} {good' : Nat → β → Prop}
    {program : Evaluation → Run α} {next : Evaluation → α → Run β}
    (first : realm.Traces evaluation floor size good program)
    (continued : ∀ later value, size ≤ later → good later value →
      realm.Traces evaluation floor later good' fun inner => next inner value) :
    realm.Traces evaluation floor size good' fun inner => program inner >>= next inner := by
  refine ⟨first.1.bind fun later value after holds => (continued later value after holds).1, ?_⟩
  rintro machine rfl closed
  apply (first.2 machine rfl closed).bind
  intro value middle came
  have conducts := came ▸ (first.1 machine rfl closed).conducts
  exact (continued _ value conducts.advances.scopes_le (conducts.value value rfl)).2 middle rfl
    conducts.closed

theorem Traces.fillScope {α : Type} {good : Nat → α → Prop} (name : String) {parent : ScopeId}
    {pairs : Evaluation → Run (List (String × MiniLisp.Datum))}
    {next : Evaluation → ScopeId → Run α}
    (inside : realm.first ≤ parent ∧ parent < size)
    (paired : ∀ later, size ≤ later →
      realm.Traces evaluation floor later (fun size => Bindings.Every (realm.Owns size)) pairs)
    (continued : ∀ later scope, size ≤ later → realm.first ≤ scope ∧ scope < later →
      realm.Traces evaluation floor later good fun inner => next inner scope) :
    realm.Traces evaluation floor size good fun inner => (do
      let fresh ← Run.newScope name (some parent) []
      let bound ← pairs inner
      Run.setAll fresh bound
      next inner fresh) := by
  refine ⟨.fillScope name inside (fun later after => (paired later after).1)
    fun later scope after known => (continued later scope after known).1, ?_⟩
  rintro machine rfl closed
  have parented : ∀ outer, some parent = some outer →
      realm.first ≤ outer ∧ outer < machine.scopes.size := by
    rintro _ ⟨⟩
    exact inside
  have created := Conducts.newScope closed name parented Bindings.every_nil
  apply Spans.bind (.silent rfl)
  intro fresh opened came
  rw [came] at created
  have bound := paired _ created.advances.scopes_le
  apply (bound.2 opened rfl created.closed).bind
  intro values middle came'
  have conducts := came' ▸ (bound.1 opened rfl created.closed).conducts
  have filled := conducts.closed.fillScope fresh (conducts.value values rfl)
  have grown : opened.scopes.size ≤ (middle.scopes.bindAll fresh values).size := by
    rw [Scopes.bindAll, Array.size_modify]
    exact conducts.advances.scopes_le
  have known := created.value fresh rfl
  have after := Nat.le_trans created.advances.scopes_le grown
  apply Spans.bind (.silent rfl)
  intro _ last came''
  cases came''
  exact (continued _ fresh after ⟨known.1, Nat.lt_of_lt_of_le known.2 grown⟩).2 _ rfl filled

/-- What records nothing by itself adds to the trace what its parts do. -/
def tracing (realm : Realm) (evaluation : Evaluation) (floor : Nat) :
    Eval.SilentLogic Evaluation where
  World := Nat
  Later := (· ≤ ·)
  Scope size scope := realm.first ≤ scope ∧ scope < size
  Engine := realm.Runs
  Function := realm.Owns
  Holds := realm.Traces evaluation floor
  scope_later := (realm.logic evaluation).scope_later
  function_later := (realm.logic evaluation).function_later
  function_builtin _ := trivial
  scope_of_closure := (realm.logic evaluation).scope_of_closure
  pure holds := .silent ((realm.logic evaluation).pure holds) fun _ => rfl
  fail fault := .silent ((realm.logic evaluation).fail fault) fun _ => rfl
  bind := .bind
  resolve {_ scope} name inside :=
    .silent ((realm.logic evaluation).resolve name inside) fun machine => by
      rw [Run.resolve, Run.bind_apply_of_ok (Run.get_apply machine)]
      cases machine.scopes.resolve name scope <;> rfl
  newScope name inside every :=
    .silent ((realm.logic evaluation).newScope name inside every) fun _ => rfl
  newClosure params body inside runs :=
    .silent ((realm.logic evaluation).newClosure params body inside runs) fun _ => rfl
  engineOf {_ closure} owns := .silent ((realm.logic evaluation).engineOf owns) fun _ => by
    cases closure with
    | mk identity params body scope engine => cases engine <;> rfl
  fillScope name inside paired continued := .fillScope name inside paired continued
  callHost _ _ _ _ outside := outside.elim

/-! ### Recorded parts -/

section Recorded

variable {home : EngineId} {counter : Engine} {machine : Machine}

/-- In the engine of the realm, events are recorded at its depth, if there is a log. -/
theorem Sealed.record (closed : realm.Sealed machine) (located : realm.home = some (home, counter))
    (event : Machine → TraceEvent) :
    Run.record home event machine =
      match counter.log with
      | some log =>
        (.ok (), { machine with trace := machine.trace.push ⟨log, counter.depth, event machine⟩ })
      | none => (.ok (), machine) := by
  have counted : machine.engine home = counter := by
    rw [Machine.engine, Array.getD_eq_getD_getElem?, closed.home home counter located]
    rfl
  simp only [Run.record, Run.modify_apply, counted]
  cases counter.log <;> rfl

theorem runs_home (located : realm.home = some (home, counter)) : realm.Runs home := by
  intro _ _ located'
  cases located.symm.trans located'
  rfl

variable (located : realm.home = some (home, counter)) (within : counter.depth ≤ counter.limit)

include located within

theorem recordForm_traces (special : SpecialForm) (scope : ScopeId) :
    realm.Traces evaluation counter.depth size (fun _ _ => True) fun _ =>
      Run.record home fun machine =>
        .form special scope ((machine.scopes[scope]?.map Scope.name).getD "") := by
  refine ⟨.const fun machine _ closed => .record closed _ _, fun machine _ closed => ?_⟩
  simp only [closed.record located]
  cases logged : counter.log with
  | none => exact .silent rfl
  | some log =>
    let name := (machine.scopes[scope]?.map Scope.name).getD ""
    let entry : TraceEntry := ⟨log, counter.depth, .form special scope name⟩
    have owns : ∀ added ∈ [entry], realm.Records added :=
      List.forall_mem_singleton.mpr ⟨home, counter, located, logged, within⟩
    have whole : Balanced counter.depth ([entry].map TraceEntry.bracket) :=
      .other rfl (Nat.le_refl _) .nil
    exact ⟨_, Array.toList_push, owns, .balanced whole, fun _ _ => whole⟩

variable (inside : (realm.tracing evaluation (counter.depth + 1)).Inner fun inner => inner)

include inside

/-- A call is recorded around what it does one level deeper. -/
theorem apply_traces {procedure : Procedure} {arguments : List MiniLisp.Datum}
    (owns : realm.Owns size procedure)
    (every : ∀ argument ∈ arguments, realm.Datum size argument) :
    realm.Traces evaluation counter.depth size realm.Datum fun inner =>
      Eval.apply inner home procedure arguments := by
  have keeps : (realm.logic evaluation).Inner fun inner => inner :=
    fun size engine scope form runs known => (inside size engine scope form runs known).1
  refine ⟨(realm.logic evaluation).apply_holds keeps (runs_home located) owns every, ?_⟩
  intro machine sized closed
  have called : realm.Traces evaluation (counter.depth + 1) size realm.Datum fun inner =>
      Eval.call inner procedure arguments :=
    Eval.SilentLogic.call_holds inside owns every
  simp only [Eval.apply]
  cases logged : counter.log with
  | none =>
    have recorded := closed.record located fun _ => .call procedure.name arguments
    rw [logged] at recorded
    rw [Run.bind_apply_of_ok recorded]
    apply ((called.2 machine sized closed).mono (Nat.le_succ _)).bind
    intro value middle came
    have conducts := came ▸ (called.1 machine sized closed).conducts
    have recorded' := conducts.closed.record located fun _ => .result value
    rw [logged] at recorded'
    rw [Run.bind_apply_of_ok recorded']
    exact .silent rfl
  | some log =>
    let opening : TraceEntry := ⟨log, counter.depth, .call procedure.name arguments⟩
    let opened : Machine := { machine with trace := machine.trace.push opening }
    have calls : opening.event.kind = .call := rfl
    have owns' : ∀ event, realm.Records ⟨log, counter.depth, event⟩ :=
      fun _ => ⟨home, counter, located, logged, within⟩
    have recorded : Run.record home (fun _ => .call procedure.name arguments) machine =
        (.ok (), opened) := by
      rw [closed.record located, logged]
    have closed' : realm.Sealed opened := closed.of_eq rfl rfl
    have conducts := (called.1 opened sized closed').conducts
    have spans : Spans realm.Records (counter.depth + 1) opened
        (Eval.call evaluation procedure arguments opened) := called.2 opened sized closed'
    rw [Run.bind_apply_of_ok recorded]
    rcases came : Eval.call evaluation procedure arguments opened with ⟨stop | value, final⟩
    · rw [came] at spans
      rw [Run.bind_apply_of_error came]
      exact Spans.broken calls (owns' _) spans
    · rw [came] at spans conducts
      let closing : TraceEntry := ⟨log, counter.depth, .result value⟩
      have recorded' : Run.record home (fun _ => .result value) final =
          (.ok (), { final with trace := final.trace.push closing }) := by
        rw [conducts.closed.record located, logged]
      rw [Run.bind_apply_of_ok came, Run.bind_apply_of_ok recorded']
      exact Spans.whole calls (owns' _) rfl rfl (owns' _) spans

theorem evalSpecial_traces {scope : ScopeId} (known : realm.first ≤ scope ∧ scope < size)
    (special : SpecialForm) (items : List Form) :
    realm.Traces evaluation counter.depth size realm.Datum fun inner =>
      Eval.evalSpecial inner home scope special items := by
  have runs := runs_home located
  apply Traces.bind (recordForm_traces located within special scope)
  intro later _ after _
  have known' : realm.first ≤ scope ∧ scope < later :=
    ⟨known.1, Nat.lt_of_lt_of_le known.2 after⟩
  exact Traces.mono (Nat.le_succ _)
    (Eval.SilentLogic.special_holds inside runs known' special items)

theorem evalList_traces {scope : ScopeId} (known : realm.first ≤ scope ∧ scope < size)
    (items : List Form) :
    realm.Traces evaluation counter.depth size realm.Datum fun inner =>
      Eval.evalList inner home scope items := by
  simp only [Eval.evalList]
  cases Eval.special? items with
  | some special => exact evalSpecial_traces located within inside known special items
  | none =>
    have shallow : (realm.tracing evaluation counter.depth).Inner fun inner => inner :=
      fun size engine scope form runs known =>
        (inside size engine scope form runs known).mono (Nat.le_succ _)
    apply Eval.SilentLogic.ordinary_holds shallow (runs_home located) known
    intro later procedure arguments _ owns every
    exact apply_traces located within inside owns every

end Recorded

/-! ### Forms -/

variable {home : EngineId} {counter : Engine} {activation : Activation}

theorem Keeps.tracing_inner (keeps : realm.Keeps evaluation)
    (spans : ∀ activation, realm.Contains activation →
      Spans realm.Records floor activation.machine (activation.answer evaluation)) :
    (realm.tracing evaluation floor).Inner fun inner => inner := by
  intro size engine scope form runs known
  refine ⟨keeps.inner size engine scope form runs known, ?_⟩
  rintro machine rfl closed
  exact spans ⟨engine, scope, form, machine⟩ ⟨runs, known, closed⟩

/-- An evaluation in a realm adds to the trace what is deeper than its engine was. -/
theorem eval_spans {fuel : Nat} (located : realm.home = some (home, counter))
    (enough : counter.limit - counter.depth < fuel) (contains : realm.Contains activation) :
    Spans realm.Records (counter.depth + 1) activation.machine
      (activation.answer (eval fuel)) := by
  induction fuel generalizing realm counter activation with
  | zero => cases enough
  | succ fuel ih =>
    have opened := contains.open_of_admitted
    obtain ⟨engine, scope, form, machine⟩ := activation
    obtain ⟨runs, known, closed⟩ := contains
    have deeperHome := deeper_home_iff.mpr ⟨counter, located, rfl⟩
    cases form with
    | absent => exact .silent rfl
    | atom token value =>
      apply Spans.nested
      intro _
      have holds : realm.deeper.Traces (eval fuel) (counter.depth + 1) machine.scopes.size
          realm.deeper.Datum fun _ => Eval.evalAtom scope value :=
        @Eval.SilentLogic.evalAtom_holds _ (realm.deeper.tracing (eval fuel) (counter.depth + 1))
          _ _ known value
      rw [← records_deeper]
      exact holds.2 _ rfl (closed.enter runs)
    | list token label items =>
      apply Spans.nested
      intro admitted
      have within : counter.depth < counter.limit := opened admitted home counter located
      have room : counter.limit - (counter.depth + 1) < fuel := by omega
      have keeps : realm.deeper.Keeps (eval fuel) := by
        apply eval_keeps
        intro _ _ located'
        cases deeperHome.symm.trans located'
        exact room
      have inside := keeps.tracing_inner fun _ inside => ih deeperHome room inside
      cases runs home counter located
      rw [← records_deeper]
      exact (evalList_traces deeperHome within inside known items).2 _ rfl (closed.enter runs)

end Realm

/-! ## Traces and results -/

/-- An engine that writes to no log. -/
def Engine.mute (engine : Engine) : Engine :=
  { engine with log := none }

/-- A machine on which nothing is traced. -/
def Machine.mute (machine : Machine) : Machine :=
  { machine with engines := machine.engines.map Engine.mute, trace := #[] }

namespace Machine

theorem engine_mute (machine : Machine) (engine : EngineId) :
    machine.mute.engine engine = (machine.engine engine).mute := by
  simp only [Machine.engine, mute, Array.getD_eq_getD_getElem?, Array.getElem?_map]
  cases machine.engines[engine]? <;> rfl

/-- What is changed in an engine does not concern its log. -/
theorem mute_modify (engines : Array Engine) (engine : EngineId) {change : Engine → Engine}
    (apart : ∀ found, (change found).mute = change found.mute) :
    (engines.modify engine change).map Engine.mute =
      (engines.map Engine.mute).modify engine change := by
  apply Array.ext_getElem?
  intro index
  simp only [Array.getElem?_map, Array.getElem?_modify]
  split
  · cases engines[index]? with
    | none => rfl
    | some found => exact congrArg some (apart found)
  · rfl

theorem mute_enter (machine : Machine) (engine : EngineId) :
    (machine.enter engine).mute = machine.mute.enter engine := by
  simp only [enter, mute]
  rw [mute_modify]
  exact fun _ => rfl

theorem mute_leave (machine : Machine) (engine : EngineId) :
    (machine.leave engine).mute = machine.mute.leave engine := by
  simp only [leave, mute]
  rw [mute_modify]
  exact fun _ => rfl

theorem fuel_mute (machine : Machine) : machine.mute.fuel = machine.fuel := by
  simp only [fuel, headroom, mute, Engine.mute, Array.foldl_map]

end Machine

/-- A run does the same on a machine on which nothing is traced, the trace apart. -/
def Run.IgnoresTrace {α : Type} (action : Run α) : Prop :=
  ∀ machine, action machine.mute = ((action machine).1, (action machine).2.mute)

namespace Run.IgnoresTrace

variable {α β : Type} {action : Run α}

theorem bind {next : α → Run β} (first : action.IgnoresTrace)
    (continued : ∀ machine value, (action machine).1 = .ok value → (next value).IgnoresTrace) :
    (action >>= next).IgnoresTrace := by
  intro machine
  have before := first machine
  rcases came : action machine with ⟨stop | value, middle⟩
  · rw [came] at before
    rw [Run.bind_apply_of_error came, Run.bind_apply_of_error before]
  · rw [came] at before
    rw [Run.bind_apply_of_ok came, Run.bind_apply_of_ok before]
    exact continued machine value (congrArg Prod.fst came) middle

theorem nested (engine : EngineId) (inside : action.IgnoresTrace) :
    (Run.nested engine action).IgnoresTrace := by
  intro machine
  have found := machine.engine_mute engine
  by_cases admitted : (machine.engine engine).depth < (machine.engine engine).limit
  · have admitted' : (machine.mute.engine engine).depth < (machine.mute.engine engine).limit := by
      rw [found]
      exact admitted
    rw [Realm.nested_of_open admitted, Realm.nested_of_open admitted', ← Machine.mute_enter,
      inside (machine.enter engine), Machine.mute_leave]
  · have refused : ¬(machine.mute.engine engine).depth < (machine.mute.engine engine).limit := by
      rw [found]
      exact admitted
    rw [Realm.nested_of_full admitted, Realm.nested_of_full refused, found]
    rfl

end Run.IgnoresTrace

/-- No run depends on whether there is a trace. -/
def Eval.muting : Eval.Law where
  Holds := Run.IgnoresTrace
  pure _ _ := rfl
  throw _ _ := rfl
  bind first continued := first.bind continued
  resolve scope name machine := by
    have same : machine.mute.scopes = machine.scopes := rfl
    rw [Run.resolve, Run.bind_apply_of_ok (Run.get_apply machine),
      Run.bind_apply_of_ok (Run.get_apply machine.mute), same]
    cases machine.scopes.resolve name scope <;> rfl
  record engine event _ machine := by
    simp only [Run.record, Run.modify_apply, Machine.engine_mute]
    cases (machine.engine engine).log <;> rfl
  newScope _ _ _ _ := rfl
  newEngine limit machine := by
    simp only [Run.newEngine, Run.modifyGet_apply, Machine.mute, Array.size_map, Array.map_push,
      Engine.mute]
  newClosure _ _ _ _ _ := rfl
  fillScope name parent paired continued := by
    apply Run.IgnoresTrace.bind fun _ => rfl
    intro _ fresh _
    apply paired.bind
    intro _ bound _
    exact Run.IgnoresTrace.bind (fun _ => rfl) fun _ _ _ => continued fresh
  nested engine inside := inside.nested engine
  blame callee inside machine := by
    rw [Run.blame_eq, Run.blame_eq, inside machine]
  inspect each alike machine := by
    rw [Run.bind_apply_of_ok (Run.get_apply machine),
      Run.bind_apply_of_ok (Run.get_apply machine.mute), alike machine.mute machine rfl]
    exact each machine machine

theorem eval_mute (fuel : Nat) (engine : EngineId) (scope : ScopeId) (form : Form)
    (machine : Machine) :
    (eval fuel engine scope form machine).1 = (eval fuel engine scope form machine.mute).1 := by
  rw [Eval.muting.eval_holds fuel engine scope form machine]

/-! ## Interpreters -/

namespace Interpreter

open Semantics

theorem written_spans (interpreter : Interpreter) (source : List Char) (machine : Machine) :
    Spans (fun entry => interpreter.log = some entry.log ∧ entry.depth ≤ interpreter.limit) 1
      machine (interpreter.interpret source machine) := by
  rcases Form.parse_cases source with ⟨fault, failed⟩ | ⟨form, accepted⟩
  · rw [interpret_of_unreadable interpreter machine failed]
    exact .silent rfl
  · have contained := interpreter.start_contained machine form
    have spans := Realm.eval_spans rfl (limit_lt_fuel interpreter machine) contained
    rw [Activation.answer, start] at spans
    rw [interpret_eq_evaluate accepted, evaluate_eq]
    obtain ⟨added, grown, owned, nested⟩ := spans
    refine ⟨added, grown, fun entry member => ?_, nested⟩
    obtain ⟨home, counter, located, logged, within⟩ := owned entry member
    cases located
    exact ⟨logged, within⟩

/-- Interpreters with one limit come to the same result, whatever they write to. -/
theorem interpret_eq_of_limit_eq {interpreter interpreter' : Interpreter}
    (same : interpreter.limit = interpreter'.limit) (source : List Char) (machine : Machine) :
    (interpreter.interpret source machine).1 = (interpreter'.interpret source machine).1 := by
  rcases Form.parse_cases source with ⟨fault, failed⟩ | ⟨form, accepted⟩
  · rw [interpret_of_unreadable _ machine failed, interpret_of_unreadable _ machine failed]
  · have alike : (prepared interpreter machine).mute = (prepared interpreter' machine).mute := by
      simp only [prepared, Machine.mute, Array.map_push, Engine.mute, same]
    have fuel : (prepared interpreter machine).fuel = (prepared interpreter' machine).fuel := by
      rw [← Machine.fuel_mute, alike, Machine.fuel_mute]
    rw [interpret_eq_evaluate accepted, interpret_eq_evaluate accepted, evaluate_eq, evaluate_eq,
      eval_mute, alike, ← eval_mute, fuel]

/-- What comes to a value with little fuel has written by then all that is written with more. -/
theorem written_of_answer {interpreter : Interpreter} {source : List Char} {form : Form}
    {machine : Machine} {fuel : Nat} (accepted : Form.parse source = .ok form)
    (enough : fuel ≤ hostAllowance)
    (came : ((interpreter.start machine form).answer (eval fuel)).1.isOk) :
    interpreter.written source machine =
      ((interpreter.start machine form).answer (eval fuel)).2.trace.toList.drop
        machine.trace.size := by
  have more : fuel ≤ (prepared interpreter machine).fuel :=
    Nat.le_trans enough (Nat.le_add_left _ _)
  have outlasts : Outlasts ((interpreter.start machine form).answer (eval fuel))
      (interpreter.evaluate form none machine) := by
    rw [evaluate_eq]
    exact (Relaxation.eval_le more () _ _ form trivial trivial).outlasts _ _
      (prepared_relaxes rfl (Nat.le_refl _))
  rw [written, interpret_eq_evaluate accepted]
  cases outlasts with
  | same result relaxes => rw [relaxes.trace]
  | gaveUp failed =>
    rw [failed] at came
    cases came

/-- The trace of a program is well nested if the program comes to a value, and broken off if it
fails.  That is what was recorded; the lines that are written show it exactly if no call that is
indented contains a line that is not, and so they always do if the limit on the depth is at most
500000.  Whether a trace is written does not change what the program comes to. -/
theorem trace_well_nested (depth : Int) (log : Option Nat) (source : List Char) (machine : Machine)
    (mark : ScopeId → String) :
    let interpreter : Interpreter := ⟨depth, log⟩
    let outcome := interpreter.interpret source machine
    let entries := interpreter.written source machine
    let lines := entries.map (TraceEntry.render mark)
    outcome.2.trace.toList = machine.trace.toList ++ entries ∧
      (∀ entry ∈ entries, log = some entry.log ∧ entry.depth ≤ interpreter.limit) ∧
      Fits outcome.1 (entries.map TraceEntry.bracket) ∧
      (Fits outcome.1 (lines.map shown) ↔ Legible (entries.map TraceEntry.bracket)) ∧
      (interpreter.limit ≤ 500000 → Fits outcome.1 (lines.map shown)) ∧
      ∀ log', ((⟨depth, log'⟩ : Interpreter).interpret source machine).1 = outcome.1 := by
  intro interpreter outcome entries lines
  have traced := interpreter.interpret_trace source machine
  obtain ⟨added, grown, owned, pending, balanced⟩ := interpreter.written_spans source machine
  obtain rfl : entries = added := List.append_cancel_left (traced.symm.trans grown)
  have written : lines.map shown = (entries.map TraceEntry.bracket).map Bracket.written := by
    simp only [lines, List.map_map]
    exact List.map_congr_left fun entry _ => entry.shown_render mark
  have legible_iff : Fits outcome.1 (lines.map shown) ↔
      Legible (entries.map TraceEntry.bracket) := by
    rw [written]
    cases came : outcome.1 with
    | ok value => exact fits_ok_iff.trans (balanced value came).closed.wellNested_written_iff
    | error stop => exact fits_error_iff.trans pending.brokenOff_written_iff
  refine ⟨traced, owned, ?_, legible_iff, ?_, ?_⟩
  · cases came : outcome.1 with
    | ok value => exact fits_ok_iff.mpr (balanced value came).closed.wellNested
    | error stop => exact fits_error_iff.mpr pending.brokenOff
  · intro low
    apply legible_iff.mpr
    apply legible_of_indented
    rw [List.forall_mem_map]
    intro entry member
    have within := (owned entry member).2
    change 2 * entry.depth ≤ 1000000
    omega
  · intro log'
    have same : (⟨depth, log'⟩ : Interpreter).limit = interpreter.limit := rfl
    exact interpret_eq_of_limit_eq same source machine

/-- A call inside a call stands between the lines of that call.  Where a function calls itself
without end, only results are missing. -/
theorem trace_well_nested_calls :
    let interpreter : Interpreter := ⟨7, some 0⟩
    let mark : ScopeId → String := fun _ => " (0xc00001c0a0)"
    let lines := fun source =>
      (interpreter.written source Machine.empty).map (TraceEntry.render mark)
    let answered := "((lambda (x) (+ x 1)) 2)".toList
    let endless := "((lambda (f) (f f)) (lambda (f) (f f)))".toList
    (interpreter.interpret answered Machine.empty).1 = .ok (.int 3) ∧
      lines answered = ["    lambda [1]: \"root\" (0xc00001c0a0)\n", "  apply lambda [2]\n",
        "    apply + [2 1]\n", "    => 3\n", "  => 3\n"] ∧
      WellNested ((lines answered).map shown) ∧
      ExceedsDepth (interpreter.interpret endless Machine.empty).1 ∧
      BrokenOff ((lines endless).map shown) := by
  intro interpreter mark lines answered endless
  have low : (⟨7, some 0⟩ : Interpreter).limit ≤ 500000 := by decide
  have accepted : Form.parse answered = .ok _ := rfl
  have accepted' : Form.parse endless = .ok _ := rfl
  have came : (interpreter.interpret answered Machine.empty).1 = .ok (.int 3) := by
    rw [interpret_eq_evaluate accepted]
    exact evaluate_of_int rfl Machine.empty
  have exceeds := interpret_exceedsDepth interpreter Machine.empty accepted' rfl
  have writes := @written_of_answer interpreter answered _ Machine.empty 9 accepted
    (by decide) (by decide +kernel)
  obtain ⟨-, -, -, -, fits, -⟩ := trace_well_nested 7 (some 0) answered Machine.empty mark
  obtain ⟨-, -, -, -, fits', -⟩ := trace_well_nested 7 (some 0) endless Machine.empty mark
  refine ⟨came, ?_, ?_, exceeds, ?_⟩
  · simp only [lines, writes]
    decide +kernel
  · rw [came] at fits
    exact fits_ok_iff.mp (fits low)
  · obtain ⟨fault, failed, -⟩ := exceeds
    rw [failed] at fits'
    exact fits_error_iff.mp (fits' low)

/-- A call that is too deep for indentation stands in one that is indented, and so the lines are not
well nested. -/
theorem trace_not_well_nested_deep :
    let interpreter : Interpreter := ⟨600000, some 0⟩
    let mark : ScopeId → String := fun scope =>
      if scope = 0 then " (0xc00001c0a0)" else " (0xc00001c0e0)"
    let source := "((lambda () (if ".toList ++ List.replicate 500000 '(' ++ "(+ 1)".toList ++
      List.replicate 500000 ')' ++ " 1 2)))".toList
    let lines := (interpreter.written source Machine.empty).map (TraceEntry.render mark)
    (interpreter.interpret source Machine.empty).1 = .ok (.int 1) ∧
      lines = ["    lambda [1]: \"root\" (0xc00001c0a0)\n", "  apply lambda []\n",
        "    if [2]: \"lambda\" (0xc00001c0e0)\n", "%!(BADWIDTH)apply + [1]\n",
        "%!(BADWIDTH)=> 1\n", "  => 1\n"] ∧
      ¬WellNested (lines.map shown) := by
  intro interpreter mark source lines
  have room : 500000 + 3 < interpreter.limit := by decide
  obtain ⟨came, writes⟩ := interpret_buriedCall rfl room
  rw [Form.toList_encode_buriedCall] at came writes
  have text : lines = ["    lambda [1]: \"root\" (0xc00001c0a0)\n", "  apply lambda []\n",
      "    if [2]: \"lambda\" (0xc00001c0e0)\n", "%!(BADWIDTH)apply + [1]\n",
      "%!(BADWIDTH)=> 1\n", "  => 1\n"] := by
    simp only [lines, source, writes]
    decide +kernel
  refine ⟨came, text, ?_⟩
  have word : lines.map shown =
      [⟨.other, 4⟩, ⟨.call, 2⟩, ⟨.other, 4⟩, ⟨.other, 0⟩, ⟨.other, 0⟩, ⟨.result, 2⟩] := by
    rw [text]
    decide +kernel
  rw [word]
  intro nested
  obtain ⟨result, returns, -⟩ := nested.calls 1 ⟨.call, 2⟩ rfl rfl
  have near : result ≤ 3 := by
    by_contra far
    exact absurd (returns.deeper 3 ⟨.other, 0⟩ (by decide) (by omega) rfl) (by decide)
  obtain ⟨closing, found, comes, -⟩ := returns.closes
  obtain rfl | rfl : result = 2 ∨ result = 3 := by
    have later := returns.later
    omega
  · cases found
    cases comes
  · cases found
    cases comes

end Interpreter

end MiniLisp
