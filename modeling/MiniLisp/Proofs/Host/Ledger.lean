import Mathlib.Logic.Relation
import MiniLisp.Host.Workspace
import MiniLisp.Proofs.Machine.Ledger

/-!
# The ledger of a host

A host builds values, binds them, evaluates programs, calls functions and adds functions of its own.
Whatever it does, one ledger lists all functions that it holds: each operation leaves the ledger as
it is or adds entries at its end.
-/

namespace MiniLisp

namespace Workspace

/-! ## What a host can do -/

/-- The values that a host can build from what it holds. -/
def Builds (workspace : Workspace) (value : Datum) : Prop :=
  ∃ spec, build workspace.values spec = .ok value

/-- The functions that a host can add: what they call or return can be built. -/
def Offers (workspace : Workspace) : HostAction → Prop
  | .wrap target => workspace.Builds target
  | .const value => workspace.Builds value
  | .fail _ => True
  | .interpret => True

/-- One operation of a host, whether it succeeds or fails. -/
inductive Step (workspace : Workspace) : Workspace → Prop where
  | newValue (keep : Option String) (spec : ValueSpec) :
      Step workspace (newValue keep spec workspace).2
  | newForm (keep : Option String) (spec : FormSpec) :
      Step workspace (newForm keep spec workspace).2
  | newRoot (keep : Option String) : Step workspace (newRoot keep workspace).2
  | newScope (keep parent : Option String) (label : String) :
      Step workspace (newScope keep parent label workspace).2
  | bind (scope name : String) (spec : ValueSpec) :
      Step workspace (bind scope name spec workspace).2
  | resolve (keep : Option String) (scope name : String) :
      Step workspace (resolve keep scope name workspace).2
  | newInterpreter (keep : Option String) (maxDepth : Int) (traced : Bool) :
      Step workspace (newInterpreter keep maxDepth traced workspace).2
  | takeTrace (interpreter : String) : Step workspace (takeTrace interpreter workspace).2
  | evaluate (keep interpreter scope : Option String) (spec : FormSpec) :
      Step workspace (evaluate keep interpreter scope spec workspace).2
  | call (keep : Option String) (function : ValueSpec) (arguments : List ValueSpec) :
      Step workspace (call keep function arguments workspace).2
  | newClosure (keep : Option String) (params : List String) (body : FormSpec)
      (scope : Option String) : Step workspace (newClosure keep params body scope workspace).2
  | newHost (keep : Option String) (name : String) (action : HostAction)
      (offered : workspace.Offers action) : Step workspace (newHost keep name action workspace).2
  | pushForm (target : String) (spec : FormSpec) : Step workspace (pushForm target spec workspace).2
  | pushNew (keep : Option String) (target : String) (spec : FormSpec) :
      Step workspace (pushNew keep target spec workspace).2

/-- The workspaces to which a host can come. -/
def Reachable (workspace : Workspace) : Prop :=
  Relation.ReflTransGen Step Workspace.empty workspace

end Workspace

/-! ## Values after extension -/

mutual

theorem Value.Every.extend {property : Procedure → Prop} {label : Nat} {item : Form}
    (kept : ∀ procedure, property procedure → property (procedure.extend label item)) :
    (value : Datum) → value.Every property → (value.extend label item).Every property
  | .nil, _ => trivial
  | .int _, _ => rfl
  | .text _, _ => rfl
  | .bool _, _ => rfl
  | .list items, every => every_list_iff.mpr (extendItems kept items (every_list_iff.mp every))
  | .function procedure, every =>
    every_function_iff.mpr (kept procedure (every_function_iff.mp every))

theorem Value.Every.extendItems {property : Procedure → Prop} {label : Nat} {item : Form}
    (kept : ∀ procedure, property procedure → property (procedure.extend label item)) :
    (items : List Datum) → (∀ value ∈ items, value.Every property) →
      ∀ value ∈ Value.extendItems label item items, value.Every property
  | [], _ => List.forall_mem_nil _
  | first :: rest, every =>
    List.forall_mem_cons.mpr
      ⟨Every.extend kept first (every first List.mem_cons_self),
        Every.extendItems kept rest fun value member => every value (List.mem_cons_of_mem _ member)⟩

end

theorem Bindings.Every.extend {property : Procedure → Prop} {label : Nat} {item : Form}
    (kept : ∀ procedure, property procedure → property (procedure.extend label item))
    {bindings : Bindings} (every : bindings.Every property) :
    Bindings.Every property (bindings.map fun pair => (pair.1, pair.2.extend label item)) := by
  intro pair member
  obtain ⟨former, held, rfl⟩ := List.mem_map.mp member
  exact (every former held).extend kept

theorem HostAction.Every.extend {property : Procedure → Prop} {label : Nat} {item : Form}
    (kept : ∀ procedure, property procedure → property (procedure.extend label item))
    {action : HostAction} (every : action.Every property) :
    (Workspace.extendAction label item action).Every property := by
  cases action with
  | wrap target => exact Value.Every.extend kept target every
  | const value => exact Value.Every.extend kept value every
  | fail message => trivial
  | interpret => trivial

namespace Ledger

variable {ledger later : Ledger} {workspace : Workspace}

/-! ## Workspaces and their ledgers -/

/-- A ledger covers a workspace if it covers the machine and lists the functions in all values that
are held. -/
structure Spans (ledger : Ledger) (workspace : Workspace) : Prop where
  machine : ledger.Covers workspace.machine
  values : Bindings.Every ledger.Lists workspace.values

theorem Spans.of_eq (spans : ledger.Spans workspace) {final : Workspace}
    (machine : final.machine = workspace.machine) (values : final.values = workspace.values) :
    ledger.Spans final :=
  ⟨machine ▸ spans.machine, values ▸ spans.values⟩

theorem get?_every {table : Table MiniLisp.Datum} (every : Bindings.Every ledger.Lists table)
    {name : String} {value : MiniLisp.Datum} (found : table.get? name = some value) :
    ledger.Datum value := by
  obtain ⟨before, after, rfl, -⟩ := List.lookup_eq_some_iff.mp found
  exact every (name, value) (by simp)

theorem insert?_every {table : Table MiniLisp.Datum} (every : Bindings.Every ledger.Lists table)
    (name : Option String) {value : MiniLisp.Datum} (holds : ledger.Datum value) :
    Bindings.Every ledger.Lists (table.insert? name value) := by
  cases name with
  | none => exact every
  | some name =>
    intro pair member
    rcases List.mem_cons.mp member with rfl | member
    · exact holds
    · exact every pair (List.mem_of_mem_filter member)

mutual

/-- Functions in a value that is built are listed. -/
theorem build_every {values : Table MiniLisp.Datum} (every : Bindings.Every ledger.Lists values) :
    (spec : ValueSpec) → {value : MiniLisp.Datum} → Workspace.build values spec = .ok value →
      ledger.Datum value
  | .nil, _, built => by cases built; exact trivial
  | .bool _, _, built => by cases built; exact rfl
  | .int _, _, built => by cases built; exact rfl
  | .text _, _, built => by cases built; exact rfl
  | .fraction _, _, built => by cases built
  | .list items, value, built => by
    rw [Workspace.build] at built
    cases inside : Workspace.buildItems values items with
    | error stop =>
      rw [inside] at built
      cases built
    | ok elements =>
      rw [inside] at built
      cases built
      exact Value.every_list_iff.mpr (buildItems_every every items inside)
  | .stored name, value, built => by
    rw [Workspace.build] at built
    cases found : values.get? name with
    | none =>
      rw [found] at built
      cases built
    | some held =>
      rw [found] at built
      cases built
      exact get?_every every found
  | .builtin operation, _, built => by
    cases built
    exact Value.every_function_iff.mpr trivial

theorem buildItems_every {values : Table MiniLisp.Datum}
    (every : Bindings.Every ledger.Lists values) :
    (specs : List ValueSpec) → {items : List MiniLisp.Datum} →
      Workspace.buildItems values specs = .ok items → ∀ item ∈ items, ledger.Datum item
  | [], _, built => by cases built; exact List.forall_mem_nil _
  | first :: rest, items, built => by
    rw [Workspace.buildItems] at built
    cases here : Workspace.build values first with
    | error stop =>
      rw [here] at built
      cases built
    | ok value =>
      cases behind : Workspace.buildItems values rest with
      | error stop =>
        rw [here, behind] at built
        cases built
      | ok others =>
        rw [here, behind] at built
        cases built
        exact List.forall_mem_cons.mpr
          ⟨build_every every first here, buildItems_every every rest behind⟩

end

theorem Spans.builds (spans : ledger.Spans workspace) {value : MiniLisp.Datum}
    (builds : workspace.Builds value) : ledger.Datum value := by
  obtain ⟨spec, built⟩ := builds
  exact build_every spans.values spec built

theorem Spans.offers (spans : ledger.Spans workspace) {action : HostAction}
    (offered : workspace.Offers action) : action.Every ledger.Lists := by
  cases action with
  | wrap target => exact spans.builds offered
  | const value => exact spans.builds offered
  | fail message => trivial
  | interpret => trivial

theorem lists_extend (label : Nat) (item : Form) (procedure : Procedure)
    (lists : ledger.Lists procedure) : ledger.Lists (procedure.extend label item) := by
  cases procedure <;> exact lists

theorem older_extend (label : Nat) (item : Form) (index : Nat) (procedure : Procedure)
    (older : procedure.Older index) : (procedure.extend label item).Older index := by
  cases procedure <;> exact older

/-- Adding a form to lists that are held changes bodies of closures, which no ledger lists. -/
theorem Spans.extend (spans : ledger.Spans workspace) (label : Nat) (item : Form) :
    ledger.Spans (workspace.extend label item) := by
  have kept := ledger.lists_extend label item
  refine ⟨⟨spans.machine.closures, ?_, ?_, ?_, ?_⟩, spans.values.extend kept⟩
  · simp [Workspace.extend, Workspace.extendMachine, spans.machine.hosts]
  · intro scope found present
    simp only [Workspace.extend, Workspace.extendMachine, Array.getElem?_map,
      Option.map_eq_some_iff] at present
    obtain ⟨former, present, rfl⟩ := present
    exact (spans.machine.bindings scope former present).extend kept
  · intro index action present
    simp only [Workspace.extend, Workspace.extendMachine, Array.getElem?_map,
      Option.map_eq_some_iff] at present
    obtain ⟨former, present, rfl⟩ := present
    exact (spans.machine.actions index former present).extend kept
  · intro index action present
    simp only [Workspace.extend, Workspace.extendMachine, Array.getElem?_map,
      Option.map_eq_some_iff] at present
    obtain ⟨former, present, rfl⟩ := present
    exact (spans.machine.layered index former present).extend (older_extend label item index)

/-! ## Runs of a host -/

theorem Keeps.onMachine {α : Type} {good : Ledger → α → Prop} {action : Run α}
    (keeps : Keeps Covers ledger good action) :
    Keeps Spans ledger good (Workspace.onMachine action) := by
  intro workspace spans
  obtain ⟨later, before, covers, value⟩ := keeps workspace.machine spans.machine
  exact ⟨later, before, ⟨covers, spans.values.mono (Lists.mono before)⟩, value⟩

theorem modifyGet_keeps {α : Type} {change : Workspace → α × Workspace}
    (spans : ∀ workspace, ledger.Spans workspace → ledger.Spans (change workspace).2) :
    Keeps Spans ledger Any (modifyGet change : Hosted α) :=
  fun workspace held => ⟨ledger, .refl ledger, spans workspace held, fun _ _ => trivial⟩

theorem keepValue_keeps (name : Option String) {value : MiniLisp.Datum}
    (holds : ledger.Datum value) : Keeps Spans ledger Any (Workspace.keepValue name value) :=
  modifyGet_keeps fun _ spans => ⟨spans.machine, insert?_every spans.values name holds⟩

/-- What is computed and then stored under a name. -/
theorem Keeps.stored {action : Hosted MiniLisp.Datum} (keeps : Keeps Spans ledger Datum action)
    (name : Option String) :
    Keeps Spans ledger Datum (do
      let value ← action
      Workspace.keepValue name value
      return value) := by
  apply keeps.bind
  intro found value _ holds
  apply (keepValue_keeps name holds).bind
  intro later _ before _
  exact .pure (holds.mono (Lists.mono before))

end Ledger

namespace Workspace

open Ledger (Keeps Spans Any)

variable {ledger : Ledger} {workspace : Workspace}

/-! ## Operations of a host -/

theorem stored_keeps {α : Type} (table : Workspace → Table α) (name : String) :
    Keeps Spans ledger Any (stored table name) := by
  apply Keeps.inspect
  intro workspace _
  cases (table workspace).get? name with
  | some thing => exact .pure trivial
  | none => exact .throw _

theorem stored?_keeps {α : Type} (table : Workspace → Table α) (name : Option String) :
    Keeps Spans ledger Any (stored? table name) := by
  cases name with
  | none => exact .pure trivial
  | some name => exact (stored_keeps table name).bind fun _ _ _ _ => .pure trivial

theorem value_keeps (spec : ValueSpec) : Keeps Spans ledger Ledger.Datum (value spec) :=
  .inspect fun _ spans => .lift fun _ => Ledger.build_every spans.values spec

theorem form_keeps (spec : FormSpec) : Keeps Spans ledger Any (form spec) :=
  .inspect fun _ _ => .lift fun _ _ => trivial

theorem keepForm_keeps (name : Option String) (form : Form) :
    Keeps Spans ledger Any (keepForm name form) :=
  Ledger.modifyGet_keeps fun _ spans => spans.of_eq rfl rfl

theorem keepScope_keeps (name : Option String) (scope : ScopeId) :
    Keeps Spans ledger Any (keepScope name scope) :=
  Ledger.modifyGet_keeps fun _ spans => spans.of_eq rfl rfl

theorem bindingCount_keeps (scope : ScopeId) :
    Keeps Spans ledger Any (bindingCount scope) :=
  .inspect fun _ _ => .pure trivial

theorem labelled_keeps (form : Form) : Keeps Spans ledger Any (labelled form) := by
  unfold labelled
  split
  · exact Ledger.modifyGet_keeps fun _ spans => spans.of_eq rfl rfl
  · exact .pure trivial

theorem values_keep (specs : List ValueSpec) :
    Keeps Spans ledger (fun later values => ∀ value ∈ values, later.Datum value)
      (specs.mapM value) := by
  induction specs generalizing ledger with
  | nil => exact .pure (List.forall_mem_nil _)
  | cons first rest ih =>
    simp only [List.mapM_cons]
    apply (value_keeps first).bind
    intro found value _ holds
    apply ih.bind
    intro later values before hold
    exact .pure (List.forall_mem_cons.mpr ⟨holds.mono (Ledger.Lists.mono before), hold⟩)

theorem newForm_keeps (keep : Option String) (spec : FormSpec) :
    Keeps Spans ledger Any (newForm keep spec) := by
  apply (form_keeps spec).bind
  intro _ form _ _
  apply (labelled_keeps form).bind
  intro _ form _ _
  exact (keepForm_keeps keep form).bind fun _ _ _ _ => .pure trivial

theorem newRoot_keeps (keep : Option String) :
    Keeps Spans ledger Any (newRoot keep) := by
  apply Ledger.newRoot_keeps.onMachine.bind
  intro _ scope _ _
  exact (keepScope_keeps keep scope).bind fun _ _ _ _ => bindingCount_keeps scope

theorem newScope_keeps (keep parent : Option String) (label : String) :
    Keeps Spans ledger Any (newScope keep parent label) := by
  apply (stored?_keeps scopes parent).bind
  intro _ parent _ _
  apply (Ledger.newScope_keeps label parent Bindings.every_nil).onMachine.bind
  intro _ scope _ _
  exact (keepScope_keeps keep scope).bind fun _ _ _ _ => bindingCount_keeps scope

theorem bind_keeps (scope name : String) (spec : ValueSpec) :
    Keeps Spans ledger Any (bind scope name spec) := by
  apply (stored_keeps scopes scope).bind
  intro _ scope _ _
  apply (value_keeps spec).bind
  intro _ value _ holds
  exact (Ledger.set_keeps scope name holds).onMachine.bind fun _ _ _ _ => bindingCount_keeps scope

theorem resolve_keeps (keep : Option String) (scope name : String) :
    Keeps Spans ledger Ledger.Datum (resolve keep scope name) := by
  apply (stored_keeps scopes scope).bind
  intro _ scope _ _
  exact (Ledger.resolve_keeps scope name).onMachine.stored keep

theorem takeTrace_keeps (interpreter : String) :
    Keeps Spans ledger Any (takeTrace interpreter) := by
  apply (stored_keeps interpreters interpreter).bind
  intro _ interpreter _ _
  exact Ledger.modifyGet_keeps fun _ spans => ⟨spans.machine.of_eq rfl rfl rfl, spans.values⟩

theorem evaluate_keeps (keep interpreter scope : Option String) (spec : FormSpec) :
    Keeps Spans ledger Ledger.Datum (evaluate keep interpreter scope spec) := by
  apply (stored?_keeps interpreters interpreter).bind
  intro _ interpreter _ _
  apply (stored?_keeps scopes scope).bind
  intro _ scope _ _
  apply (form_keeps spec).bind
  intro _ form _ _
  exact (Ledger.evaluate_keeps _ form scope).onMachine.stored keep

theorem call_keeps (keep : Option String) (function : ValueSpec)
    (arguments : List ValueSpec) :
    Keeps Spans ledger Ledger.Datum (call keep function arguments) := by
  apply (value_keeps function).bind
  intro _ function _ known
  apply (values_keep arguments).bind
  intro _ arguments before every
  cases function with
  | function procedure =>
    have listed := (Value.every_function_iff.mp known).mono before
    exact .inspect fun workspace _ =>
      (Ledger.call_keeps workspace.machine.fuel listed every).onMachine.stored keep
  | nil | int | text | bool | list => exact .throw _

theorem newClosure_keeps (keep : Option String) (params : List String) (body : FormSpec)
    (scope : Option String) :
    Keeps Spans ledger Ledger.Datum (newClosure keep params body scope) := by
  apply (stored?_keeps scopes scope).bind
  intro _ scope _ _
  apply (form_keeps body).bind
  intro _ body _ _
  exact (Ledger.newClosure_keeps params body scope none).onMachine.stored keep

theorem push_keeps (target : String) (item : Form) :
    Keeps Spans ledger Any (push target item) := by
  apply (stored_keeps forms target).bind
  intro found form _ _
  cases form with
  | absent => exact .throw _
  | atom => exact .throw _
  | list token label items =>
    cases label with
    | none => exact .throw _
    | some label =>
      have extended : Keeps Spans found Any (modify (extend label item) : Hosted PUnit) :=
        Ledger.modifyGet_keeps fun _ spans => spans.extend label item
      exact extended.bind fun _ _ _ _ => stored_keeps forms target

theorem pushNew_keeps (keep : Option String) (target : String) (spec : FormSpec) :
    Keeps Spans ledger Any (pushNew keep target spec) := by
  apply (form_keeps spec).bind
  intro _ form _ _
  apply (labelled_keeps form).bind
  intro _ item _ _
  apply (push_keeps target item).bind
  intro _ extended _ _
  exact (keepForm_keeps keep item).bind fun _ _ _ _ => .pure trivial

/-- Every operation of a host keeps the ledger or adds entries at its end. -/
theorem Step.keeps {final : Workspace} (step : workspace.Step final)
    (spans : ledger.Spans workspace) : ∃ later, ledger.Before later ∧ later.Spans final := by
  have done : ∀ {α : Type} {good : Ledger → α → Prop} {action : Hosted α},
      Keeps Spans ledger good action →
        ∃ later, ledger.Before later ∧ later.Spans (action workspace).2 := by
    intro α good action keeps
    obtain ⟨later, before, spans', -⟩ := keeps workspace spans
    exact ⟨later, before, spans'⟩
  cases step with
  | newValue keep spec => exact done ((value_keeps spec).stored keep)
  | newForm keep spec => exact done (newForm_keeps keep spec)
  | newRoot keep => exact done (newRoot_keeps keep)
  | newScope keep parent label => exact done (newScope_keeps keep parent label)
  | bind scope name spec => exact done (bind_keeps scope name spec)
  | resolve keep scope name => exact done (resolve_keeps keep scope name)
  | newInterpreter keep maxDepth traced =>
    exact ⟨ledger, .refl ledger, spans.of_eq rfl rfl⟩
  | takeTrace interpreter => exact done (takeTrace_keeps interpreter)
  | evaluate keep interpreter scope spec =>
    exact done (evaluate_keeps keep interpreter scope spec)
  | call keep function arguments => exact done (call_keeps keep function arguments)
  | newClosure keep params body scope =>
    exact done (newClosure_keeps keep params body scope)
  | newHost keep name action offered =>
    exact done ((Ledger.newHost_keeps name (spans.offers offered)).onMachine.stored keep)
  | pushForm target spec =>
    exact done ((form_keeps spec).bind fun _ form _ _ => push_keeps target form)
  | pushNew keep target spec => exact done (pushNew_keeps keep target spec)

/-- Wherever a host has come to, some ledger lists all functions that it can hold. -/
theorem Reachable.exists_ledger (reachable : workspace.Reachable) :
    ∃ ledger : Ledger, ledger.Spans workspace := by
  induction reachable with
  | refl =>
    refine ⟨⟨[], []⟩, ⟨rfl, rfl, ?_, ?_, ?_⟩, Bindings.every_nil⟩
    · intro scope found present
      cases present
    · intro index action present
      cases present
    · intro index action present
      cases present
  | tail _ step ih =>
    obtain ⟨ledger, spans⟩ := ih
    obtain ⟨later, -, spans'⟩ := step.keeps spans
    exact ⟨later, spans'⟩

end Workspace

end MiniLisp
