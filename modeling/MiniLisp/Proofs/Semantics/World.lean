import Mathlib.Logic.Function.Basic
import MiniLisp.Proofs.Semantics.Evaluator
import MiniLisp.Proofs.Value.BuiltinLifting

/-!
# Scopes and the chains they stand for

A machine shares its scopes by number, whereas a chain is a value of its own.  A world assigns
chains to the scopes of a machine whose bindings are final.  A scope that is still being filled has
no place in the world, so binding its names changes nothing that the world speaks about.
-/

namespace MiniLisp.Semantics

/-- The chains that scopes stand for. -/
abbrev World := ScopeId → Option Chain

/-- What stays the same while one form is evaluated: the engine, its limit, and the number of
closures made before. -/
structure Setting where
  engine : EngineId
  limit : Nat
  made : Nat

/-- A later world still knows everything that the world knows. -/
def World.Grows (world later : World) : Prop :=
  ∀ scope chain, world scope = some chain → later scope = some chain

variable {setting : Setting} {world later : World}

/-- A procedure stands for a function.  Identities are counted from the start of the evaluation. -/
inductive Stands (setting : Setting) (world : World) : Procedure → Function → Prop where
  | builtin (operation : Builtin) : Stands setting world (.builtin operation) (.builtin operation)
  | closure {identity : Nat} {params : List String} {body : Form} {scope : ScopeId} {chain : Chain}
      (known : world scope = some chain) :
      Stands setting world
        (.closure ⟨setting.made + identity, params, body, some scope, some setting.engine⟩)
        (.closure identity params body chain)

/-- A value of the machine stands for a meaning. -/
abbrev Means (setting : Setting) (world : World) : Datum → Meaning → Prop :=
  Value.Lift (Stands setting world)

/-- Pairs of names and values stand for each other if the names are the same. -/
def PairMeans (setting : Setting) (world : World) (left : String × Datum)
    (right : String × Meaning) : Prop :=
  left.1 = right.1 ∧ Means setting world left.2 right.2

/-- Bindings stand for a frame if both give every name the same meaning. -/
def FrameStands (setting : Setting) (world : World) (bindings : Bindings) (frame : Frame) : Prop :=
  ∀ name, Option.Rel (Means setting world) (bindings.value? name) (frame.lookup name)

/-- The parent of a scope is older than the scope and stands for the outer frames. -/
def ParentStands (world : World) (scope : ScopeId) : Option ScopeId → Chain → Prop
  | none, outer => outer = []
  | some parent, outer => parent < scope ∧ world parent = some outer

/-- A scope stands for a chain. -/
def ScopeStands (setting : Setting) (world : World) (scopes : Scopes) (scope : ScopeId)
    (chain : Chain) : Prop :=
  ∃ found frame outer, scopes[scope]? = some found ∧ chain = frame :: outer ∧
    FrameStands setting world found.bindings frame ∧ ParentStands world scope found.parent outer

/-! ## Functions -/

theorem Stands.mono (grows : world.Grows later) {procedure : Procedure} {function : Function}
    (stands : Stands setting world procedure function) :
    Stands setting later procedure function := by
  cases stands with
  | builtin operation => exact .builtin operation
  | closure known => exact .closure (grows _ _ known)

/-- Identities that are counted from another start are equal alike. -/
theorem stands_keepsIdentity : Value.KeepsIdentity (Stands setting world) := by
  intro left left' right right' stands stands'
  cases stands <;> cases stands'
  case closure.closure =>
    simp only [Callee.same, Procedure.same, Function.same]
    rw [Bool.eq_iff_iff]
    simp only [beq_iff_eq]
    omega
  all_goals rfl

theorem Stands.render_eq (procedure : Procedure) (function : Function)
    (stands : Stands setting world procedure function) :
    Callee.render procedure = Callee.render function := by
  cases stands <;> rfl

theorem Means.mono (grows : world.Grows later) {value : Datum} {meaning : Meaning}
    (means : Means setting world value meaning) : Means setting later value meaning :=
  Value.Lift.mono (fun _ _ => Stands.mono grows) means

/-! ## Frames -/

theorem FrameStands.mono (grows : world.Grows later) {bindings : Bindings} {frame : Frame}
    (stands : FrameStands setting world bindings frame) :
    FrameStands setting later bindings frame := by
  intro name
  match bindings.value? name, frame.lookup name, stands name with
  | _, _, .some means => exact .some (Means.mono grows means)
  | _, _, .none => exact .none

theorem FrameStands.nil : FrameStands setting world [] [] :=
  fun _ => .none

/-- Binding a name puts a pair in front of the frame. -/
theorem FrameStands.bind {bindings : Bindings} {frame : Frame} {value : Datum} {meaning : Meaning}
    (stands : FrameStands setting world bindings frame) (name : String)
    (means : Means setting world value meaning) :
    FrameStands setting world (bindings.bind name value) ((name, meaning) :: frame) := by
  intro other
  by_cases same : other = name
  · subst same
    rw [Bindings.value?_bind_self, List.lookup_cons_self]
    exact .some means
  · rw [Bindings.value?_bind_of_ne (Ne.symm same), List.lookup_cons, beq_false_of_ne same]
    exact stands other

/-- Binding several names in order puts their pairs in front of the frame, the last one first. -/
theorem FrameStands.bindAll {bindings : Bindings} {frame : Frame} {pairs : List (String × Datum)}
    {meanings : List (String × Meaning)} (stands : FrameStands setting world bindings frame)
    (paired : List.Forall₂ (PairMeans setting world) pairs meanings) :
    FrameStands setting world (bindings.bindAll pairs) (meanings.reverse ++ frame) := by
  induction paired generalizing bindings frame with
  | nil => exact stands
  | @cons pair meaning pairs meanings head _ ih =>
    obtain ⟨name, value⟩ := pair
    obtain ⟨name', meant⟩ := meaning
    obtain ⟨rfl, means⟩ := head
    have bound := ih (stands.bind name means)
    simpa [Bindings.bindAll] using bound

/-- The bindings of a root scope stand for the frame of the root chain. -/
theorem FrameStands.library :
    FrameStands setting world Bindings.library
      (Builtin.all.map fun builtin => (builtin.name, .function (.builtin builtin))) := by
  intro name
  unfold Bindings.library
  induction Builtin.all with
  | nil => exact .none
  | cons builtin rest ih =>
    simp only [List.map_cons, Bindings.value?, List.lookup_cons]
    by_cases same : builtin.name = name
    · subst same
      simp only [↓reduceIte, beq_self_eq_true]
      exact .some (Stands.builtin builtin)
    · rw [if_neg same, beq_false_of_ne (Ne.symm same)]
      exact ih

/-! ## Scopes -/

theorem ParentStands.mono (grows : world.Grows later) {scope : ScopeId} {parent : Option ScopeId}
    {outer : Chain} (stands : ParentStands world scope parent outer) :
    ParentStands later scope parent outer := by
  cases parent with
  | none => exact stands
  | some parent => exact ⟨stands.1, grows _ _ stands.2⟩

theorem ScopeStands.mono (grows : world.Grows later) {scopes scopes' : Scopes} {scope : ScopeId}
    {chain : Chain} (kept : scopes'[scope]? = scopes[scope]?)
    (stands : ScopeStands setting world scopes scope chain) :
    ScopeStands setting later scopes' scope chain := by
  obtain ⟨found, frame, outer, present, rfl, frameStands, parentStands⟩ := stands
  exact ⟨found, frame, outer, kept.trans present, rfl, frameStands.mono grows,
    parentStands.mono grows⟩

theorem ScopeStands.lt_size {scopes : Scopes} {scope : ScopeId} {chain : Chain}
    (stands : ScopeStands setting world scopes scope chain) : scope < scopes.size := by
  obtain ⟨found, frame, outer, present, _⟩ := stands
  exact (Array.getElem?_eq_some_iff.mp present).1

/-- A name resolves in a scope to what it means in the chain.  Each step to a parent takes a frame
off the chain, and parents are older, so the number of a scope bounds the steps behind it. -/
theorem resolveWithin_means {scopes : Scopes} (name : String)
    (known : ∀ scope chain, world scope = some chain → ScopeStands setting world scopes scope chain)
    {chain : Chain} {scope steps : Nat} (stands : world scope = some chain)
    (enough : scope < steps) :
    Option.Rel (Means setting world) (scopes.resolveWithin name steps scope)
      (chain.value? name) := by
  induction steps generalizing scope chain with
  | zero => cases enough
  | succ steps ih =>
    obtain ⟨found, frame, outer, present, rfl, frameStands, parentStands⟩ :=
      known scope chain stands
    simp only [Scopes.resolveWithin, present, Chain.value?, List.findSome?_cons]
    match found.bindings.value? name, frame.lookup name, frameStands name with
    | _, _, .some means => exact .some means
    | _, _, .none =>
      cases parent : found.parent with
      | none =>
        rw [parent] at parentStands
        cases parentStands
        exact .none
      | some parent' =>
        rw [parent] at parentStands
        exact ih parentStands.2 (Nat.lt_of_lt_of_le parentStands.1 (Nat.le_of_lt_succ enough))

end MiniLisp.Semantics
