import MiniLisp.Proofs.Machine.Pairing

/-!
# Where a binding is seen

A scope is shared by all scopes below it, so binding a name in it may show in any number of scopes.
It shows exactly where lexical scoping says: in the scopes on whose chain the scope lies, unless a
scope nearer to them binds the name.  Everything else resolves as before.
-/

namespace MiniLisp

/-! ## Bindings of one scope -/

namespace Bindings

variable {bindings : Bindings} {name : String}

theorem length_bind_of_bound {former : Datum} (bound : bindings.value? name = some former)
    (value : Datum) : (bindings.bind name value).length = bindings.length := by
  induction bindings with
  | nil => cases bound
  | cons head rest ih =>
    simp only [value?] at bound
    simp only [bind]
    split at bound
    next same => rw [if_pos same, List.length_cons, List.length_cons]
    next different => rw [if_neg different, List.length_cons, List.length_cons, ih bound]

theorem length_bind_of_unbound (unbound : bindings.value? name = none) (value : Datum) :
    (bindings.bind name value).length = bindings.length + 1 := by
  induction bindings with
  | nil => rfl
  | cons head rest ih =>
    simp only [value?] at unbound
    simp only [bind]
    split at unbound
    next => cases unbound
    next different => rw [if_neg different, List.length_cons, List.length_cons, ih unbound]

end Bindings

/-! ## Chains -/

/-- The machines on which a host has done nothing but create scopes and bind names. -/
inductive Machine.Arranged : Machine → Prop where
  | empty : Arranged Machine.empty
  | newScope {machine : Machine} (arranged : Arranged machine) (name : String)
      (parent : Option ScopeId)
      (present : ∀ outer, parent = some outer → outer < machine.scopes.size) :
      Arranged (Run.newScope name parent [] machine).2
  | newRoot {machine : Machine} (arranged : Arranged machine) : Arranged (Run.newRoot machine).2
  | set {machine : Machine} (arranged : Arranged machine) (scope : ScopeId) (name : String)
      (value : Datum) : Arranged (Run.set scope name value machine).2

namespace Scopes

variable {scopes : Scopes} {scope viewer outer : ScopeId} {found : Scope} {name : String}

/-- The chain of a scope: the scope itself, its parent, and so on up to a scope without a parent. -/
inductive Chain (scopes : Scopes) : ScopeId → List ScopeId → Prop where
  | root {scope : ScopeId} {found : Scope} (present : scopes[scope]? = some found)
      (unlinked : found.parent = none) : Chain scopes scope [scope]
  | step {scope outer : ScopeId} {found : Scope} {chain : List ScopeId}
      (present : scopes[scope]? = some found) (linked : found.parent = some outer)
      (rest : Chain scopes outer chain) : Chain scopes scope (scope :: chain)

/-- A scope itself binds a name. -/
def Binds (scopes : Scopes) (scope : ScopeId) (name : String) : Prop :=
  ∃ found value, scopes[scope]? = some found ∧ found.bindings.value? name = some value

/-- From `viewer` one sees what `scope` binds a name to: `scope` lies on the chain of `viewer`, and
no scope nearer to `viewer` binds the name. -/
def Sees (scopes : Scopes) (viewer scope : ScopeId) (name : String) : Prop :=
  ∃ nearer farther, scopes.Chain viewer (nearer ++ scope :: farther) ∧
    ∀ between ∈ nearer, ¬scopes.Binds between name

theorem Chain.head {chain : List ScopeId} (walk : scopes.Chain scope chain) :
    ∃ rest, chain = scope :: rest := by
  cases walk with
  | root => exact ⟨[], rfl⟩
  | step _ _ rest => exact ⟨_, rfl⟩

/-- Where parents are older than their children, every scope has a chain. -/
theorem Closed.exists_chain (closed : scopes.Closed (· < scopes.size))
    (inside : scope < scopes.size) : ∃ chain, scopes.Chain scope chain := by
  induction scope using Nat.strongRecOn with
  | ind scope ih =>
    obtain ⟨found, present, parents⟩ := closed scope inside
    cases linked : found.parent with
    | none => exact ⟨_, .root present linked⟩
    | some outer =>
      obtain ⟨older, inside'⟩ := parents outer linked
      obtain ⟨chain, rest⟩ := ih outer older inside'
      exact ⟨_, .step present linked rest⟩

theorem sees_self (closed : scopes.Closed (· < scopes.size)) (inside : scope < scopes.size)
    (name : String) : scopes.Sees scope scope name := by
  obtain ⟨chain, walk⟩ := closed.exists_chain inside
  obtain ⟨rest, rfl⟩ := walk.head
  exact ⟨[], rest, walk, nofun⟩

/-- A scope that binds a name hides what the scopes above it bind the name to. -/
theorem not_sees_of_binds (different : viewer ≠ scope) (binds : scopes.Binds viewer name) :
    ¬scopes.Sees viewer scope name := by
  rintro ⟨nearer, farther, walk, unbound⟩
  obtain ⟨rest, split⟩ := walk.head
  cases nearer with
  | nil =>
    cases split
    exact different rfl
  | cons first nearer =>
    cases split
    exact unbound viewer List.mem_cons_self binds

theorem not_sees_of_root (present : scopes[viewer]? = some found) (unlinked : found.parent = none)
    (different : viewer ≠ scope) : ¬scopes.Sees viewer scope name := by
  rintro ⟨nearer, farther, walk, -⟩
  generalize chained : nearer ++ scope :: farther = chain at walk
  cases walk with
  | root =>
    rw [List.append_eq_singleton_iff] at chained
    rcases chained with ⟨-, same⟩ | ⟨-, impossible⟩
    · cases same
      exact different rfl
    · cases impossible
  | step present' linked rest =>
    cases present.symm.trans present'
    cases unlinked.symm.trans linked

/-- A scope that does not bind a name sees what its parent sees. -/
theorem sees_iff_of_step (present : scopes[viewer]? = some found)
    (linked : found.parent = some outer) (different : viewer ≠ scope)
    (unbound : found.bindings.value? name = none) :
    scopes.Sees viewer scope name ↔ scopes.Sees outer scope name := by
  constructor
  · rintro ⟨nearer, farther, walk, hidden⟩
    generalize chained : nearer ++ scope :: farther = chain at walk
    cases walk with
    | root present' unlinked =>
      cases present.symm.trans present'
      cases unlinked.symm.trans linked
    | step present' linked' rest =>
      cases present.symm.trans present'
      cases linked.symm.trans linked'
      cases nearer with
      | nil =>
        cases chained
        exact absurd rfl different
      | cons first nearer =>
        cases chained
        exact ⟨nearer, farther, rest, fun between member =>
          hidden between (List.mem_cons_of_mem _ member)⟩
  · rintro ⟨nearer, farther, walk, hidden⟩
    refine ⟨viewer :: nearer, farther, .step present linked walk, ?_⟩
    refine List.forall_mem_cons.mpr ⟨?_, hidden⟩
    rintro ⟨found', value, present', bound⟩
    cases present.symm.trans present'
    cases unbound.symm.trans bound

/-! ## One more binding -/

theorem getElem?_bind (scopes : Scopes) (scope other : ScopeId) (name : String) (value : Datum) :
    (scopes.bind scope name value)[other]? =
      if scope = other then
        scopes[other]?.map fun found => { found with bindings := found.bindings.bind name value }
      else scopes[other]? :=
  Array.getElem?_modify

theorem Closed.bind (closed : scopes.Closed (· < scopes.size)) (scope : ScopeId) (name : String)
    (value : Datum) :
    (scopes.bind scope name value).Closed (· < (scopes.bind scope name value).size) := by
  have size : (scopes.bind scope name value).size = scopes.size := Array.size_modify
  intro other inside
  obtain ⟨found, present, parents⟩ := closed other (size ▸ inside)
  rw [getElem?_bind, present, size]
  split
  · exact ⟨_, rfl, parents⟩
  · exact ⟨found, rfl, parents⟩

theorem Closed.push (closed : scopes.Closed (· < scopes.size)) {added : Scope}
    (parent : ∀ outer, added.parent = some outer → outer < scopes.size) :
    Closed (scopes.push added) (· < (scopes.push added).size) := by
  intro other inside
  simp only [Array.size_push] at inside ⊢
  rcases Nat.lt_succ_iff_lt_or_eq.mp inside with former | rfl
  · obtain ⟨found, present, parents⟩ := closed other former
    refine ⟨found, ?_, fun outer linked => ?_⟩
    · rw [Array.getElem?_push, if_neg (Nat.ne_of_lt former), present]
    · obtain ⟨older, inside'⟩ := parents outer linked
      exact ⟨older, Nat.lt_succ_of_lt inside'⟩
  · refine ⟨added, Array.getElem?_push_size, fun outer linked => ?_⟩
    exact ⟨parent outer linked, Nat.lt_succ_of_lt (parent outer linked)⟩

theorem Closed.resolve_bind_of_ne (closed : scopes.Closed (· < scopes.size)) {sought : String}
    (different : name ≠ sought) (inside : viewer < scopes.size) (value : Datum) :
    (scopes.bind scope name value).resolve sought viewer = scopes.resolve sought viewer := by
  induction viewer using Nat.strongRecOn with
  | ind viewer ih =>
    obtain ⟨found, present, parents⟩ := closed viewer inside
    obtain ⟨found', present', bound, linked⟩ : ∃ found' : Scope,
        (scopes.bind scope name value)[viewer]? = some found' ∧
          found'.bindings.value? sought = found.bindings.value? sought ∧
          found'.parent = found.parent := by
      rw [getElem?_bind, present]
      split
      · exact ⟨_, rfl, Bindings.value?_bind_of_ne different _ _, rfl⟩
      · exact ⟨found, rfl, rfl, rfl⟩
    have there := (Array.getElem?_eq_some_iff.mp present').1
    rw [closed.resolve_eq inside present, (closed.bind scope name value).resolve_eq there present',
      bound, linked]
    congr 1
    apply Option.bind_congr
    intro outer isParent
    obtain ⟨older, inside'⟩ := parents outer isParent
    exact ih outer older inside'

/-- A name resolves to the value it is bound to wherever the binding is seen, and to what it
resolved to before wherever it is not. -/
theorem Closed.resolve_bind_self (closed : scopes.Closed (· < scopes.size))
    (inside : viewer < scopes.size) (value : Datum) :
    (scopes.Sees viewer scope name →
      (scopes.bind scope name value).resolve name viewer = some value) ∧
    (¬scopes.Sees viewer scope name →
      (scopes.bind scope name value).resolve name viewer = scopes.resolve name viewer) := by
  induction viewer using Nat.strongRecOn with
  | ind viewer ih =>
    obtain ⟨found, present, parents⟩ := closed viewer inside
    by_cases here : viewer = scope
    · subst here
      have present' : (scopes.bind viewer name value)[viewer]? =
          some { found with bindings := found.bindings.bind name value } := by
        rw [getElem?_bind, if_pos rfl, present]
        rfl
      have there := (Array.getElem?_eq_some_iff.mp present').1
      refine ⟨fun _ => ?_, fun unseen => absurd (sees_self closed inside name) unseen⟩
      rw [(closed.bind viewer name value).resolve_eq there present', Bindings.value?_bind_self,
        Option.some_or]
    · have present' : (scopes.bind scope name value)[viewer]? = some found := by
        rw [getElem?_bind, if_neg (Ne.symm here), present]
      have there := (Array.getElem?_eq_some_iff.mp present').1
      rw [closed.resolve_eq inside present,
        (closed.bind scope name value).resolve_eq there present']
      cases bound : found.bindings.value? name with
      | some former =>
        have hidden := not_sees_of_binds here ⟨found, former, present, bound⟩
        exact ⟨fun seen => absurd seen hidden, fun _ => rfl⟩
      | none =>
        cases linked : found.parent with
        | none =>
          have outside := @not_sees_of_root _ scope _ _ name present linked here
          exact ⟨fun seen => absurd seen outside, fun _ => rfl⟩
        | some outer =>
          obtain ⟨older, inside'⟩ := parents outer linked
          rw [sees_iff_of_step present linked here bound]
          exact ih outer older inside'

/-! ## Counting bindings -/

theorem bindingCount_bind_of_binds (binds : scopes.Binds scope name) (value : Datum) :
    (scopes.bind scope name value).bindingCount scope = scopes.bindingCount scope := by
  obtain ⟨found, former, present, bound⟩ := binds
  simp only [bindingCount, getElem?_bind, present, if_true, Option.map_some]
  exact Bindings.length_bind_of_bound bound value

theorem bindingCount_bind_of_not_binds (inside : scope < scopes.size)
    (unbound : ¬scopes.Binds scope name) (value : Datum) :
    (scopes.bind scope name value).bindingCount scope = scopes.bindingCount scope + 1 := by
  have present := Array.getElem?_eq_getElem inside
  simp only [bindingCount, getElem?_bind, present, if_true, Option.map_some]
  apply Bindings.length_bind_of_unbound
  rw [Option.eq_none_iff_forall_ne_some]
  intro former bound
  exact unbound ⟨_, former, present, bound⟩

theorem bindingCount_bind_of_ne {other : ScopeId} (different : scope ≠ other) (name : String)
    (value : Datum) :
    (scopes.bind scope name value).bindingCount other = scopes.bindingCount other := by
  simp only [bindingCount, getElem?_bind, if_neg different]

end Scopes

/-! ## Machines -/

/-- However scopes are created and filled, parents are older than their children. -/
theorem Machine.Arranged.closed {machine : Machine} (arranged : machine.Arranged) :
    machine.scopes.Closed (· < machine.scopes.size) := by
  induction arranged with
  | empty => exact nofun
  | newScope _ name parent present ih => exact ih.push present
  | newRoot _ ih => exact ih.push nofun
  | set _ scope name value ih => exact ih.bind scope name value

theorem Run.resolve_apply (scope : ScopeId) (name : String) (machine : Machine) :
    Run.resolve scope name machine =
      match machine.scopes.resolve name scope with
      | some value => (.ok value, machine)
      | none => (.error (.fault (.unbound name)), machine) := by
  rw [Run.resolve, Run.bind_apply_of_ok (Run.get_apply machine)]
  cases machine.scopes.resolve name scope <;> rfl

/-- Binding a name in a scope shows exactly where the scope lies on the chain of the viewer and no
nearer scope binds the name; there the name resolves to the new value.  Every other name, and the
name everywhere else, resolves as before, to a value or not at all.  The scope has one binding more
if it did not bind the name, and no other scope changes the number of its bindings. -/
theorem set_shows_where_seen {machine : Machine} (arranged : machine.Arranged) {scope : ScopeId}
    (present : scope < machine.scopes.size) (name : String) (value : Datum) :
    let changed := (Run.set scope name value machine).2
    (∀ viewer, viewer < machine.scopes.size → ∀ sought,
      (sought = name ∧ machine.scopes.Sees viewer scope name →
        (Run.resolve viewer sought changed).1 = .ok value) ∧
      (¬(sought = name ∧ machine.scopes.Sees viewer scope name) →
        (Run.resolve viewer sought changed).1 = (Run.resolve viewer sought machine).1) ∧
      ((∃ former, (Run.resolve viewer sought machine).1 = .ok former) ∨
        (Run.resolve viewer sought machine).1 = .error (.fault (.unbound sought)))) ∧
    (changed.scopes.bindingCount scope = machine.scopes.bindingCount scope + 1 ↔
      ¬machine.scopes.Binds scope name) ∧
    (machine.scopes.Binds scope name →
      changed.scopes.bindingCount scope = machine.scopes.bindingCount scope) ∧
    ∀ other, other ≠ scope →
      changed.scopes.bindingCount other = machine.scopes.bindingCount other := by
  intro changed
  have closed := arranged.closed
  have bound : changed.scopes = machine.scopes.bind scope name value := rfl
  have kept : machine.scopes.Binds scope name →
      changed.scopes.bindingCount scope = machine.scopes.bindingCount scope :=
    fun binds => Scopes.bindingCount_bind_of_binds binds value
  refine ⟨fun viewer inside sought => ⟨?_, ?_, ?_⟩, ⟨?_, ?_⟩, kept, ?_⟩
  · rintro ⟨rfl, seen⟩
    rw [Run.resolve_apply, bound, (closed.resolve_bind_self inside value).1 seen]
  · intro unseen
    have same : changed.scopes.resolve sought viewer = machine.scopes.resolve sought viewer := by
      by_cases named : sought = name
      · subst named
        exact (closed.resolve_bind_self inside value).2 fun seen => unseen ⟨rfl, seen⟩
      · exact closed.resolve_bind_of_ne (Ne.symm named) inside value
    rw [Run.resolve_apply, Run.resolve_apply, same]
    cases machine.scopes.resolve sought viewer <;> rfl
  · rw [Run.resolve_apply]
    cases machine.scopes.resolve sought viewer with
    | some former => exact .inl ⟨former, rfl⟩
    | none => exact .inr rfl
  · intro grown binds
    have same := kept binds
    omega
  · intro unbound
    exact Scopes.bindingCount_bind_of_not_binds present unbound value
  · intro other different
    exact Scopes.bindingCount_bind_of_ne (Ne.symm different) name value

/-- Two scopes share a parent, and the first of them binds `x`.  When the parent binds `x`, the
second one sees it; the first one and the root do not. -/
theorem set_shows_where_seen_shared_parent :
    let parent := (Run.newScope "parent" (some 0) [] (Run.newRoot Machine.empty).2).2
    let first := (Run.set 2 "x" (.int 1) (Run.newScope "first" (some 1) [] parent).2).2
    let machine := (Run.newScope "second" (some 1) [] first).2
    let changed := (Run.set 1 "x" (.int 5) machine).2
    machine.Arranged ∧ machine.scopes.Sees 3 1 "x" ∧ ¬machine.scopes.Sees 2 1 "x" ∧
      (Run.resolve 3 "x" changed).1 = .ok (.int 5) ∧ (Run.resolve 2 "x" changed).1 = .ok (.int 1) ∧
      changed.scopes.bindingCount 1 = machine.scopes.bindingCount 1 + 1 ∧
      changed.scopes.bindingCount 2 = machine.scopes.bindingCount 2 := by
  intro parent first machine changed
  have arranged : machine.Arranged := by
    refine .newScope (.set (.newScope (.newScope (.newRoot .empty) _ _ ?_) _ _ ?_) _ _ _) _ _ ?_
    all_goals
      rintro _ ⟨⟩
      decide
  have seen : machine.scopes.Sees 3 1 "x" := by
    refine ⟨[3], [0], .step rfl rfl (.step rfl rfl (.root rfl rfl)), ?_⟩
    rintro _ ⟨⟩ ⟨found, value, present, bound⟩
    · cases present
      cases bound
    · contradiction
  have hidden : ¬machine.scopes.Sees 2 1 "x" :=
    Scopes.not_sees_of_binds (by decide) ⟨_, _, rfl, rfl⟩
  have unbound : ¬machine.scopes.Binds 1 "x" := by
    rintro ⟨found, value, present, bound⟩
    cases present
    cases bound
  obtain ⟨shows, grows, -, others⟩ :=
    set_shows_where_seen arranged (show 1 < machine.scopes.size by decide) "x" (.int 5)
  refine ⟨arranged, seen, hidden, (shows 3 (by decide) "x").1 ⟨rfl, seen⟩, ?_, grows.mpr unbound,
    others 2 (by decide)⟩
  rw [(shows 2 (by decide) "x").2.1 fun visible => hidden visible.2]
  rfl

end MiniLisp
