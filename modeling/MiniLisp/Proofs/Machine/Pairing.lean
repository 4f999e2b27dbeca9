import MiniLisp.Proofs.Form.Reads
import MiniLisp.Proofs.Machine.Realm
import MiniLisp.Proofs.Semantics.Evaluation

/-!
# Two machines that correspond

Two runs may create their scopes and closures at different times, and so under different numbers.
A pairing says which closures of two machines correspond, and which names two scopes have in common:
those that resolve to corresponding values in both.  Scopes correspond only name by name, so that
they may belong to chains of any shape, and a closure asks of its scope no more than the names that
its body may look up there.
-/

namespace MiniLisp

/-! ## Closed sets of scopes -/

namespace Scopes

variable {scopes scopes' : Scopes} {known : ScopeId → Prop}

/-- A set of scopes is closed if they all exist and their parents are older scopes of the set. -/
def Closed (scopes : Scopes) (known : ScopeId → Prop) : Prop :=
  ∀ scope, known scope → ∃ found, scopes[scope]? = some found ∧
    ∀ outer, found.parent = some outer → outer < scope ∧ known outer

theorem Closed.lt_size (closed : scopes.Closed known) {scope : ScopeId} (inside : known scope) :
    scope < scopes.size := by
  obtain ⟨found, present, -⟩ := closed scope inside
  exact (Array.getElem?_eq_some_iff.mp present).1

theorem Closed.of_kept (closed : scopes.Closed known)
    (kept : ∀ scope, known scope → scopes'[scope]? = scopes[scope]?) : scopes'.Closed known := by
  intro scope inside
  obtain ⟨found, present, parents⟩ := closed scope inside
  exact ⟨found, (kept scope inside).trans present, parents⟩

/-- A scope below a known one may be known. -/
theorem Closed.insert (closed : scopes.Closed known) {fresh outer : ScopeId} {found : Scope}
    (present : scopes[fresh]? = some found) (linked : found.parent = some outer)
    (older : outer < fresh) (inside : known outer) :
    scopes.Closed fun scope => known scope ∨ scope = fresh := by
  rintro scope (inside' | rfl)
  · obtain ⟨found, present, parents⟩ := closed scope inside'
    exact ⟨found, present, fun outer linked => (parents outer linked).imp_right .inl⟩
  · refine ⟨found, present, ?_⟩
    rintro _ linked'
    cases linked.symm.trans linked'
    exact ⟨older, .inl inside⟩

/-- Names resolve alike wherever the scopes of a closed set are the same, as long as there are steps
enough for the chain. -/
theorem Closed.resolveWithin_kept (closed : scopes.Closed known)
    (kept : ∀ scope, known scope → scopes'[scope]? = scopes[scope]?) (name : String)
    {scope steps steps' : Nat} (inside : known scope) (enough : scope < steps)
    (enough' : scope < steps') :
    scopes'.resolveWithin name steps' scope = scopes.resolveWithin name steps scope := by
  induction steps generalizing scope steps' with
  | zero => cases enough
  | succ steps ih =>
    cases steps' with
    | zero => cases enough'
    | succ steps' =>
      obtain ⟨found, present, parents⟩ := closed scope inside
      simp only [resolveWithin, kept scope inside, present]
      cases found.bindings.value? name with
      | some value => rfl
      | none =>
        cases linked : found.parent with
        | none => rfl
        | some outer =>
          obtain ⟨older, inside'⟩ := parents outer linked
          exact ih inside' (Nat.lt_of_lt_of_le older (Nat.le_of_lt_succ enough))
            (Nat.lt_of_lt_of_le older (Nat.le_of_lt_succ enough'))

theorem Closed.resolve_kept (closed : scopes.Closed known)
    (kept : ∀ scope, known scope → scopes'[scope]? = scopes[scope]?) (name : String)
    {scope : ScopeId} (inside : known scope) :
    scopes'.resolve name scope = scopes.resolve name scope :=
  closed.resolveWithin_kept kept name inside (Nat.lt_succ_self _) (Nat.lt_succ_self _)

/-- What every function bound in a closed set of scopes has, those in the value of a name have. -/
theorem Closed.resolve_every (closed : scopes.Closed known) {property : Procedure → Prop}
    (every : ∀ scope found, known scope → scopes[scope]? = some found →
      found.bindings.Every property) {name : String} {scope : ScopeId} (inside : known scope)
    {value : Datum} (resolved : scopes.resolve name scope = some value) :
    value.Every property := by
  unfold resolve at resolved
  generalize scope + 1 = steps at resolved
  induction steps generalizing scope with
  | zero => cases resolved
  | succ steps ih =>
    obtain ⟨found, present, parents⟩ := closed scope inside
    simp only [resolveWithin, present] at resolved
    split at resolved
    next bound =>
      cases resolved
      exact (every scope found inside present).value? bound
    next =>
      split at resolved
      next outer linked => exact ih (parents outer linked).2 resolved
      next => cases resolved

/-- A scope asks its parent for the names that it does not bind. -/
theorem Closed.resolve_below (closed : scopes.Closed known) {fresh outer : ScopeId} {found : Scope}
    (present : scopes[fresh]? = some found) (linked : found.parent = some outer)
    (older : outer < fresh) (inside : known outer) (name : String) :
    scopes.resolve name fresh =
      (found.bindings.value? name).or (scopes.resolve name outer) := by
  have walked : scopes.resolveWithin name fresh outer = scopes.resolve name outer :=
    closed.resolveWithin_kept (fun _ _ => rfl) name inside (Nat.lt_succ_self _) older
  simp only [resolve, resolveWithin, present, linked] at walked ⊢
  cases found.bindings.value? name with
  | some value => rfl
  | none => exact walked

/-- A scope asks its parent, if it has one, for the names that it does not bind. -/
theorem Closed.resolve_eq (closed : scopes.Closed known) {scope : ScopeId} {found : Scope}
    (inside : known scope) (present : scopes[scope]? = some found) (name : String) :
    scopes.resolve name scope =
      (found.bindings.value? name).or (found.parent.bind (scopes.resolve name)) := by
  cases linked : found.parent with
  | none =>
    simp only [resolve, resolveWithin, present, linked]
    cases found.bindings.value? name <;> rfl
  | some outer =>
    obtain ⟨found', present', parents⟩ := closed scope inside
    cases present.symm.trans present'
    obtain ⟨older, inside'⟩ := parents outer linked
    exact closed.resolve_below present linked older inside' name

/-- Later scopes contain the earlier ones unchanged, and none of these has come to be known. -/
structure Later (known : ScopeId → Prop) (scopes : Scopes) (known' : ScopeId → Prop)
    (scopes' : Scopes) : Prop where
  kept : ∀ scope, scope < scopes.size → scopes'[scope]? = scopes[scope]?
  known : ∀ scope, scope < scopes.size → known' scope → known scope

namespace Later

variable {known' known'' : ScopeId → Prop} {scopes'' : Scopes}

theorem refl (known : ScopeId → Prop) (scopes : Scopes) : Later known scopes known scopes :=
  ⟨fun _ _ => rfl, fun _ _ inside => inside⟩

theorem size_le (later : Later known scopes known' scopes') : scopes.size ≤ scopes'.size :=
  Machine.Advances.size_le_of_kept later.kept

theorem trans (first : Later known scopes known' scopes')
    (second : Later known' scopes' known'' scopes'') : Later known scopes known'' scopes'' := by
  constructor
  · intro scope inside
    rw [second.kept scope (Nat.lt_of_lt_of_le inside first.size_le), first.kept scope inside]
  · intro scope inside known
    exact first.known scope inside
      (second.known scope (Nat.lt_of_lt_of_le inside first.size_le) known)

/-- A scope that is added may stay unknown. -/
theorem push (known : ScopeId → Prop) (scopes : Scopes) (added : Scope) :
    Later known scopes known (scopes.push added) :=
  ⟨fun _ inside => Machine.Advances.getElem?_push_of_lt inside added, fun _ _ inside => inside⟩

/-- A scope that was not there before may become known. -/
theorem insert (later : Later known scopes known' scopes') {fresh : ScopeId}
    (new : scopes.size ≤ fresh) :
    Later known scopes (fun scope => known' scope ∨ scope = fresh) scopes' := by
  refine ⟨later.kept, ?_⟩
  rintro scope inside (known | rfl)
  · exact later.known scope inside known
  · exact absurd inside (Nat.not_lt_of_le new)

/-- A scope that was added and stayed unknown is as it was, and may be filled and become known. -/
theorem fill {added : Scope} (later : Later known (scopes.push added) known' scopes')
    (closed : scopes.Closed known) (pairs : List (String × Datum)) :
    ¬known' scopes.size ∧
      (scopes'.bindAll scopes.size pairs)[scopes.size]? =
        some { added with bindings := added.bindings.bindAll pairs } ∧
      Later known scopes (fun scope => known' scope ∨ scope = scopes.size)
        (scopes'.bindAll scopes.size pairs) := by
  have newest : scopes.size < (scopes.push added).size := by simp
  refine ⟨fun known => ?_, ?_, Later.insert ⟨?_, ?_⟩ (Nat.le_refl _)⟩
  · exact Nat.lt_irrefl _ (closed.lt_size (later.known _ newest known))
  · rw [bindAll, Array.getElem?_modify, if_pos rfl, later.kept _ newest, Array.getElem?_push_size]
    rfl
  · intro scope inside
    rw [Semantics.getElem?_bindAll_of_ne (Nat.ne_of_lt inside),
      later.kept scope (Nat.lt_trans inside newest)]
    exact Machine.Advances.getElem?_push_of_lt inside added
  · intro scope inside
    exact later.known scope (Nat.lt_trans inside newest)

end Later

end Scopes

/-! ## Pairings -/

/-- What two machines have in common. -/
structure Pairing where
  /-- The scopes of each machine that play a part. -/
  left : ScopeId → Prop
  right : ScopeId → Prop
  /-- The names that resolve to corresponding values in two scopes. -/
  agree : String → ScopeId → ScopeId → Prop
  /-- The closures that correspond, by their identities. -/
  closures : Nat → Nat → Prop
  known : ∀ {name scope scope'}, agree name scope scope' → left scope ∧ right scope'
  identity : ∀ {one one' other other'}, closures one one' → closures other other' →
    (one = other ↔ one' = other')

namespace Pairing

/-- A later pairing has everything that the pairing has. -/
structure Grows (pairing later : Pairing) : Prop where
  left : ∀ {scope}, pairing.left scope → later.left scope
  right : ∀ {scope}, pairing.right scope → later.right scope
  agree : ∀ {name scope scope'}, pairing.agree name scope scope' → later.agree name scope scope'
  closures : ∀ {one one'}, pairing.closures one one' → later.closures one one'

theorem Grows.refl (pairing : Pairing) : pairing.Grows pairing :=
  ⟨id, id, id, id⟩

theorem Grows.trans {pairing middle later : Pairing} (first : pairing.Grows middle)
    (second : middle.Grows later) : pairing.Grows later :=
  ⟨fun known => second.left (first.left known), fun known => second.right (first.right known),
    fun agree => second.agree (first.agree agree),
    fun same => second.closures (first.closures same)⟩

/-- Two scopes that play a part and agree on certain names. -/
structure Shares (pairing : Pairing) (names : String → Prop) (scope scope' : ScopeId) : Prop where
  left : pairing.left scope
  right : pairing.right scope'
  agree : ∀ name, names name → pairing.agree name scope scope'

variable {pairing later : Pairing} {names fewer : String → Prop} {scope scope' : ScopeId}

theorem Shares.mono (grows : pairing.Grows later) (shares : pairing.Shares names scope scope') :
    later.Shares names scope scope' :=
  ⟨grows.left shares.left, grows.right shares.right,
    fun name named => grows.agree (shares.agree name named)⟩

theorem Shares.of_imp (shares : pairing.Shares names scope scope')
    (included : ∀ name, fewer name → names name) : pairing.Shares fewer scope scope' :=
  ⟨shares.left, shares.right, fun name named => shares.agree name (included name named)⟩

/-- Two functions correspond: they are the same builtin function, or closures that differ in their
identities and scopes alone, and these correspond as far as the closures can tell. -/
inductive Stands (pairing : Pairing) : Procedure → Procedure → Prop where
  | builtin (operation : Builtin) : Stands pairing (.builtin operation) (.builtin operation)
  | closure {identity identity' : Nat} {params : List String} {body : Form}
      {scope scope' : ScopeId} {engine : EngineId} (same : pairing.closures identity identity')
      (shares : pairing.Shares (fun name => body.Reads name ∧ name ∉ params) scope scope') :
      Stands pairing (.closure ⟨identity, params, body, some scope, some engine⟩)
        (.closure ⟨identity', params, body, some scope', some engine⟩)

/-- Two values correspond. -/
abbrev Means (pairing : Pairing) : Datum → Datum → Prop :=
  Value.Lift pairing.Stands

/-- Two pairs of a name and a value correspond. -/
def PairMeans (pairing : Pairing) (left right : String × Datum) : Prop :=
  left.1 = right.1 ∧ pairing.Means left.2 right.2

/-- The bindings of two scopes correspond. -/
def FrameMeans (pairing : Pairing) (bindings bindings' : Bindings) : Prop :=
  ∀ name, Option.Rel pairing.Means (bindings.value? name) (bindings'.value? name)

theorem Stands.mono (grows : pairing.Grows later) {procedure procedure' : Procedure}
    (stands : pairing.Stands procedure procedure') : later.Stands procedure procedure' := by
  cases stands with
  | builtin operation => exact .builtin operation
  | closure same shares => exact .closure (grows.closures same) (shares.mono grows)

theorem stands_keepsIdentity : Value.KeepsIdentity pairing.Stands := by
  intro left left' right right' stands stands'
  cases stands <;> cases stands'
  case closure.closure same _ _ _ _ _ _ _ _ same' _ =>
    simp only [Callee.same, Procedure.same]
    rw [Bool.eq_iff_iff, beq_iff_eq, beq_iff_eq]
    exact pairing.identity same same'
  all_goals rfl

theorem Stands.render_eq (procedure procedure' : Procedure)
    (stands : pairing.Stands procedure procedure') :
    Callee.render procedure = Callee.render procedure' := by
  cases stands <;> rfl

theorem Means.mono (grows : pairing.Grows later) {value value' : Datum}
    (means : pairing.Means value value') : later.Means value value' :=
  Value.Lift.mono (fun _ _ => Stands.mono grows) means

theorem optionMeans_mono (grows : pairing.Grows later) {found found' : Option Datum}
    (means : Option.Rel pairing.Means found found') : Option.Rel later.Means found found' := by
  cases means with
  | some means => exact .some (means.mono grows)
  | none => exact .none

/-! ### Bindings -/

theorem FrameMeans.nil : pairing.FrameMeans [] [] :=
  fun _ => .none

theorem FrameMeans.bind {bindings bindings' : Bindings} {value value' : Datum}
    (frames : pairing.FrameMeans bindings bindings') (name : String)
    (means : pairing.Means value value') :
    pairing.FrameMeans (bindings.bind name value) (bindings'.bind name value') := by
  intro other
  by_cases same : name = other
  · subst same
    rw [Bindings.value?_bind_self, Bindings.value?_bind_self]
    exact .some means
  · rw [Bindings.value?_bind_of_ne same, Bindings.value?_bind_of_ne same]
    exact frames other

theorem FrameMeans.bindAll {bindings bindings' : Bindings} {pairs pairs' : List (String × Datum)}
    (frames : pairing.FrameMeans bindings bindings')
    (paired : List.Forall₂ pairing.PairMeans pairs pairs') :
    pairing.FrameMeans (bindings.bindAll pairs) (bindings'.bindAll pairs') := by
  induction paired generalizing bindings bindings' with
  | nil => exact frames
  | @cons pair pair' pairs pairs' head _ ih =>
    obtain ⟨name, value⟩ := pair
    obtain ⟨name', value'⟩ := pair'
    obtain ⟨rfl, means⟩ := head
    exact ih (frames.bind name means)

theorem PairMeans.zip {values values' : List Datum}
    (means : List.Forall₂ pairing.Means values values') (names : List String) :
    List.Forall₂ pairing.PairMeans (names.zip values) (names.zip values') := by
  induction means generalizing names with
  | nil => simp
  | cons holds _ ih =>
    cases names with
    | nil => exact .nil
    | cons name names => exact .cons ⟨rfl, holds⟩ (ih names)

end Pairing

/-- A name that is bound has a value. -/
theorem Bindings.value?_bindAll_ne_none {pairs : List (String × Datum)} {name : String}
    (bindings : Bindings)
    (bound : name ∈ pairs.map Prod.fst ∨ bindings.value? name ≠ none) :
    (bindings.bindAll pairs).value? name ≠ none := by
  induction pairs generalizing bindings with
  | nil => exact bound.resolve_left List.not_mem_nil
  | cons pair pairs ih =>
    apply ih (bindings.bind pair.1 pair.2)
    by_cases same : pair.1 = name
    · subst same
      rw [Bindings.value?_bind_self]
      exact .inr nofun
    · rw [Bindings.value?_bind_of_ne same]
      refine bound.imp_left fun member => ?_
      exact (List.mem_cons.mp member).resolve_left (Ne.symm same)

/-! ## Paired machines -/

namespace Pairing

/-- Two machines with the same engines realize a pairing. -/
structure Paired (engines : Array Engine) (pairing : Pairing) (machine machine' : Machine) :
    Prop where
  counted : machine.engines = engines
  counted' : machine'.engines = engines
  left : machine.scopes.Closed pairing.left
  right : machine'.scopes.Closed pairing.right
  resolve : ∀ name scope scope', pairing.agree name scope scope' →
    Option.Rel pairing.Means (machine.scopes.resolve name scope)
      (machine'.scopes.resolve name scope')
  closures : ∀ one one', pairing.closures one one' →
    one < machine.closures ∧ one' < machine'.closures

variable {pairing : Pairing} {engines : Array Engine} {machine machine' : Machine}

/-- Only known scopes, the engines and the number of closures matter. -/
theorem Paired.of_kept (paired : Paired engines pairing machine machine') {final final' : Machine}
    {others : Array Engine} (same : final.engines = others) (same' : final'.engines = others)
    (kept : ∀ scope, pairing.left scope → final.scopes[scope]? = machine.scopes[scope]?)
    (kept' : ∀ scope, pairing.right scope → final'.scopes[scope]? = machine'.scopes[scope]?)
    (more : machine.closures ≤ final.closures) (more' : machine'.closures ≤ final'.closures) :
    Paired others pairing final final' := by
  refine ⟨same, same', paired.left.of_kept kept, paired.right.of_kept kept', ?_, ?_⟩
  · intro name scope scope' agree
    obtain ⟨known, known'⟩ := pairing.known agree
    rw [paired.left.resolve_kept kept name known, paired.right.resolve_kept kept' name known']
    exact paired.resolve name scope scope' agree
  · intro one one' corresponding
    obtain ⟨made, made'⟩ := paired.closures one one' corresponding
    exact ⟨Nat.lt_of_lt_of_le made more, Nat.lt_of_lt_of_le made' more'⟩

/-- A scope that is added on one side may stay unknown. -/
theorem Paired.push (paired : Paired engines pairing machine machine') (added : Scope) :
    Paired engines pairing { machine with scopes := machine.scopes.push added } machine' :=
  paired.of_kept paired.counted paired.counted'
    (fun _ known => Machine.Advances.getElem?_push_of_lt (paired.left.lt_size known) added)
    (fun _ _ => rfl) (Nat.le_refl _) (Nat.le_refl _)

theorem Paired.push' (paired : Paired engines pairing machine machine') (added : Scope) :
    Paired engines pairing machine { machine' with scopes := machine'.scopes.push added } :=
  paired.of_kept paired.counted paired.counted' (fun _ _ => rfl)
    (fun _ known => Machine.Advances.getElem?_push_of_lt (paired.right.lt_size known) added)
    (Nat.le_refl _) (Nat.le_refl _)

/-- A scope may be filled on one side as long as it is unknown. -/
theorem Paired.fill (paired : Paired engines pairing machine machine') {fresh : ScopeId}
    (unknown : ¬pairing.left fresh) (pairs : List (String × Datum)) :
    Paired engines pairing { machine with scopes := machine.scopes.bindAll fresh pairs }
      machine' := by
  refine paired.of_kept paired.counted paired.counted' (fun scope known => ?_) (fun _ _ => rfl)
    (Nat.le_refl _) (Nat.le_refl _)
  apply Semantics.getElem?_bindAll_of_ne
  rintro rfl
  exact unknown known

theorem Paired.fill' (paired : Paired engines pairing machine machine') {fresh : ScopeId}
    (unknown : ¬pairing.right fresh) (pairs : List (String × Datum)) :
    Paired engines pairing machine
      { machine' with scopes := machine'.scopes.bindAll fresh pairs } := by
  refine paired.of_kept paired.counted paired.counted' (fun _ _ => rfl) (fun scope known => ?_)
    (Nat.le_refl _) (Nat.le_refl _)
  apply Semantics.getElem?_bindAll_of_ne
  rintro rfl
  exact unknown known

/-- A pairing with two more closures that correspond. -/
def withClosure (pairing : Pairing) (identity identity' : Nat)
    (new : ∀ one one', pairing.closures one one' → one ≠ identity ∧ one' ≠ identity') :
    Pairing where
  left := pairing.left
  right := pairing.right
  agree := pairing.agree
  closures one one' := pairing.closures one one' ∨ one = identity ∧ one' = identity'
  known := pairing.known
  identity := by
    rintro one one' other other' (same | ⟨rfl, rfl⟩) (same' | ⟨rfl, rfl⟩)
    · exact pairing.identity same same'
    · exact iff_of_false (new _ _ same).1 (new _ _ same).2
    · exact iff_of_false (new _ _ same').1.symm (new _ _ same').2.symm
    · exact iff_of_true rfl rfl

/-- A pairing with two more scopes, which agree on the names that they bind and on those on which
their parents agree. -/
def withScope (pairing : Pairing) (fresh fresh' outer outer' : ScopeId) (bound : String → Prop) :
    Pairing where
  left scope := pairing.left scope ∨ scope = fresh
  right scope := pairing.right scope ∨ scope = fresh'
  agree name scope scope' := pairing.agree name scope scope' ∨
    scope = fresh ∧ scope' = fresh' ∧ (bound name ∨ pairing.agree name outer outer')
  closures := pairing.closures
  known := by
    rintro name scope scope' (agree | ⟨rfl, rfl, -⟩)
    · exact (pairing.known agree).imp .inl .inl
    · exact ⟨.inr rfl, .inr rfl⟩
  identity := pairing.identity

theorem grows_withClosure {identity identity' : Nat}
    (new : ∀ one one', pairing.closures one one' → one ≠ identity ∧ one' ≠ identity') :
    pairing.Grows (pairing.withClosure identity identity' new) :=
  ⟨id, id, id, .inl⟩

theorem grows_withScope (fresh fresh' outer outer' : ScopeId) (bound : String → Prop) :
    pairing.Grows (pairing.withScope fresh fresh' outer outer' bound) :=
  ⟨.inl, .inl, .inl, id⟩

theorem shares_withScope {outer outer' : ScopeId} {names : String → Prop}
    (shares : pairing.Shares names outer outer') (fresh fresh' : ScopeId) (bound : String → Prop) :
    (pairing.withScope fresh fresh' outer outer' bound).Shares
      (fun name => bound name ∨ names name) fresh fresh' :=
  ⟨.inr rfl, .inr rfl, fun name named => .inr ⟨rfl, rfl, named.imp_right (shares.agree name)⟩⟩

/-- Scopes with corresponding bindings below known ones may be known. -/
theorem Paired.withScope (paired : Paired engines pairing machine machine') {fresh fresh' : ScopeId}
    {outer outer' : ScopeId} {found found' : Scope} {bound : String → Prop}
    (present : machine.scopes[fresh]? = some found)
    (present' : machine'.scopes[fresh']? = some found')
    (linked : found.parent = some outer) (linked' : found'.parent = some outer')
    (older : outer < fresh) (older' : outer' < fresh')
    (inside : pairing.left outer) (inside' : pairing.right outer')
    (frames : pairing.FrameMeans found.bindings found'.bindings)
    (covered : ∀ name, bound name → found.bindings.value? name ≠ none) :
    Paired engines (pairing.withScope fresh fresh' outer outer' bound) machine machine' := by
  have grows := pairing.grows_withScope fresh fresh' outer outer' bound
  refine ⟨paired.counted, paired.counted', paired.left.insert present linked older inside,
    paired.right.insert present' linked' older' inside', ?_, paired.closures⟩
  rintro name scope scope' (agree | ⟨rfl, rfl, shared⟩)
  · exact optionMeans_mono grows (paired.resolve name scope scope' agree)
  · rw [paired.left.resolve_below present linked older inside,
      paired.right.resolve_below present' linked' older' inside']
    have framed := frames name
    generalize valued : found.bindings.value? name = value, found'.bindings.value? name = value'
      at framed ⊢
    cases framed with
    | some means => exact .some (means.mono grows)
    | none =>
      have agree := shared.resolve_left fun binds => covered name binds valued
      exact optionMeans_mono grows (paired.resolve name outer outer' agree)

/-- A new closure of each machine may correspond. -/
theorem Paired.withClosure (paired : Paired engines pairing machine machine') :
    ∃ new, Paired engines (pairing.withClosure machine.closures machine'.closures new)
      { machine with closures := machine.closures + 1 }
      { machine' with closures := machine'.closures + 1 } := by
  have new : ∀ one one', pairing.closures one one' →
      one ≠ machine.closures ∧ one' ≠ machine'.closures := by
    intro one one' same
    obtain ⟨made, made'⟩ := paired.closures one one' same
    exact ⟨Nat.ne_of_lt made, Nat.ne_of_lt made'⟩
  have grows := grows_withClosure new
  refine ⟨new, paired.counted, paired.counted', paired.left, paired.right, ?_, ?_⟩
  · intro name scope scope' agree
    exact optionMeans_mono grows (paired.resolve name scope scope' agree)
  · rintro one one' (same | ⟨rfl, rfl⟩)
    · obtain ⟨made, made'⟩ := paired.closures one one' same
      exact ⟨Nat.lt_succ_of_lt made, Nat.lt_succ_of_lt made'⟩
    · exact ⟨Nat.lt_succ_self _, Nat.lt_succ_self _⟩

end Pairing

/-! ## A machine paired with itself -/

namespace Machine

/-- The functions of the language itself: builtin functions, and closures made by a `lambda` in a
scope within reach. -/
def Native (machine : Machine) (reach : ScopeId → Prop) : Procedure → Prop
  | .builtin _ => True
  | .closure closure => closure.identity < machine.closures ∧
      (∃ scope, closure.scope = some scope ∧ reach scope) ∧
      ∃ engine, closure.engine = some engine
  | .host _ _ => False

/-- A scope is lexical if all functions within its reach are functions of the language itself: those
bound in the scope and its ancestors, and in the scopes of their closures. -/
def Lexical (machine : Machine) (scope : ScopeId) : Prop :=
  ∃ reach : ScopeId → Prop, reach scope ∧ machine.scopes.Closed reach ∧
    ∀ inner found, reach inner → machine.scopes[inner]? = some found →
      found.bindings.Every (machine.Native reach)

end Machine

namespace Pairing

variable {machine : Machine} {reach : ScopeId → Prop}

/-- Every scope within reach corresponds to itself, and so does every closure. -/
def diagonal (machine : Machine) (reach : ScopeId → Prop) : Pairing where
  left := reach
  right := reach
  agree _ scope scope' := reach scope ∧ scope = scope'
  closures one one' := one < machine.closures ∧ one = one'
  known := by
    rintro name scope _ ⟨inside, rfl⟩
    exact ⟨inside, inside⟩
  identity := by
    rintro one _ other _ ⟨-, rfl⟩ ⟨-, rfl⟩
    rfl

theorem diagonal_shares {scope : ScopeId} (inside : reach scope) (names : String → Prop) :
    (diagonal machine reach).Shares names scope scope :=
  ⟨inside, inside, fun _ _ => ⟨inside, rfl⟩⟩

theorem diagonal_stands {procedure : Procedure} (native : machine.Native reach procedure) :
    (diagonal machine reach).Stands procedure procedure := by
  cases procedure with
  | builtin operation => exact .builtin operation
  | host => exact native.elim
  | closure closure =>
    obtain ⟨identity, params, body, captured, chosen⟩ := closure
    obtain ⟨made, ⟨scope, rfl, inside⟩, engine, rfl⟩ := native
    exact .closure ⟨made, rfl⟩ (diagonal_shares inside _)

theorem diagonal_means {value : Datum} (every : value.Every (machine.Native reach)) :
    (diagonal machine reach).Means value value := by
  apply Value.Lift.mono _ every
  rintro procedure _ ⟨rfl, native⟩
  exact diagonal_stands native

theorem diagonal_paired (closed : machine.scopes.Closed reach)
    (every : ∀ scope found, reach scope → machine.scopes[scope]? = some found →
      found.bindings.Every (machine.Native reach)) :
    Paired machine.engines (diagonal machine reach) machine machine := by
  refine ⟨rfl, rfl, closed, closed, ?_, ?_⟩
  · rintro name scope _ ⟨inside, rfl⟩
    cases resolved : machine.scopes.resolve name scope with
    | none => exact .none
    | some value => exact .some (diagonal_means (closed.resolve_every every inside resolved))
  · rintro one _ ⟨made, rfl⟩
    exact ⟨made, made⟩

end Pairing

end MiniLisp
