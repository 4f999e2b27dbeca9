import Mathlib.Algebra.GroupWithZero.Nat
import MiniLisp.Proofs.Machine.Pairing
import MiniLisp.Proofs.Semantics.Sameness

/-!
# Evaluation on two machines

The same form is evaluated on two machines that are paired, in scopes that share the names which it
may look up.
Both evaluations come to corresponding values or to one and the same fault, and they take the same
depth in every engine.  The comparison is a relation between runs that is closed under sequencing,
so each part of the evaluator is compared on its own.
-/

namespace MiniLisp

/-! ## Engines -/

namespace Engine

/-- An engine that admits one more evaluation.  One that does not exist admits none. -/
abbrev Admits (engines : Array Engine) (engine : EngineId) : Prop :=
  (engines.getD engine ⟨0, 0, none⟩).depth < (engines.getD engine ⟨0, 0, none⟩).limit

/-- The engines when one more evaluation begins in one of them. -/
def entered (engines : Array Engine) (engine : EngineId) : Array Engine :=
  engines.modify engine fun found => { found with depth := found.depth + 1 }

/-- The engines when an evaluation in one of them is over. -/
def left (engines : Array Engine) (engine : EngineId) : Array Engine :=
  engines.modify engine fun found => { found with depth := found.depth - 1 }

/-- The number of evaluations that the engines together still admit. -/
def room (engines : Array Engine) : Nat :=
  engines.foldl (fun total engine => total + (engine.limit - engine.depth)) 0

variable {engines : Array Engine} {engine : EngineId}

theorem left_entered : left (entered engines engine) engine = engines := by
  apply Array.ext_getElem?
  intro index
  simp only [left, entered, Array.getElem?_modify]
  split
  · cases engines[index]? <;> rfl
  · rfl

theorem foldl_room (engines : List Engine) (total : Nat) :
    engines.foldl (fun total engine => total + (engine.limit - engine.depth)) total =
      total + (engines.map fun engine => engine.limit - engine.depth).sum := by
  induction engines generalizing total with
  | nil => rfl
  | cons first rest ih => rw [List.foldl_cons, ih, List.map_cons, List.sum_cons, Nat.add_assoc]

theorem room_eq_sum (engines : Array Engine) :
    room engines = (engines.toList.map fun engine => engine.limit - engine.depth).sum := by
  rw [room, ← Array.foldl_toList, foldl_room, Nat.zero_add]

/-- An evaluation that is admitted takes up room. -/
theorem room_entered (admits : Admits engines engine) :
    room (entered engines engine) < room engines := by
  simp only [Admits, Array.getD_eq_getD_getElem?] at admits
  cases present : engines[engine]? with
  | none =>
    rw [present] at admits
    cases admits
  | some counter =>
    rw [present, Option.getD_some] at admits
    rw [room_eq_sum, room_eq_sum, entered, Array.toList_modify]
    rw [← Array.getElem?_toList] at present
    generalize engines.toList = list at present ⊢
    induction list generalizing engine with
    | nil => cases present
    | cons first rest ih =>
      cases engine with
      | zero =>
        cases present
        simp only [List.modify_zero_cons, List.map_cons, List.sum_cons]
        omega
      | succ engine =>
        have less := ih (by simpa using present)
        simp only [List.modify_succ_cons, List.map_cons, List.sum_cons]
        omega

end Engine

/-! ## Runs in lockstep -/

namespace Pairing

variable {α β γ δ : Type} {engines : Array Engine} {pairing : Pairing}
variable {related : Pairing → α → β → Prop} {related' : Pairing → γ → δ → Prop}

/-- What two runs come to is the same thing: corresponding values, or one fault. -/
inductive Twin (engines : Array Engine) (related : Pairing → α → β → Prop) (pairing : Pairing)
    (scopes scopes' : Scopes) :
    Except Stop α × Machine → Except Stop β × Machine → Prop where
  | value {value : α} {value' : β} {later : Pairing} {final final' : Machine}
      (paired : Paired engines later final final') (grows : pairing.Grows later)
      (left : Scopes.Later pairing.left scopes later.left final.scopes)
      (right : Scopes.Later pairing.right scopes' later.right final'.scopes)
      (holds : related later value value') :
      Twin engines related pairing scopes scopes' (.ok value, final) (.ok value', final')
  | fault (fault : Fault) (final final' : Machine) :
      Twin engines related pairing scopes scopes' (.error (.fault fault), final)
        (.error (.fault fault), final')

/-- Two runs are in lockstep if they come to the same on all machines that are paired. -/
def Lockstep (engines : Array Engine) (related : Pairing → α → β → Prop) (pairing : Pairing)
    (action : Run α) (action' : Run β) : Prop :=
  ∀ machine machine', Paired engines pairing machine machine' →
    Twin engines related pairing machine.scopes machine'.scopes (action machine) (action' machine')

theorem Twin.of_later {later : Pairing} {scopes scopes' middle middle' : Scopes}
    {outcome : Except Stop α × Machine} {outcome' : Except Stop β × Machine}
    (grows : pairing.Grows later) (left : Scopes.Later pairing.left scopes later.left middle)
    (right : Scopes.Later pairing.right scopes' later.right middle')
    (twin : Twin engines related later middle middle' outcome outcome') :
    Twin engines related pairing scopes scopes' outcome outcome' := by
  cases twin with
  | value paired grows' left' right' holds =>
    exact .value paired (grows.trans grows') (left.trans left') (right.trans right') holds
  | fault fault final final' => exact .fault fault final final'

namespace Lockstep

theorem pure {value : α} {value' : β} (holds : related pairing value value') :
    Lockstep engines related pairing (pure value) (pure value') :=
  fun _ _ paired => .value paired (.refl _) (.refl _ _) (.refl _ _) holds

theorem fail (fault : Fault) :
    Lockstep engines related pairing (Run.fail fault) (Run.fail fault) :=
  fun machine machine' _ => .fault fault machine machine'

theorem bind {action : Run α} {action' : Run β} {next : α → Run γ} {next' : β → Run δ}
    (first : Lockstep engines related pairing action action')
    (continued : ∀ later value value', pairing.Grows later → related later value value' →
      Lockstep engines related' later (next value) (next' value')) :
    Lockstep engines related' pairing (action >>= next) (action' >>= next') := by
  intro machine machine' paired
  rw [Run.bind_apply, Run.bind_apply]
  have twin := first machine machine' paired
  generalize action machine = outcome, action' machine' = outcome' at twin ⊢
  cases twin with
  | value paired' grows left right holds =>
    exact (continued _ _ _ grows holds _ _ paired').of_later grows left right
  | fault fault final final' => exact .fault fault final final'

/-- One level deeper in an engine, if it admits one more level. -/
theorem nested {engine : EngineId} {action : Run α} {action' : Run β}
    (inside : Engine.Admits engines engine →
      Lockstep (Engine.entered engines engine) related pairing action action') :
    Lockstep engines related pairing (Run.nested engine action) (Run.nested engine action') := by
  intro machine machine' paired
  have counted : machine.engine engine = engines.getD engine ⟨0, 0, none⟩ := by
    rw [Machine.engine, paired.counted]
  have counted' : machine'.engine engine = engines.getD engine ⟨0, 0, none⟩ := by
    rw [Machine.engine, paired.counted']
  simp only [Run.nested, counted, counted']
  by_cases admits : Engine.Admits engines engine
  · have deeper : Paired (Engine.entered engines engine) pairing (machine.enter engine)
        (machine'.enter engine) := by
      refine paired.of_kept ?_ ?_ (fun _ _ => rfl) (fun _ _ => rfl) (Nat.le_refl _) (Nat.le_refl _)
      · rw [Machine.enter, paired.counted, Engine.entered]
      · rw [Machine.enter, paired.counted', Engine.entered]
    have twin := inside admits _ _ deeper
    rw [if_pos admits, if_pos admits]
    generalize action (machine.enter engine) = outcome, action' (machine'.enter engine) = outcome'
      at twin ⊢
    cases twin with
    | value paired' grows left right holds =>
      refine .value (paired'.of_kept ?_ ?_ (fun _ _ => rfl) (fun _ _ => rfl) (Nat.le_refl _)
        (Nat.le_refl _)) grows left right holds
      · rw [Machine.leave, paired'.counted]
        exact Engine.left_entered
      · rw [Machine.leave, paired'.counted']
        exact Engine.left_entered
    | fault fault final final' => exact .fault fault _ _
  · rw [if_neg admits, if_neg admits]
    exact .fault _ machine machine'

end Lockstep

/-! ## Steps of the machine -/

theorem record_apply (engine : EngineId) (event : Machine → TraceEvent) (machine : Machine) :
    ∃ trace, Run.record engine event machine = (.ok (), { machine with trace := trace }) := by
  simp only [Run.record, Run.modify_apply]
  cases (machine.engine engine).log with
  | none => exact ⟨machine.trace, rfl⟩
  | some log => exact ⟨_, rfl⟩

namespace Lockstep

/-- What is recorded plays no part on either side. -/
theorem record_left {engine : EngineId} {event : Machine → TraceEvent} {action : Run α}
    {action' : Run β} (after : Lockstep engines related pairing action action') :
    Lockstep engines related pairing (do Run.record engine event; action) action' := by
  intro machine machine' paired
  obtain ⟨trace, recorded⟩ := record_apply engine event machine
  rw [Run.bind_apply_of_ok recorded]
  exact after { machine with trace := trace } machine'
    ⟨paired.counted, paired.counted', paired.left, paired.right, paired.resolve, paired.closures⟩

theorem record_right {engine : EngineId} {event : Machine → TraceEvent} {action : Run α}
    {action' : Run β} (after : Lockstep engines related pairing action action') :
    Lockstep engines related pairing action (do Run.record engine event; action') := by
  intro machine machine' paired
  obtain ⟨trace, recorded⟩ := record_apply engine event machine'
  rw [Run.bind_apply_of_ok recorded]
  exact after machine { machine' with trace := trace }
    ⟨paired.counted, paired.counted', paired.left, paired.right, paired.resolve, paired.closures⟩

theorem bind_record_right {engine : EngineId} {event : β → Machine → TraceEvent} {action : Run α}
    {action' : Run β} (before : Lockstep engines related pairing action action') :
    Lockstep engines related pairing action
      (do
        let value ← action'
        Run.record engine (event value)
        return value) := by
  rw [← bind_pure action]
  apply before.bind
  intro later value value' _ holds
  exact .record_right (.pure holds)

theorem resolve {name : String} {scope scope' : ScopeId}
    (agree : pairing.agree name scope scope') :
    Lockstep engines Means pairing (Run.resolve scope name) (Run.resolve scope' name) := by
  intro machine machine' paired
  rw [Run.resolve, Run.resolve, Run.bind_apply_of_ok (Run.get_apply machine),
    Run.bind_apply_of_ok (Run.get_apply machine')]
  have resolved := paired.resolve name scope scope' agree
  generalize machine.scopes.resolve name scope = found, machine'.scopes.resolve name scope' = found'
    at resolved ⊢
  cases resolved with
  | some means => exact Lockstep.pure means machine machine' paired
  | none => exact Lockstep.fail _ machine machine' paired

/-- What happens in new scopes happens in a pairing that knows them. -/
theorem newScope_bind {name name' : String} {bindings bindings' : Bindings}
    {outer outer' : ScopeId} {names bound : String → Prop} {next : ScopeId → Run α}
    {next' : ScopeId → Run β} (shares : pairing.Shares names outer outer')
    (frames : pairing.FrameMeans bindings bindings')
    (covered : ∀ name, bound name → bindings.value? name ≠ none)
    (after : ∀ later fresh fresh', later.Shares (fun name => bound name ∨ names name) fresh fresh' →
      Lockstep engines related later (next fresh) (next' fresh')) :
    Lockstep engines related pairing (Run.newScope name (some outer) bindings >>= next)
      (Run.newScope name' (some outer') bindings' >>= next') := by
  intro machine machine' paired
  have created : Run.newScope name (some outer) bindings machine =
      (.ok machine.scopes.size,
        { machine with scopes := machine.scopes.push ⟨name, some outer, bindings⟩ }) := rfl
  have created' : Run.newScope name' (some outer') bindings' machine' =
      (.ok machine'.scopes.size,
        { machine' with scopes := machine'.scopes.push ⟨name', some outer', bindings'⟩ }) := rfl
  have opened := (paired.push ⟨name, some outer, bindings⟩).push' ⟨name', some outer', bindings'⟩
  have known := opened.withScope Array.getElem?_push_size Array.getElem?_push_size rfl rfl
    (paired.left.lt_size shares.left) (paired.right.lt_size shares.right) shares.left shares.right
    frames covered
  rw [Run.bind_apply_of_ok created, Run.bind_apply_of_ok created']
  refine (after _ _ _ (shares_withScope shares _ _ bound) _ _ known).of_later
    (grows_withScope _ _ _ _ bound) ?_ ?_
  · exact (Scopes.Later.push _ _ _).insert (Nat.le_refl _)
  · exact (Scopes.Later.push _ _ _).insert (Nat.le_refl _)

theorem newClosure {params : List String} {body : Form} {scope scope' : ScopeId}
    {engine : EngineId}
    (shares : pairing.Shares (fun name => body.Reads name ∧ name ∉ params) scope scope') :
    Lockstep engines Means pairing (Run.newClosure params body (some scope) (some engine))
      (Run.newClosure params body (some scope') (some engine)) := by
  intro machine machine' paired
  obtain ⟨new, known⟩ := paired.withClosure
  have grows := grows_withClosure new
  exact .value known grows (.refl _ _) (.refl _ _)
    (Stands.closure (.inr ⟨rfl, rfl⟩) (shares.mono grows))

end Lockstep

/-! ## Parts of an evaluation -/

/-- The evaluation of the forms inside is in lockstep, in scopes that share the names which
they may look up. -/
def Inside (engines : Array Engine) (inner : Evaluation) : Prop :=
  ∀ pairing engine scope scope' form, pairing.Shares form.Reads scope scope' →
    Lockstep engines Means pairing (inner engine scope form) (inner engine scope' form)

section Inside

variable {inner : Evaluation} (inside : Inside engines inner) {engine : EngineId}
variable {scope scope' : ScopeId}

include inside

theorem forms_lockstep {items : List Form}
    (shares : pairing.Shares (fun name => ∃ item ∈ items, item.Reads name) scope scope') :
    Lockstep engines (fun later => List.Forall₂ later.Means) pairing
      (items.mapM (inner engine scope)) (items.mapM (inner engine scope')) := by
  induction items generalizing pairing with
  | nil => exact .pure .nil
  | cons first rest ih =>
    have here := shares.of_imp fun name (reads : first.Reads name) =>
      ⟨first, List.mem_cons_self, reads⟩
    have there := shares.of_imp fun name (reads : ∃ item ∈ rest, item.Reads name) => by
      obtain ⟨item, among, reads⟩ := reads
      exact ⟨item, List.mem_cons_of_mem _ among, reads⟩
    simp only [List.mapM_cons]
    apply (inside _ engine _ _ first here).bind
    intro later value value' grows means
    apply (ih (there.mono grows)).bind
    intro last values values' grows' meant
    exact .pure (.cons (means.mono grows') meant)

/-- Only bindings that all have their shape come to pairs, and these have the names of the
bindings. -/
theorem bindings_lockstep (engine : EngineId) {bindings : List Form} {names : String → Prop}
    (shares : pairing.Shares names scope scope')
    (reads : ∀ binding ∈ bindings, ∀ bound expression, Semantics.Binds binding bound expression →
      ∀ name, expression.Reads name → names name) :
    Lockstep engines
      (fun later pairs pairs' => List.Forall₂ later.PairMeans pairs pairs' ∧
        ∃ shapes, bindings.mapM Eval.binding? = some shapes ∧
          pairs.map Prod.fst = shapes.map Prod.fst)
      pairing (Eval.evalBindings inner engine scope bindings)
      (Eval.evalBindings inner engine scope' bindings) := by
  simp only [Eval.evalBindings]
  induction bindings generalizing pairing with
  | nil => exact .pure ⟨.nil, [], rfl, rfl⟩
  | cons first rest ih =>
    rw [List.forall_mem_cons] at reads
    simp only [List.mapM_cons]
    cases shaped : Eval.binding? first with
    | none => exact .fail _
    | some shape =>
      obtain ⟨bound, expression⟩ := shape
      have binds := Semantics.binding?_eq_some_iff.mp shaped
      simp only [bind_assoc, pure_bind]
      apply (inside _ engine _ _ expression (shares.of_imp (reads.1 bound expression binds))).bind
      intro later value value' grows means
      apply (ih (shares.mono grows) reads.2).bind
      rintro last pairs pairs' grows' ⟨paired, shapes, all, named⟩
      refine .pure ⟨.cons ⟨rfl, means.mono grows'⟩ paired, (bound, expression) :: shapes, ?_, ?_⟩
      · simp [all]
      · simp [named]

/-! ### Calls -/

theorem callClosure_lockstep {identity identity' : Nat} {params : List String} {body : Form}
    {values values' : List Datum}
    (shares : pairing.Shares (fun name => body.Reads name ∧ name ∉ params) scope scope')
    (means : List.Forall₂ pairing.Means values values') :
    Lockstep engines Means pairing
      (Eval.callClosure inner ⟨identity, params, body, some scope, some engine⟩ values)
      (Eval.callClosure inner ⟨identity', params, body, some scope', some engine⟩ values') := by
  have lengths := means.length_eq
  simp only [Eval.callClosure, Eval.engineOf, pure_bind, lengths]
  split
  next enough =>
    have covered : ∀ name, name ∈ params →
        Bindings.value? name (Bindings.bindAll [] (params.zip values)) ≠ none := by
      intro name bound
      apply Bindings.value?_bindAll_ne_none
      rw [List.map_fst_zip (Nat.le_of_eq (enough.symm.trans lengths.symm))]
      exact .inl bound
    apply Lockstep.newScope_bind shares (FrameMeans.nil.bindAll (PairMeans.zip means params))
      covered
    intro later fresh fresh' opened
    apply inside
    apply opened.of_imp
    intro name reads
    by_cases bound : name ∈ params
    · exact .inl bound
    · exact .inr ⟨reads, bound⟩
  next => exact .fail _

theorem call_lockstep {procedure procedure' : Procedure} {values values' : List Datum}
    (stands : pairing.Stands procedure procedure')
    (means : List.Forall₂ pairing.Means values values') :
    Lockstep engines Means pairing (Eval.call inner procedure values)
      (Eval.call inner procedure' values') := by
  cases stands with
  | builtin operation =>
    have agree := Builtin.apply_agree stands_keepsIdentity operation
      (Value.liftItems_iff_forall₂.mpr means)
    simp only [Eval.call, Eval.callBuiltin]
    generalize operation.apply values = result, operation.apply values' = result' at agree ⊢
    cases agree with
    | ok holds => exact .pure holds
    | error cause => exact .fail _
  | closure same shares => exact callClosure_lockstep inside shares means

theorem apply_lockstep {procedure procedure' : Procedure} {values values' : List Datum}
    (stands : pairing.Stands procedure procedure')
    (means : List.Forall₂ pairing.Means values values') :
    Lockstep engines Means pairing (Eval.apply inner engine procedure values)
      (Eval.apply inner engine procedure' values') := by
  simp only [Eval.apply]
  apply Lockstep.record_left
  apply Lockstep.record_right
  apply (call_lockstep inside stands means).bind
  intro later value value' _ means
  apply Lockstep.record_left
  apply Lockstep.record_right
  exact .pure means

/-! ### Special forms -/

variable {token token' : Option Token} {label label' : Option Nat} {head body : Form}
variable {items : List Form}

theorem define_lockstep {bindings : List Form} (reserved : Semantics.Reserves .define head)
    (shares : pairing.Shares
      (Form.Reads (.list token label [head, .list token' label' bindings, body])) scope scope') :
    Lockstep engines Means pairing
      (Eval.evalDefine inner engine scope [head, .list token' label' bindings, body])
      (Eval.evalDefine inner engine scope' [head, .list token' label' bindings, body]) := by
  intro machine machine' paired
  -- The new scopes stay unknown while the expressions are evaluated, and are known with their final
  -- bindings when the body is.
  let added : Scope := ⟨SpecialForm.define.name, some scope, []⟩
  let added' : Scope := ⟨SpecialForm.define.name, some scope', []⟩
  have created : Run.newScope SpecialForm.define.name (some scope) [] machine =
      (.ok machine.scopes.size, { machine with scopes := machine.scopes.push added }) := rfl
  have created' : Run.newScope SpecialForm.define.name (some scope') [] machine' =
      (.ok machine'.scopes.size, { machine' with scopes := machine'.scopes.push added' }) := rfl
  have evaluated := bindings_lockstep inside engine shares
    (fun binding among bound expression binds name => .binding reserved among binds) _ _
    ((paired.push added).push' added')
  simp only [Eval.evalDefine]
  rw [Run.bind_apply_of_ok created, Run.bind_apply_of_ok created', Run.bind_apply, Run.bind_apply]
  generalize Eval.evalBindings inner engine scope bindings _ = outcome at evaluated ⊢
  generalize Eval.evalBindings inner engine scope' bindings _ = outcome' at evaluated ⊢
  cases evaluated with
  | fault fault final final' => exact .fault fault final final'
  | @value pairs pairs' later final final' paired' grows left right holds =>
    obtain ⟨means, shapes, shaped, named⟩ := holds
    obtain ⟨unknown, present, left'⟩ := left.fill paired.left pairs
    obtain ⟨unknown', present', right'⟩ := right.fill paired.right pairs'
    have covered : ∀ name, name ∈ pairs.map Prod.fst →
        Bindings.value? name (Bindings.bindAll [] pairs) ≠ none :=
      fun name bound => Bindings.value?_bindAll_ne_none [] (.inl bound)
    have known := ((paired'.fill unknown pairs).fill' unknown' pairs').withScope present present'
      rfl rfl (paired.left.lt_size shares.left) (paired.right.lt_size shares.right)
      (grows.left shares.left) (grows.right shares.right) (FrameMeans.nil.bindAll means) covered
    have opened := shares_withScope (shares.mono grows) machine.scopes.size machine'.scopes.size
      (· ∈ pairs.map Prod.fst)
    refine (inside _ engine _ _ body (opened.of_imp ?_) _ _ known).of_later
      (grows.trans (grows_withScope ..)) left' right'
    intro name reads
    by_cases bound : name ∈ pairs.map Prod.fst
    · exact .inl bound
    · exact .inr (.define reserved shaped (named ▸ bound) reads)

omit inside in
theorem lambda_lockstep (reserved : Semantics.Reserves .lambda head)
    (shares : pairing.Shares (Form.Reads (.list token label (head :: items))) scope scope') :
    Lockstep engines Means pairing (Eval.evalLambda engine scope (head :: items))
      (Eval.evalLambda engine scope' (head :: items)) := by
  generalize whole : head :: items = list at shares
  fun_cases Eval.evalLambda engine scope list with
  | case1 head token' label' params body names named =>
    cases whole
    simp only [Eval.evalLambda, named]
    apply Lockstep.newClosure
    apply shares.of_imp
    rintro name ⟨reads, unbound⟩
    exact .lambda reserved named unbound reads
  | case2 head token' label' params body unnamed =>
    simp only [Eval.evalLambda, unnamed]
    exact .fail _
  | case3 list shape =>
    rw [Eval.evalLambda_malformed shape]
    exact .fail _

theorem conditional_lockstep (reserved : Semantics.Reserves .conditional head)
    (shares : pairing.Shares (Form.Reads (.list token label (head :: items))) scope scope') :
    Lockstep engines Means pairing (Eval.evalIf inner engine scope (head :: items))
      (Eval.evalIf inner engine scope' (head :: items)) := by
  generalize whole : head :: items = list at shares
  fun_cases Eval.evalIf inner engine scope list with
  | case1 head condition consequent alternative =>
    cases whole
    have operand : ∀ operand ∈ [condition, consequent, alternative],
        pairing.Shares operand.Reads scope scope' :=
      fun operand among => shares.of_imp fun name reads => .conditional reserved among reads
    simp only [Eval.evalIf]
    apply (inside _ engine _ _ condition (operand condition (by simp))).bind
    intro later value value' grows means
    rw [means.truthy_eq]
    split
    · exact inside _ engine _ _ consequent ((operand consequent (by simp)).mono grows)
    · exact inside _ engine _ _ alternative ((operand alternative (by simp)).mono grows)
  | case2 list shape =>
    rw [Eval.evalIf_malformed shape]
    exact .fail _

theorem quote_lockstep (reserved : Semantics.Reserves .quote head)
    (shares : pairing.Shares (Form.Reads (.list token label (head :: items))) scope scope') :
    Lockstep engines Means pairing (Eval.evalQuote inner engine scope (head :: items))
      (Eval.evalQuote inner engine scope' (head :: items)) := by
  generalize whole : head :: items = list at shares
  fun_cases Eval.evalQuote inner engine scope list with
  | case1 head expression =>
    cases whole
    apply inside
    exact shares.of_imp fun name reads => .quote reserved reads
  | case2 list shape =>
    rw [Eval.evalQuote_malformed shape]
    exact .fail _

theorem special_lockstep {special : SpecialForm} (reserved : Semantics.Reserves special head)
    (shares : pairing.Shares (Form.Reads (.list token label (head :: items))) scope scope') :
    Lockstep engines Means pairing (Eval.evalSpecial inner engine scope special (head :: items))
      (Eval.evalSpecial inner engine scope' special (head :: items)) := by
  apply Lockstep.record_left
  apply Lockstep.record_right
  cases special with
  | define =>
    generalize whole : head :: items = list at shares
    fun_cases Eval.evalDefine inner engine scope list with
    | case1 head token' label' bindings body =>
      cases whole
      exact define_lockstep inside reserved shares
    | case2 list shape =>
      rw [Eval.evalDefine_malformed shape]
      exact .fail _
  | lambda => exact lambda_lockstep reserved shares
  | conditional => exact conditional_lockstep inside reserved shares
  | quote => exact quote_lockstep inside reserved shares

/-! ### Forms -/

theorem ordinary_lockstep
    (shares : pairing.Shares (fun name => ∃ item ∈ items, item.Reads name) scope scope') :
    Lockstep engines Means pairing (Eval.evalOrdinary inner engine scope items)
      (Eval.evalOrdinary inner engine scope' items) := by
  apply (forms_lockstep inside shares).bind
  intro later values values' _ means
  cases means with
  | nil => exact .pure trivial
  | @cons first first' rest rest' holds others =>
    cases first <;> cases first' <;> try exact holds.elim
    case function.function => exact apply_lockstep inside holds others
    all_goals exact .pure (Value.liftItems_iff_forall₂.mpr (.cons holds others))

theorem list_lockstep
    (shares : pairing.Shares (Form.Reads (.list token label items)) scope scope') :
    Lockstep engines Means pairing (Eval.evalList inner engine scope items)
      (Eval.evalList inner engine scope' items) := by
  simp only [Eval.evalList]
  cases found : Eval.special? items with
  | none =>
    have ordinary := Semantics.special?_eq_none_iff.mp found
    apply ordinary_lockstep inside
    apply shares.of_imp
    rintro name ⟨item, among, reads⟩
    exact .element ordinary among reads
  | some special =>
    cases items with
    | nil => cases found
    | cons head rest =>
      exact special_lockstep inside (Semantics.special?_cons_eq_some_iff.mp found) shares

end Inside

theorem atom_lockstep {token : Option Token} {scope scope' : ScopeId} {value : Atom}
    (shares : pairing.Shares (Form.Reads (.atom token value)) scope scope') :
    Lockstep engines Means pairing (Eval.evalAtom scope value) (Eval.evalAtom scope' value) := by
  cases value with
  | int value => exact .pure rfl
  | string text => exact .pure rfl
  | symbol name => exact .resolve (shares.agree name .symbol)

/-- Evaluation is in lockstep as long as there is more fuel than room in the engines. -/
theorem eval_lockstep {fuel : Nat} (enough : Engine.room engines < fuel) :
    Inside engines (eval fuel) := by
  induction fuel generalizing engines with
  | zero => cases enough
  | succ fuel ih =>
    intro pairing engine scope scope' form shares
    cases form with
    | absent => exact .pure trivial
    | atom token value => exact .nested fun _ => atom_lockstep shares
    | list token label items =>
      apply Lockstep.nested
      intro admits
      have deeper : Engine.room (Engine.entered engines engine) < fuel :=
        Nat.lt_of_lt_of_le (Engine.room_entered admits) (Nat.le_of_lt_succ enough)
      exact list_lockstep (ih deeper) shares

/-- Runs that come to the same give the same answer. -/
theorem Twin.sameAnswer {scopes scopes' : Scopes} {outcome outcome' : Except Stop Datum × Machine}
    (twin : Twin engines Means pairing scopes scopes' outcome outcome') :
    SameAnswer outcome.1 outcome'.1 := by
  cases twin with
  | value _ _ _ _ means => exact .value (means.render_eq Stands.render_eq)
  | fault fault final final' => exact .fault fault

end Pairing

end MiniLisp
